import TwigComponent.Proofs.Losses
import TwigComponent.Proofs.Outline

/-!
# Loops are written as a whole or not at all

A loop cannot be written if nothing is left of the iterated expression or if its
pattern offends: an array pattern has to be one or two names, a member of an object
pattern needs a plain key and a name with or without a default value, and no other
pattern but a name can be bound. The members are bound one after the other, so the
default values in front of the first one that offends have been written when it is
met. Their text is lost, and what was said about them is not.
-/
namespace TwigComponent

namespace Source

/-- The name that a pattern binds, by itself or with a default value. -/
def Pattern.boundName? : Pattern → Option String
  | .identifier _ name => some name
  | .assignment _ target _ => target.identifier?
  | _ => none

/-- A member of an object pattern that no loop can bind: a rest element, a key that is computed or
no identifier, a value that is neither an identifier nor one with a default value. -/
def PatternMember.Offends : PatternMember → Prop
  | .rest _ _ => True
  | .property _ key value computed =>
    computed = true ∨ key.identifier? = none ∨ value.boundName? = none

instance : DecidablePred PatternMember.Offends
  | .rest _ _ => inferInstanceAs (Decidable True)
  | .property _ _ _ _ => inferInstanceAs (Decidable (_ ∨ _ ∨ _))

/-- The names of an array pattern, none for an element that is no identifier. -/
def elementNames (elements : List (Option Pattern)) : List (Option String) :=
  elements.map fun element => element.bind Pattern.identifier?

/-- A pattern that no loop can bind. -/
def Pattern.Offends : Pattern → Prop
  | .identifier _ _ => False
  | .array _ elements =>
    ¬ ((elements.length = 1 ∨ elements.length = 2) ∧ none ∉ elementNames elements)
  | .object _ members => ∃ member ∈ members, member.Offends
  | _ => True

instance : DecidablePred Pattern.Offends
  | .identifier _ _ => inferInstanceAs (Decidable False)
  | .array _ _ => inferInstanceAs (Decidable (¬ _))
  | .object _ _ => inferInstanceAs (Decidable (∃ _ ∈ _, _))
  | .assignment _ _ _ => inferInstanceAs (Decidable True)
  | .rest _ _ => inferInstanceAs (Decidable True)
  | .unknown => inferInstanceAs (Decidable True)

/-- The default values in front of the first member that offends. -/
def Pattern.reachedDefaults : Pattern → List Expr
  | .object _ members =>
    (members.takeWhile fun member => ¬ member.Offends).flatMap PatternMember.defaults
  | _ => []

end Source

namespace Twig

open Source Text

section Members

variable {item : String} {member : PatternMember} {members : List PatternMember}

theorem bindMember_of_not_offends (h : ¬ member.Offends) :
    (bindMember item member).value =
      .ok (setTag (memberBinding item member).1 (memberBinding item member).2) := by
  cases member with
  | rest span argument => exact absurd trivial h
  | property span key value computed =>
    simp only [PatternMember.Offends, not_or, Bool.not_eq_true] at h
    obtain ⟨rfl, named, bound⟩ := h
    cases key with
    | identifier place key =>
      cases value with
      | identifier place name => rfl
      | assignment place target default =>
        cases target with
        | identifier place name => rfl
        | _ => exact absurd rfl bound
      | _ => exact absurd rfl bound
    | _ => exact absurd rfl named

/-- A member that offends is refused before its default value is looked at. -/
theorem bindMember_of_offends (item : String) (h : member.Offends) :
    (∃ reason, (bindMember item member).value = .error (loopFault reason)) ∧
      (bindMember item member).diagnostics = [] := by
  cases member with
  | rest span argument => exact ⟨⟨_, rfl⟩, rfl⟩
  | property span key value computed =>
    cases computed with
    | true => cases key <;> exact ⟨⟨_, rfl⟩, rfl⟩
    | false =>
      cases key with
      | identifier place key =>
        simp only [PatternMember.Offends, Bool.false_eq_true, Expr.identifier?, reduceCtorEq,
          false_or] at h
        cases value with
        | identifier place name => cases h
        | assignment place target default =>
          cases target with
          | identifier place name => cases h
          | _ => exact ⟨⟨_, rfl⟩, rfl⟩
        | _ => exact ⟨⟨_, rfl⟩, rfl⟩
      | _ => exact ⟨⟨_, rfl⟩, rfl⟩

theorem bindMembers_of_not_offends (h : ∀ member ∈ members, ¬ member.Offends) :
    (bindMembers item members).value = .ok (setTags (members.map (memberBinding item))) := by
  induction members with
  | nil => rfl
  | cons member rest ih =>
    rw [List.forall_mem_cons] at h
    rw [bindMembers, Report.value_bind, bindMember_of_not_offends h.1, Report.value_bind, ih h.2]
    simp [setTags, String.join_cons]

theorem bindMembers_of_offends (item : String) (h : ∃ member ∈ members, member.Offends) :
    ∃ reason, (bindMembers item members).value = .error (loopFault reason) := by
  induction members with
  | nil => simp at h
  | cons member rest ih =>
    rw [bindMembers, Report.value_bind]
    by_cases offends : member.Offends
    · obtain ⟨⟨reason, refused⟩, -⟩ := bindMember_of_offends item offends
      exact ⟨reason, by rw [refused]; rfl⟩
    · rw [List.exists_mem_cons_iff] at h
      obtain ⟨reason, refused⟩ := ih (h.resolve_left offends)
      rw [bindMember_of_not_offends offends, Report.value_bind, refused]
      exact ⟨reason, rfl⟩

/-- The default values are written up to the first member that offends. -/
theorem diagnostics_bindMembers_reached (span : Span) :
    (bindMembers item members).diagnostics =
      (Pattern.object span members).reachedDefaults.flatMap
        fun e => (expression .value e).diagnostics := by
  rw [Pattern.reachedDefaults, List.flatMap_assoc]
  induction members with
  | nil => rfl
  | cons member rest ih =>
    rw [bindMembers, Report.diagnostics_bind, List.takeWhile_cons]
    by_cases offends : member.Offends
    · obtain ⟨⟨reason, refused⟩, silent⟩ := bindMember_of_offends item offends
      simp [refused, silent, offends]
    · rw [bindMember_of_not_offends offends, Report.diagnostics_bind, ih, diagnostics_bindMember]
      cases (bindMembers item rest).value <;> simp [offends]

end Members

section Heads

variable {iterable : String}

/-- The names after `for`. -/
def loopNames (iterable : String) : Option Pattern → List String
  | some (.array _ elements) => (elementNames elements).filterMap id
  | _ => [loopVariable iterable]

theorem targetNames_cons (element : Option Pattern) (rest : List (Option Pattern)) :
    targetNames (element :: rest) =
      match element.bind Pattern.identifier? with
      | some name => (name :: ·) <$> targetNames rest
      | none => .error nestedPattern := by
  cases element with
  | none => rfl
  | some pattern => cases pattern <;> rfl

theorem elementNames_cons (element : Option Pattern) (rest : List (Option Pattern)) :
    elementNames (element :: rest) = element.bind Pattern.identifier? :: elementNames rest := rfl

theorem targetNames_of_named {elements : List (Option Pattern)}
    (h : none ∉ elementNames elements) :
    targetNames elements = .ok ((elementNames elements).filterMap id) := by
  induction elements with
  | nil => rfl
  | cons element rest ih =>
    rw [elementNames_cons, List.mem_cons, not_or] at h
    obtain ⟨name, named⟩ := Option.ne_none_iff_exists'.mp (Ne.symm h.1)
    rw [targetNames_cons, elementNames_cons, named, ih h.2]
    rfl

theorem targetNames_of_unnamed {elements : List (Option Pattern)}
    (h : none ∈ elementNames elements) :
    targetNames elements = .error nestedPattern := by
  induction elements with
  | nil => cases h
  | cons element rest ih =>
    rw [targetNames_cons]
    split
    · rename_i name named
      rw [elementNames_cons, named, List.mem_cons] at h
      rw [ih (h.resolve_left (Option.some_ne_none name).symm)]
      rfl
    · rfl

theorem loopHead_object (span : Span) (members : List PatternMember) :
    loopHead iterable (some (.object span members)) = (do
      let bindings ← bindMembers (loopVariable iterable) members
      pure (LoopHead.mk (loopVariable iterable) <$> bindings)) := rfl

/-- The head of a loop names its variables and sets the bindings, unless the pattern offends. -/
theorem loopHead_of_not_offends (iterable : String) {context : Option Pattern}
    (h : ∀ pattern ∈ context, ¬ pattern.Offends) :
    (loopHead iterable context).value =
      .ok ⟨", ".intercalate (loopNames iterable context),
        setTags (loopBindings iterable context)⟩ := by
  rcases context with _ | pattern
  · rfl
  have bindable := h pattern rfl
  cases pattern with
  | identifier span name =>
    simp [loopHead, bindPattern, loopNames, loopBindings, setTags, String.join_cons]
  | array span elements =>
    obtain ⟨size, named⟩ := not_not.mp bindable
    simp [loopHead, loopTargets, size, targetNames_of_named named, loopNames, loopBindings, setTags]
  | object span members =>
    have bound : ∀ member ∈ members, ¬ member.Offends := fun member hm offends =>
      bindable ⟨member, hm, offends⟩
    rw [loopHead_object, Report.value_bind, bindMembers_of_not_offends bound]
    simp [loopNames, loopBindings]
  | _ => exact absurd trivial bindable

theorem loopHead_of_offends (iterable : String) {pattern : Pattern} (h : pattern.Offends) :
    ∃ reason, (loopHead iterable (some pattern)).value = .error (loopFault reason) := by
  cases pattern with
  | identifier span name => cases h
  | array span elements =>
    by_cases size : elements.length = 1 ∨ elements.length = 2
    · have unnamed : none ∈ elementNames elements := by
        by_contra named
        exact h ⟨size, named⟩
      exact ⟨_, by simp [loopHead, loopTargets, size, targetNames_of_unnamed unnamed]; rfl⟩
    · exact ⟨_, by simp [loopHead, loopTargets, size]; rfl⟩
  | object span members =>
    obtain ⟨reason, refused⟩ := bindMembers_of_offends (loopVariable iterable) h
    exact ⟨reason, by rw [loopHead_object, Report.value_bind, refused]; rfl⟩
  | assignment span target default => exact ⟨_, rfl⟩
  | rest span argument => exact ⟨_, rfl⟩
  | unknown => exact ⟨_, rfl⟩

theorem diagnostics_loopHead (iterable : String) (context : Option Pattern) :
    (loopHead iterable context).diagnostics =
      (context.toList.flatMap Pattern.reachedDefaults).flatMap
        fun e => (expression .value e).diagnostics := by
  match context with
  | none => rfl
  | some (.object span members) =>
    rw [loopHead_object, Report.diagnostics_bind, diagnostics_bindMembers_reached span]
    simp
  | some (.identifier ..) => rfl
  | some (.array ..) => rfl
  | some (.assignment ..) => rfl
  | some (.rest ..) => rfl
  | some .unknown => rfl

end Heads

/-- A loop that cannot be written: nothing is left of the iterated expression, or the pattern
offends. -/
def Unloopable (items : Expr) (context : Option Pattern) : Prop :=
  (expression .template items).value = "" ∨ ∃ pattern ∈ context, pattern.Offends

/-- The default values that are written for a loop, none if there is nothing to iterate over. -/
def writtenDefaults (items : Expr) (context : Option Pattern) : List Expr :=
  if (expression .template items).value = "" then []
  else context.toList.flatMap Pattern.reachedDefaults

section Texts

theorem setTags_eq (bindings : List (String × String)) :
    setTags bindings = String.join (bindings.map fun binding =>
      "\x7b% set " ++ binding.1 ++ " = " ++ binding.2 ++ " %\x7d") := by
  refine congrArg String.join (List.map_congr_left fun binding _ => ?_)
  apply String.toList_inj.mp
  simp [setTag, tag]

theorem setTags_append (first second : List (String × String)) :
    setTags (first ++ second) = setTags first ++ setTags second := by
  rw [setTags, List.map_append, String.join_append]
  rfl

theorem forTag_eq (names iterable : String) :
    tag ("for " ++ names ++ " in " ++ iterable) =
      "\x7b% for " ++ names ++ " in " ++ iterable ++ " %\x7d" := by
  apply String.toList_inj.mp
  simp [tag]

theorem elseText_eq (options : Options) (otherwise : Option Branch) :
    (elseBranch options otherwise).value =
      otherwise.elim "" fun branch =>
        "\x7b% else %\x7d" ++ (fragment options branch.children).value := by
  rw [value_elseBranch]
  cases otherwise <;> rfl

end Texts

section Loops

variable (options : Options) (span : Span) {items : Expr} {context : Option Pattern}
  (index : Option String) (key : Option Expr) (children : List Node) (otherwise : Option Branch)

theorem eachBlock_of_unloopable (h : Unloopable items context) :
    (node options (.eachBlock span items context index key children otherwise)).value = "" ∧
    ∃ message,
      (node options (.eachBlock span items context index key children otherwise)).diagnostics =
        (expression .template items).diagnostics
          ++ ((writtenDefaults items context).flatMap fun e => (expression .value e).diagnostics)
          ++ [{ code := .droppedNode, message := message, span := span }] := by
  rw [value_eachBlock, diagnostics_eachBlock, writtenDefaults]
  by_cases nothing : (expression .template items).value = ""
  · simp only [if_pos nothing, List.flatMap_nil, List.append_nil]
    exact ⟨trivial, _, rfl⟩
  · obtain ⟨pattern, rfl, offends⟩ := h.resolve_left nothing
    obtain ⟨reason, refused⟩ := loopHead_of_offends (expression .template items).value offends
    simp only [if_neg nothing, refused, diagnostics_loopHead, List.append_assoc]
    exact ⟨trivial, _, rfl⟩

theorem eachBlock_of_loopable (h : ¬ Unloopable items context) :
    (node options (.eachBlock span items context index key children otherwise)).value =
      "\x7b% for " ++ ", ".intercalate (loopNames (expression .template items).value context)
        ++ " in " ++ (expression .template items).value ++ " %\x7d"
        ++ String.join ((loopBindings (expression .template items).value context
          ++ index.toList.map fun name => (name, "loop.index0")).map
            fun binding => "\x7b% set " ++ binding.1 ++ " = " ++ binding.2 ++ " %\x7d")
        ++ (fragment options children).value
        ++ (otherwise.elim "" fun branch =>
          "\x7b% else %\x7d" ++ (fragment options branch.children).value)
        ++ "\x7b% endfor %\x7d" ∧
    (node options (.eachBlock span items context index key children otherwise)).diagnostics =
      (expression .template items).diagnostics
        ++ ((writtenDefaults items context).flatMap fun e => (expression .value e).diagnostics)
        ++ (fragment options children).diagnostics
        ++ otherwise.toList.flatMap fun branch => (fragment options branch.children).diagnostics := by
  obtain ⟨something, bindable⟩ := not_or.mp h
  have head := loopHead_of_not_offends (expression .template items).value
    fun pattern hp offends => bindable ⟨pattern, hp, offends⟩
  constructor
  · rw [value_eachBlock, if_neg something, head, ← setTags_eq, setTags_append, ← forTag_eq,
      indexTag_eq, elseText_eq, ← String.append_assoc]
    rfl
  · rw [diagnostics_eachBlock, writtenDefaults, if_neg something, if_neg something, head,
      diagnostics_loopHead, diagnostics_elseBranch]
    simp only [List.append_assoc]

end Loops

/-- A loop is written as a whole or not at all. If it cannot be written, no text is left of it, and
nothing is said about its children and its else branch: what is said is about the iterated
expression, then about the default values in front of the member that offends, and then once that
the loop was dropped. Otherwise one tag binds each member of an object pattern, in the order of the
pattern, and the index after them, all in front of the content. -/
theorem loop_whole_or_dropped (options : Options) (span : Span) (items : Expr)
    (context : Option Pattern) (index : Option String) (key : Option Expr) (children : List Node)
    (otherwise : Option Branch) :
    let report := node options (.eachBlock span items context index key children otherwise)
    let iterable := expression .template items
    let defaults := writtenDefaults items context
    (report.value = "" ↔ Unloopable items context) ∧
    (Unloopable items context → ∃ message, report.diagnostics =
      iterable.diagnostics ++ (defaults.flatMap fun e => (expression .value e).diagnostics)
        ++ [{ code := .droppedNode, message := message, span := span }]) ∧
    (¬ Unloopable items context →
      report.value =
        "\x7b% for " ++ ", ".intercalate (loopNames iterable.value context) ++ " in "
          ++ iterable.value ++ " %\x7d"
          ++ String.join ((loopBindings iterable.value context
            ++ index.toList.map fun name => (name, "loop.index0")).map
              fun binding => "\x7b% set " ++ binding.1 ++ " = " ++ binding.2 ++ " %\x7d")
          ++ (fragment options children).value
          ++ (otherwise.elim "" fun branch =>
            "\x7b% else %\x7d" ++ (fragment options branch.children).value)
          ++ "\x7b% endfor %\x7d" ∧
      report.diagnostics =
        iterable.diagnostics ++ (defaults.flatMap fun e => (expression .value e).diagnostics)
          ++ (fragment options children).diagnostics
          ++ otherwise.toList.flatMap fun branch =>
            (fragment options branch.children).diagnostics) := by
  intro report iterable defaults
  refine ⟨⟨fun empty => ?_, fun h => ?_⟩, fun h => ?_, fun h => ?_⟩
  · by_contra h
    have written := (eachBlock_of_loopable options span index key children otherwise h).1
    exact absurd (written.symm.trans empty) (by simp)
  · exact (eachBlock_of_unloopable options span index key children otherwise h).1
  · exact (eachBlock_of_unloopable options span index key children otherwise h).2
  · exact eachBlock_of_loopable options span index key children otherwise h

/-- The regular expression `/x/`, which has no Twig form. -/
def unwrittenDefault (span : Span) : Expr :=
  .literal span { value := .null, raw := none, regex := some ⟨"x", ""⟩, bigint := none }

/-- `{ a = /x/, b, ...c, d = /x/ }` -/
def restPattern : Pattern :=
  .object {} [
    .property {} (.identifier {} "a")
      (.assignment {} (.identifier {} "a") (unwrittenDefault ⟨1, 4⟩)) false,
    .property {} (.identifier {} "b") (.identifier {} "b") false,
    .rest {} (.identifier {} "c"),
    .property {} (.identifier {} "d")
      (.assignment {} (.identifier {} "d") (unwrittenDefault ⟨5, 8⟩)) false]

/-- The default value behind the rest element is not reported, and neither is the slot in the loop. -/
theorem loop_whole_or_dropped_restPattern :
    let report := node { theme := "site" } (.eachBlock ⟨0, 9⟩ (.identifier {} "rows")
      (some restPattern) none none [.slot {} [] []] none)
    report.value = "" ∧ report.diagnostics.map (·.span) = [⟨1, 4⟩, ⟨0, 9⟩] := by
  intro report
  have unloopable : Unloopable (.identifier {} "rows") (some restPattern) :=
    .inr ⟨restPattern, rfl, by decide⟩
  obtain ⟨empty, dropped, -⟩ := loop_whole_or_dropped { theme := "site" } ⟨0, 9⟩
    (.identifier {} "rows") (some restPattern) none none [.slot {} [] []] none
  obtain ⟨message, said⟩ := dropped unloopable
  exact ⟨empty.mpr unloopable, by rw [said]; rfl⟩

end Twig

end TwigComponent
