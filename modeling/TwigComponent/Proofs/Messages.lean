import TwigComponent.Proofs.Complaints
import TwigComponent.Proofs.Strings
import TwigComponent.Proofs.Words

/-!
# What messages quote

A message is a fixed text with a few things put into it: offsets, kinds of nodes
and strings of the component. The strings are those of regular expressions and big
integers, operators, keys of object literals, names of props and the default slot,
and they are put in as they stand. So a message takes one line if they do: nothing
else of a component, no text and no value, is quoted.
-/
namespace TwigComponent

open Text

/-- A text without a line break. -/
def OneLine (text : String) : Prop := '\n' ∉ text.toList

@[simp] theorem oneLine_append (first second : String) :
    OneLine (first ++ second) ↔ OneLine first ∧ OneLine second := by
  simp [OneLine]

/-- The characters of a literal are known, and there is no need to decode it. -/
theorem oneLine_literal {chars : List Char} (h : '\n' ∉ chars) : OneLine (String.ofList chars) := by
  rwa [OneLine, String.toList_ofList]

theorem oneLine_numeral {text : String} (h : ∀ c ∈ text.toList, isNumeral c = true) :
    OneLine text := by
  intro broken
  exact absurd (h '\n' broken) (by decide)

theorem oneLine_repr (n : Nat) : OneLine n.repr := oneLine_numeral (IsDigital.repr n).forall_mem

theorem oneLine_display (span : Span) : OneLine span.display := by
  change OneLine (span.start.repr ++ ".." ++ span.stop.repr)
  have dots : OneLine ".." := oneLine_literal (by decide)
  simp [oneLine_repr, dots]

theorem oneLine_exprKind (e : Source.Expr) : OneLine e.kind := by
  cases e <;> exact oneLine_literal (by decide)

theorem oneLine_patternKind (pattern : Source.Pattern) : OneLine pattern.kind := by
  cases pattern <;> exact oneLine_literal (by decide)

namespace Fault

/-- A fault that is reported on one line. -/
def IsOneLine : Fault → Prop
  | .unwritable kind message => OneLine kind ∧ OneLine message
  | .unsupported => True

theorem isOneLine_fixed {kind message : List Char} (h : '\n' ∉ kind ++ message) :
    (unwritable (String.ofList kind) (String.ofList message)).IsOneLine := by
  rw [List.mem_append, not_or] at h
  exact ⟨oneLine_literal h.1, oneLine_literal h.2⟩

theorem isOneLine_quoting {kind before after : List Char} {text : String} (quoted : OneLine text)
    (h : '\n' ∉ kind ++ before ++ after) :
    (unwritable (String.ofList kind)
      (String.ofList before ++ text ++ String.ofList after)).IsOneLine := by
  simp only [List.mem_append, not_or] at h
  refine ⟨oneLine_literal h.1.1, ?_⟩
  simp only [oneLine_append]
  exact ⟨⟨oneLine_literal h.1.2, quoted⟩, oneLine_literal h.2⟩

end Fault

/-- No message has a line break. -/
def OneLiners (diagnostics : List Diagnostic) : Prop :=
  ∀ diagnostic ∈ diagnostics, OneLine diagnostic.message

namespace OneLiners

theorem fault {fault : Fault} (span : Span) (h : fault.IsOneLine) :
    OneLiners (faultDiagnostics span (.error fault)) := by
  cases fault with
  | unsupported => exact List.forall_mem_nil _
  | unwritable kind message =>
    have spoken : OneLine ("cannot translate " ++ kind ++ ": " ++ message ++ " (node at "
        ++ span.display ++ " dropped)") := by
      have leading : OneLine "cannot translate " := oneLine_literal (by decide)
      have colon : OneLine ": " := oneLine_literal (by decide)
      have placing : OneLine " (node at " := oneLine_literal (by decide)
      have trailing : OneLine " dropped)" := oneLine_literal (by decide)
      simp [h.1, h.2, oneLine_display, leading, colon, placing, trailing]
    exact List.forall_mem_singleton.mpr spoken

theorem attempt {attempt : Except Fault String} (span : Span)
    (h : ∀ fault, attempt = .error fault → fault.IsOneLine) :
    OneLiners (faultDiagnostics span attempt) := by
  cases attempt with
  | ok text => exact List.forall_mem_nil _
  | error fault => exact .fault span (h fault rfl)

end OneLiners

namespace Twig

open Source

/-- What the message about a literal quotes. -/
def literalQuotes (literal : Literal) : List String :=
  match literal.classify with
  | .regex regex => [regex.pattern, regex.flags]
  | .bigint digits => [digits]
  | _ => []

/-- What a key that is not computed is made from. -/
def keyQuotes : Expr → List String
  | .identifier _ name => [name]
  | .literal _ literal => literal.value.strings ++ literalQuotes literal
  | _ => []

/-- What the messages about a property quote. A computed key is quoted as it is written. -/
def propertyQuotes (key : Expr) (computed : Bool) : List String :=
  if computed then [(expression .value key).value] else keyQuotes key

def memberQuotes : Member → List String
  | .property _ key _ computed _ _ => propertyQuotes key computed
  | .spread _ _ => []

/-- What the messages about an expression quote, those about the expressions inside it apart. -/
def expressionQuotes : Expr → List String
  | .literal _ literal => literalQuotes literal
  | .logical _ operator _ _ => [operator]
  | .unary _ operator _ => [operator]
  | .object _ members => members.flatMap memberQuotes
  | _ => []

section Quoting

theorem oneLine_quote {text : String} (h : OneLine text) : OneLine (quote text) := by
  have escaped : ∀ c, '\n' ∈ escapeChar c → '\n' = c := by
    intro c hc
    unfold escapeChar at hc
    split at hc
    · simpa using hc
    · simpa using hc
  have inner : OneLine (String.ofList (text.toList.flatMap escapeChar)) := by
    intro broken
    rw [String.toList_ofList, List.mem_flatMap] at broken
    obtain ⟨c, hc, hin⟩ := broken
    exact h (escaped c hin ▸ hc)
  have mark : OneLine "'" := oneLine_literal (by decide)
  simp [quote, inner, mark]

theorem oneLine_hashKey {name : String} (h : OneLine name) : OneLine (hashKey name) := by
  unfold hashKey
  split
  · exact h
  · exact oneLine_quote h

theorem oneLine_parenthesize {text : String} (h : OneLine text) : OneLine (parenthesize text) := by
  unfold parenthesize
  split
  · exact oneLine_literal (by decide)
  · have opening : OneLine "(" := oneLine_literal (by decide)
    have closing : OneLine ")" := oneLine_literal (by decide)
    simp [h, opening, closing]

theorem isOneLine_literalText {literal : Literal} {fault : Fault}
    (failed : literalText literal = .error fault)
    (h : ∀ text ∈ literalQuotes literal, OneLine text) : fault.IsOneLine := by
  unfold literalText at failed
  unfold literalQuotes at h
  cases classified : literal.classify with
  | regex regex =>
    rw [classified] at failed h
    cases failed
    have pattern : OneLine regex.pattern := h _ List.mem_cons_self
    have flags : OneLine regex.flags := h _ (List.mem_cons_of_mem _ List.mem_cons_self)
    have spoken : OneLine ("regular expression /" ++ regex.pattern ++ "/" ++ regex.flags
        ++ " has no Twig form") := by
      have leading : OneLine "regular expression /" := oneLine_literal (by decide)
      have slash : OneLine "/" := oneLine_literal (by decide)
      have trailing : OneLine " has no Twig form" := oneLine_literal (by decide)
      simp [pattern, flags, leading, slash, trailing]
    exact ⟨oneLine_literal (by decide), spoken⟩
  | bigint digits =>
    rw [classified] at failed h
    cases failed
    exact Fault.isOneLine_quoting (h digits (List.mem_singleton.mpr rfl)) (by decide)
  | _ =>
    rw [classified] at failed
    cases failed

theorem oneLine_literalText {literal : Literal} {text : String}
    (written : literalText literal = .ok text) (h : ∀ text ∈ literal.value.strings, OneLine text) :
    OneLine text := by
  obtain ⟨value, raw, regex, bigint⟩ := literal
  rcases regex with _ | regex
  · rcases bigint with _ | digits
    · cases value with
      | string value =>
        cases written
        exact oneLine_quote (h value (List.mem_singleton.mpr rfl))
      | number value =>
        cases written
        exact oneLine_numeral value.isNumeral_of_mem
      | boolean value =>
        cases written
        cases value <;> exact oneLine_literal (by decide)
      | null =>
        cases written
        exact oneLine_literal (by decide)
    · cases written
  · cases written

section Keys

variable {key : Expr}

theorem oneLine_keyText {text : String} (written : keyText key = .ok text)
    (h : ∀ text ∈ keyQuotes key, OneLine text) : OneLine text := by
  unfold keyText at written
  split at written
  · rename_i name
    cases written
    exact oneLine_hashKey (h name (List.mem_singleton.mpr rfl))
  · rename_i literal
    simp only [keyQuotes, List.forall_mem_append] at h
    split at written
    · rename_i value valued
      cases written
      exact oneLine_hashKey (h.1 value (by simp [valued, LiteralValue.strings]))
    · rename_i value _
      cases written
      exact oneLine_numeral value.isNumeral_of_mem
    · exact oneLine_literalText written h.1
  · cases written

theorem isOneLine_keyText {fault : Fault} (failed : keyText key = .error fault)
    (h : ∀ text ∈ keyQuotes key, OneLine text) : fault.IsOneLine := by
  unfold keyText at failed
  split at failed
  · cases failed
  · simp only [keyQuotes, List.forall_mem_append] at h
    split at failed
    · cases failed
    · cases failed
    · exact isOneLine_literalText failed h.2
  · cases failed
    exact Fault.isOneLine_quoting (oneLine_exprKind key) (by decide)

/-- The key of a property is on one line, and so is the message if it has none. -/
theorem oneLine_propertyKey {computed : Bool}
    (h : ∀ text ∈ propertyQuotes key computed, OneLine text) :
    (∀ text, (propertyKey key computed).value = .ok text → OneLine text) ∧
      ∀ fault, (propertyKey key computed).value = .error fault → fault.IsOneLine := by
  cases computed with
  | true =>
    have written : OneLine (expression .value key).value := h _ (List.mem_singleton.mpr rfl)
    rw [propertyKey, if_pos rfl, Report.value_map]
    split
    · refine ⟨fun text found => ?_, fun fault failed => ?_⟩
      · cases found
      · cases failed
        exact Fault.isOneLine_fixed (by decide)
    · refine ⟨fun text found => ?_, fun fault failed => ?_⟩
      · cases found
        exact oneLine_parenthesize written
      · cases failed
  | false =>
    refine ⟨fun text written => ?_, fun fault failed => ?_⟩
    · exact oneLine_keyText written h
    · exact isOneLine_keyText failed h

theorem isOneLine_propertyEntry {value : Expr} {computed method : Bool} {fault : Fault}
    (failed : (propertyEntry key value computed method).value = .error fault)
    (h : ∀ text ∈ propertyQuotes key computed, OneLine text) : fault.IsOneLine := by
  obtain ⟨named, unnamed⟩ := oneLine_propertyKey h
  unfold propertyEntry at failed
  split at failed
  · cases failed
    exact Fault.isOneLine_fixed (by decide)
  · rw [Report.value_bind] at failed
    split at failed
    · rename_i reason refused
      cases failed
      exact unnamed fault refused
    · rename_i text found
      rw [Report.value_bind] at failed
      split at failed
      · cases failed
        exact Fault.isOneLine_quoting (named text found) (by decide)
      · cases failed

end Keys

end Quoting

/-- The messages about an expression are on one line if all that they quote is. -/
theorem oneLiners_complaints {e : Expr} (h : ∀ text ∈ expressionQuotes e, OneLine text) :
    OneLiners (complaints e) := by
  cases e with
  | literal span literal =>
    exact .attempt span fun fault failed => isOneLine_literalText failed h
  | logical span operator left right =>
    have quoted : OneLine operator := h operator (List.mem_singleton.mpr rfl)
    exact .fault span (Fault.isOneLine_quoting quoted (by decide))
  | unary span operator argument =>
    have quoted : OneLine operator := h operator (List.mem_singleton.mpr rfl)
    exact .fault span (Fault.isOneLine_quoting quoted (by decide))
  | call span callee arguments optional =>
    exact .fault span (Fault.isOneLine_fixed (by decide))
  | member span receiver property computed optional =>
    refine List.forall_mem_append.mpr ⟨?_, ?_⟩
    · exact OneLiners.fault span (Fault.isOneLine_fixed (by decide))
    · exact OneLiners.fault span (Fault.isOneLine_quoting (oneLine_exprKind property) (by decide))
  | object span members =>
    refine List.forall_mem_flatMap.mpr fun member hm => ?_
    have quoted := List.forall_mem_flatMap.mp h member hm
    cases member with
    | property span key value computed shorthand method =>
      exact OneLiners.attempt span fun fault failed => isOneLine_propertyEntry failed quoted
    | spread span argument => exact List.forall_mem_nil _
  | assignment span operator target value =>
    exact .fault span (Fault.isOneLine_fixed (by decide))
  | _ => exact List.forall_mem_nil _

section Loops

theorem isOneLine_nestedPattern : nestedPattern.IsOneLine := Fault.isOneLine_fixed (by decide)

theorem isOneLine_bindMember {item : String} {member : PatternMember} {fault : Fault}
    (failed : (bindMember item member).value = .error fault) : fault.IsOneLine := by
  unfold bindMember at failed
  split at failed
  · split at failed
    · cases failed
    · cases failed
    · cases failed
      exact isOneLine_nestedPattern
  · cases failed
    exact Fault.isOneLine_fixed (by decide)
  · cases failed
    exact Fault.isOneLine_fixed (by decide)

theorem isOneLine_bindMembers {item : String} {members : List PatternMember} {fault : Fault}
    (failed : (bindMembers item members).value = .error fault) : fault.IsOneLine := by
  induction members with
  | nil => cases failed
  | cons member rest ih =>
    rw [bindMembers, Report.value_bind] at failed
    split at failed
    · rename_i reason refused
      cases failed
      exact isOneLine_bindMember refused
    · rw [Report.value_bind] at failed
      split at failed
      · rename_i reason refused
        cases failed
        exact ih refused
      · cases failed

theorem isOneLine_loopTargets {elements : List (Option Pattern)} {fault : Fault}
    (failed : loopTargets elements = .error fault) : fault.IsOneLine := by
  unfold loopTargets at failed
  split at failed
  · have nested : fault = nestedPattern := by
      by_cases named : none ∈ elementNames elements
      · rw [targetNames_of_unnamed named] at failed
        cases failed
        rfl
      · rw [targetNames_of_named named] at failed
        cases failed
    rw [nested]
    exact isOneLine_nestedPattern
  · cases failed
    exact Fault.isOneLine_fixed (by decide)

theorem isOneLine_bindPattern {item : String} {pattern : Pattern} {fault : Fault}
    (failed : (bindPattern item pattern).value = .error fault) : fault.IsOneLine := by
  unfold bindPattern at failed
  split at failed
  · cases failed
  · exact isOneLine_bindMembers failed
  · cases failed
    have trailing : OneLine " cannot bind a loop item" := oneLine_literal (by decide)
    have spoken := (oneLine_append _ _).mpr ⟨oneLine_patternKind pattern, trailing⟩
    exact ⟨oneLine_literal (by decide), spoken⟩

theorem error_of_map {α β : Type} {f : α → β} {attempt : Except Fault α} {fault : Fault}
    (h : f <$> attempt = .error fault) : attempt = .error fault := by
  cases attempt with
  | error reason =>
    cases h
    rfl
  | ok value => cases h

theorem isOneLine_loopHead {iterable : String} {context : Option Pattern} {fault : Fault}
    (failed : (loopHead iterable context).value = .error fault) : fault.IsOneLine := by
  unfold loopHead at failed
  split at failed
  · exact isOneLine_loopTargets (error_of_map failed)
  · exact isOneLine_bindPattern (error_of_map failed)
  · cases failed

end Loops

theorem oneLiners_nodeComplaints {options : Options} (slot : OneLine options.defaultSlot)
    (tree : Node) : OneLiners (nodeComplaints options tree) := by
  cases tree with
  | ifBlock span test children otherwise elseif =>
    exact .fault span (Fault.isOneLine_fixed (by decide))
  | eachBlock span items context index key children otherwise =>
    refine List.forall_mem_append.mpr ⟨?_, ?_⟩
    · exact OneLiners.fault span (Fault.isOneLine_fixed (by decide))
    · exact OneLiners.attempt span fun fault failed => isOneLine_loopHead (error_of_map failed)
  | slot span attributes children =>
    have leading : OneLine "slot has no static name; using the default block `" :=
      oneLine_literal (by decide)
    have trailing : OneLine "`" := oneLine_literal (by decide)
    have spoken := (oneLine_append _ _).mpr ⟨(oneLine_append _ _).mpr ⟨leading, slot⟩, trailing⟩
    exact List.forall_mem_singleton.mpr spoken
  | _ => exact List.forall_mem_nil _

end Twig

open Source

theorem oneLine_initializerHint {name : String} (hn : OneLine name) (init : Expr) :
    OneLine (initializerHint name init).message := by
  change OneLine ("prop `" ++ name ++ "` is initialized with " ++ init.kind
    ++ "; typed as string with its source text as default")
  have leading : OneLine "prop `" := oneLine_literal (by decide)
  have between : OneLine "` is initialized with " := oneLine_literal (by decide)
  have trailing : OneLine "; typed as string with its source text as default" :=
    oneLine_literal (by decide)
  simp [hn, oneLine_exprKind, leading, between, trailing]

/-- The name of a prop that has an initializer. -/
def Declaration.initialized? : Declaration → Option String
  | .prop name (some _) => some name
  | _ => none

/-- What the messages about a component quote, the name of the default slot apart. -/
def Source.Document.quotes (document : Document) : List String :=
  document.declarations.filterMap Declaration.initialized?
    ++ document.visits.flatMap fun part => Twig.expressionQuotes part.2

/-- The messages about a component are on one line if all that they quote is. -/
theorem Component.oneLiners_transform {component : Component} {name : String}
    {overrides : Option Yaml} {options : Options} {report : Report Transformed}
    (h : component.transform name overrides options = .ok report)
    (quoted : ∀ text ∈ options.defaultSlot :: component.document.quotes, OneLine text) :
    OneLiners report.diagnostics := by
  rw [List.forall_mem_cons, Document.quotes, List.forall_mem_append, List.forall_mem_flatMap]
    at quoted
  obtain ⟨slot, names, strings⟩ := quoted
  refine forall_transform h ?_ ?_ ?_
  · intro name init declared
    exact oneLine_initializerHint (names name (List.mem_filterMap.mpr ⟨_, declared, rfl⟩)) init
  · exact fun part hp => Twig.oneLiners_complaints (strings part hp)
  · exact fun inner _ => Twig.oneLiners_nodeComplaints slot inner

end TwigComponent
