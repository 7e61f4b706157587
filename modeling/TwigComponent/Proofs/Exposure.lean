import TwigComponent.Proofs.Brackets
import TwigComponent.Proofs.TagTexts

/-!
# Exposed operators

An operand is parenthesized if its own kind is compound, and under a filter also
if it is unary. But some kinds write the text of a part as it is: the wrapper of
an optional chain, a template literal that is left with one expression, a call
of `Object.entries`. And some begin with it: a member with its receiver, a call
with its callee, a literal with its first spread. Then an operator of the part
stands outside all brackets of the whole.

`exposed` follows these ways down to the operator. It is computed from the
expression and from which parts leave a text, and it is exact: an operator is
exposed if and only if it protrudes in the text.
-/
namespace TwigComponent.Twig

open Source Text

mutual

/-- Whether an operator is outside all brackets in the text of an expression by itself. A sign at the
beginning counts if it is looked for. -/
def exposed (signs : Bool) (mode : Mode) : Expr → Bool
  | .identifier .. => false
  | .literal .. => false
  | .binary .. => true
  | .logical _ operator left _ =>
    if mode = .value ∧ LogicalOperator.ofText? operator = some .or then
      !isUnary left && !needsGrouping left && exposed signs mode left
    else (LogicalOperator.ofText? operator).isSome
  | .conditional .. => true
  | .unary _ operator argument =>
    (unaryOperator? operator).isSome
      && (signs || operator == "!" || (!needsGrouping argument && exposed false mode argument))
  | .call _ callee arguments _ =>
    if callee.isObjectEntries then exposedArguments signs mode arguments
    else !needsGrouping callee && exposed signs mode callee
  | .member _ receiver property computed _ =>
    (computed || property.identifier?.isSome) && !needsGrouping receiver
      && exposed signs mode receiver
  | .chain _ inner => exposed signs mode inner
  | .array _ elements => exposedElements signs elements
  | .object _ members => exposedMembers signs members
  | .spread _ argument => !needsGrouping argument && exposed false mode argument
  | .template _ segments => exposedSegments signs mode segments
  | .assignment .. => false
  | .unknown => false

/-- One argument stands for itself, and several have commas between them. -/
def exposedArguments (signs : Bool) (mode : Mode) : List Expr → Bool
  | [] => false
  | [argument] => exposed signs mode argument
  | _ => true

/-- An array literal begins with its first element that leaves a text, without a bracket if that is
a spread. -/
def exposedElements (signs : Bool) : List (Option Expr) → Bool
  | [] => false
  | none :: _ => false
  | some (.spread _ argument) :: rest =>
    if (expression .value argument).value = "" then exposedElements signs rest
    else !isUnary argument && !needsGrouping argument && exposed signs .value argument
  | some element :: rest =>
    if (expression .value element).value = "" then exposedElements signs rest else false

def exposedMembers (signs : Bool) : List Member → Bool
  | [] => false
  | .spread _ argument :: rest =>
    if (expression .value argument).value = "" then exposedMembers signs rest
    else !isUnary argument && !needsGrouping argument && exposed signs .value argument
  | .property span key value computed shorthand method :: rest =>
    if (memberPiece (.property span key value computed shorthand method)).value = [] then
      exposedMembers signs rest
    else false

/-- One segment stands for itself, and several are joined with blanks around the operator. -/
def exposedSegments (signs : Bool) (mode : Mode) : List Segment → Bool
  | [] => false
  | .text _ :: rest => !(segmentTexts mode rest).value.isEmpty
  | .expression inner :: rest =>
    if (expression mode inner).value = "" then exposedSegments signs mode rest
    else !(segmentTexts mode rest).value.isEmpty
      || (!needsGrouping inner && exposed signs mode inner)

end

/-- Whether an operator of an operand is outside all brackets. -/
def exposedOperand (signs : Bool) (mode : Mode) (e : Expr) : Bool :=
  !needsGrouping e && exposed signs mode e

/-- Whether an operator of an expression under a filter is outside all brackets. -/
def exposedFiltered (signs : Bool) (mode : Mode) (e : Expr) : Bool :=
  !isUnary e && !needsGrouping e && exposed signs mode e

/-- Names are plain, numbers have no sign, and binary operators neither open nor close anything. -/
def isOrdinary : Expr → Bool
  | .identifier _ name => isPlainKey name
  | .literal _ content =>
    match content.value with
    | .number value => !value.isNegative
    | _ => true
  | .binary _ operator _ _ => operator.toList.all isNeutral
  | _ => true

/-- The text of an expression is closed, and what is exposed in it protrudes. -/
structure Assessed (mode : Mode) (e : Expr) : Prop where
  closed : Closed (expression mode e).value
  exposed_iff (signs : Bool) : exposed signs mode e = true ↔ Protrudes signs (expression mode e).value

section Parts

variable {mode : Mode} {e : Expr}

theorem Assessed.of_atomic (ha : Atomic (expression mode e).value)
    (he : ∀ signs, exposed signs mode e = false) : Assessed mode e where
  closed := ha.closed
  exposed_iff signs := by simp [he, not_protrudes_of_atomic ha]

theorem Assessed.of_protrudes (hc : Closed (expression mode e).value)
    (hp : ∀ signs, Protrudes signs (expression mode e).value)
    (he : ∀ signs, exposed signs mode e = true) : Assessed mode e where
  closed := hc
  exposed_iff signs := by simp [he, hp]

theorem Assessed.of_dropped (ht : (expression mode e).value = "")
    (he : ∀ signs, exposed signs mode e = false) : Assessed mode e := by
  apply Assessed.of_atomic _ he
  rw [ht]
  exact atomic_empty

/-- An operator with blanks around it protrudes. -/
theorem Assessed.of_between {front middle back : String} (hf : Closed front) (hm : Closed middle)
    (hs : Spaced middle) (hb : Closed back) (ht : (expression mode e).value = front ++ middle ++ back)
    (he : ∀ signs, exposed signs mode e = true) : Assessed mode e := by
  apply Assessed.of_protrudes _ _ he
  · rw [ht]
    exact closed_append (closed_append hf hm) hb
  · intro signs
    rw [ht]
    exact protrudes_between hf hm hb hs

theorem Assessed.closed_operand (h : Assessed mode e) : Closed (operand mode e).value := by
  rw [value_operand, groupOperand]
  split
  · exact (atomic_parenthesize h.closed).closed
  · exact h.closed

theorem Assessed.exposedOperand_iff (h : Assessed mode e) (signs : Bool) :
    exposedOperand signs mode e = true ↔ Protrudes signs (operand mode e).value := by
  rw [value_operand, groupOperand, exposedOperand]
  split
  · rename_i grouped
    simp [grouped, not_protrudes_of_atomic (atomic_parenthesize h.closed)]
  · rename_i bare
    simp [bare, h.exposed_iff]

theorem Assessed.closed_filtered (h : Assessed mode e) : Closed (filterOperand mode e).value := by
  have operandText := h.closed_operand
  rw [value_operand] at operandText
  rw [value_filterOperand, groupFiltered]
  split
  · exact (atomic_parenthesize operandText).closed
  · exact operandText

theorem Assessed.exposedFiltered_iff (h : Assessed mode e) (signs : Bool) :
    exposedFiltered signs mode e = true ↔ Protrudes signs (filterOperand mode e).value := by
  have operandText := h.closed_operand
  have operandIff := h.exposedOperand_iff signs
  rw [value_operand] at operandText operandIff
  rw [value_filterOperand, groupFiltered, exposedFiltered, Bool.and_assoc, ← exposedOperand]
  split
  · rename_i unary
    simp [unary, not_protrudes_of_atomic (atomic_parenthesize operandText)]
  · rename_i plain
    simp [plain, operandIff]

end Parts

section Kinds

attribute [local simp] exposed exposedArguments

variable {mode : Mode} (span : Span)

theorem assessed_literal {content : Literal}
    (h : ∀ value, content.value = .number value → value.isNegative = false) :
    Assessed mode (.literal span content) := by
  refine .of_atomic ?_ fun signs => rfl
  rw [value_literal]
  obtain ⟨value, raw, regex, bigint⟩ := content
  match regex, bigint, value with
  | some _, _, _ => exact atomic_empty
  | none, some _, _ => exact atomic_empty
  | none, none, .string value => exact atomic_quote value
  | none, none, .number value => exact atomic_number (h value rfl)
  | none, none, .boolean true => exact atomic_of_isPlainKey (by decide : isPlainKey "true" = true)
  | none, none, .boolean false => exact atomic_of_isPlainKey (by decide : isPlainKey "false" = true)
  | none, none, .null => exact atomic_of_isPlainKey (by decide : isPlainKey "null" = true)

theorem closed_binaryOperator {operator : String} (h : ∀ c ∈ operator.toList, isNeutral c = true) :
    Closed (binaryOperator operator) := by
  unfold binaryOperator
  split_ifs
  · rfl
  · rfl
  · rw [Closed, outside?_neutral h]
    rfl

theorem assessed_binary {operator : String} {left right : Expr}
    (ho : ∀ c ∈ operator.toList, isNeutral c = true) (hl : Assessed mode left)
    (hr : Assessed mode right) : Assessed mode (.binary span operator left right) := by
  have blank : Closed " " := rfl
  have operatorText := closed_binaryOperator ho
  have middle : Closed (" " ++ binaryOperator operator ++ " ") :=
    closed_append (closed_append blank operatorText) blank
  have spaced : Spaced (" " ++ binaryOperator operator ++ " ") := by
    rw [spaced_append (closed_append blank operatorText) blank]
    exact .inr (by decide)
  apply Assessed.of_between hl.closed_operand middle spaced hr.closed_operand
  · rw [value_binary]
    simp only [String.append_assoc]
  · exact fun signs => rfl

/-- The filter of the value mode leaves it to the left operand what protrudes. -/
theorem assessed_default {operator : String} {left right : Expr}
    (hk : LogicalOperator.ofText? operator = some .or) (hl : Assessed .value left)
    (hr : Assessed .value right) : Assessed .value (.logical span operator left right) := by
  have name : Atomic "|default" := atomic_of_all (by decide) (by decide)
  have suffix := atomic_applied name hr.closed
  have text : (expression .value (.logical span operator left right)).value =
      (filterOperand .value left).value ++
        ("|default" ++ "(" ++ (expression .value right).value ++ ")") := by
    have mark : "|default(" = "|default" ++ "(" := by decide
    rw [value_logical, hk]
    simp only [LogicalOperator.write, value_filterOperand, mark, String.append_assoc]
  refine ⟨?_, fun signs => ?_⟩
  · rw [text]
    exact closed_append hl.closed_filtered suffix.closed
  · rw [text, protrudes_append hl.closed_filtered suffix, ← hl.exposedFiltered_iff, exposed,
      if_pos ⟨rfl, hk⟩]
    rfl

theorem assessed_logical {operator : String} {left right : Expr} (hl : Assessed mode left)
    (hr : Assessed mode right) : Assessed mode (.logical span operator left right) := by
  have text := value_logical mode span operator left right
  cases hk : LogicalOperator.ofText? operator with
  | none =>
    rw [hk] at text
    exact .of_dropped text fun signs => by simp [hk]
  | some known =>
    by_cases filter : mode = .value ∧ known = .or
    · obtain ⟨rfl, rfl⟩ := filter
      exact assessed_default span hk hl hr
    have joined : ∃ middle, Closed middle ∧ Spaced middle ∧
        (expression mode (.logical span operator left right)).value =
          (operand mode left).value ++ middle ++ (operand mode right).value := by
      rw [text, hk]
      cases known with
      | and =>
        cases mode with
        | template => exact ⟨" and ", rfl, by decide, rfl⟩
        | value => exact ⟨" ? ", rfl, by decide, rfl⟩
      | or =>
        cases mode with
        | template => exact ⟨" or ", rfl, by decide, rfl⟩
        | value => exact absurd ⟨rfl, rfl⟩ filter
      | coalesce => cases mode <;> exact ⟨" ?? ", rfl, by decide, rfl⟩
    obtain ⟨middle, hm, hs, whole⟩ := joined
    apply Assessed.of_between hl.closed_operand hm hs hr.closed_operand whole
    intro signs
    have other : ¬ (mode = .value ∧ some known = some .or) := by simpa using filter
    rw [exposed, hk, if_neg other]
    rfl

theorem assessed_conditional {test consequent alternate : Expr} (ht : Assessed .template test)
    (hc : Assessed mode consequent) (ha : Assessed mode alternate) :
    Assessed mode (.conditional span test consequent alternate) := by
  have question : Closed " ? " := rfl
  have front : Closed ((operand .template test).value ++ " ? " ++ (operand mode consequent).value) :=
    closed_append (closed_append ht.closed_operand question) hc.closed_operand
  have colon : Closed " : " := rfl
  have spaced : Spaced " : " := by decide
  exact .of_between front colon spaced ha.closed_operand (value_conditional ..) fun signs => rfl

theorem protrudes_mark {mark text : String} (hm : mark = "-" ∨ mark = "+") (h : Closed text)
    (signs : Bool) : Protrudes signs (mark ++ text) ↔ signs = true ∨ Protrudes false text := by
  have facts : Closed mark ∧ ¬ Spaced mark ∧ Signed mark := by
    rcases hm with rfl | rfl <;> exact ⟨rfl, by decide, by decide⟩
  rw [Protrudes, Protrudes, spaced_append facts.1 h, signed_append]
  simp [facts.2.1, facts.2.2, or_comm]

theorem assessed_negation {argument : Expr} (h : Assessed mode argument) :
    Assessed mode (.unary span "!" argument) := by
  have empty : Closed "" := rfl
  have negation : Closed "not " := rfl
  have spaced : Spaced "not " := by decide
  apply Assessed.of_between empty negation spaced h.closed_operand
  · rw [value_unary]
    rfl
  · intro signs
    simp [unaryOperator?]

theorem assessed_sign {operator mark : String} {argument : Expr} (h : Assessed mode argument)
    (hm : mark = "-" ∨ mark = "+") (ho : unaryOperator? operator = some mark)
    (hne : operator ≠ "!") : Assessed mode (.unary span operator argument) := by
  have closed : Closed mark := by rcases hm with rfl | rfl <;> rfl
  have text : (expression mode (.unary span operator argument)).value =
      mark ++ (operand mode argument).value := by rw [value_unary, ho]
  have inner := h.exposedOperand_iff false
  rw [exposedOperand] at inner
  constructor
  · rw [text]
    exact closed_append closed h.closed_operand
  · intro signs
    rw [text, protrudes_mark hm h.closed_operand, ← inner, exposed, ho]
    simp [hne]

theorem assessed_unary {operator : String} {argument : Expr} (h : Assessed mode argument) :
    Assessed mode (.unary span operator argument) := by
  by_cases negation : operator = "!"
  · rw [negation]
    exact assessed_negation span h
  by_cases minus : operator = "-"
  · exact assessed_sign span h (.inl rfl) (by simp [unaryOperator?, minus]) negation
  by_cases plus : operator = "+"
  · exact assessed_sign span h (.inr rfl) (by simp [unaryOperator?, plus]) negation
  have unknown : unaryOperator? operator = none := by simp [unaryOperator?, negation, minus, plus]
  apply Assessed.of_dropped
  · rw [value_unary, unknown]
  · intro signs
    simp [unknown]

theorem assessed_spread {argument : Expr} (h : Assessed mode argument) :
    Assessed mode (.spread span argument) := by
  have dots : Closed "..." := rfl
  refine ⟨?_, fun signs => ?_⟩
  · rw [value_spread]
    exact closed_append dots h.closed_operand
  · have same : exposed signs mode (.spread span argument) = exposedOperand false mode argument := rfl
    rw [same, h.exposedOperand_iff, value_spread, Protrudes, Protrudes,
      spaced_append dots h.closed_operand, signed_append]
    have plain : ¬ Spaced "..." ∧ ¬ Signed "..." := ⟨by decide, by decide⟩
    simp [plain.1, plain.2]

/-- A postfix operator leaves it to the receiver what protrudes. -/
theorem Assessed.of_receiver {e receiver : Expr} {suffix : String} (h : Assessed mode receiver)
    (hs : Atomic suffix)
    (ht : (expression mode e).value =
      if (operand mode receiver).value = "" then "" else (operand mode receiver).value ++ suffix)
    (he : ∀ signs, exposed signs mode e = exposedOperand signs mode receiver) : Assessed mode e := by
  by_cases dropped : (operand mode receiver).value = ""
  · rw [if_pos dropped] at ht
    have hidden : ∀ signs, exposedOperand signs mode receiver = false := by
      intro signs
      have none := h.exposedOperand_iff signs
      rw [dropped] at none
      simpa [not_protrudes_of_atomic atomic_empty] using none
    exact .of_dropped ht fun signs => (he signs).trans (hidden signs)
  · rw [if_neg dropped] at ht
    refine ⟨?_, fun signs => ?_⟩
    · rw [ht]
      exact closed_append h.closed_operand hs.closed
    · rw [ht, he, h.exposedOperand_iff, protrudes_append h.closed_operand hs]

theorem exposed_call (signs : Bool) (callee : Expr) (arguments : List Expr) (optional : Bool) :
    exposed signs mode (.call span callee arguments optional) =
      if callee.isObjectEntries then exposedArguments signs mode arguments
      else exposedOperand signs mode callee := rfl

theorem closed_texts {arguments : List Expr}
    (ha : ∀ argument ∈ arguments, Assessed mode argument) :
    ∀ text ∈ arguments.map (fun argument => (expression mode argument).value), Closed text := by
  intro text ht
  obtain ⟨argument, hin, rfl⟩ := List.mem_map.mp ht
  exact (ha argument hin).closed

theorem closed_arguments {arguments : List Expr}
    (ha : ∀ argument ∈ arguments, Assessed mode argument) :
    Closed (", ".intercalate (arguments.map fun argument => (expression mode argument).value)) :=
  closed_intercalate (rfl : Closed ", ") (closed_texts ha)

theorem assessed_entries {callee : Expr} {arguments : List Expr} (optional : Bool)
    (hc : callee.isObjectEntries = true) (ha : ∀ argument ∈ arguments, Assessed mode argument) :
    Assessed mode (.call span callee arguments optional) := by
  have text := value_call mode span callee arguments optional
  rw [hc, if_pos rfl] at text
  constructor
  · rw [text]
    exact closed_arguments ha
  · intro signs
    rw [text, exposed_call, hc, if_pos rfl]
    rcases arguments with _ | ⟨argument, _ | ⟨second, rest⟩⟩
    · simp [not_protrudes_of_atomic atomic_empty]
    · simpa using (ha argument List.mem_cons_self).exposed_iff signs
    · rw [List.forall_mem_cons] at ha
      have comma : Closed ", " := rfl
      have later := closed_arguments ha.2
      have shown : Protrudes signs _ := protrudes_between ha.1.closed comma later (by decide)
      rw [List.map_cons, List.map_cons, String.intercalate_cons_cons]
      simpa using shown

theorem assessed_call {callee : Expr} {arguments : List Expr} (optional : Bool)
    (hc : Assessed mode callee) (ha : ∀ argument ∈ arguments, Assessed mode argument) :
    Assessed mode (.call span callee arguments optional) := by
  cases entries : callee.isObjectEntries with
  | true => exact assessed_entries span optional entries ha
  | false =>
    apply hc.of_receiver (atomic_round (closed_arguments ha))
    · rw [value_call, entries, if_neg (by decide)]
      simp only [String.append_assoc]
    · intro signs
      rw [exposed_call, entries, if_neg (by decide)]

theorem assessed_member {receiver property : Expr} (computed optional : Bool)
    (hr : Assessed mode receiver) (hp : Assessed mode property)
    (hn : ∀ name, property.identifier? = some name → isPlainKey name = true) :
    Assessed mode (.member span receiver property computed optional) := by
  cases computed with
  | true =>
    refine hr.of_receiver (atomic_square hp.closed) ?_ fun signs => ?_
    · rw [value_member, if_pos rfl]
      simp only [String.append_assoc]
    · rfl
  | false =>
    cases named : property.identifier? with
    | some name =>
      have point : Atomic "." := atomic_of_all (by decide) (by decide)
      have suffix := atomic_append point (atomic_of_isPlainKey (hn name named))
      refine hr.of_receiver suffix ?_ fun signs => ?_
      · rw [value_member, named]
        simp only [Bool.false_eq_true, if_false, String.append_assoc]
      · simp [exposedOperand, named]
    | none =>
      apply Assessed.of_dropped
      · rw [value_member, named]
        simp
      · intro signs
        simp [named]

end Kinds

section Merging

variable {literal : List String → String} {pieces : List Piece}

/-- Whether the first of the pieces is a spread in which an operator protrudes. -/
def SpreadProtrudes (signs : Bool) (pieces : List Piece) : Prop :=
  ∃ source rest, pieces = .spread source :: rest ∧ Protrudes signs source

theorem groups_entry (text : String) (rest : List Piece) :
    ∃ texts others, groups (.entry text :: rest) = .entries texts :: others := by
  rw [groups]
  unfold consEntry
  split
  · exact ⟨_, _, rfl⟩
  · exact ⟨_, _, rfl⟩

theorem closed_groupTexts (h : ∀ piece ∈ pieces, Closed piece.text) :
    ∀ group ∈ groups pieces, ∀ text ∈ group.texts, Closed text := by
  intro group hin text ht
  have listed : text ∈ (groups pieces).flatMap Group.texts :=
    List.mem_flatMap.mpr ⟨group, hin, ht⟩
  rw [texts_groups, List.mem_map] at listed
  obtain ⟨piece, hp, rfl⟩ := listed
  exact h piece hp

theorem closed_group (hl : ∀ texts, (∀ text ∈ texts, Closed text) → Atomic (literal texts))
    {group : Group} (h : ∀ text ∈ group.texts, Closed text) : Closed (group.write literal) := by
  cases group with
  | entries list => exact (hl list h).closed
  | spread source => exact h source (by simp [Group.texts])

theorem atomic_merges {rest : List Group} (h : ∀ group ∈ rest, Closed (group.write literal)) :
    Atomic (String.join (rest.map fun group => "|merge(" ++ group.write literal ++ ")")) := by
  refine atomic_join fun text ht => ?_
  obtain ⟨group, hin, rfl⟩ := List.mem_map.mp ht
  have mark : "|merge(" = "|merge" ++ "(" := by decide
  have name : Atomic "|merge" := atomic_of_all (by decide) (by decide)
  rw [mark]
  exact atomic_applied name (h group hin)

/-- The first member decides what protrudes in a chain of merges: a run of entries stands between
brackets, and a spread does not. -/
theorem protrudes_mergeChain (hl : ∀ texts, (∀ text ∈ texts, Closed text) → Atomic (literal texts))
    (h : ∀ piece ∈ pieces, Closed piece.text) :
    Closed (mergeChain literal (groups pieces)) ∧ ∀ signs,
      (Protrudes signs (mergeChain literal (groups pieces)) ↔ SpreadProtrudes signs pieces) := by
  have texts := closed_groupTexts h
  have written : ∀ group ∈ groups pieces, Closed (group.write literal) := fun group hin =>
    closed_group hl (texts group hin)
  rcases pieces with _ | ⟨text | source, rest⟩
  · refine ⟨rfl, fun signs => ?_⟩
    simp [SpreadProtrudes, mergeChain, groups, not_protrudes_of_atomic atomic_empty]
  · obtain ⟨run, others, hg⟩ := groups_entry text rest
    rw [hg, List.forall_mem_cons] at written texts
    have merges := atomic_merges written.2
    have hidden : ∀ signs, ¬ Protrudes signs (literal run) := fun signs =>
      not_protrudes_of_atomic (hl run texts.1)
    rw [hg, mergeChain]
    refine ⟨closed_append written.1 merges.closed, fun signs => ?_⟩
    rw [protrudes_append written.1 merges]
    simp [SpreadProtrudes, Group.write, hidden]
  · rw [groups, List.forall_mem_cons] at written
    have merges := atomic_merges written.2
    rw [groups, mergeChain]
    refine ⟨closed_append written.1 merges.closed, fun signs => ?_⟩
    rw [protrudes_append written.1 merges]
    simp [SpreadProtrudes, Group.write]

/-- What protrudes in an array or a hash literal is what protrudes in a spread that comes first. -/
theorem protrudes_literal {empty : String} (he : Atomic empty)
    (hl : ∀ texts, (∀ text ∈ texts, Closed text) → Atomic (literal texts))
    (h : ∀ piece ∈ pieces, Closed piece.text) :
    Closed (if pieces.isEmpty then empty else mergeChain literal (groups pieces)) ∧ ∀ signs,
      (Protrudes signs (if pieces.isEmpty then empty else mergeChain literal (groups pieces)) ↔
        SpreadProtrudes signs pieces) := by
  cases pieces with
  | nil =>
    refine ⟨he.closed, fun signs => ?_⟩
    simp [SpreadProtrudes, not_protrudes_of_atomic he]
  | cons piece rest => exact protrudes_mergeChain hl h

end Merging

section Literals

attribute [local simp] exposedElements exposedMembers

variable {mode : Mode} (span : Span)

theorem spreadProtrudes_entry (signs : Bool) (text : String) (others : List Piece) :
    SpreadProtrudes signs (keepEntry text ++ others) ↔
      text = "" ∧ SpreadProtrudes signs others := by
  unfold SpreadProtrudes keepEntry
  by_cases h : text = "" <;> simp [h]

theorem spreadProtrudes_spread {argument : Expr} (h : Assessed .value argument) (signs : Bool)
    (others : List Piece) :
    SpreadProtrudes signs (keepSpread (filterOperand .value argument).value ++ others) ↔
      if (expression .value argument).value = "" then SpreadProtrudes signs others
      else exposedFiltered signs .value argument = true := by
  by_cases dropped : (expression .value argument).value = ""
  · simp [keepSpread, dropped]
  · rw [h.exposedFiltered_iff, SpreadProtrudes, keepSpread, if_neg (by simpa using dropped)]
    simp [dropped]

theorem elementPiece_some {element : Expr}
    (h : ∀ place argument, element ≠ .spread place argument) :
    (elementPiece (some element)).value = keepEntry (expression .value element).value := by
  cases element with
  | spread place argument => exact absurd rfl (h place argument)
  | _ => rfl

theorem closed_elementPiece {element : Option Expr}
    (he : ∀ e, element = some e → Assessed .value e)
    (hs : ∀ place argument, element = some (.spread place argument) → Assessed .value argument) :
    ∀ piece ∈ (elementPiece element).value, Closed piece.text := by
  have null : Closed "null" := rfl
  unfold elementPiece
  split
  · simpa [Piece.text] using null
  · exact forall_keepSpread (hs _ _ rfl).closed_filtered
  · exact forall_keepEntry (he _ rfl).closed

theorem exposedElements_iff {elements : List (Option Expr)}
    (h : ∀ place argument, some (.spread place argument) ∈ elements → Assessed .value argument)
    (signs : Bool) :
    exposedElements signs elements = true ↔
      SpreadProtrudes signs (elements.flatMap fun element => (elementPiece element).value) := by
  induction elements with
  | nil => simp [SpreadProtrudes]
  | cons element rest ih =>
    have later := ih fun place argument hin => h place argument (List.mem_cons_of_mem _ hin)
    rw [List.flatMap_cons]
    rcases element with _ | element
    · simp [elementPiece, SpreadProtrudes]
    · by_cases spread : ∃ place argument, element = .spread place argument
      · obtain ⟨place, argument, rfl⟩ := spread
        rw [elementPiece, Report.value_map, spreadProtrudes_spread (h place argument (by simp)),
          exposedElements, ← later]
        split <;> rfl
      · have other : ∀ place argument, element ≠ .spread place argument :=
          fun place argument same => spread ⟨place, argument, same⟩
        rw [elementPiece_some other, spreadProtrudes_entry, exposedElements, ← later]
        · simp
        · exact other

/-- An array literal whose elements are assessed, and the arguments of its spreads with them. -/
theorem assessed_array {elements : List (Option Expr)}
    (he : ∀ e, some e ∈ elements → Assessed .value e)
    (hs : ∀ place argument, some (.spread place argument) ∈ elements → Assessed .value argument) :
    Assessed mode (.array span elements) := by
  have pieces : ∀ piece ∈ elements.flatMap fun element => (elementPiece element).value,
      Closed piece.text := by
    intro piece hp
    obtain ⟨element, hin, hp⟩ := List.mem_flatMap.mp hp
    exact closed_elementPiece (fun e same => he e (same ▸ hin))
      (fun place argument same => hs place argument (same ▸ hin)) piece hp
  have comma : Closed ", " := rfl
  have empty : Atomic "[]" := atomic_of_outside? (by decide) (by decide)
  have written := protrudes_literal empty
    (fun texts h => atomic_square (closed_intercalate comma h)) pieces
  constructor
  · rw [value_array]
    exact written.1
  · intro signs
    rw [value_array]
    exact (exposedElements_iff hs signs).trans (written.2 signs).symm

theorem closed_keyText {key : Expr} (h : Assessed .value key) :
    Closed (settledText (keyText key)) := by
  cases key with
  | identifier place name => exact closed_hashKey name
  | literal place content =>
    have written := h.closed
    rw [value_literal] at written
    rw [keyText]
    split
    · exact closed_hashKey _
    · exact closed_number _
    · exact written
  | _ => rfl

theorem closed_propertyEntry {key value : Expr} (computed method : Bool)
    (hk : Assessed .value key) (hv : Assessed .value value) :
    Closed (settledText (propertyEntry key value computed method).value) := by
  have nothing : Closed "" := rfl
  have written : Closed (settledText (propertyKey key computed).value) := by
    cases computed with
    | true =>
      rw [propertyKey, if_pos rfl, Report.value_map]
      split
      · exact nothing
      · exact (atomic_parenthesize hk.closed).closed
    | false => exact closed_keyText hk
  cases method with
  | true => exact nothing
  | false =>
    rw [propertyEntry, if_neg (by decide), Report.value_bind]
    split
    · exact nothing
    · rename_i name hn
      rw [hn] at written
      rw [Report.value_bind]
      split
      · exact nothing
      · have colon : Closed ": " := rfl
        exact closed_append (closed_append written colon) hv.closed

theorem closed_memberPiece {member : Member} (h : ∀ e ∈ member.expressions, Assessed .value e) :
    ∀ piece ∈ (memberPiece member).value, Closed piece.text := by
  cases member with
  | property place key value computed shorthand method =>
    have keyed := h key (by simp [Member.expressions])
    have valued := h value (by simp [Member.expressions])
    rw [memberPiece, Report.value_map, value_settle]
    exact forall_keepEntry (closed_propertyEntry computed method keyed valued)
  | spread place argument =>
    have assessed := h argument (by simp [Member.expressions])
    exact forall_keepSpread assessed.closed_filtered

theorem exposedMembers_iff {members : List Member}
    (h : ∀ member ∈ members, ∀ e ∈ member.expressions, Assessed .value e) (signs : Bool) :
    exposedMembers signs members = true ↔
      SpreadProtrudes signs (members.flatMap fun member => (memberPiece member).value) := by
  induction members with
  | nil => simp [SpreadProtrudes]
  | cons member rest ih =>
    rw [List.forall_mem_cons] at h
    have later := ih h.2
    rw [List.flatMap_cons]
    cases member with
    | property place key value computed shorthand method =>
      have entry : (memberPiece (.property place key value computed shorthand method)).value =
          keepEntry (settledText (propertyEntry key value computed method).value) := by
        rw [memberPiece, Report.value_map, value_settle]
      rw [exposedMembers, entry, spreadProtrudes_entry, ← later]
      simp [keepEntry]
    | spread place argument =>
      have assessed := h.1 argument (by simp [Member.expressions])
      rw [memberPiece, Report.value_map, spreadProtrudes_spread assessed, exposedMembers, ← later]
      split <;> rfl

theorem assessed_object {members : List Member}
    (h : ∀ member ∈ members, ∀ e ∈ member.expressions, Assessed .value e) :
    Assessed mode (.object span members) := by
  have pieces : ∀ piece ∈ members.flatMap fun member => (memberPiece member).value,
      Closed piece.text := by
    intro piece hp
    obtain ⟨member, hin, hp⟩ := List.mem_flatMap.mp hp
    exact closed_memberPiece (h member hin) piece hp
  have comma : Closed ", " := rfl
  have empty : Atomic "\x7b\x7d" := atomic_of_outside? (by decide) (by decide)
  have written := protrudes_literal empty
    (fun texts h => atomic_hash (closed_intercalate comma h)) pieces
  constructor
  · rw [value_object]
    exact written.1
  · intro signs
    rw [value_object]
    exact (exposedMembers_iff h signs).trans (written.2 signs).symm

end Literals

section Templates

attribute [local simp] exposedSegments

variable {mode : Mode} (span : Span)

theorem closed_segmentText {segment : Segment} (h : ∀ e ∈ segment.expressions, Assessed mode e) :
    ∀ text ∈ (segmentText mode segment).value, Closed text := by
  cases segment with
  | text content => simpa [segmentText] using (atomic_quote content).closed
  | expression inner =>
    have assessed := h inner (by simp [Segment.expressions])
    exact forall_keepText assessed.closed_operand

theorem closed_segmentTexts {segments : List Segment}
    (h : ∀ segment ∈ segments, ∀ e ∈ segment.expressions, Assessed mode e) :
    ∀ text ∈ segments.flatMap fun segment => (segmentText mode segment).value, Closed text := by
  intro text ht
  obtain ⟨segment, hin, ht⟩ := List.mem_flatMap.mp ht
  exact closed_segmentText (h segment hin) text ht

theorem closed_concatenation {texts : List String} (h : ∀ text ∈ texts, Closed text) :
    Closed (concatenation texts) := by
  have tilde : Closed " ~ " := rfl
  unfold concatenation
  split
  · rfl
  · exact closed_intercalate tilde h

/-- A text before other texts has the operator after it. -/
theorem protrudes_concatenation {text : String} {rest : List String}
    (h : ∀ other ∈ text :: rest, Closed other) (signs : Bool) :
    Protrudes signs (concatenation (text :: rest)) ↔ rest ≠ [] ∨ Protrudes signs text := by
  have tilde : Closed " ~ " := rfl
  rw [List.forall_mem_cons] at h
  cases rest with
  | nil => simp [concatenation]
  | cons next rest =>
    have joined : Protrudes signs (text ++ " ~ " ++ " ~ ".intercalate (next :: rest)) :=
      protrudes_between h.1 tilde (closed_intercalate tilde h.2) (by decide)
    simp [concatenation, String.intercalate_cons_cons, joined]

theorem exposedSegments_iff {segments : List Segment}
    (h : ∀ segment ∈ segments, ∀ e ∈ segment.expressions, Assessed mode e) (signs : Bool) :
    exposedSegments signs mode segments = true ↔
      Protrudes signs
        (concatenation (segments.flatMap fun segment => (segmentText mode segment).value)) := by
  induction segments with
  | nil =>
    have quotes : Atomic "''" := atomic_of_outside? (by decide) (by decide)
    simpa [concatenation] using not_protrudes_of_atomic quotes
  | cons segment rest ih =>
    have texts := closed_segmentTexts h
    rw [List.forall_mem_cons] at h
    have later := ih h.2
    rw [List.flatMap_cons] at texts ⊢
    cases segment with
    | text content =>
      have hidden : ¬ Protrudes signs (quote content) := not_protrudes_of_atomic (atomic_quote content)
      rw [segmentText, Report.value_pure, List.singleton_append] at texts ⊢
      rw [protrudes_concatenation texts, exposedSegments, value_segmentTexts]
      simp [hidden]
    | expression inner =>
      have assessed := h.1 inner (by simp [Segment.expressions])
      have operandIff := assessed.exposedOperand_iff signs
      rw [exposedOperand] at operandIff
      rw [segmentText, Report.value_map] at texts ⊢
      by_cases dropped : (expression mode inner).value = ""
      · simpa [keepText, dropped] using later
      · have kept : keepText (operand mode inner).value = [(operand mode inner).value] :=
          if_neg (by simpa using dropped)
        rw [kept, List.singleton_append] at texts ⊢
        rw [protrudes_concatenation texts, exposedSegments, if_neg dropped, value_segmentTexts,
          Bool.or_eq_true, operandIff]
        simp

theorem assessed_template {segments : List Segment}
    (h : ∀ segment ∈ segments, ∀ e ∈ segment.expressions, Assessed mode e) :
    Assessed mode (.template span segments) := by
  constructor
  · rw [value_template]
    exact closed_concatenation (closed_segmentTexts h)
  · intro signs
    rw [value_template]
    exact exposedSegments_iff h signs

end Templates

/-- An operator is exposed in an ordinary expression if and only if it protrudes in its text. -/
theorem assessed_expression (e : Expr) (h : ∀ inner ∈ e.subexpressions, isOrdinary inner = true) :
    ∀ mode, Assessed mode e := by
  induction e using Expr.induction with
  | identifier span name =>
    intro mode
    have plain : isPlainKey name = true := h _ (Expr.mem_subexpressions_self _)
    refine .of_atomic ?_ fun signs => rfl
    rw [value_identifier]
    exact atomic_of_isPlainKey plain
  | literal span content =>
    intro mode
    have ordinary := h _ (Expr.mem_subexpressions_self _)
    refine assessed_literal span fun value number => ?_
    simpa [isOrdinary, number] using ordinary
  | binary span operator left right hl hr =>
    intro mode
    simp only [Expr.subexpressions, List.forall_mem_cons, List.forall_mem_append] at h
    have neutral : ∀ c ∈ operator.toList, isNeutral c = true := List.all_eq_true.mp h.1
    exact assessed_binary span neutral (hl h.2.1 mode) (hr h.2.2 mode)
  | logical span operator left right hl hr =>
    intro mode
    simp only [Expr.subexpressions, List.forall_mem_cons, List.forall_mem_append] at h
    exact assessed_logical span (hl h.2.1 mode) (hr h.2.2 mode)
  | conditional span test consequent alternate ht hc ha =>
    intro mode
    simp only [Expr.subexpressions, List.forall_mem_cons, List.forall_mem_append] at h
    exact assessed_conditional span (ht h.2.1.1 .template) (hc h.2.1.2 mode) (ha h.2.2 mode)
  | unary span operator argument ih =>
    intro mode
    simp only [Expr.subexpressions, List.forall_mem_cons] at h
    exact assessed_unary span (ih h.2 mode)
  | call span callee arguments optional hc ha =>
    intro mode
    simp only [Expr.subexpressions, argumentExpressions_eq, List.forall_mem_cons,
      List.forall_mem_append, List.mem_flatMap] at h
    refine assessed_call span optional (hc h.2.1 mode) fun argument hin => ?_
    exact ha argument hin (fun inner hi => h.2.2 inner ⟨argument, hin, hi⟩) mode
  | member span receiver property computed optional hr hp =>
    intro mode
    simp only [Expr.subexpressions, List.forall_mem_cons, List.forall_mem_append] at h
    refine assessed_member span computed optional (hr h.2.1 mode) (hp h.2.2 mode) ?_
    intro name hn
    cases property <;> cases hn
    exact h.2.2 _ (Expr.mem_subexpressions_self _)
  | chain span inner ih =>
    intro mode
    simp only [Expr.subexpressions, List.forall_mem_cons] at h
    have assessed := ih h.2 mode
    constructor
    · simpa using assessed.closed
    · intro signs
      rw [value_chain]
      exact assessed.exposed_iff signs
  | array span elements he hs =>
    intro mode
    simp only [Expr.subexpressions, elementExpressions_eq, List.forall_mem_cons,
      List.mem_flatMap] at h
    apply assessed_array span
    · intro e hin
      exact he e hin (fun inner hi => h.2 inner ⟨_, hin, e, by simp, hi⟩) .value
    · intro place argument hin
      refine hs place argument hin (fun inner hi => ?_) .value
      refine h.2 inner ⟨_, hin, .spread place argument, by simp, ?_⟩
      simp [Expr.subexpressions, hi]
  | object span members ih =>
    intro mode
    simp only [Expr.subexpressions, memberExpressions_eq, List.forall_mem_cons,
      List.mem_flatMap] at h
    apply assessed_object span
    intro member hin e he
    exact ih member hin e he (fun inner hi => h.2 inner ⟨member, hin, e, he, hi⟩) .value
  | spread span argument ih =>
    intro mode
    simp only [Expr.subexpressions, List.forall_mem_cons] at h
    exact assessed_spread span (ih h.2 mode)
  | template span segments ih =>
    intro mode
    simp only [Expr.subexpressions, segmentExpressions_eq, List.forall_mem_cons,
      List.mem_flatMap] at h
    apply assessed_template span
    intro segment hin e he
    exact ih segment hin e he (fun inner hi => h.2 inner ⟨segment, hin, e, he, hi⟩) mode
  | assignment span operator target value _ =>
    intro mode
    exact .of_dropped (value_assignment ..) fun signs => rfl
  | unknown =>
    intro mode
    exact .of_dropped (value_unknown mode) fun signs => rfl

end TwigComponent.Twig
