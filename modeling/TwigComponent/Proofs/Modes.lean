import Mathlib.Data.List.Basic
import TwigComponent.Proofs.Writing

/-!
# The two modes agree

Template mode and value mode differ in the text of `&&` and `||` and in nothing
else. Whether an expression leaves a text at all, and what is said about its
faults and in which order, does not depend on the mode. The induction carries
diagnostics and emptiness together: the writer of a call or a member looks at
the text of the callee or the receiver, and what it reports depends on whether
that text is empty.
-/
namespace TwigComponent

open Text

/-- The same diagnostics in the same order, and a text on both sides or on neither. -/
structure Report.Agree (a b : Report String) : Prop where
  diagnostics_eq : a.diagnostics = b.diagnostics
  empty_iff : a.value = "" ↔ b.value = ""

namespace Report.Agree

theorem refl (a : Report String) : Agree a a := ⟨rfl, Iff.rfl⟩

theorem map {a b : Report String} (h : Agree a b) {f : String → String}
    (hf : ∀ text, f text = "" ↔ text = "") : Agree (f <$> a) (f <$> b) := by
  refine ⟨?_, ?_⟩
  · rw [Report.diagnostics_map, Report.diagnostics_map, h.diagnostics_eq]
  · rw [Report.value_map, Report.value_map, hf, hf, h.empty_iff]

end Report.Agree

/-- Joined texts are empty only if there is no text, or one that is empty. -/
theorem intercalate_eq_empty (separator : String) (hs : separator ≠ "") (texts : List String) :
    separator.intercalate texts = "" ↔ texts = [] ∨ texts = [""] := by
  match texts with
  | [] => simp
  | [text] => simp
  | first :: second :: rest => simp [String.intercalate_cons_cons, hs]

namespace Twig

open Source

/-- An operator that selects one of its operands, which the two modes write differently. -/
def isSelection : Expr → Bool
  | .logical _ operator _ _ => operator == "&&" || operator == "||"
  | _ => false

theorem concatenation_ne_empty {texts : List String} (h : ∀ text ∈ texts, text ≠ "") :
    concatenation texts ≠ "" := by
  unfold concatenation
  split
  · decide
  · rename_i hne
    rw [ne_eq, intercalate_eq_empty _ (by decide)]
    rintro (rfl | rfl)
    · exact hne rfl
    · exact h "" (by simp) rfl

theorem segmentText_ne_empty (mode : Mode) (segment : Segment) :
    ∀ text ∈ (segmentText mode segment).value, text ≠ "" := by
  intro text ht
  cases segment with
  | text content =>
    rw [segmentText, Report.value_pure, List.mem_singleton] at ht
    simp [ht, quote]
  | expression inner =>
    simp only [segmentText, Report.value_map, keepText] at ht
    split at ht
    · cases ht
    · rename_i hne
      rwa [List.mem_singleton.mp ht]

theorem value_template_ne_empty (mode : Mode) (span : Span) (segments : List Segment) :
    (expression mode (.template span segments)).value ≠ "" := by
  rw [value_template]
  apply concatenation_ne_empty
  intro text ht
  obtain ⟨segment, -, hin⟩ := List.mem_flatMap.mp ht
  exact segmentText_ne_empty mode segment text hin

section Agreement

variable (span : Span)

theorem agree_call {callee : Expr} {arguments : List Expr} (optional : Bool)
    (hc : (expression .template callee).Agree (expression .value callee))
    (ha : ∀ argument ∈ arguments,
      (expression .template argument).Agree (expression .value argument)) :
    (expression .template (.call span callee arguments optional)).Agree
      (expression .value (.call span callee arguments optional)) := by
  have callee_iff : (operand .template callee).value = "" ↔ (operand .value callee).value = "" := by
    simpa using hc.empty_iff
  refine ⟨?_, ?_⟩
  · rw [diagnostics_call, diagnostics_call, hc.diagnostics_eq,
      List.flatMap_congr fun argument h => (ha argument h).diagnostics_eq]
    simp only [callee_iff]
  · rw [value_call, value_call]
    split
    · rw [intercalate_eq_empty _ (by decide), intercalate_eq_empty _ (by decide)]
      match arguments, ha with
      | [], _ => simp
      | [argument], ha => simpa using (ha argument (by simp)).empty_iff
      | _ :: _ :: _, _ => simp
    · by_cases h : (operand .value callee).value = ""
      · rw [if_pos h, if_pos (callee_iff.mpr h)]
      · rw [if_neg h, if_neg (callee_iff.not.mpr h)]
        simp

theorem agree_member {receiver property : Expr} (computed optional : Bool)
    (hr : (expression .template receiver).Agree (expression .value receiver))
    (hp : (expression .template property).Agree (expression .value property)) :
    (expression .template (.member span receiver property computed optional)).Agree
      (expression .value (.member span receiver property computed optional)) := by
  have receiver_iff :
      (operand .template receiver).value = "" ↔ (operand .value receiver).value = "" := by
    simpa using hr.empty_iff
  refine ⟨?_, ?_⟩
  · rw [diagnostics_member, diagnostics_member, hr.diagnostics_eq, hp.diagnostics_eq]
    simp only [receiver_iff]
  · rw [value_member, value_member]
    by_cases h : (operand .value receiver).value = ""
    · rw [if_pos h, if_pos (receiver_iff.mpr h)]
    · rw [if_neg h, if_neg (receiver_iff.not.mpr h)]
      cases computed with
      | true => simp
      | false => cases property.identifier? <;> simp

/-- Neither the diagnostics of an expression nor whether it leaves a text depend on the mode. -/
theorem expression_agree (e : Expr) : (expression .template e).Agree (expression .value e) := by
  induction e using Expr.induction with
  | identifier span name => exact ⟨by simp [expression], by simp⟩
  | literal span literal => exact ⟨by simp, by simp⟩
  | binary span operator left right hl hr =>
    exact ⟨by simp [hl.diagnostics_eq, hr.diagnostics_eq], by simp⟩
  | logical span operator left right hl hr =>
    refine ⟨?_, ?_⟩
    · rw [diagnostics_logical, diagnostics_logical, hl.diagnostics_eq, hr.diagnostics_eq]
    · rw [value_logical, value_logical]
      cases LogicalOperator.ofText? operator with
      | none => exact Iff.rfl
      | some known => simp [LogicalOperator.write_ne_empty]
  | conditional span test consequent alternate _ hc ha =>
    exact ⟨by simp [hc.diagnostics_eq, ha.diagnostics_eq], by simp⟩
  | unary span operator argument ih =>
    refine ⟨?_, ?_⟩
    · rw [diagnostics_unary, diagnostics_unary, ih.diagnostics_eq]
    · rw [value_unary, value_unary]
      cases unaryOperator? operator with
      | none => exact Iff.rfl
      | some mark => simp [ih.empty_iff]
  | call span callee arguments optional hc ha => exact agree_call span optional hc ha
  | member span receiver property computed optional hr hp =>
    exact agree_member span computed optional hr hp
  | chain span inner ih => simpa only [expression] using ih
  | array span elements _ _ =>
    rw [expression_array, expression_array]
    exact Report.Agree.refl _
  | object span members _ =>
    rw [expression_object, expression_object]
    exact Report.Agree.refl _
  | spread span argument ih => exact ⟨by simp [ih.diagnostics_eq], by simp⟩
  | template span segments ih =>
    refine ⟨?_, by simp [value_template_ne_empty, -value_template]⟩
    rw [diagnostics_template, diagnostics_template]
    refine List.flatMap_congr fun segment hs => ?_
    cases segment with
    | text text => rfl
    | expression inner =>
      simp only [segmentText, Report.diagnostics_map, diagnostics_operand]
      exact (ih _ hs inner (by simp [Segment.expressions])).diagnostics_eq
  | assignment span operator target value _ =>
    rw [expression, expression]
    exact Report.Agree.refl _
  | unknown =>
    rw [expression, expression]
    exact Report.Agree.refl _

/-- An operator other than `&&` and `||` is written alike in both modes. -/
theorem LogicalOperator.write_eq {operator : String} {known : LogicalOperator}
    (hk : LogicalOperator.ofText? operator = some known)
    (hs : (operator == "&&" || operator == "||") = false)
    (left right : Expr) (leftText rightText : String) :
    known.write .template left leftText right rightText =
      known.write .value left leftText right rightText := by
  simp only [Bool.or_eq_false_iff, beq_eq_false_iff_ne, ne_eq] at hs
  unfold LogicalOperator.ofText? at hk
  rw [if_neg hs.1, if_neg hs.2] at hk
  split at hk
  · cases hk
    rfl
  · cases hk

/-- Without `&&` and `||` the two modes write the same text. -/
theorem value_eq_of_no_selection (e : Expr)
    (h : ∀ inner ∈ e.subexpressions, isSelection inner = false) :
    (expression .template e).value = (expression .value e).value := by
  induction e using Expr.induction with
  | identifier span name => simp
  | literal span literal => simp
  | binary span operator left right hl hr =>
    simp only [Expr.subexpressions, List.forall_mem_cons, List.forall_mem_append] at h
    simp [hl h.2.1, hr h.2.2]
  | logical span operator left right hl hr =>
    simp only [Expr.subexpressions, List.forall_mem_cons, List.forall_mem_append] at h
    rw [value_logical, value_logical, hl h.2.1, hr h.2.2]
    cases hk : LogicalOperator.ofText? operator with
    | none => rfl
    | some known => exact LogicalOperator.write_eq hk h.1 _ _ _ _
  | conditional span test consequent alternate _ hc ha =>
    simp only [Expr.subexpressions, List.forall_mem_cons, List.forall_mem_append] at h
    simp [hc h.2.1.2, ha h.2.2]
  | unary span operator argument ih =>
    simp only [Expr.subexpressions, List.forall_mem_cons] at h
    simp [value_unary, ih h.2]
  | call span callee arguments optional hc ha =>
    simp only [Expr.subexpressions, argumentExpressions_eq, List.forall_mem_cons,
      List.forall_mem_append, List.mem_flatMap] at h
    have texts : arguments.map (fun argument => (expression .template argument).value) =
        arguments.map fun argument => (expression .value argument).value :=
      List.map_congr_left fun argument hin =>
        ha argument hin fun inner hi => h.2.2 inner ⟨argument, hin, hi⟩
    rw [value_call, value_call, value_operand, value_operand, hc h.2.1, texts]
  | member span receiver property computed optional hr hp =>
    simp only [Expr.subexpressions, List.forall_mem_cons, List.forall_mem_append] at h
    rw [value_member, value_member, value_operand, value_operand, hr h.2.1, hp h.2.2]
  | chain span inner ih =>
    simp only [Expr.subexpressions, List.forall_mem_cons] at h
    simpa using ih h.2
  | array span elements _ _ => rw [expression_array, expression_array]
  | object span members _ => rw [expression_object, expression_object]
  | spread span argument ih =>
    simp only [Expr.subexpressions, List.forall_mem_cons] at h
    simp [ih h.2]
  | template span segments ih =>
    simp only [Expr.subexpressions, segmentExpressions_eq, List.forall_mem_cons,
      List.mem_flatMap] at h
    rw [value_template, value_template]
    refine congrArg concatenation (List.flatMap_congr fun segment hs => ?_)
    cases segment with
    | text text => rfl
    | expression inner =>
      have hin : inner ∈ (Segment.expression inner).expressions := by simp [Segment.expressions]
      have := ih _ hs inner hin fun e he => h.2 e ⟨_, hs, inner, hin, he⟩
      simp [segmentText, this]
  | assignment span operator target value _ => simp
  | unknown => rfl

end Agreement

/-- Whatever the place of an expression, by itself, as an operand or under a filter, the two modes
give the same diagnostics and leave a text on both sides or on neither, and the texts differ only
if `&&` or `||` occurs. -/
theorem modes_agree (e : Expr) :
    (expression .template e).Agree (expression .value e) ∧
    (operand .template e).Agree (operand .value e) ∧
    (filterOperand .template e).Agree (filterOperand .value e) ∧
    ((∀ inner ∈ e.subexpressions, isSelection inner = false) →
      (expression .template e).value = (expression .value e).value ∧
      (operand .template e).value = (operand .value e).value ∧
      (filterOperand .template e).value = (filterOperand .value e).value) := by
  refine ⟨expression_agree e, (expression_agree e).map (groupOperand_eq_empty e),
    (expression_agree e).map (groupFiltered_eq_empty e), fun h => ?_⟩
  have same := value_eq_of_no_selection e h
  exact ⟨same, by simp only [value_operand, same], by simp only [value_filterOperand, same]⟩

/-- The choice `f(a ?? /x/, typeof b) ? -c : [d, ~e]`, which has three faults. -/
def faultyChoice : Expr :=
  .conditional {}
    (.call {} (.identifier {} "f")
      [.logical {} "??" (.identifier {} "a")
        (.literal {} { value := .null, raw := none, regex := some ⟨"x", ""⟩, bigint := none }),
       .unary ⟨3, 5⟩ "typeof" (.identifier {} "b")] false)
    (.unary {} "-" (.identifier {} "c"))
    (.array {} [some (.identifier {} "d"), some (.unary ⟨8, 9⟩ "~" (.identifier {} "e"))])

theorem modes_agree_faultyChoice :
    (∀ inner ∈ faultyChoice.subexpressions, isSelection inner = false) ∧
    (expression .value faultyChoice).value = "f(a ?? , ) ? -c : [d]" ∧
    (expression .value faultyChoice).diagnostics.length = 3 ∧
    (expression .template faultyChoice).diagnostics = (expression .value faultyChoice).diagnostics ∧
    (filterOperand .template faultyChoice).value = (filterOperand .value faultyChoice).value := by
  have free : ∀ inner ∈ faultyChoice.subexpressions, isSelection inner = false := by
    simp [faultyChoice, Expr.subexpressions, argumentExpressions, elementExpressions, isSelection]
  obtain ⟨agree, -, -, same⟩ := modes_agree faultyChoice
  exact ⟨free, by decide, by decide, agree.diagnostics_eq, (same free).2.2⟩

end Twig

end TwigComponent
