import TwigComponent.Proofs.Modes

/-!
# Expressions with a dropped operand

An operand without a Twig form leaves the empty text. Two writers look whether
that happened, the one of a member at its receiver and the one of a call at its
callee, and then drop the whole expression. No other writer looks, so any other
dropped operand leaves a hole in the text around it. The statement below is
exact: it says for every expression with a dropped operand whether the
expression goes with it.
-/
namespace TwigComponent.Twig

open Source Text

/-- The operands of an expression, each with the mode in which it is written. The arguments of
`Object.entries` stand for the call and are no operands of it. -/
def operands (mode : Mode) : Expr → List (Mode × Expr)
  | .binary _ _ left right => [(mode, left), (mode, right)]
  | .logical _ _ left right => [(mode, left), (mode, right)]
  | .conditional _ test consequent alternate =>
    [(.template, test), (mode, consequent), (mode, alternate)]
  | .unary _ _ argument => [(mode, argument)]
  | .spread _ argument => [(mode, argument)]
  | .member _ receiver property computed _ =>
    (mode, receiver) :: if computed then [(mode, property)] else []
  | .call _ callee arguments _ =>
    if callee.isObjectEntries then []
    else (mode, callee) :: arguments.map fun argument => (mode, argument)
  | _ => []

def IsDropped (part : Mode × Expr) : Prop := (expression part.1 part.2).value = ""

instance : DecidablePred IsDropped := fun _ => inferInstanceAs (Decidable (_ = _))

/-- The expressions that the writer gives up as a whole: an operator that Twig lacks, a receiver
or a callee that was dropped. -/
def GivenUp (mode : Mode) : Expr → Prop
  | .logical _ operator _ _ => LogicalOperator.ofText? operator = none
  | .unary _ operator _ => unaryOperator? operator = none
  | .member _ receiver _ _ _ => IsDropped (mode, receiver)
  | .call _ callee _ _ => IsDropped (mode, callee)
  | _ => False

theorem unaryOperator_ne_empty {operator mark : String} (h : unaryOperator? operator = some mark) :
    mark ≠ "" := by
  unfold unaryOperator? at h
  split_ifs at h <;> cases h <;> decide

theorem dropped_unary_iff (mode : Mode) (span : Span) (operator : String) (argument : Expr) :
    (expression mode (.unary span operator argument)).value = "" ↔
      unaryOperator? operator = none := by
  rw [value_unary]
  cases h : unaryOperator? operator with
  | none => simp
  | some mark => simp [unaryOperator_ne_empty h]

theorem dropped_logical_iff (mode : Mode) (span : Span) (operator : String) (left right : Expr) :
    (expression mode (.logical span operator left right)).value = "" ↔
      LogicalOperator.ofText? operator = none := by
  rw [value_logical]
  cases LogicalOperator.ofText? operator with
  | none => simp
  | some known => simp [LogicalOperator.write_ne_empty]

theorem dropped_call_iff (mode : Mode) (span : Span) {callee : Expr} (arguments : List Expr)
    (optional : Bool) (hc : callee.isObjectEntries = false) :
    (expression mode (.call span callee arguments optional)).value = "" ↔
      IsDropped (mode, callee) := by
  rw [value_call, hc, IsDropped]
  by_cases h : (expression mode callee).value = "" <;> simp [h]

/-- A member is dropped with its receiver, or for a property name that is not an identifier. -/
theorem dropped_member_iff (mode : Mode) (span : Span) (receiver property : Expr)
    (computed optional : Bool) :
    (expression mode (.member span receiver property computed optional)).value = "" ↔
      IsDropped (mode, receiver) ∨ (computed = false ∧ property.identifier? = none) := by
  rw [value_member, IsDropped]
  by_cases h : (expression mode receiver).value = ""
  · simp [h]
  · cases computed <;> cases property.identifier? <;> simp [h]

/-- An expression with a dropped operand is dropped itself exactly if its operator is unknown or
the operand is the receiver of a member or the callee of a call. -/
theorem dropped_with_operand_iff (mode : Mode) (e : Expr)
    (h : ∃ part ∈ operands mode e, IsDropped part) :
    IsDropped (mode, e) ↔ GivenUp mode e := by
  obtain ⟨part, hin, hp⟩ := h
  cases e with
  | binary span operator left right => simp [IsDropped, GivenUp]
  | logical span operator left right => exact dropped_logical_iff mode span operator left right
  | conditional span test consequent alternate => simp [IsDropped, GivenUp]
  | unary span operator argument => exact dropped_unary_iff mode span operator argument
  | spread span argument => simp [IsDropped, GivenUp]
  | member span receiver property computed optional =>
    rw [GivenUp, IsDropped, dropped_member_iff]
    refine or_iff_left_of_imp ?_
    -- Without a computed property the receiver is the only operand.
    rintro ⟨rfl, -⟩
    rw [operands, if_neg (by simp), List.mem_singleton] at hin
    rwa [hin] at hp
  | call span callee arguments optional =>
    cases hc : callee.isObjectEntries with
    | true => simp [operands, hc] at hin
    | false => exact dropped_call_iff mode span arguments optional hc
  | _ => cases hin

/-- `a + b` for a `b` of an unknown kind. -/
def sumWithHole : Expr := .binary {} "+" (.identifier {} "a") .unknown

/-- A dropped operand need not take the expression with it: of `sumWithHole` the text `a + ` is
left. -/
theorem hole_in_sum :
    ¬ ∀ (mode : Mode) (e : Expr), (∃ part ∈ operands mode e, IsDropped part) →
      IsDropped (mode, e) := by
  intro h
  have dropped : IsDropped (.template, sumWithHole) :=
    h .template sumWithHole ⟨(.template, .unknown), by simp [operands, sumWithHole], by decide⟩
  have text : (expression .template sumWithHole).value = "a + " := by decide
  exact absurd (text.symm.trans dropped) (by decide)

/-- `(typeof a)[b]`. -/
def memberOfDropped : Expr :=
  .member {} (.unary {} "typeof" (.identifier {} "a")) (.identifier {} "b") true false

theorem dropped_with_operand_iff_member :
    (∃ part ∈ operands .value memberOfDropped, IsDropped part) ∧
    IsDropped (.value, memberOfDropped) := by
  have receiver : IsDropped (.value, .unary {} "typeof" (.identifier {} "a")) := by decide
  have operand : ∃ part ∈ operands .value memberOfDropped, IsDropped part :=
    ⟨_, by rw [memberOfDropped, operands]; exact List.mem_cons_self, receiver⟩
  exact ⟨operand, (dropped_with_operand_iff .value memberOfDropped operand).mpr receiver⟩

end TwigComponent.Twig
