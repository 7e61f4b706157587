import TwigComponent.Proofs.Exposure

/-!
# What filters and accesses apply to

A filter, an access and a list of arguments bind tighter than every operator, so
they apply to the whole of the text in front of them only if that text is
atomic. Under a filter the operand is grouped if it is compound or unary, and in
front of an access only if it is compound.

Neither is always enough. Both theorems say exactly when: a text is atomic if
and only if no operator is exposed in it. In particular an access to a unary
receiver has the text of the unary expression of the access.
-/
namespace TwigComponent.Twig

open Source Text

section Filters

/-- The text that a filter attaches to is always closed, and it is atomic if and only if no operator of
the expression is exposed. A text that is dropped is atomic. -/
theorem filterOperand_atomic_iff (mode : Mode) (e : Expr)
    (h : ∀ inner ∈ e.subexpressions, isOrdinary inner = true) :
    Closed (filterOperand mode e).value ∧
      (Atomic (filterOperand mode e).value ↔ exposedFiltered true mode e = false) := by
  have assessed := assessed_expression e h mode
  constructor
  · exact assessed.closed_filtered
  · exact atomic_iff_of_protrudes assessed.closed_filtered (assessed.exposedFiltered_iff true)

/-- `[...-x, y]` -/
def negatedSpread : Expr :=
  .array {} [some (.spread {} (.unary {} "-" (.identifier {} "x"))), some (.identifier {} "y")]

theorem filterOperand_atomic_iff_negatedSpread :
    (∀ inner ∈ negatedSpread.subexpressions, isOrdinary inner = true) ∧
      (filterOperand .value negatedSpread).value = "(-x)|merge([y])" ∧
      Atomic (filterOperand .value negatedSpread).value := by
  have ordinary : ∀ inner ∈ negatedSpread.subexpressions, isOrdinary inner = true := by decide
  refine ⟨ordinary, by decide, ?_⟩
  exact (filterOperand_atomic_iff .value negatedSpread ordinary).2.mpr (by decide)

/-- A template literal that consists of `-x`. -/
def negatedSegment : Expr :=
  .template {} [.expression (.unary {} "-" (.identifier {} "x"))]

/-- A template literal is neither compound nor unary, and it may have a text that is. -/
theorem negatedSegment_not_grouped :
    (∀ inner ∈ negatedSegment.subexpressions, isOrdinary inner = true) ∧
      ∀ mode, (filterOperand mode negatedSegment).value = "-x" ∧
        ¬ Atomic (filterOperand mode negatedSegment).value := by
  constructor
  · decide
  · intro mode
    have text : (filterOperand mode negatedSegment).value = "-x" := by cases mode <;> decide
    rw [text]
    refine ⟨rfl, fun atomic => atomic.unsigned ?_⟩
    decide

end Filters

section Receivers

/-- What an access or a call applies to. A call of `Object.entries` applies to nothing. -/
def receiver? : Expr → Option Expr
  | .member _ receiver _ _ _ => some receiver
  | .call _ callee _ _ => if callee.isObjectEntries then none else some callee
  | _ => none

/-- What an access or a call appends to the text of its receiver. -/
def appended (mode : Mode) : Expr → String
  | .member _ _ property computed _ =>
    if computed then "[" ++ (expression mode property).value ++ "]"
    else "." ++ property.identifier?.getD ""
  | .call _ _ arguments _ =>
    "(" ++ ", ".intercalate (arguments.map fun argument => (expression mode argument).value) ++ ")"
  | _ => ""

/-- The same access or call with another receiver. -/
def withReceiver (e receiver : Expr) : Expr :=
  match e with
  | .member span _ property computed optional => .member span receiver property computed optional
  | .call span _ arguments optional => .call span receiver arguments optional
  | other => other

variable {mode : Mode} {e receiver : Expr}

theorem receiver?_cases (h : receiver? e = some receiver) :
    (∃ span property computed optional, e = .member span receiver property computed optional) ∨
      ∃ span arguments optional, e = .call span receiver arguments optional ∧
        ¬ receiver.isObjectEntries = true := by
  cases e with
  | member span object property computed optional =>
    cases h
    exact .inl ⟨span, property, computed, optional, rfl⟩
  | call span callee arguments optional =>
    rw [receiver?] at h
    split at h
    · cases h
    · rename_i plain
      cases h
      exact .inr ⟨span, arguments, optional, rfl, plain⟩
  | _ => cases h

theorem withReceiver_self (hr : receiver? e = some receiver) : withReceiver e receiver = e := by
  obtain ⟨span, property, computed, optional, rfl⟩ | ⟨span, arguments, optional, rfl, -⟩ :=
    receiver?_cases hr
  · rfl
  · rfl

theorem receiver_kept (hr : receiver? e = some receiver) (ht : (expression mode e).value ≠ "") :
    (operand mode receiver).value ≠ "" := by
  intro dropped
  apply ht
  obtain ⟨span, property, computed, optional, rfl⟩ | ⟨span, arguments, optional, rfl, plain⟩ :=
    receiver?_cases hr
  · rw [value_member, if_pos dropped]
  · rw [value_call, if_neg plain, if_pos dropped]

/-- Whatever it applies to, an access or a call appends the same text. -/
theorem value_withReceiver {other : Expr} (hr : receiver? e = some receiver)
    (ht : (expression mode e).value ≠ "") (ho : (operand mode other).value ≠ "")
    (hw : receiver? (withReceiver e other) = some other) :
    (expression mode (withReceiver e other)).value = (operand mode other).value ++ appended mode e := by
  have kept := receiver_kept hr ht
  obtain ⟨span, property, computed, optional, rfl⟩ | ⟨span, arguments, optional, rfl, -⟩ :=
    receiver?_cases hr
  · rw [value_member, if_neg kept] at ht
    rw [withReceiver, value_member, if_neg ho]
    cases computed with
    | true => simp [appended, String.append_assoc]
    | false =>
      cases named : property.identifier? with
      | some name => simp [appended, named, String.append_assoc]
      | none => simp [named] at ht
  · have plain : ¬ other.isObjectEntries = true := by
      intro entries
      simp [withReceiver, receiver?, entries] at hw
    rw [withReceiver, value_call, if_neg plain, if_neg ho]
    simp [appended, String.append_assoc]

theorem atomic_appended (h : ∀ inner ∈ e.subexpressions, isOrdinary inner = true)
    (hr : receiver? e = some receiver) (ht : (expression mode e).value ≠ "") :
    Atomic (appended mode e) := by
  obtain ⟨span, property, computed, optional, rfl⟩ | ⟨span, arguments, optional, rfl, -⟩ :=
    receiver?_cases hr
  · simp only [Expr.subexpressions, List.forall_mem_cons, List.forall_mem_append] at h
    cases computed with
    | true =>
      rw [appended, if_pos rfl]
      exact atomic_square (assessed_expression property h.2.2 mode).closed
    | false =>
      have point : Atomic "." := atomic_of_all (by decide) (by decide)
      rw [appended, if_neg (by decide)]
      cases property with
      | identifier place name =>
        have plain : isPlainKey name = true := h.2.2 _ (Expr.mem_subexpressions_self _)
        exact atomic_append point (atomic_of_isPlainKey plain)
      | _ => exact absurd (by simp [value_member, Expr.identifier?]) ht
  · simp only [Expr.subexpressions, argumentExpressions_eq, List.forall_mem_cons,
      List.forall_mem_append, List.mem_flatMap] at h
    apply atomic_round (closed_arguments _)
    intro argument hin
    exact assessed_expression argument (fun inner hi => h.2.2 inner ⟨argument, hin, hi⟩) mode

theorem ordinary_receiver (h : ∀ inner ∈ e.subexpressions, isOrdinary inner = true)
    (hr : receiver? e = some receiver) :
    ∀ inner ∈ receiver.subexpressions, isOrdinary inner = true := by
  obtain ⟨span, property, computed, optional, rfl⟩ | ⟨span, arguments, optional, rfl, -⟩ :=
    receiver?_cases hr
  all_goals
    simp only [Expr.subexpressions, List.forall_mem_cons, List.forall_mem_append] at h
    exact h.2.1

/-- The text of a unary expression begins with its operator. -/
theorem not_atomic_unary {span : Span} {operator : String} {argument : Expr}
    (ht : (expression mode (.unary span operator argument)).value ≠ "") :
    ¬ Atomic (expression mode (.unary span operator argument)).value := by
  intro atomic
  have text := value_unary mode span operator argument
  unfold unaryOperator? at text
  split_ifs at text with negation minus plus
  · apply atomic.unnegated
    rw [text, String.toList_append]
    exact List.prefix_append _ _
  · apply atomic.unsigned
    rw [text, Signed, String.toList_append]
    exact .inl rfl
  · apply atomic.unsigned
    rw [text, Signed, String.toList_append]
    exact .inr rfl
  · exact ht text

/-- An access to a unary receiver reads as the unary expression of the access. -/
theorem value_unary_receiver {span : Span} {operator : String} {argument : Expr}
    (hr : receiver? e = some (.unary span operator argument)) (ht : (expression mode e).value ≠ "")
    (ha : (expression mode argument).value ≠ "")
    (hw : receiver? (withReceiver e argument) = some argument) :
    (expression mode e).value =
      (expression mode (.unary span operator (withReceiver e argument))).value := by
  have kept := receiver_kept hr ht
  have outer := value_withReceiver hr ht kept ((withReceiver_self hr).symm ▸ hr)
  rw [withReceiver_self hr] at outer
  have inner := value_withReceiver hr ht (by simpa using ha) hw
  have bare : (operand mode (withReceiver e argument)).value =
      (expression mode (withReceiver e argument)).value := by
    obtain ⟨place, property, computed, optional, rfl⟩ | ⟨place, arguments, optional, rfl, -⟩ :=
      receiver?_cases hr
    · rfl
    · rfl
  have unary : (operand mode (.unary span operator argument)).value =
      (expression mode (.unary span operator argument)).value := rfl
  rw [unary, value_unary] at kept outer
  rw [value_unary]
  cases known : unaryOperator? operator with
  | none => exact absurd (by rw [known]) kept
  | some mark =>
    rw [known] at outer
    calc (expression mode e).value
        = mark ++ (operand mode argument).value ++ appended mode e := outer
      _ = mark ++ (expression mode (withReceiver e argument)).value := by
        rw [inner, String.append_assoc]
      _ = mark ++ (operand mode (withReceiver e argument)).value := by rw [bare]

/-- What an access or a call appends is appended to a text that is atomic if and only if no operator of
the receiver is exposed. If none is, no unary expression has the same text. If the receiver is a unary
expression, then the unary expression of the access has the same text. -/
theorem receiver_atomic_iff (mode : Mode) (e receiver : Expr)
    (h : ∀ inner ∈ e.subexpressions, isOrdinary inner = true)
    (hr : receiver? e = some receiver) (ht : (expression mode e).value ≠ "") :
    (expression mode e).value = (operand mode receiver).value ++ appended mode e ∧
      (Atomic (operand mode receiver).value ↔ exposedOperand true mode receiver = false) ∧
      (exposedOperand true mode receiver = false → ∀ span operator argument,
        (expression mode e).value ≠ (expression mode (.unary span operator argument)).value) ∧
      ∀ span operator argument, receiver = .unary span operator argument →
        (expression mode argument).value ≠ "" →
        receiver? (withReceiver e argument) = some argument →
        (expression mode e).value =
          (expression mode (.unary span operator (withReceiver e argument))).value := by
  have assessed := assessed_expression receiver (ordinary_receiver h hr) mode
  have text := value_withReceiver hr ht (receiver_kept hr ht) ((withReceiver_self hr).symm ▸ hr)
  rw [withReceiver_self hr] at text
  have atomicIff : Atomic (operand mode receiver).value ↔
      exposedOperand true mode receiver = false :=
    atomic_iff_of_protrudes assessed.closed_operand (assessed.exposedOperand_iff true)
  refine ⟨text, atomicIff, ?_, ?_⟩
  · intro hidden span operator argument same
    have whole : Atomic (expression mode e).value := by
      rw [text]
      exact atomic_append (atomicIff.mpr hidden) (atomic_appended h hr ht)
    rw [same] at whole ht
    exact not_atomic_unary ht whole
  · rintro span operator argument rfl ha hw
    exact value_unary_receiver hr ht ha hw

/-- `(a + b)[-x].f(y)` -/
def indexedSum : Expr :=
  .call {} (.member {} (.member {}
    (.binary {} "+" (.identifier {} "a") (.identifier {} "b"))
    (.unary {} "-" (.identifier {} "x")) true false)
    (.identifier {} "f") false false) [.identifier {} "y"] false

theorem receiver_atomic_iff_indexedSum :
    (expression .template indexedSum).value = "(a + b)[-x].f(y)" ∧
      (∃ receiver, receiver? indexedSum = some receiver ∧
        Atomic (operand .template receiver).value) ∧
      ∀ span operator argument, (expression .template indexedSum).value ≠
        (expression .template (.unary span operator argument)).value := by
  have text : (expression .template indexedSum).value = "(a + b)[-x].f(y)" := by decide
  have facts := receiver_atomic_iff .template indexedSum _ (by decide) rfl (by decide)
  have hidden := facts.2.1.mpr (by decide)
  exact ⟨text, ⟨_, rfl, hidden⟩, facts.2.2.1 (by decide)⟩

/-- `(-x).y` -/
def negatedReceiver : Expr :=
  .member {} (.unary {} "-" (.identifier {} "x")) (.identifier {} "y") false false

/-- `-(x.y)` -/
def negatedMember : Expr :=
  .unary {} "-" (.member {} (.identifier {} "x") (.identifier {} "y") false false)

/-- A unary receiver is not grouped, so the operator applies to the member. -/
theorem negatedReceiver_reads_as_negatedMember :
    (∀ inner ∈ negatedReceiver.subexpressions, isOrdinary inner = true) ∧
      receiver? negatedReceiver = some (.unary {} "-" (.identifier {} "x")) ∧
      ∀ mode, (expression mode negatedReceiver).value = "-x.y" ∧
        (expression mode negatedMember).value = "-x.y" ∧
        ¬ Atomic (operand mode (.unary {} "-" (.identifier {} "x"))).value := by
  refine ⟨by decide, rfl, fun mode => ?_⟩
  have receiverText : (operand mode (.unary {} "-" (.identifier {} "x"))).value = "-x" := by
    cases mode <;> decide
  have text : (expression mode negatedReceiver).value = "-x.y" := by cases mode <;> decide
  have swapped : (expression mode negatedMember).value = "-x.y" := by cases mode <;> decide
  refine ⟨text, swapped, fun atomic => atomic.unsigned ?_⟩
  rw [receiverText]
  decide

end Receivers

end TwigComponent.Twig
