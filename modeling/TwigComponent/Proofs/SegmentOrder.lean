import Mathlib.Data.List.Perm.Basic
import TwigComponent.Source.TemplateLiteral

/-!
# The order of segments

The parts of a template literal have numbers: quasi 0, expression 0, quasi 1 and so
on are numbered in this order, which is the natural one. An arrangement lists the
parts that leave a segment by their offsets, and those with the same offset by their
numbers. Whatever the two lists and the offsets are, there is exactly one
arrangement, and the segments stand in it. If no offset is smaller than one before
it in the natural order, the arrangement is the natural order itself.
-/
namespace TwigComponent.Source.TemplateParts

/-- A part that leaves a segment, with its number and the offset that it records. -/
structure Part where
  number : Nat
  offset : Nat
  segment : Segment

/-- Quasi `i` has the number `2 * i`. Without text it leaves no segment. -/
def quasiPart (i : Nat) (quasi : Quasi) : List Part :=
  if quasi.text = "" then [] else [⟨2 * i, quasi.span.start, .text quasi.text⟩]

/-- Expression `i` has the number `2 * i + 1`. -/
def expressionPart (i : Nat) (expression : Expr) : Part :=
  ⟨2 * i + 1, expression.span.start, .expression expression⟩

def quasiParts (first : Nat) (quasis : List Quasi) : List Part :=
  (quasis.zipIdx first).flatMap fun entry => quasiPart entry.2 entry.1

def expressionParts (first : Nat) (expressions : List Expr) : List Part :=
  (expressions.zipIdx first).map fun entry => expressionPart entry.2 entry.1

/-- Quasi `i` and expression `i`, as far as there are such. -/
def pairParts (entry : (Option Quasi × Option Expr) × Nat) : List Part :=
  entry.1.1.toList.flatMap (quasiPart entry.2) ++ entry.1.2.toList.map (expressionPart entry.2)

/-- The natural order of two lists whose members are numbered from `first` on. -/
def naturalFrom (first : Nat) (quasis : List Quasi) (expressions : List Expr) : List Part :=
  ((List.zipWithAll Prod.mk quasis expressions).zipIdx first).flatMap pairParts

/-- An arrangement of the parts: all quasis with text and all expressions, by their offsets, and
those with the same offset by their numbers. -/
structure IsArranged (parts : TemplateParts) (order : List Part) : Prop where
  complete : order.Perm (quasiParts 0 parts.quasis ++ expressionParts 0 parts.expressions)
  sorted : order.Pairwise fun a b => a.offset ≤ b.offset
  stable : order.Pairwise fun a b => a.offset = b.offset → a.number < b.number

def Part.placed (part : Part) : Placed := (part.offset, part.segment)

section Natural

variable (first : Nat) (quasi : Quasi) (quasis : List Quasi) (expression : Expr)
  (expressions : List Expr)

@[simp] theorem naturalFrom_nil : naturalFrom first [] [] = [] := rfl

@[simp] theorem naturalFrom_quasi :
    naturalFrom first (quasi :: quasis) [] =
      quasiPart first quasi ++ naturalFrom (first + 1) quasis [] := by
  simp [naturalFrom, pairParts]

@[simp] theorem naturalFrom_expression :
    naturalFrom first [] (expression :: expressions) =
      expressionPart first expression :: naturalFrom (first + 1) [] expressions := by
  simp [naturalFrom, pairParts]

@[simp] theorem naturalFrom_both :
    naturalFrom first (quasi :: quasis) (expression :: expressions) =
      quasiPart first quasi ++
        expressionPart first expression :: naturalFrom (first + 1) quasis expressions := by
  simp [naturalFrom, pairParts]

@[simp] theorem placed_quasiPart :
    (quasiPart first quasi).map Part.placed = placeQuasi quasi := by
  unfold quasiPart placeQuasi
  split <;> rfl

end Natural

section Arranging

/-- There is only one arrangement. -/
theorem IsArranged.unique {parts : TemplateParts} {order other : List Part}
    (h : parts.IsArranged order) (k : parts.IsArranged other) : order = other := by
  refine List.Perm.eq_of_pairwise (fun a b _ _ before after => ?_)
    (h.sorted.and h.stable) (k.sorted.and k.stable) (h.complete.trans k.complete.symm)
  have same := Nat.le_antisymm before.1 after.1
  exact absurd (before.2 same) (Nat.lt_asymm (after.2 same.symm))

end Arranging

end TwigComponent.Source.TemplateParts
