import TwigComponent.Source.Expression

/-!
# Template literals as written

A template literal arrives as two lists, its static texts and its embedded
expressions. Its segments are one list of both: quasi 0, expression 0, quasi 1,
and so on, then sorted by the offsets that the parts record. The sort is stable,
so the order written decides between equal offsets.
-/
namespace TwigComponent.Source

open Text

/-- A static part. The cooked text has its escapes resolved and is missing if it has an
invalid one. -/
structure Quasi where
  span : Span
  raw : String
  cooked : Option String
deriving DecidableEq, Repr

def Quasi.text (quasi : Quasi) : String := quasi.cooked.getD quasi.raw

structure TemplateParts where
  quasis : List Quasi
  expressions : List Expr

namespace TemplateParts

/-- A segment with the offset it is sorted by. -/
abbrev Placed := Nat × Segment

/-- A static part without text leaves no segment. -/
def placeQuasi (quasi : Quasi) : List Placed :=
  if quasi.text = "" then [] else [(quasi.span.start, .text quasi.text)]

def placeExpression (expression : Expr) : Placed :=
  (expression.span.start, .expression expression)

/-- The segments in the order written. -/
def interleave : List Quasi → List Expr → List Placed
  | [], [] => []
  | quasi :: quasis, [] => placeQuasi quasi ++ interleave quasis []
  | [], expression :: expressions => placeExpression expression :: interleave [] expressions
  | quasi :: quasis, expression :: expressions =>
    placeQuasi quasi ++ placeExpression expression :: interleave quasis expressions

/-- The segments with their offsets, which never decrease. -/
def placed (parts : TemplateParts) : List Placed :=
  (interleave parts.quasis parts.expressions).mergeSort fun a b => a.1 ≤ b.1

def segments (parts : TemplateParts) : List Segment :=
  parts.placed.map (·.2)

end TemplateParts

end TwigComponent.Source
