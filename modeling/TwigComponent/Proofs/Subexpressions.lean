import TwigComponent.Source.Expression

/-!
# The expressions inside an expression

Conditions on "every name", "every literal" or "every operator" of an expression
are conditions on the list of all expressions inside it, the expression itself
among them. A name that a binding pattern binds counts as an identifier.

Induction over expressions is stated once for the whole grammar: the hypotheses
about the members of a list come as statements about each member, so a proof
needs no second induction for arguments, elements, members or segments.
-/
namespace TwigComponent.Source

open Text

mutual

/-- All expressions inside an expression, itself first. -/
def Expr.subexpressions : Expr → List Expr
  | .identifier span name => [.identifier span name]
  | .literal span literal => [.literal span literal]
  | .binary span operator left right =>
    .binary span operator left right :: (left.subexpressions ++ right.subexpressions)
  | .logical span operator left right =>
    .logical span operator left right :: (left.subexpressions ++ right.subexpressions)
  | .conditional span test consequent alternate =>
    .conditional span test consequent alternate ::
      (test.subexpressions ++ consequent.subexpressions ++ alternate.subexpressions)
  | .unary span operator argument => .unary span operator argument :: argument.subexpressions
  | .call span callee arguments optional =>
    .call span callee arguments optional ::
      (callee.subexpressions ++ argumentExpressions arguments)
  | .member span object property computed optional =>
    .member span object property computed optional ::
      (object.subexpressions ++ property.subexpressions)
  | .chain span inner => .chain span inner :: inner.subexpressions
  | .array span elements => .array span elements :: elementExpressions elements
  | .object span members => .object span members :: memberExpressions members
  | .spread span argument => .spread span argument :: argument.subexpressions
  | .template span segments => .template span segments :: segmentExpressions segments
  | .assignment span operator target value =>
    .assignment span operator target value :: (target.subexpressions ++ value.subexpressions)
  | .unknown => [.unknown]

def argumentExpressions : List Expr → List Expr
  | [] => []
  | argument :: rest => argument.subexpressions ++ argumentExpressions rest

def elementExpressions : List (Option Expr) → List Expr
  | [] => []
  | none :: rest => elementExpressions rest
  | some element :: rest => element.subexpressions ++ elementExpressions rest

def memberExpressions : List Member → List Expr
  | [] => []
  | .property _ key value _ _ _ :: rest =>
    key.subexpressions ++ value.subexpressions ++ memberExpressions rest
  | .spread _ argument :: rest => argument.subexpressions ++ memberExpressions rest

def segmentExpressions : List Segment → List Expr
  | [] => []
  | .text _ :: rest => segmentExpressions rest
  | .expression inner :: rest => inner.subexpressions ++ segmentExpressions rest

/-- All expressions inside a pattern: its keys, its default values and the names it binds. -/
def Pattern.subexpressions : Pattern → List Expr
  | .identifier span name => [.identifier span name]
  | .array _ elements => patternExpressions elements
  | .object _ members => patternMemberExpressions members
  | .assignment _ target default => target.subexpressions ++ default.subexpressions
  | .rest _ argument => argument.subexpressions
  | .unknown => []

def patternExpressions : List (Option Pattern) → List Expr
  | [] => []
  | none :: rest => patternExpressions rest
  | some element :: rest => element.subexpressions ++ patternExpressions rest

def patternMemberExpressions : List PatternMember → List Expr
  | [] => []
  | .property _ key value _ :: rest =>
    key.subexpressions ++ value.subexpressions ++ patternMemberExpressions rest
  | .rest _ argument :: rest => argument.subexpressions ++ patternMemberExpressions rest

end

/-- The expressions that stand directly in a member of an object literal. -/
def Member.expressions : Member → List Expr
  | .property _ key value _ _ _ => [key, value]
  | .spread _ argument => [argument]

/-- The expression that stands directly in a segment. -/
def Segment.expressions : Segment → List Expr
  | .text _ => []
  | .expression inner => [inner]

theorem argumentExpressions_eq (arguments : List Expr) :
    argumentExpressions arguments = arguments.flatMap Expr.subexpressions := by
  induction arguments with
  | nil => rfl
  | cons argument rest ih => rw [argumentExpressions, ih, List.flatMap_cons]

theorem elementExpressions_eq (elements : List (Option Expr)) :
    elementExpressions elements =
      elements.flatMap fun element => element.toList.flatMap Expr.subexpressions := by
  induction elements with
  | nil => rfl
  | cons element rest ih => cases element <;> simp [elementExpressions, ih]

theorem memberExpressions_eq (members : List Member) :
    memberExpressions members =
      members.flatMap fun member => member.expressions.flatMap Expr.subexpressions := by
  induction members with
  | nil => rfl
  | cons member rest ih => cases member <;> simp [memberExpressions, Member.expressions, ih]

theorem segmentExpressions_eq (segments : List Segment) :
    segmentExpressions segments =
      segments.flatMap fun segment => segment.expressions.flatMap Expr.subexpressions := by
  induction segments with
  | nil => rfl
  | cons segment rest ih => cases segment <;> simp [segmentExpressions, Segment.expressions, ih]

theorem Expr.mem_subexpressions_self (e : Expr) : e ∈ e.subexpressions := by
  cases e <;> simp [Expr.subexpressions]

theorem Member.sizeOf_expressions (member : Member) {e : Expr} (he : e ∈ member.expressions) :
    sizeOf e < sizeOf member := by
  cases member with
  | property span key value computed shorthand method =>
    simp only [Member.expressions, List.mem_cons, List.not_mem_nil, or_false] at he
    rw [Member.property.sizeOf_spec]
    rcases he with rfl | rfl <;> omega
  | spread span argument =>
    rw [List.mem_singleton.mp he, Member.spread.sizeOf_spec]
    omega

theorem Segment.sizeOf_expressions (segment : Segment) {e : Expr} (he : e ∈ segment.expressions) :
    sizeOf e < sizeOf segment := by
  cases segment with
  | text text => cases he
  | expression inner =>
    rw [List.mem_singleton.mp he, Segment.expression.sizeOf_spec]
    omega

/-- Induction over expressions. An element of an array may be a spread, whose argument is written
in place of the element, so there the hypothesis covers both. -/
theorem Expr.induction {motive : Expr → Prop}
    (identifier : ∀ span name, motive (.identifier span name))
    (literal : ∀ span literal, motive (.literal span literal))
    (binary : ∀ span operator left right, motive left → motive right →
      motive (.binary span operator left right))
    (logical : ∀ span operator left right, motive left → motive right →
      motive (.logical span operator left right))
    (conditional : ∀ span test consequent alternate, motive test → motive consequent →
      motive alternate → motive (.conditional span test consequent alternate))
    (unary : ∀ span operator argument, motive argument → motive (.unary span operator argument))
    (call : ∀ span callee arguments optional, motive callee →
      (∀ argument ∈ arguments, motive argument) →
      motive (.call span callee arguments optional))
    (member : ∀ span object property computed optional, motive object → motive property →
      motive (.member span object property computed optional))
    (chain : ∀ span inner, motive inner → motive (.chain span inner))
    (array : ∀ span elements, (∀ element, some element ∈ elements → motive element) →
      (∀ place argument, some (.spread place argument) ∈ elements → motive argument) →
      motive (.array span elements))
    (object : ∀ span members, (∀ member ∈ members, ∀ e ∈ member.expressions, motive e) →
      motive (.object span members))
    (spread : ∀ span argument, motive argument → motive (.spread span argument))
    (template : ∀ span segments, (∀ segment ∈ segments, ∀ e ∈ segment.expressions, motive e) →
      motive (.template span segments))
    (assignment : ∀ span operator target value, motive value →
      motive (.assignment span operator target value))
    (unknown : motive .unknown) (e : Expr) : motive e := by
  suffices bounded : ∀ n (e : Expr), sizeOf e < n → motive e from bounded _ e (Nat.lt_succ_self _)
  intro n
  induction n with
  | zero => intro e he; omega
  | succ n ih =>
    intro e he
    cases e with
    | identifier span name => exact identifier span name
    | literal span value => exact literal span value
    | binary span operator left right =>
      rw [Expr.binary.sizeOf_spec] at he
      exact binary span operator left right (ih left (by omega)) (ih right (by omega))
    | logical span operator left right =>
      rw [Expr.logical.sizeOf_spec] at he
      exact logical span operator left right (ih left (by omega)) (ih right (by omega))
    | conditional span test consequent alternate =>
      rw [Expr.conditional.sizeOf_spec] at he
      exact conditional span test consequent alternate (ih test (by omega))
        (ih consequent (by omega)) (ih alternate (by omega))
    | unary span operator argument =>
      rw [Expr.unary.sizeOf_spec] at he
      exact unary span operator argument (ih argument (by omega))
    | call span callee arguments optional =>
      rw [Expr.call.sizeOf_spec] at he
      refine call span callee arguments optional (ih callee (by omega)) fun argument ha => ?_
      have := List.sizeOf_lt_of_mem ha
      exact ih argument (by omega)
    | member span object property computed optional =>
      rw [Expr.member.sizeOf_spec] at he
      exact member span object property computed optional (ih object (by omega))
        (ih property (by omega))
    | chain span inner =>
      rw [Expr.chain.sizeOf_spec] at he
      exact chain span inner (ih inner (by omega))
    | array span elements =>
      rw [Expr.array.sizeOf_spec] at he
      refine array span elements (fun element hm => ?_) fun place argument hm => ?_
      · have := List.sizeOf_lt_of_mem hm
        rw [Option.some.sizeOf_spec] at this
        exact ih element (by omega)
      · have := List.sizeOf_lt_of_mem hm
        rw [Option.some.sizeOf_spec, Expr.spread.sizeOf_spec] at this
        exact ih argument (by omega)
    | object span members =>
      rw [Expr.object.sizeOf_spec] at he
      refine object span members fun member hm e hin => ?_
      have := List.sizeOf_lt_of_mem hm
      have := member.sizeOf_expressions hin
      exact ih e (by omega)
    | spread span argument =>
      rw [Expr.spread.sizeOf_spec] at he
      exact spread span argument (ih argument (by omega))
    | template span segments =>
      rw [Expr.template.sizeOf_spec] at he
      refine template span segments fun segment hs e hin => ?_
      have := List.sizeOf_lt_of_mem hs
      have := segment.sizeOf_expressions hin
      exact ih e (by omega)
    | assignment span operator target value =>
      rw [Expr.assignment.sizeOf_spec] at he
      exact assignment span operator target value (ih value (by omega))
    | unknown => exact unknown

end TwigComponent.Source
