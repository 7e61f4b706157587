import TwigComponent.Report
import TwigComponent.Source.Expression
import TwigComponent.Twig.Literal
import TwigComponent.Twig.Merge

/-!
# Expressions in Twig

An expression is written in one of two modes. In template mode it is a condition
or an output, and `&&` and `||` are the Twig operators `and` and `or`. In value
mode it is data (an argument, a bound value, a member of a literal), where these
operators select a value: `a && b` becomes `a ? b` and `a || b` becomes
`a|default(b)`.

Each node settles its own faults: a node without a Twig form leaves the empty
text and a diagnostic, and the expression around it goes on. Compound operands
are parenthesized, and so is a unary operand that a filter is attached to, since
filters bind tighter.
-/
namespace TwigComponent.Twig

open Source

inductive Mode where
  | template
  | value
deriving DecidableEq, Repr

/-- Whether the Twig form is compound, so that an operand needs parentheses. -/
def needsGrouping : Expr → Bool
  | .binary .. => true
  | .logical .. => true
  | .conditional .. => true
  | .assignment .. => true
  | .template _ segments => 1 < segments.length
  | .chain _ expression => needsGrouping expression
  | _ => false

def isUnary : Expr → Bool
  | .unary .. => true
  | .chain _ expression => isUnary expression
  | _ => false

/-- Parentheses around a text, none around nothing. -/
def parenthesize (text : String) : String :=
  if text = "" then "" else "(" ++ text ++ ")"

/-- The text of an operand, given the text of the expression by itself. -/
def groupOperand (expr : Expr) (text : String) : String :=
  if needsGrouping expr then parenthesize text else text

/-- The text of an operand that a filter is attached to. -/
def groupFiltered (expr : Expr) (text : String) : String :=
  if isUnary expr then parenthesize (groupOperand expr text) else groupOperand expr text

/-- Strict comparison has no spelling of its own; the other operators are the same. -/
def binaryOperator (operator : String) : String :=
  if operator = "===" then "=="
  else if operator = "!==" then "!="
  else operator

inductive LogicalOperator where
  | and
  | or
  | coalesce
deriving DecidableEq, Repr

def LogicalOperator.ofText? (text : String) : Option LogicalOperator :=
  if text = "&&" then some .and
  else if text = "||" then some .or
  else if text = "??" then some .coalesce
  else none

/-- Joins the texts of two operands. -/
def LogicalOperator.write (mode : Mode) (operator : LogicalOperator) (left : Expr)
    (leftText : String) (right : Expr) (rightText : String) : String :=
  match mode, operator with
  | .template, .and => groupOperand left leftText ++ " and " ++ groupOperand right rightText
  | .template, .or => groupOperand left leftText ++ " or " ++ groupOperand right rightText
  | .value, .and => groupOperand left leftText ++ " ? " ++ groupOperand right rightText
  | .value, .or => groupFiltered left leftText ++ "|default(" ++ rightText ++ ")"
  | _, .coalesce => groupOperand left leftText ++ " ?? " ++ groupOperand right rightText

/-- What stands before the operand of a unary operator that Twig has. -/
def unaryOperator? (operator : String) : Option String :=
  if operator = "!" then some "not "
  else if operator = "-" then some "-"
  else if operator = "+" then some "+"
  else none

def booleanText (value : Bool) : String :=
  if value then "true" else "false"

def literalText (literal : Literal) : Except Fault String :=
  match literal.classify with
  | .string value => .ok (quote value)
  | .number value => .ok value.text
  | .boolean value => .ok (booleanText value)
  | .null => .ok "null"
  | .regex regex =>
    .error (.unwritable "Literal"
      s!"regular expression /{regex.pattern}/{regex.flags} has no Twig form")
  | .bigint digits => .error (.unwritable "Literal" s!"bigint literal {digits}n has no Twig form")

/-- The key of a property that is not computed. -/
def keyText : Expr → Except Fault String
  | .identifier _ name => .ok (hashKey name)
  | .literal _ literal =>
    match literal.value with
    | .string value => .ok (hashKey value)
    | .number value => .ok value.text
    | _ => literalText literal
  | other => .error (.unwritable "Property" s!"unexpected {other.kind} as a key")

/-- Drops a text that is empty. -/
def keepText (text : String) : List String :=
  if text = "" then [] else [text]

def keepEntry (text : String) : List Piece :=
  if text = "" then [] else [.entry text]

def keepSpread (source : String) : List Piece :=
  if source = "" then [] else [.spread source]

/-- Joins the texts of a concatenation. -/
def concatenation (texts : List String) : String :=
  if texts.isEmpty then "''" else " ~ ".intercalate texts

mutual

/-- The text of an expression by itself. -/
def expression (mode : Mode) : Expr → Report String
  | .identifier _ name => pure name
  | .literal span literal => settle span (pure (literalText literal))
  | .binary _ operator left right => do
    let leftText ← expression mode left
    let rightText ← expression mode right
    pure (groupOperand left leftText ++ " " ++ binaryOperator operator ++ " "
      ++ groupOperand right rightText)
  | .logical span operator left right =>
    match LogicalOperator.ofText? operator with
    | some operator => do
      let leftText ← expression mode left
      let rightText ← expression mode right
      pure (operator.write mode left leftText right rightText)
    | none =>
      settle span (pure (.error
        (.unwritable "LogicalExpression" s!"unknown operator `{operator}`")))
  | .conditional _ test consequent alternate => do
    -- The test is a condition in either mode.
    let testText ← expression .template test
    let consequentText ← expression mode consequent
    let alternateText ← expression mode alternate
    pure (groupOperand test testText ++ " ? " ++ groupOperand consequent consequentText ++ " : "
      ++ groupOperand alternate alternateText)
  | .unary span operator argument =>
    match unaryOperator? operator with
    | some mark => do
      let text ← expression mode argument
      pure (mark ++ groupOperand argument text)
    | none =>
      settle span (pure (.error
        (.unwritable "UnaryExpression" s!"operator `{operator}` has no Twig equivalent")))
  | .call span callee arguments _ => settle span do
    let texts ← argumentTexts mode arguments
    if callee.isObjectEntries then
      -- A loop over a mapping already yields its keys and values.
      pure (.ok (", ".intercalate texts))
    else
      let calleeText ← groupOperand callee <$> expression mode callee
      if calleeText = "" then
        pure (.error (.unwritable "CallExpression" "the callee could not be translated"))
      else
        pure (.ok (calleeText ++ "(" ++ ", ".intercalate texts ++ ")"))
  | .member span receiver property computed _ => settle span do
    let receiverText ← groupOperand receiver <$> expression mode receiver
    if receiverText = "" then
      pure (.error (.unwritable "MemberExpression" "the object could not be translated"))
    else if computed then
      let propertyText ← expression mode property
      pure (.ok (receiverText ++ "[" ++ propertyText ++ "]"))
    else
      match property.identifier? with
      | some name => pure (.ok (receiverText ++ "." ++ name))
      | none =>
        pure (.error
          (.unwritable "MemberExpression" s!"unexpected {property.kind} as a property name"))
  | .chain _ inner => expression mode inner
  | .array _ elements => writeArray <$> elementPieces elements
  | .object _ members => writeHash <$> memberPieces members
  | .spread _ argument => do
    let text ← expression mode argument
    pure ("..." ++ groupOperand argument text)
  | .template _ segments => concatenation <$> segmentTexts mode segments
  | .assignment span _ _ _ =>
    settle span (pure (.error
      (.unwritable "AssignmentExpression" "assignments cannot appear inside a Twig expression")))
  | .unknown => pure ""

def argumentTexts (mode : Mode) : List Expr → Report (List String)
  | [] => pure []
  | argument :: rest => do
    let text ← expression mode argument
    let texts ← argumentTexts mode rest
    pure (text :: texts)

/-- The elements of an array literal, which are values in either mode. -/
def elementPieces : List (Option Expr) → Report (List Piece)
  | [] => pure []
  | none :: rest => do
    let pieces ← elementPieces rest
    pure (.entry "null" :: pieces)
  | some (.spread _ argument) :: rest => do
    let source ← groupFiltered argument <$> expression .value argument
    let pieces ← elementPieces rest
    pure (keepSpread source ++ pieces)
  | some element :: rest => do
    let text ← expression .value element
    let pieces ← elementPieces rest
    pure (keepEntry text ++ pieces)

/-- The members of an object literal, which are values in either mode. -/
def memberPieces : List Member → Report (List Piece)
  | [] => pure []
  | .property span key value computed _ method :: rest => do
    let text ← settle span do
      if method then
        pure (.error (.unwritable "Property" "object methods have no Twig form"))
      else
        let key ←
          if computed then
            (fun text =>
              if text = "" then
                .error (.unwritable "Property" "the computed key could not be translated")
              else .ok (parenthesize text)) <$> expression .value key
          else pure (keyText key)
        match key with
        | .error fault => pure (.error fault)
        | .ok key =>
          let text ← expression .value value
          if text = "" then
            pure (.error
              (.unwritable "Property" s!"the value of `{key}` could not be translated"))
          else
            pure (.ok (key ++ ": " ++ text))
    let pieces ← memberPieces rest
    pure (keepEntry text ++ pieces)
  | .spread _ argument :: rest => do
    let source ← groupFiltered argument <$> expression .value argument
    let pieces ← memberPieces rest
    pure (keepSpread source ++ pieces)

/-- The segments of a template literal: static text quoted, expressions as operands. -/
def segmentTexts (mode : Mode) : List Segment → Report (List String)
  | [] => pure []
  | .text text :: rest => do
    let texts ← segmentTexts mode rest
    pure (quote text :: texts)
  | .expression inner :: rest => do
    let text ← groupOperand inner <$> expression mode inner
    let texts ← segmentTexts mode rest
    pure (keepText text ++ texts)

end

/-- The text of an expression that is an operand of a larger one. -/
def operand (mode : Mode) (expr : Expr) : Report String :=
  groupOperand expr <$> expression mode expr

/-- The text of an expression that a filter is attached to. -/
def filterOperand (mode : Mode) (expr : Expr) : Report String :=
  groupFiltered expr <$> expression mode expr

end TwigComponent.Twig
