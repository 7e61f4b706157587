import TwigComponent.Json.Basic
import TwigComponent.Text.Span

/-!
# Expressions and binding patterns

The part of the ECMAScript grammar that appears in component templates and in
the declarations of a component's script. A kind outside it is `unknown`, and
nothing of such a node is kept, its place in the source included.
-/
namespace TwigComponent.Source

open Text

/-- The pattern and the flags of a regular expression. -/
structure Regex where
  pattern : String
  flags : String
deriving DecidableEq, Repr

/-- The run-time value of a literal as far as it matters: any other value counts as null. -/
inductive LiteralValue where
  | string (value : String)
  | number (value : Json.Number)
  | boolean (value : Bool)
  | null
deriving DecidableEq, Repr

/-- A literal. `raw` is its source text; regular expressions and big integers carry an entry of
their own beside the value. -/
structure Literal where
  value : LiteralValue
  raw : Option String
  regex : Option Regex
  bigint : Option String
deriving DecidableEq, Repr

/-- What a literal is, by its run-time value. -/
inductive LiteralClass where
  | string (value : String)
  | number (value : Json.Number)
  | boolean (value : Bool)
  | null
  | regex (value : Regex)
  | bigint (digits : String)
deriving DecidableEq, Repr

/-- A regular expression or big integer is one whatever its value says. -/
def Literal.classify (literal : Literal) : LiteralClass :=
  match literal.regex, literal.bigint, literal.value with
  | some regex, _, _ => .regex regex
  | none, some digits, _ => .bigint digits
  | none, none, .string value => .string value
  | none, none, .number value => .number value
  | none, none, .boolean value => .boolean value
  | none, none, .null => .null

mutual

inductive Expr where
  | identifier (span : Span) (name : String)
  | literal (span : Span) (literal : Literal)
  | binary (span : Span) (operator : String) (left right : Expr)
  | logical (span : Span) (operator : String) (left right : Expr)
  | conditional (span : Span) (test consequent alternate : Expr)
  | unary (span : Span) (operator : String) (argument : Expr)
  | call (span : Span) (callee : Expr) (arguments : List Expr) (optional : Bool)
  | member (span : Span) (object property : Expr) (computed optional : Bool)
  /-- The wrapper around an optional chain. -/
  | chain (span : Span) (expression : Expr)
  /-- A missing element is a hole. -/
  | array (span : Span) (elements : List (Option Expr))
  | object (span : Span) (members : List Member)
  | spread (span : Span) (argument : Expr)
  | template (span : Span) (segments : List Segment)
  | assignment (span : Span) (operator : String) (target : Pattern) (value : Expr)
  | unknown

/-- A member of an object literal. -/
inductive Member where
  | property (span : Span) (key value : Expr) (computed shorthand method : Bool)
  | spread (span : Span) (argument : Expr)

/-- A part of a template literal. -/
inductive Segment where
  | text (text : String)
  | expression (expression : Expr)

/-- A binding pattern. -/
inductive Pattern where
  | identifier (span : Span) (name : String)
  | array (span : Span) (elements : List (Option Pattern))
  | object (span : Span) (members : List PatternMember)
  /-- A target with a default value. -/
  | assignment (span : Span) (target : Pattern) (default : Expr)
  | rest (span : Span) (argument : Pattern)
  | unknown

/-- A member of an object pattern. -/
inductive PatternMember where
  | property (span : Span) (key : Expr) (value : Pattern) (computed : Bool)
  | rest (span : Span) (argument : Pattern)

end

instance : Inhabited Expr := ⟨.unknown⟩

instance : Inhabited Pattern := ⟨.unknown⟩

namespace Expr

/-- The place of an expression in the source; an unknown one stands nowhere. -/
def span : Expr → Span
  | .identifier span _ => span
  | .literal span _ => span
  | .binary span _ _ _ => span
  | .logical span _ _ _ => span
  | .conditional span _ _ _ => span
  | .unary span _ _ => span
  | .call span _ _ _ => span
  | .member span _ _ _ _ => span
  | .chain span _ => span
  | .array span _ => span
  | .object span _ => span
  | .spread span _ => span
  | .template span _ => span
  | .assignment span _ _ _ => span
  | .unknown => {}

/-- The kinds that the grammar knows. -/
def kinds : List String :=
  ["Identifier", "Literal", "BinaryExpression", "LogicalExpression", "ConditionalExpression",
    "UnaryExpression", "CallExpression", "MemberExpression", "ChainExpression", "ArrayExpression",
    "ObjectExpression", "SpreadElement", "TemplateLiteral", "AssignmentExpression"]

/-- The name of the grammar for this kind of expression. -/
def kind : Expr → String
  | .identifier .. => "Identifier"
  | .literal .. => "Literal"
  | .binary .. => "BinaryExpression"
  | .logical .. => "LogicalExpression"
  | .conditional .. => "ConditionalExpression"
  | .unary .. => "UnaryExpression"
  | .call .. => "CallExpression"
  | .member .. => "MemberExpression"
  | .chain .. => "ChainExpression"
  | .array .. => "ArrayExpression"
  | .object .. => "ObjectExpression"
  | .spread .. => "SpreadElement"
  | .template .. => "TemplateLiteral"
  | .assignment .. => "AssignmentExpression"
  | .unknown => "Unknown"

/-- The name of a plain identifier. -/
def identifier? : Expr → Option String
  | .identifier _ name => some name
  | _ => none

/-- Whether a callee is `Object.entries`. -/
def isObjectEntries : Expr → Bool
  | .member _ receiver property computed _ =>
    !computed && receiver.identifier? == some "Object" && property.identifier? == some "entries"
  | _ => false

end Expr

/-- The kinds of members of an object literal. -/
def Member.kinds : List String := ["Property", "SpreadElement"]

/-- The kinds of members of an object pattern. -/
def PatternMember.kinds : List String := ["Property", "RestElement"]

namespace Pattern

/-- The kinds that the grammar knows. -/
def kinds : List String :=
  ["Identifier", "ArrayPattern", "ObjectPattern", "AssignmentPattern", "RestElement"]

/-- The name of the grammar for this kind of pattern. -/
def kind : Pattern → String
  | .identifier .. => "Identifier"
  | .array .. => "ArrayPattern"
  | .object .. => "ObjectPattern"
  | .assignment .. => "AssignmentPattern"
  | .rest .. => "RestElement"
  | .unknown => "Unknown"

/-- The name of a plain identifier. -/
def identifier? : Pattern → Option String
  | .identifier _ name => some name
  | _ => none

end Pattern

end TwigComponent.Source
