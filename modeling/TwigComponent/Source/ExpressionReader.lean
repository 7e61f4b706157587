import TwigComponent.Source.Fields
import TwigComponent.Source.TemplateLiteral

/-!
# Reading expressions and patterns

A kind that the grammar does not know reads as `unknown`, whatever else the
object holds. Members of object literals and of object patterns have no such
kind. Every pattern and every member stands inside another node.
-/
namespace TwigComponent.Source

open Text

/-- The pattern and the flags, as an object or as a list. -/
def readRegex : Json → Except LoadError Regex
  | .arr [pattern] => return ⟨← textOf pattern, ""⟩
  | .arr [pattern, flags] => return ⟨← textOf pattern, ← textOf flags⟩
  | json => return ⟨← text json "pattern", ← textOrEmpty json "flags"⟩

def readLiteralValue : Json → LiteralValue
  | .str value => .string value
  | .num value => .number value
  | .bool value => .boolean value
  | _ => .null

def readLiteral (json : Json) : Except LoadError Literal := do
  let value ← field? json "value"
  let regex ← nullable json "regex"
  return {
    value := match value with
      | some value => readLiteralValue value.1
      | none => .null
    raw := ← nullableText json "raw"
    regex := ← regex.mapM fun value => readRegex value.1
    bigint := ← nullableText json "bigint"
  }

def nullableTextOf : Json → Except LoadError (Option String)
  | .null => .ok none
  | json => some <$> textOf json

/-- The raw and the cooked text of a quasi, as an object or as a list. -/
def readQuasiText : Json → Except LoadError (String × Option String)
  | .arr [] => .ok ("", none)
  | .arr [raw] => return (← textOf raw, none)
  | .arr [raw, cooked] => return (← textOf raw, ← nullableTextOf cooked)
  | json => return (← textOrEmpty json "raw", ← nullableText json "cooked")

def readQuasi (json : Json) : Except LoadError Quasi := do
  let _ ← flag json "tail"
  let (raw, cooked) ← readQuasiText (← field json "value").1
  return ⟨← readSpan json, raw, cooked⟩

mutual

def readExpr (standing : Standing) (json : Json) : Except LoadError Expr := do
  match ← kindOf standing Expr.kinds json with
  | "Identifier" => return .identifier (← readSpan json) (← text json "name")
  | "Literal" => return .literal (← readSpan json) (← readLiteral json)
  | "BinaryExpression" =>
    let ⟨left, _⟩ ← field json "left"
    let ⟨right, _⟩ ← field json "right"
    return .binary (← readSpan json) (← text json "operator") (← readExpr .inner left)
      (← readExpr .inner right)
  | "LogicalExpression" =>
    let ⟨left, _⟩ ← field json "left"
    let ⟨right, _⟩ ← field json "right"
    return .logical (← readSpan json) (← text json "operator") (← readExpr .inner left)
      (← readExpr .inner right)
  | "ConditionalExpression" =>
    let ⟨test, _⟩ ← field json "test"
    let ⟨consequent, _⟩ ← field json "consequent"
    let ⟨alternate, _⟩ ← field json "alternate"
    return .conditional (← readSpan json) (← readExpr .inner test) (← readExpr .inner consequent)
      (← readExpr .inner alternate)
  | "UnaryExpression" =>
    let ⟨argument, _⟩ ← field json "argument"
    return .unary (← readSpan json) (← text json "operator") (← readExpr .inner argument)
  | "CallExpression" =>
    let ⟨callee, _⟩ ← field json "callee"
    let arguments ← (← items json "arguments").mapM fun ⟨item, _⟩ => readExpr .inner item
    return .call (← readSpan json) (← readExpr .inner callee) arguments (← flag json "optional")
  | "MemberExpression" =>
    let ⟨receiver, _⟩ ← field json "object"
    let ⟨property, _⟩ ← field json "property"
    return .member (← readSpan json) (← readExpr .inner receiver) (← readExpr .inner property)
      (← flag json "computed") (← flag json "optional")
  | "ChainExpression" =>
    let ⟨expression, _⟩ ← field json "expression"
    return .chain (← readSpan json) (← readExpr .inner expression)
  | "ArrayExpression" =>
    let elements ← (← items json "elements").mapM fun ⟨item, _⟩ =>
      if item matches .null then pure none else some <$> readExpr .inner item
    return .array (← readSpan json) elements
  | "ObjectExpression" =>
    let members ← (← items json "properties").mapM fun ⟨item, _⟩ => readMember item
    return .object (← readSpan json) members
  | "SpreadElement" =>
    let ⟨argument, _⟩ ← field json "argument"
    return .spread (← readSpan json) (← readExpr .inner argument)
  | "TemplateLiteral" =>
    let quasis ← (← items json "quasis").mapM fun item => readQuasi item.1
    let expressions ← (← items json "expressions").mapM fun ⟨item, _⟩ => readExpr .inner item
    return .template (← readSpan json) (TemplateParts.mk quasis expressions).segments
  | "AssignmentExpression" =>
    let ⟨target, _⟩ ← field json "left"
    let ⟨value, _⟩ ← field json "right"
    return .assignment (← readSpan json) (← text json "operator") (← readPattern target)
      (← readExpr .inner value)
  | _ => return .unknown
termination_by sizeOf json

def readMember (json : Json) : Except LoadError Member := do
  match ← kindOf .inner Member.kinds json with
  | "Property" =>
    let ⟨key, _⟩ ← field json "key"
    let ⟨value, _⟩ ← field json "value"
    return .property (← readSpan json) (← readExpr .inner key) (← readExpr .inner value)
      (← flag json "computed") (← flag json "shorthand") (← flag json "method")
  | "SpreadElement" =>
    let ⟨argument, _⟩ ← field json "argument"
    return .spread (← readSpan json) (← readExpr .inner argument)
  | kind => throw (.unknownKind kind)
termination_by sizeOf json

def readPattern (json : Json) : Except LoadError Pattern := do
  match ← kindOf .inner Pattern.kinds json with
  | "Identifier" => return .identifier (← readSpan json) (← text json "name")
  | "ArrayPattern" =>
    let elements ← (← items json "elements").mapM fun ⟨item, _⟩ =>
      if item matches .null then pure none else some <$> readPattern item
    return .array (← readSpan json) elements
  | "ObjectPattern" =>
    let members ← (← items json "properties").mapM fun ⟨item, _⟩ => readPatternMember item
    return .object (← readSpan json) members
  | "AssignmentPattern" =>
    let ⟨target, _⟩ ← field json "left"
    let ⟨default, _⟩ ← field json "right"
    return .assignment (← readSpan json) (← readPattern target) (← readExpr .inner default)
  | "RestElement" =>
    let ⟨argument, _⟩ ← field json "argument"
    return .rest (← readSpan json) (← readPattern argument)
  | _ => return .unknown
termination_by sizeOf json

def readPatternMember (json : Json) : Except LoadError PatternMember := do
  match ← kindOf .inner PatternMember.kinds json with
  | "Property" =>
    let ⟨key, _⟩ ← field json "key"
    let ⟨value, _⟩ ← field json "value"
    return .property (← readSpan json) (← readExpr .inner key) (← readPattern value)
      (← flag json "computed")
  | "RestElement" =>
    let ⟨argument, _⟩ ← field json "argument"
    return .rest (← readSpan json) (← readPattern argument)
  | kind => throw (.unknownKind kind)
termination_by sizeOf json

end

end TwigComponent.Source
