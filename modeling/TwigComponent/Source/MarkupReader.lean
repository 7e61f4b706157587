import TwigComponent.Source.ExpressionReader
import TwigComponent.Source.Markup

/-!
# Reading component markup

Nodes and attributes of an unknown kind read as `unknown`; the parts of an
attribute value have no unknown kind.
-/
namespace TwigComponent.Source

open Text

def readTextContent (json : Json) : Except LoadError TextContent := do
  return ⟨← readSpan json, ← textOrEmpty json "data", ← nullableText json "raw"⟩

/-- The expression that a tag, block or attribute holds. -/
def readExpression (json : Json) : Except LoadError Expr := do
  readExpr .inner (← field json "expression").1

def readAttributePart (json : Json) : Except LoadError AttributePart := do
  match ← kindOf .inner AttributePart.kinds json with
  | "Text" => return .text (← readTextContent json)
  | "MustacheTag" => return .mustache (← readSpan json) (← readExpression json)
  | "AttributeShorthand" =>
    return .shorthand (← readSpan json) (← readExpression json)
  | kind => throw (.unknownKind kind)

def readAttributeValue : Json → Except LoadError AttributeValue
  | .bool value => .ok (.bool value)
  | json => do return .parts (← (← itemsOf json).mapM fun item => readAttributePart item.1)

def readAttribute (standing : Standing) (json : Json) : Except LoadError Attribute := do
  match ← kindOf standing Attribute.kinds json with
  | "Attribute" =>
    return .normal (← readSpan json) (← text json "name")
      (← readAttributeValue (← field json "value").1)
  | "Spread" => return .spread (← readSpan json) (← readExpression json)
  | _ => return .unknown

/-- The attributes of a node, where `standing` is that of the attributes. -/
def readAttributes (standing : Standing) (json : Json) : Except LoadError (List Attribute) := do
  (← items json "attributes").mapM fun item => readAttribute standing item.1

mutual

def readNode (standing : Standing) (json : Json) : Except LoadError Node := do
  match ← kindOf standing Node.kinds json with
  | "Fragment" => return .fragment (← readSpan json) (← readChildren .inner json)
  | "Element" =>
    return .element (← readSpan json) (← text json "name") (← readAttributes .inner json)
      (← readChildren .inner json)
  | "Text" => return .text (← readTextContent json)
  | "Comment" => return .comment (← readSpan json) (← textOrEmpty json "data")
  | "MustacheTag" => return .mustache (← readSpan json) (← readExpression json)
  | "RawMustacheTag" =>
    return .rawMustache (← readSpan json) (← readExpression json)
  | "IfBlock" =>
    return .ifBlock (← readSpan json) (← readExpression json)
      (← readChildren .inner json) (← readOtherwise json) (← flag json "elseif")
  | "EachBlock" =>
    let context ← (← nullable json "context").mapM fun value => readPattern value.1
    let key ← (← nullable json "key").mapM fun value => readExpr .inner value.1
    return .eachBlock (← readSpan json) (← readExpression json) context
      (← nullableText json "index") key (← readChildren .inner json) (← readOtherwise json)
  | "InlineComponent" =>
    return .component (← readSpan json) (← text json "name") (← readAttributes .inner json)
      (← readChildren .inner json)
  | "Slot" => return .slot (← readSpan json) (← readAttributes .inner json) (← readChildren .inner json)
  | _ => return .unknown
termination_by (sizeOf json, 1)

/-- The child nodes of a node, where `standing` is that of the children. -/
def readChildren (standing : Standing) (json : Json) : Except LoadError (List Node) := do
  (← items json "children").mapM fun ⟨item, _⟩ => readNode standing item
termination_by (sizeOf json, 0)

/-- The `else` branch of a block. -/
def readOtherwise (json : Json) : Except LoadError (Option Branch) := do
  (← nullable json "else").mapM fun ⟨branch, _⟩ => do
    return .mk (← readSpan branch) (← readChildren .inner branch)
termination_by (sizeOf json, 0)

end

end TwigComponent.Source
