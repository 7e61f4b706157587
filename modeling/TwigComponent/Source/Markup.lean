import TwigComponent.Source.Expression

/-!
# Component markup

The render tree of a component: elements, text, expression tags, blocks, slots
and references to other components.
-/
namespace TwigComponent.Source

open Text

/-- Text with its entities decoded in `data` and, if known, as written in `raw`. -/
structure TextContent where
  span : Span
  data : String
  raw : Option String
deriving DecidableEq, Repr

/-- The text as written, else the decoded text. -/
def TextContent.sourceText (text : TextContent) : String := text.raw.getD text.data

/-- A part of an attribute value. -/
inductive AttributePart where
  | text (text : TextContent)
  | mustache (span : Span) (expression : Expr)
  /-- A name in braces, which is both the attribute and its value. -/
  | shorthand (span : Span) (expression : Expr)

def AttributePart.kinds : List String := ["Text", "MustacheTag", "AttributeShorthand"]

/-- An attribute without a value is `bool true`. -/
inductive AttributeValue where
  | bool (value : Bool)
  | parts (parts : List AttributePart)

namespace AttributeValue

def isTrue : AttributeValue → Bool
  | .bool value => value
  | .parts _ => false

/-- The decoded text of the parts, if all of them are text. -/
def partsText? : List AttributePart → Option String
  | [] => some ""
  | .text text :: rest => (partsText? rest).map (text.data ++ ·)
  | _ :: _ => none

/-- The value, if it is made of text alone. -/
def staticText? : AttributeValue → Option String
  | .bool _ => none
  | .parts list => partsText? list

end AttributeValue

inductive Attribute where
  | normal (span : Span) (name : String) (value : AttributeValue)
  | spread (span : Span) (expression : Expr)
  /-- A directive or an event handler. -/
  | unknown

def Attribute.kinds : List String := ["Attribute", "Spread"]

/-- The name that a `name` attribute gives to a slot: the first one that is static and not
empty. -/
def slotName? : List Attribute → Option String
  | [] => none
  | .normal _ name value :: rest =>
    if name = "name" then
      match value.staticText? with
      | some text => if text = "" then slotName? rest else some text
      | none => slotName? rest
    else slotName? rest
  | _ :: rest => slotName? rest

mutual

inductive Node where
  | fragment (span : Span) (children : List Node)
  | element (span : Span) (name : String) (attributes : List Attribute) (children : List Node)
  | text (text : TextContent)
  | comment (span : Span) (data : String)
  | mustache (span : Span) (expression : Expr)
  /-- An expression tag whose value is markup. -/
  | rawMustache (span : Span) (expression : Expr)
  | ifBlock (span : Span) (test : Expr) (children : List Node) (otherwise : Option Branch)
      (elseif : Bool)
  | eachBlock (span : Span) (items : Expr) (context : Option Pattern) (index : Option String)
      (key : Option Expr) (children : List Node) (otherwise : Option Branch)
  | component (span : Span) (name : String) (attributes : List Attribute) (children : List Node)
  | slot (span : Span) (attributes : List Attribute) (children : List Node)
  | unknown

/-- The `else` branch of a block. -/
inductive Branch where
  | mk (span : Span) (children : List Node)

end

instance : Inhabited Node := ⟨.unknown⟩

def Branch.span : Branch → Span
  | .mk span _ => span

def Branch.children : Branch → List Node
  | .mk _ children => children

namespace Node

/-- The place of a node in the source; an unknown one stands nowhere. -/
def span : Node → Span
  | .fragment span _ => span
  | .element span _ _ _ => span
  | .text content => content.span
  | .comment span _ => span
  | .mustache span _ => span
  | .rawMustache span _ => span
  | .ifBlock span _ _ _ _ => span
  | .eachBlock span _ _ _ _ _ _ => span
  | .component span _ _ _ => span
  | .slot span _ _ => span
  | .unknown => {}

/-- The kinds that the grammar knows. -/
def kinds : List String :=
  ["Fragment", "Element", "Text", "Comment", "MustacheTag", "RawMustacheTag", "IfBlock",
    "EachBlock", "InlineComponent", "Slot"]

/-- The name of the grammar for this kind of node. -/
def kind : Node → String
  | .fragment .. => "Fragment"
  | .element .. => "Element"
  | .text .. => "Text"
  | .comment .. => "Comment"
  | .mustache .. => "MustacheTag"
  | .rawMustache .. => "RawMustacheTag"
  | .ifBlock .. => "IfBlock"
  | .eachBlock .. => "EachBlock"
  | .component .. => "InlineComponent"
  | .slot .. => "Slot"
  | .unknown => "Unknown"

end Node

end TwigComponent.Source
