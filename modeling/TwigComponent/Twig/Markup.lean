import TwigComponent.Options
import TwigComponent.Twig.Arguments
import TwigComponent.Twig.Loop

/-!
# Markup in Twig

The render tree of a component as a Twig template. Elements and text are copied,
expression tags become output tags, blocks and slots become the Twig blocks of
the same meaning, and a reference to another component becomes an include, or an
embed if it has content. A node without a Twig form loses its own text and no
other.
-/
namespace TwigComponent.Twig

open Source Text

def voidElements : List String :=
  ["area", "base", "br", "col", "embed", "hr", "img", "input", "link", "meta", "param", "source",
    "track", "wbr"]

/-- Elements that have no closing tag. -/
def isVoidElement (name : String) : Bool := voidElements.contains name

/-- The block of a slot, and whether it is the default one for want of a static name. -/
def slotBlock (defaultSlot : String) (attributes : List Attribute) : String × Bool :=
  match slotName? attributes with
  | some name => (name, false)
  | none => (defaultSlot, true)

/-- A tag that writes a value. -/
def outputTag (text : String) : String := "\x7b\x7b " ++ text ++ " \x7d\x7d"

def commentTag (text : String) : String := "\x7b# " ++ text ++ " #\x7d"

/-- The output tag of an expression, nothing if the expression was dropped. -/
def outputExpression (expr : Expr) : Report String := do
  let text ← expression .template expr
  pure (if text = "" then "" else outputTag text)

/-- The output tag of an expression whose value is markup. -/
def rawExpression (expr : Expr) : Report String := do
  let text ← filterOperand .template expr
  pure (if text = "" then "" else outputTag (text ++ "|raw"))

def segmentMarkup : Segment → Report String
  | .text text => pure text
  | .expression inner => outputExpression inner

/-- An expression at the level of markup: a template literal is its text with an output tag for
every expression in it. -/
def interpolate : Expr → Report String
  | .template _ segments => Report.concat segmentMarkup segments
  | expr => outputExpression expr

/-- Text inside double quotes. -/
def quotedChar (c : Char) : List Char :=
  if c = '"' then "&quot;".toList else [c]

def quotedText (text : String) : String := String.ofList (text.toList.flatMap quotedChar)

def attributePartMarkup : AttributePart → Report String
  | .text content => pure (quotedText content.sourceText)
  | .mustache _ expr => interpolate expr
  | .shorthand _ expr => interpolate expr

/-- An attribute of an element with a blank before it. Only plain attributes are written. -/
def attributeMarkup : Attribute → Report String
  | .normal _ name (.bool true) => pure (if name = "" then "" else " " ++ name)
  | .normal _ name (.parts list) => do
    let text ← Report.concat attributePartMarkup list
    pure (" " ++ name ++ "=\"" ++ text ++ "\"")
  | _ => pure ""

/-- Whether a child is more than blank text. -/
def isContent : Node → Bool
  | .text content => !isAllBlank content.data
  | _ => true

def hasContent (children : List Node) : Bool := children.any isContent

/-- Says that a slot took the default name. -/
def tellFallback (name : String) (span : Span) : Report Unit :=
  Report.tell {
    code := .slotNameFallback
    message := s!"slot has no static name; using the default block `{name}`"
    span := span
  }

def block (name content : String) : String :=
  tag ("block " ++ name) ++ content ++ tag "endblock"

/-- The reference to a component with its arguments, as it stands in an include or embed tag. -/
def componentCall (options : Options) (name : String) (arguments : Option String) : String :=
  quote (options.componentId name)
    ++ (match arguments with
      | some text => " with " ++ text
      | none => "")
    ++ " only"

mutual

/-- The text of one node. -/
def node (options : Options) : Node → Report String
  | .fragment _ children => fragment options children
  | .element _ name attributes children => do
    let attributesText ← Report.concat attributeMarkup attributes
    if isVoidElement name then
      pure ("<" ++ name ++ attributesText ++ " />")
    else
      let content ← fragment options children
      pure ("<" ++ name ++ attributesText ++ ">" ++ content ++ "</" ++ name ++ ">")
  | .text content => pure content.sourceText
  | .comment _ data => pure (commentTag (trim data))
  | .mustache _ expr => interpolate expr
  | .rawMustache _ expr => rawExpression expr
  | .ifBlock span test children _ _ => settle span do
    let testText ← expression .template test
    if testText = "" then
      pure (.error (.unwritable "IfBlock" "the condition could not be translated"))
    else
      -- The else branch has no place in the template.
      let content ← fragment options children
      pure (.ok (tag ("if " ++ testText) ++ content ++ tag "endif"))
  | .eachBlock span items context index _ children otherwise => settle span do
    let iterable ← expression .template items
    if iterable = "" then
      pure (.error (loopFault "the iterated expression could not be translated"))
    else
      match ← loopHead iterable context with
      | .error fault => pure (.error fault)
      | .ok head =>
        let indexTag :=
          match index with
          | some name => setTag name "loop.index0"
          | none => ""
        let content ← fragment options children
        let fallback ← elseBranch options otherwise
        pure (.ok (tag ("for " ++ head.targets ++ " in " ++ iterable) ++ head.bindings ++ indexTag
          ++ content ++ fallback ++ tag "endfor"))
  | .component _ name attributes children => do
    let arguments ← componentArguments attributes
    let call := componentCall options name arguments
    if hasContent children then
      let content ← fragment options children
      pure (tag ("embed " ++ call) ++ block options.defaultSlot content ++ tag "endembed")
    else
      pure (tag ("include " ++ call))
  | .slot span attributes children => do
    let (name, isDefault) := slotBlock options.defaultSlot attributes
    if isDefault then tellFallback name span
    let content ← fragment options children
    pure (block name content)
  | .unknown => pure ""

/-- The texts of sibling nodes, one after the other. -/
def fragment (options : Options) : List Node → Report String
  | [] => pure ""
  | first :: rest => do
    let text ← node options first
    let texts ← fragment options rest
    pure (text ++ texts)

/-- The else branch of a loop. -/
def elseBranch (options : Options) : Option Branch → Report String
  | none => pure ""
  | some (.mk _ children) => do
    let content ← fragment options children
    pure (tag "else" ++ content)

end

end TwigComponent.Twig
