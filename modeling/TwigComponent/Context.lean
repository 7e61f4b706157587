import TwigComponent.Ordered
import TwigComponent.Source.Script
import TwigComponent.Twig.Markup
import TwigComponent.Yaml.Basic

/-!
# The interface of a component

What the shape of a component says about its interface: the props it exports,
the slots it renders and the variables that its script sets. Nothing of the
script is run. Each top-level statement yields facts, and of several facts about
one name the last counts, at the place of the first.
-/
namespace TwigComponent

open Source Text

/-- A component and, if known, the text it was read from. -/
structure Component where
  document : Document := {}
  source : Option String := none

/-- The source text of an expression: the piece of the component's text, else the text that a
literal carries. -/
def Component.rawText? (component : Component) (expr : Expr) : Option String :=
  match component.source.bind expr.span.slice, expr with
  | some text, _ => some text
  | none, .literal _ literal => literal.raw
  | none, _ => none

inductive PropType where
  | string
  | number
  | boolean
  | array
  | object
deriving DecidableEq, Repr

def PropType.name : PropType → String
  | .string => "string"
  | .number => "number"
  | .boolean => "boolean"
  | .array => "array"
  | .object => "object"

/-- The schema of a prop. -/
structure PropDefinition where
  type : PropType
  title : Option String := none
  description : Option String := none
  default : Option Json := none
  /-- The values allowed. -/
  allowed : Option (List Json) := none

/-- The public interface of a component. Props and set statements are in order of their first
declaration, slots in the order of the document, one for each occurrence. -/
structure Context where
  name : String := ""
  props : List (String × PropDefinition) := []
  slots : List String := []
  setStatements : List (String × String) := []
  /-- The metadata document that the author gave. -/
  overrides : Option Yaml := none

namespace Component

/-- The source text of an expression, else its Twig form as a value. -/
def rawOrValue (component : Component) (expr : Expr) : Report String :=
  match component.rawText? expr with
  | some text => pure text
  | none => Twig.expression .value expr

/-- A prop whose initializer says nothing about its type. -/
def unrecognized (component : Component) (name : String) (init : Expr) : Report PropDefinition := do
  Report.tell {
    code := .unrecognizedInitializer
    message := s!"prop `{name}` is initialized with {init.kind}; typed as string with its source text as default"
    span := init.span
  }
  let raw ← component.rawOrValue init
  pure { type := .string, default := some (.str raw) }

def elementTexts (component : Component) : List (Option Expr) → Report (List String)
  | [] => pure []
  | element :: rest => do
    let text ←
      match element with
      | some expr => component.rawOrValue expr
      | none => pure ""
    let texts ← component.elementTexts rest
    pure (text :: texts)

/-- The definition of a prop from its initializer. -/
def inferProp (component : Component) (name : String) : Expr → Report PropDefinition
  | .array _ elements => do
    let texts ← component.elementTexts elements
    pure { type := .array, default := some (.str ("[" ++ ", ".intercalate texts ++ "]")) }
  | .object _ _ => pure { type := .object }
  | init@(.literal _ literal) =>
    match literal.classify with
    | .string value => pure { type := .string, default := some (.str value) }
    | .number value => pure { type := .number, default := some (.num value) }
    | .boolean value => pure { type := .boolean, default := some (.bool value) }
    | .null => pure { type := .string }
    | .regex _ => component.unrecognized name init
    | .bigint _ => component.unrecognized name init
  | init@(.unary _ "-" (.literal _ literal)) =>
    match literal.classify with
    | .number value =>
      match value.negate? with
      | some negated => pure { type := .number, default := some (.num negated) }
      | none => component.unrecognized name init
    | _ => component.unrecognized name init
  | init => component.unrecognized name init

/-- What a statement says about the interface. -/
inductive Fact where
  | prop (name : String) (definition : PropDefinition)
  | binding (name text : String)

def Fact.prop? : Fact → Option (String × PropDefinition)
  | .prop name definition => some (name, definition)
  | .binding _ _ => none

def Fact.binding? : Fact → Option (String × String)
  | .prop _ _ => none
  | .binding name text => some (name, text)

/-- The prop that an exported declarator declares. -/
def propFacts (component : Component) (declarator : Declarator) : Report (List Fact) :=
  match declarator.target.identifier?, declarator.init with
  | none, _ => pure []
  | some name, none => pure [.prop name { type := .string }]
  | some name, some init => do
    let definition ← component.inferProp name init
    pure [.prop name definition]

/-- The binding of a name to a value, unless the value has no Twig form. -/
def bindingFacts (name : String) (value : Expr) : Report (List Fact) := do
  let text ← Twig.expression .value value
  pure (if text = "" then [] else [.binding name text])

def declaratorFacts (declarator : Declarator) : Report (List Fact) :=
  match declarator.target.identifier?, declarator.init with
  | some name, some init => bindingFacts name init
  | _, _ => pure []

/-- The facts of the members, in order. -/
def collectFacts {α : Type} (factsOf : α → Report (List Fact)) : List α → Report (List Fact)
  | [] => pure []
  | first :: rest => do
    let facts ← factsOf first
    let others ← collectFacts factsOf rest
    pure (facts ++ others)

/-- An exported variable is a prop unless it is a constant. A variable of the script's own is set
at the head of the template, and so is the target of a reactive assignment. -/
def statementFacts (component : Component) : Statement → Report (List Fact)
  | .exportNamed _ (some (.variables _ keyword declarators)) =>
    if keyword = .const then pure [] else collectFacts component.propFacts declarators
  | .variables _ _ declarators => collectFacts declaratorFacts declarators
  | .labeled _ "$" (.expression _ (.assignment _ "=" target value)) =>
    match target.identifier? with
    | some name => bindingFacts name value
    | none => pure []
  | _ => pure []

end Component

mutual

/-- The slots of a node and of all that is inside it, in the order of the document. -/
def nodeSlots (defaultSlot : String) : Node → List String
  | .slot _ attributes children =>
    (Twig.slotBlock defaultSlot attributes).1 :: slots defaultSlot children
  | .fragment _ children => slots defaultSlot children
  | .element _ _ _ children => slots defaultSlot children
  | .component _ _ _ children => slots defaultSlot children
  | .ifBlock _ _ children otherwise _ =>
    slots defaultSlot children ++ branchSlots defaultSlot otherwise
  | .eachBlock _ _ _ _ _ children otherwise =>
    slots defaultSlot children ++ branchSlots defaultSlot otherwise
  | .text _ => []
  | .comment _ _ => []
  | .mustache _ _ => []
  | .rawMustache _ _ => []
  | .unknown => []

def slots (defaultSlot : String) : List Node → List String
  | [] => []
  | first :: rest => nodeSlots defaultSlot first ++ slots defaultSlot rest

def branchSlots (defaultSlot : String) : Option Branch → List String
  | none => []
  | some (.mk _ children) => slots defaultSlot children

end

/-- The interface of a component. -/
def Component.context (component : Component) (name : String) (overrides : Option Yaml)
    (options : Options) : Report Context := do
  let facts ← collectFacts component.statementFacts component.document.instanceBody
  pure {
    name := name
    props := Ordered.ofList (facts.filterMap Fact.prop?)
    slots := slots options.defaultSlot component.document.html.children
    setStatements := Ordered.ofList (facts.filterMap Fact.binding?)
    overrides := overrides
  }

end TwigComponent
