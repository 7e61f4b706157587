import TwigComponent.Context
import TwigComponent.Yaml.Merge
import TwigComponent.Yaml.Reader
import TwigComponent.Yaml.Writer

/-!
# Component metadata

The metadata document of a component: what its interface says, with the author's
document merged on top, and the known keys first in a fixed order.
-/
namespace TwigComponent.Metadata

/-- The schema that every document names. -/
def schemaUrl : String :=
  "https://git.drupalcode.org/project/drupal/-/raw/HEAD/core/assets/schemas/v1/metadata.schema.json"

/-- The known top-level keys in their order. -/
def keyOrder : List String :=
  ["$schema", "name", "description", "group", "status", "props", "slots", "libraryOverrides",
    "thirdPartySettings"]

/-- Whether the text of a key, a tagged one included, is a known key. -/
def isKnown (key : Yaml) : Bool :=
  match key.text? with
  | some text => keyOrder.contains text
  | none => false

/-- The entry of a known key, the last one if tags make several of the same name. -/
def findKnown? (entries : List (Yaml × Yaml)) (name : String) : Option (Yaml × Yaml) :=
  entries.reverse.find? fun entry => entry.1.text? == some name

/-- The known keys first in their order, then the others in the order they had. -/
def orderKeys (entries : List (Yaml × Yaml)) : List (Yaml × Yaml) :=
  keyOrder.filterMap (findKnown? entries)
    ++ entries.filter fun entry => !isKnown entry.1

def optionalEntry (key : String) (value : Option Yaml) : List (Yaml × Yaml) :=
  match value with
  | some value => [(.str key, value)]
  | none => []

def definitionDocument (definition : PropDefinition) : Yaml :=
  .map ([(.str "type", .str definition.type.name)]
    ++ optionalEntry "title" (definition.title.map .str)
    ++ optionalEntry "description" (definition.description.map .str)
    ++ optionalEntry "default" (definition.default.map .ofJson)
    ++ optionalEntry "enum" (definition.allowed.map fun values => .seq (values.map .ofJson)))

/-- The schema of the props, which is left out when there are none. -/
def propsDocument? (props : List (String × PropDefinition)) : Option Yaml :=
  if props.isEmpty then none
  else some (.map [(.str "type", .str "object"),
    (.str "properties",
      .map (props.map fun (name, definition) => (.str name, definitionDocument definition)))])

def slotsDocument? (slots : List String) : Option Yaml :=
  if slots.isEmpty then none
  else some (.map ((Ordered.distinct slots).map fun name => (.str name, .map [])))

/-- The document that follows from the interface alone. -/
def inferred (context : Context) : List (Yaml × Yaml) :=
  [(.str "$schema", .str schemaUrl), (.str "name", .str context.name)]
    ++ optionalEntry "props" (propsDocument? context.props)
    ++ optionalEntry "slots" (slotsDocument? context.slots)

/-- The metadata document of a component. -/
def build (context : Context) : Yaml :=
  let document : Yaml := .map (inferred context)
  let merged :=
    match context.overrides with
    | some overrides => document.merge overrides
    | none => document
  match merged with
  | .map entries => .map (orderKeys entries)
  | other => other

/-- The text of the metadata document of a component. -/
def text (context : Context) : Except Yaml.WriteFault String := (build context).text

/-- Why an author's document cannot be used. -/
inductive OverridesError where
  | malformed
  | notMapping (found : Yaml)

def OverridesError.message : OverridesError → String
  | .malformed => "invalid override document: malformed YAML"
  | .notMapping found => s!"the override document must be a mapping, found {found.describe}"

/-- The document that a text holds. A blank text, like a null document, overrides nothing. -/
def parseOverrides (text : String) : Except OverridesError (Option Yaml) :=
  if Text.isAllBlank text then .ok none
  else
    match Yaml.ofText? text with
    | none => .error .malformed
    | some .null => .ok none
    | some (.map entries) => .ok (some (.map entries))
    | some other => .error (.notMapping other)

end TwigComponent.Metadata
