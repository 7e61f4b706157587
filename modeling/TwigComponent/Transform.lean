import TwigComponent.Metadata

/-!
# Transforming a component

A component becomes a Twig template and, if wanted, a metadata document. The
template begins with the variables that the script sets, one to a line.
-/
namespace TwigComponent

open Source

/-- The tags that set the variables of a component. -/
def setPrelude (statements : List (String × String)) : String :=
  String.join (statements.map fun (name, value) => Twig.setTag name value ++ "\n")

/-- The template of a component. -/
def Component.template (component : Component) (context : Context) (options : Options) :
    Report String := do
  let body ← Twig.fragment options component.document.html.children
  pure (setPrelude context.setStatements ++ body)

/-- What becomes of a component. -/
structure Transformed where
  twig : String
  metadata : Option String
  context : Context

/-- Why a component is not transformed. -/
inductive TransformError where
  | options (error : OptionsError)
  /-- The metadata document cannot be written. -/
  | metadata (fault : Yaml.WriteFault)
deriving DecidableEq, Repr

def TransformError.message : TransformError → String
  | .options error => error.message
  | .metadata fault => "failed to serialize metadata: " ++ fault.message

/-- The text of the metadata document, if one is wanted. -/
def Options.metadataText (options : Options) (context : Context) :
    Except TransformError (Option String) :=
  if options.metadata then (Metadata.text context).mapError .metadata |>.map some else .ok none

/-- Transforms a component. Its options are looked at first. -/
def Component.transform (component : Component) (name : String) (overrides : Option Yaml)
    (options : Options) : Except TransformError (Report Transformed) := do
  options.validate.mapError .options
  let context := component.context name overrides options
  let metadata ← options.metadataText context.value
  return do
    let context ← context
    let twig ← component.template context options
    pure { twig := twig, metadata := metadata, context := context }

end TwigComponent
