import TwigComponent.CommandLine
import TwigComponent.Json.Raw
import TwigComponent.Options

/-!
# Settings

A project may keep its settings in a file; the command line wins over it. The
patterns to ignore of both are used.
-/
namespace TwigComponent

/-- The name of the file in the input directory. -/
def configFile : String := "svelte-twig.json"

def defaultExtension : String := ".svelte.json"

/-- What a project's file may say. -/
structure Config where
  theme : Option String := none
  defaultSlot : Option String := none
  metadata : Option Bool := none
  extension : Option String := none
  ignore : List String := []
deriving DecidableEq, Repr

namespace Config

def fields : List String := ["namespace", "defaultSlot", "metadata", "extension", "ignore"]

def textOf? : Option Json → Option (Option String)
  | none => some none
  | some .null => some none
  | some (.str value) => some (some value)
  | some _ => none

def flagOf? : Option Json → Option (Option Bool)
  | none => some none
  | some .null => some none
  | some (.bool value) => some (some value)
  | some _ => none

def textItems? : List Json → Option (List String)
  | [] => some []
  | .str value :: rest => (value :: ·) <$> textItems? rest
  | _ :: _ => none

def textsOf? : Option Json → Option (List String)
  | none => some []
  | some (.arr items) => textItems? items
  | some _ => none

/-- Whether every key is known and none is repeated. -/
def hasKnownKeys : List String → Bool
  | [] => true
  | key :: rest => fields.contains key && !rest.contains key && hasKnownKeys rest

def ofMembers? (members : List (String × Json)) : Option Config :=
  if hasKnownKeys (members.map (·.1)) then do
    some {
      theme := ← textOf? (members.lookup "namespace")
      defaultSlot := ← textOf? (members.lookup "defaultSlot")
      metadata := ← flagOf? (members.lookup "metadata")
      extension := ← textOf? (members.lookup "extension")
      ignore := ← textsOf? (members.lookup "ignore")
    }
  else none

/-- The settings are an object, or a list of their values in order. -/
def ofJson? : Json → Option Config
  | .obj members => ofMembers? members
  | .arr items => if items.length ≤ fields.length then ofMembers? (fields.zip items) else none
  | _ => none

def ofText? (text : String) : Option Config := (Json.ofText? text).bind ofJson?

end Config

/-- The settings of a run. -/
structure Settings where
  options : Options
  extension : String
  ignore : List String
deriving DecidableEq, Repr

def Settings.resolve (arguments : Arguments) (config : Config) : Settings where
  options := {
    theme := (arguments.theme.or config.theme).getD ""
    defaultSlot := (arguments.defaultSlot.or config.defaultSlot).getD defaultSlotName
    metadata := !arguments.noMetadata && config.metadata.getD true
  }
  extension := (arguments.extension.or config.extension).getD defaultExtension
  ignore := config.ignore ++ arguments.ignore

end TwigComponent
