import TwigComponent.Text.Blank

/-!
# Options and component names

The options of a run, the rules they have to meet, and the names under which
components refer to one another.
-/
namespace TwigComponent

/-- The block that takes the content of slots without a name. -/
def defaultSlotName : String := "content"

structure Options where
  /-- The first part of component references. -/
  theme : String
  defaultSlot : String := defaultSlotName
  /-- Whether a metadata document is made. -/
  metadata : Bool := true
deriving DecidableEq, Repr

inductive OptionsError where
  | missingNamespace
  | invalidNamespace (name : String)
  | emptyDefaultSlot
deriving DecidableEq, Repr

def OptionsError.message : OptionsError → String
  | .missingNamespace =>
    "a namespace is required (set `namespace` in the config file or pass --namespace)"
  | .invalidNamespace name =>
    s!"invalid namespace `{name}`: use letters, digits, `_` and `-` only"
  | .emptyDefaultSlot => "the default slot identifier must not be empty"

/-- Letters and digits are those of ASCII. -/
def isNamespaceChar (c : Char) : Bool :=
  c.isAlphanum || c == '_' || c == '-'

/-- Refuses options that no run can use. -/
def Options.validate (options : Options) : Except OptionsError Unit :=
  if options.theme = "" then .error .missingNamespace
  else if !options.theme.toList.all isNamespaceChar then
    .error (.invalidNamespace options.theme)
  else if Text.isAllBlank options.defaultSlot then .error .emptyDefaultSlot
  else .ok ()

/-- A tag name in lower case, with a hyphen for every character that is neither a letter nor a
digit of ASCII. -/
def componentSlug (name : String) : String :=
  String.ofList (name.toList.map fun c => if c.isAlphanum then c.toLower else '-')

/-- The reference to a component: the namespace, a colon and the slug of its tag name. -/
def Options.componentId (options : Options) (name : String) : String :=
  options.theme ++ ":" ++ componentSlug name

end TwigComponent
