import TwigComponent.Output

/-!
# Command line

An option takes its value from the next argument, after an equals sign or, in
its short form, right after its letter. An argument that looks like an option is
never a value. A value is checked when the next option or operand begins, or at
the end of the line, so a later unknown option is reported before it.
-/
namespace TwigComponent

/-- What the command line asks for. -/
structure Arguments where
  input : String := "."
  out : String := "components"
  theme : Option String := none
  defaultSlot : Option String := none
  noMetadata : Bool := false
  config : Option String := none
  extension : Option String := none
  ignore : List String := []
  output : OutputFormat := .human
  threshold : Threshold := .warning
  failOnWarnings : Bool := false
  dryRun : Bool := false
deriving DecidableEq, Repr

/-- Why a command line is not run. -/
inductive ArgumentError where
  | unknownArgument
  /-- A value that is not allowed, or is missing. -/
  | invalidValue
  /-- An option given twice. -/
  | conflict
  /-- A value for an option that takes none. -/
  | tooManyValues
  | help
  | version
deriving DecidableEq, Repr

namespace CommandLine

inductive Flag where
  | out
  | theme
  | defaultSlot
  | noMetadata
  | config
  | extension
  | ignore
  | output
  | threshold
  | failOnWarnings
  | dryRun
  | help
  | version
deriving DecidableEq, Repr

namespace Flag

def longNames : List (String × Flag) :=
  [("out", .out), ("namespace", .theme), ("default-slot", .defaultSlot),
    ("no-metadata", .noMetadata), ("config", .config), ("extension", .extension),
    ("ignore", .ignore), ("output", .output), ("threshold", .threshold),
    ("fail-on-warnings", .failOnWarnings), ("dry-run", .dryRun), ("help", .help),
    ("version", .version)]

def shortNames : List (Char × Flag) := [('o', .out), ('h', .help), ('V', .version)]

def takesValue : Flag → Bool
  | .noMetadata => false
  | .failOnWarnings => false
  | .dryRun => false
  | .help => false
  | .version => false
  | _ => true

end Flag

/-- The line as far as it was read. -/
structure Progress where
  arguments : Arguments := {}
  /-- The options given so far. -/
  given : List Flag := []
  /-- The last option, while its value is missing or not yet checked. -/
  pending : Option (Flag × Option String) := none
  /-- Whether only operands follow. -/
  operandsOnly : Bool := false
  hasInput : Bool := false

def outputFormat? (name : String) : Option OutputFormat :=
  [OutputFormat.human, .json, .machine].find? fun format => format.name == name

def threshold? (name : String) : Option Threshold :=
  [Threshold.error, .warning, .hint].find? fun threshold => threshold.name == name

/-- The arguments with an option set; an option without a value ignores it. -/
def setFlag (arguments : Arguments) (value : String) : Flag → Except ArgumentError Arguments
  | .out => .ok { arguments with out := value }
  | .theme => .ok { arguments with theme := some value }
  | .defaultSlot => .ok { arguments with defaultSlot := some value }
  | .noMetadata => .ok { arguments with noMetadata := true }
  | .config => .ok { arguments with config := some value }
  | .extension => .ok { arguments with extension := some value }
  | .ignore => .ok { arguments with ignore := arguments.ignore ++ [value] }
  | .output =>
    match outputFormat? value with
    | some format => .ok { arguments with output := format }
    | none => .error .invalidValue
  | .threshold =>
    match threshold? value with
    | some threshold => .ok { arguments with threshold := threshold }
    | none => .error .invalidValue
  | .failOnWarnings => .ok { arguments with failOnWarnings := true }
  | .dryRun => .ok { arguments with dryRun := true }
  | .help => .error .help
  | .version => .error .version

/-- Takes an option with its value. Only patterns to ignore may be given more than once. -/
def take (progress : Progress) (flag : Flag) (value : String) :
    Except ArgumentError Progress := do
  if flag != .ignore && progress.given.contains flag then .error .conflict
  else
    let arguments ← setFlag progress.arguments value flag
    pure { progress with arguments := arguments, given := flag :: progress.given, pending := none }

/-- Takes the option whose value was not yet checked. -/
def settlePending (progress : Progress) : Except ArgumentError Progress :=
  match progress.pending with
  | none => .ok progress
  | some (_, none) => .error .invalidValue
  | some (flag, some value) => take progress flag value

/-- Takes an option with a value attached to it. -/
def takeAttached (progress : Progress) (flag : Flag) (value : String) :
    Except ArgumentError Progress := do
  take (← settlePending progress) flag value

/-- Begins an option that stands by itself. -/
def begin (progress : Progress) (flag : Flag) : Except ArgumentError Progress := do
  let progress ← settlePending progress
  if flag.takesValue then pure { progress with pending := some (flag, none) }
  else take progress flag ""

/-- An option in its long form, after the two hyphens. -/
def long (progress : Progress) (name : List Char) (value : Option String) :
    Except ArgumentError Progress :=
  match Flag.longNames.lookup (String.ofList name), value with
  | none, _ => .error .unknownArgument
  | some flag, none => begin progress flag
  | some flag, some value =>
    if flag.takesValue then takeAttached progress flag value else .error .tooManyValues

/-- An option in its short form, after the hyphen. -/
def short (progress : Progress) (letter : Char) (rest : List Char) :
    Except ArgumentError Progress :=
  match Flag.shortNames.lookup letter with
  | none => .error .unknownArgument
  | some flag =>
    if flag.takesValue then
      match rest with
      | [] => begin progress flag
      | '=' :: value => takeAttached progress flag (String.ofList value)
      | value => takeAttached progress flag (String.ofList value)
    else begin progress flag

/-- The only operand is the input directory. -/
def operand (progress : Progress) (text : String) : Except ArgumentError Progress := do
  if progress.hasInput then .error .unknownArgument
  else
    let progress ← settlePending progress
    pure { progress with
      arguments := { progress.arguments with input := text }
      hasInput := true }

/-- The value after the first equals sign, if there is one. -/
def attached? (cs : List Char) : Option String :=
  match cs.dropWhile (· != '=') with
  | _ :: value => some (String.ofList value)
  | [] => none

def step (progress : Progress) (text : String) : Except ArgumentError Progress :=
  if progress.operandsOnly then operand progress text
  else
    match text.toList with
    | ['-', '-'] => .ok { progress with operandsOnly := true }
    | '-' :: '-' :: rest => long progress (rest.takeWhile (· != '=')) (attached? rest)
    | '-' :: letter :: rest => short progress letter rest
    | _ =>
      match progress.pending with
      | some (flag, none) => .ok { progress with pending := some (flag, some text) }
      | _ => operand progress text

/-- Reads a command line without the name of the program. -/
def parse (line : List String) : Except ArgumentError Arguments := do
  let progress ← line.foldlM step {}
  return (← settlePending progress).arguments

end CommandLine

end TwigComponent
