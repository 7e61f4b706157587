import TwigComponent.Run

/-!
# The program

Reads the command line, runs over the file system and prints what came of it.
-/
namespace TwigComponent

/-- Files below a directory. Links are not followed. -/
partial def listFiles (path : String) (above : List String) : IO (List (List String)) := do
  let entries ← (← IO.FS.realPath path).readDir
  let mut found := []
  for entry in entries do
    let place := above ++ [entry.fileName]
    match (← entry.path.symlinkMetadata).type with
    | .dir => found := found ++ (← listFiles entry.path.toString place)
    | .file => found := found ++ [place]
    | _ => pure ()
  return found

def readText (path : String) : IO (Except ReadFailure String) := do
  try
    return .ok (← IO.FS.readFile path)
  catch error =>
    match error with
    | .noFileOrDirectory .. => return .error .missing
    | _ => return .error .unreadable

def succeeds (action : IO Unit) : IO Bool := do
  try
    action
    return true
  catch _ => return false

/-- The file system. -/
def fileSystem : Disk IO where
  isDirectory path := do
    try
      (← IO.FS.realPath path).isDir
    catch _ => return false
  filesBelow path := do
    try
      listFiles path []
    catch _ => return []
  read := readText
  makeDirectory path := succeeds (IO.FS.createDirAll path)
  write path text := succeeds (IO.FS.writeFile path text)

def usage : String :=
  "\n".intercalate [
    "Usage: svelte-twig [OPTIONS] [INPUT]",
    "",
    "Options:",
    "  -o, --out <OUT>",
    "      --namespace <NAMESPACE>",
    "      --default-slot <DEFAULT_SLOT>",
    "      --no-metadata",
    "      --config <CONFIG>",
    "      --extension <EXTENSION>",
    "      --ignore <IGNORE>",
    "      --output <human|json|machine>",
    "      --threshold <error|warning|hint>",
    "      --fail-on-warnings",
    "      --dry-run",
    "  -h, --help",
    "  -V, --version",
    ""]

def versionText : String := "svelte-twig 0.1.0\n"

/-- Answers a command line that asks for no run. -/
def refuse : ArgumentError → IO UInt32
  | .help => do
    IO.print usage
    return 0
  | .version => do
    IO.print versionText
    return 0
  | .unknownArgument => failure "unexpected argument found"
  | .invalidValue => failure "a value is missing or invalid"
  | .conflict => failure "an option cannot be used multiple times"
  | .tooManyValues => failure "unexpected value for an option"
where
  failure (message : String) : IO UInt32 := do
    IO.eprint ("error: " ++ message ++ "\n\n" ++ usage)
    return 2

/-- Runs a command line, and gives the exit code. -/
def program (line : List String) : IO UInt32 := do
  match CommandLine.parse line with
  | .error error => refuse error
  | .ok arguments =>
    match ← run fileSystem .backwards (← IO.currentDir).toString arguments with
    | .error error =>
      IO.eprintln ("Error: " ++ error.message)
      return 1
    | .ok reports =>
      IO.print (outputText arguments reports)
      IO.eprint (summaryText arguments reports)
      return if (Summary.ofReports arguments reports).failed then 1 else 0

end TwigComponent

def main (line : List String) : IO UInt32 := TwigComponent.program line
