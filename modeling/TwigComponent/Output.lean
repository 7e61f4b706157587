import TwigComponent.Json.Printer
import TwigComponent.Report
import TwigComponent.Text.Lines

/-!
# Output of diagnostics

Diagnostics are printed for people, as JSON, or one to a line for machines.
Lines and columns count from one; they are zero where the text of the component
is not known or ends before the place.
-/
namespace TwigComponent

open Text

inductive OutputFormat where
  | human
  | json
  | machine
deriving DecidableEq, Repr

def OutputFormat.name : OutputFormat → String
  | .human => "human"
  | .json => "json"
  | .machine => "machine"

/-- The least severity that is printed. -/
inductive Threshold where
  | error
  | warning
  | hint
deriving DecidableEq, Repr

namespace Threshold

def name : Threshold → String
  | .error => "error"
  | .warning => "warning"
  | .hint => "hint"

def severity : Threshold → Severity
  | .error => .error
  | .warning => .warning
  | .hint => .hint

def includes (threshold : Threshold) (severity : Severity) : Bool :=
  threshold.severity.rank ≤ severity.rank

end Threshold

namespace Output

/-- The lines of a text, if the text is known. -/
def lines? (source : Option String) : Option LineIndex := source.map LineIndex.ofText

/-- The line and column of an offset, both zero if it has none. -/
def place (lines : Option LineIndex) (offset : Nat) : Nat × Nat :=
  match lines.bind (·.position? offset) with
  | some position => (position.line + 1, position.column + 1)
  | none => (0, 0)

/-- The path with the line and column of an offset, or the path alone. -/
def location (lines : Option LineIndex) (path : String) (offset : Nat) : String :=
  match lines.bind (·.position? offset) with
  | some position => path ++ ":" ++ toString (position.line + 1) ++ ":" ++ toString (position.column + 1)
  | none => path

def humanText (lines : Option LineIndex) (path : String) (diagnostic : Diagnostic) : String :=
  location lines path diagnostic.span.start ++ "\n" ++ diagnostic.severity.name ++ ": "
    ++ diagnostic.message ++ " (" ++ diagnostic.code.name ++ ")\n\n"

def machineSeverity : Severity → String
  | .error => "ERROR"
  | .warning => "WARNING"
  | .hint => "HINT"

def machineText (lines : Option LineIndex) (path : String) (diagnostic : Diagnostic) : String :=
  let (startLine, startColumn) := place lines diagnostic.span.start
  let (stopLine, stopColumn) := place lines diagnostic.span.stop
  machineSeverity diagnostic.severity ++ " " ++ path ++ ":" ++ toString startLine ++ ":"
    ++ toString startColumn ++ ":" ++ toString stopLine ++ ":" ++ toString stopColumn ++ " "
    ++ diagnostic.message ++ " (" ++ diagnostic.code.name ++ ")\n"

def positionJson (lines : Option LineIndex) (offset : Nat) : Json :=
  let (line, column) := place lines offset
  .obj [("line", .ofNat line), ("column", .ofNat column), ("offset", .ofNat offset)]

def diagnosticJson (lines : Option LineIndex) (path : String) (diagnostic : Diagnostic) : Json :=
  .obj [
    ("type", .str diagnostic.severity.name),
    ("filename", .str path),
    ("start", positionJson lines diagnostic.span.start),
    ("end", positionJson lines diagnostic.span.stop),
    ("message", .str diagnostic.message),
    ("code", .str diagnostic.code.name)]

/-- The diagnostics of one file as JSON values. -/
def fileJson (diagnostics : List Diagnostic) (path : String) (source : Option String) : List Json :=
  diagnostics.map (diagnosticJson (lines? source) path)

def jsonText (values : List Json) : String := (Json.arr values).pretty 0

/-- The diagnostics of one file. -/
def fileText (format : OutputFormat) (diagnostics : List Diagnostic) (path : String)
    (source : Option String) : String :=
  match format with
  | .human => String.join (diagnostics.map (humanText (lines? source) path))
  | .json => jsonText (fileJson diagnostics path source)
  | .machine => String.join (diagnostics.map (machineText (lines? source) path))

end Output

/-- What a run came to. -/
structure Summary where
  files : Nat := 0
  written : Nat := 0
  errors : Nat := 0
  warnings : Nat := 0
  failOnWarnings : Bool := false
deriving DecidableEq, Repr

namespace Summary

def failed (summary : Summary) : Bool :=
  0 < summary.errors || (summary.failOnWarnings && 0 < summary.warnings)

/-- A count with its noun. -/
def counted (n : Nat) (noun : String) : String :=
  toString n ++ " " ++ noun ++ (if n = 1 then "" else "s")

def text (summary : Summary) : String :=
  "svelte-twig translated " ++ toString summary.written ++ " of " ++ counted summary.files "file"
    ++ " with " ++ counted summary.errors "error" ++ " and " ++ counted summary.warnings "warning"

end Summary

end TwigComponent
