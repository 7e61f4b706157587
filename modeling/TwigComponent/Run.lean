import TwigComponent.Files.Disk
import TwigComponent.Glob
import TwigComponent.Settings
import TwigComponent.Source.DocumentReader
import TwigComponent.Transform

/-!
# A run

A run finds the component documents below the input directory and turns each
into a template and a metadata document below the output directory. Files are
independent of each other: what goes wrong with one is reported for that one.
Only settings that no file can be processed with stop a run.

Documents are processed side by side, so that no order is fixed: which one is next
is up to a schedule. The reports stand in the order of the documents all the same.
-/
namespace TwigComponent

open Source

/-- Why nothing was processed. -/
inductive RunError where
  | missingInput (path : String)
  | unreadableConfig (path : String)
  | invalidConfig (path : String)
  | options (error : OptionsError)
  | invalidGlob (pattern : String)
deriving DecidableEq, Repr

def RunError.message : RunError → String
  | .missingInput path => "input directory not found: " ++ path
  | .unreadableConfig path => "failed to read " ++ path ++ ": it is not a text file"
  | .invalidConfig path => "invalid config file " ++ path ++ ": it does not hold known settings"
  | .options error => error.message
  | .invalidGlob pattern => "invalid glob pattern: " ++ pattern

/-- A document below the input directory. -/
structure FoundFile where
  folders : List String
  name : String
deriving DecidableEq, Repr

namespace FoundFile

def ofComponents? (components : List String) : Option FoundFile :=
  components.getLast?.map (FoundFile.mk components.dropLast)

def components (file : FoundFile) : List String := file.folders ++ [file.name]

/-- The path from the input directory. -/
def relativePath (file : FoundFile) : String := "/".intercalate file.components

end FoundFile

/-- The name of a component, from the name of its document. -/
def componentName (extension fileName : String) : String :=
  String.ofList (fileName.toList.take (fileName.length - extension.length))

/-- The files that belong to a document. -/
structure ComponentFiles where
  name : String
  document : String
  source : String
  overrides : String
  /-- The directory of the results. -/
  folder : String
  twig : String
  metadata : String
deriving DecidableEq, Repr

/-- The source and the author's metadata stand beside the document; the results have a directory
of their own. -/
def FoundFile.files (file : FoundFile) (input out extension : String) : ComponentFiles :=
  let name := componentName extension file.name
  let id := componentSlug name
  let beside :=
    if file.folders.isEmpty then Path.trimEnd input else Path.joinAll input file.folders
  let folder := Path.join (Path.join out ("/".intercalate file.folders)) id
  { name := name
    document := Path.joinAll input file.components
    source := Path.join beside (name ++ ".svelte")
    overrides := Path.join beside (name ++ ".override.yml")
    folder := folder
    twig := Path.join folder (id ++ ".twig")
    metadata := Path.join folder (id ++ ".component.yml") }

/-- What became of one document. -/
structure FileReport where
  path : String
  source : Option String
  diagnostics : List Diagnostic
  written : Bool
deriving DecidableEq, Repr

/-- A diagnostic about a file as a whole. -/
def fileError (code : Code) (message : String) : Diagnostic := ⟨code, message, {}⟩

def unreadable (path : String) : String := "failed to read " ++ path ++ ": it is not a text file"

def readDocument (files : ComponentFiles) (read : Except ReadFailure String) :
    Except Diagnostic Document :=
  match read with
  | .error _ => .error (fileError .loadError (unreadable files.document))
  | .ok text =>
    match Document.ofText text with
    | .ok document => .ok document
    | .error error => .error (fileError .loadError error.message)

/-- The author's metadata, which may be missing. -/
def readOverrides (files : ComponentFiles) (read : Except ReadFailure String) :
    Except Diagnostic (Option Yaml) :=
  match read with
  | .error .missing => .ok none
  | .error .unreadable => .error (fileError .metadataError (unreadable files.overrides))
  | .ok text =>
    match Metadata.parseOverrides text with
    | .ok overrides => .ok overrides
    | .error error =>
      .error (fileError .metadataError (files.overrides ++ ": " ++ error.message))

/-- The results of a document, from what was read. -/
def resultsOf (options : Options) (files : ComponentFiles) (source : Option String)
    (document overrides : Except ReadFailure String) : Except Diagnostic (Report Transformed) := do
  let document ← readDocument files document
  let overrides ← readOverrides files overrides
  match Component.transform ⟨document, source⟩ files.name overrides options with
  | .ok report => .ok report
  | .error error =>
    let code : Code :=
      match error with
      | .options _ => .loadError
      | .metadata _ => .metadataError
    .error (fileError code error.message)

/-- Which document is processed next: its position among those that are not processed yet, for any
number of others that are left with it. -/
structure Schedule where
  next : (others : Nat) → Fin (others + 1)

namespace Schedule

/-- From the first to the last. -/
def forwards : Schedule := ⟨fun _ => 0⟩

/-- From the last to the first, so that the results of the first are written last. -/
def backwards : Schedule := ⟨Fin.last⟩

variable {α : Type}

/-- A list in the order in which its members are processed. -/
def order (schedule : Schedule) : List α → List α
  | [] => []
  | first :: rest =>
    (first :: rest).get (schedule.next rest.length) ::
      schedule.order ((first :: rest).eraseIdx (schedule.next rest.length))
termination_by list => list.length
decreasing_by
  rw [List.length_eraseIdx_of_lt (schedule.next rest.length).isLt, List.length_cons]
  exact Nat.lt_succ_self _

/-- What stands in the order of processing, put back in the order of the list processed. -/
def restore (schedule : Schedule) : List α → List α
  | [] => []
  | first :: rest => (schedule.restore rest).insertIdx (schedule.next rest.length) first

end Schedule

section

variable {m : Type → Type} [Monad m]

/-- Writes the results of a document, up to the first failure. -/
def store (disk : Disk m) (files : ComponentFiles) (results : Transformed) : m Bool := do
  if ← disk.makeDirectory files.folder then
    if ← disk.write files.twig results.twig then
      match results.metadata with
      | some metadata => disk.write files.metadata metadata
      | none => pure true
    else pure false
  else pure false

def process (disk : Disk m) (settings : Settings) (input out : String) (dryRun : Bool)
    (file : FoundFile) : m FileReport := do
  let files := file.files input out settings.extension
  let source := (← disk.read files.source).toOption
  let document ← disk.read files.document
  let overrides ← disk.read files.overrides
  let report (diagnostics : List Diagnostic) (written : Bool) : FileReport :=
    ⟨file.relativePath, source, diagnostics, written⟩
  match resultsOf settings.options files source document overrides with
  | .error error => pure (report [error] false)
  | .ok results =>
    if dryRun then pure (report results.diagnostics false)
    else if ← store disk files results.value then pure (report results.diagnostics true)
    else
      let failure := fileError .writeError ("failed to write " ++ files.folder ++ ": it is in the way")
      pure (report (results.diagnostics ++ [failure]) false)

/-- The settings from the command line and the project's file, which may be missing. -/
def readSettings (disk : Disk m) (arguments : Arguments) (path : String) :
    m (Except RunError Settings) := do
  match ← disk.read path with
  | .error .missing => pure (.ok (Settings.resolve arguments {}))
  | .error .unreadable => pure (.error (.unreadableConfig path))
  | .ok text =>
    match Config.ofText? text with
    | some config => pure (.ok (Settings.resolve arguments config))
    | none => pure (.error (.invalidConfig path))

/-- Patterns that are always ignored. -/
def ignoredAlways : List String := ["**/node_modules/**", "**/.git/**"]

def readGlobs : List String → Except RunError (List Glob)
  | [] => .ok []
  | pattern :: rest =>
    match Glob.ofText? pattern with
    | some glob => (glob :: ·) <$> readGlobs rest
    | none => .error (.invalidGlob pattern)

/-- Whether a file below the input directory is a document to process. -/
def isDocument (input out extension : String) (ignored : List Glob) (file : FoundFile) : Bool :=
  !Path.isBelow (Path.components input ++ file.components) (Path.components out)
    && extension.utf8ByteSize < file.name.utf8ByteSize
    && extension.toList.isSuffixOf file.name.toList
    && !ignored.any fun glob => glob.isMatch file.relativePath

/-- The documents below the input directory, ordered by path. -/
def discover (disk : Disk m) (input out extension : String) (ignored : List Glob) :
    m (List FoundFile) := do
  let found := (← disk.filesBelow input).filterMap FoundFile.ofComponents?
  let documents := found.filter (isDocument input out extension ignored)
  pure (documents.mergeSort fun a b => Path.componentsLe a.components b.components)

/-- Processes the documents in the order of the schedule. The reports are in the order given. -/
def processAll (disk : Disk m) (schedule : Schedule) (settings : Settings) (input out : String)
    (dryRun : Bool) (documents : List FoundFile) : m (List FileReport) := do
  let reports ← (schedule.order documents).mapM (process disk settings input out dryRun)
  pure (schedule.restore reports)

/-- Runs over the input directory. -/
def run (disk : Disk m) (schedule : Schedule) (workingDirectory : String) (arguments : Arguments) :
    m (Except RunError (List FileReport)) := do
  let input := Path.absolute workingDirectory arguments.input
  let out := Path.absolute workingDirectory arguments.out
  if !(← disk.isDirectory input) then pure (.error (.missingInput input))
  else
    let config :=
      match arguments.config with
      | some path => Path.absolute workingDirectory path
      | none => Path.join input configFile
    match ← readSettings disk arguments config with
    | .error error => pure (.error error)
    | .ok settings =>
      match settings.options.validate, readGlobs (settings.ignore ++ ignoredAlways) with
      | .error error, _ => pure (.error (.options error))
      | .ok (), .error error => pure (.error error)
      | .ok (), .ok ignored => do
        let documents ← discover disk input out settings.extension ignored
        let reports ← processAll disk schedule settings input out arguments.dryRun documents
        pure (.ok reports)

end

/-- The diagnostics of a report that are severe enough to be shown. -/
def FileReport.shown (report : FileReport) (threshold : Threshold) : List Diagnostic :=
  report.diagnostics.filter fun diagnostic => threshold.includes diagnostic.severity

def countSeverity (severity : Severity) (diagnostics : List Diagnostic) : Nat :=
  diagnostics.countP fun diagnostic => diagnostic.severity == severity

/-- The counts of a run. Only diagnostics that are shown count. -/
def Summary.ofReports (arguments : Arguments) (reports : List FileReport) : Summary :=
  let shown := reports.flatMap (·.shown arguments.threshold)
  { files := reports.length
    written := reports.countP (·.written)
    errors := countSeverity .error shown
    warnings := countSeverity .warning shown
    failOnWarnings := arguments.failOnWarnings }

/-- What a run prints to its standard output. -/
def outputText (arguments : Arguments) (reports : List FileReport) : String :=
  match arguments.output with
  | .json =>
    Output.jsonText (reports.flatMap fun report =>
      Output.fileJson (report.shown arguments.threshold) report.path report.source) ++ "\n"
  | format =>
    String.join (reports.map fun report =>
      Output.fileText format (report.shown arguments.threshold) report.path report.source)

/-- What a run prints to its standard error. -/
def summaryText (arguments : Arguments) (reports : List FileReport) : String :=
  match arguments.output with
  | .json => ""
  | _ => (Summary.ofReports arguments reports).text ++ "\n"

end TwigComponent
