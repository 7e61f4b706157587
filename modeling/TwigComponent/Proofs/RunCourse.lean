import TwigComponent.Files.Tree
import TwigComponent.Proofs.Schedules

/-!
# The course of a run

A run first settles what it is going to do: the settings, the two directories and
the documents. Then it visits the documents in the order of its schedule. What the
disk answers on a visit is all that the report of the document depends on, so a
statement about reports is one about single visits. Over a tree in memory the plan
can be read off the tree, which making the plan does not change.
-/
namespace TwigComponent

open Source

/-- What a run is going to do. -/
structure Plan where
  settings : Settings
  input : String
  out : String
  dryRun : Bool
  documents : List FoundFile

/-- What the disk answered for one document. -/
structure Visit where
  file : FoundFile
  source : Option String
  document : Except ReadFailure String
  overrides : Except ReadFailure String
  /-- Whether all results were written. -/
  stored : Bool
deriving DecidableEq

namespace Plan

/-- The files of a document. To compare two of them their lemmas are used: unfolded, they are texts
that are long to compare. -/
@[irreducible]
def files (plan : Plan) (file : FoundFile) : ComponentFiles :=
  file.files plan.input plan.out plan.settings.extension

/-- The results of a document, or the error that stands for them. -/
def results (plan : Plan) (visit : Visit) : Except Diagnostic (Report Transformed) :=
  resultsOf plan.settings.options (plan.files visit.file) visit.source visit.document
    visit.overrides

/-- The report of a document. -/
def report (plan : Plan) (visit : Visit) : FileReport :=
  let report (diagnostics : List Diagnostic) (written : Bool) : FileReport :=
    ⟨visit.file.relativePath, visit.source, diagnostics, written⟩
  match plan.results visit with
  | .error error => report [error] false
  | .ok results =>
    if plan.dryRun then report results.diagnostics false
    else if visit.stored then report results.diagnostics true
    else report (results.diagnostics ++ [fileError .writeError
      ("failed to write " ++ (plan.files visit.file).folder ++ ": it is in the way")]) false

end Plan

section

variable {m : Type → Type} [Monad m]

/-- What a run does before it processes documents. -/
def planRun (disk : Disk m) (workingDirectory : String) (arguments : Arguments) :
    m (Except RunError Plan) := do
  let input := Path.absolute workingDirectory arguments.input
  let out := Path.absolute workingDirectory arguments.out
  if !(← disk.isDirectory input) then pure (.error (.missingInput input))
  else
    let config :=
      match arguments.config with
      | some path => Path.absolute workingDirectory path
      | none => Path.join input configFile
    match ← readSettings disk arguments config with
    | .error error => pure (.error error)
    | .ok settings =>
      match settings.options.validate, readGlobs (settings.ignore ++ ignoredAlways) with
      | .error error, _ => pure (.error (.options error))
      | .ok (), .error error => pure (.error error)
      | .ok (), .ok ignored => do
        let documents ← discover disk input out settings.extension ignored
        pure (.ok ⟨settings, input, out, arguments.dryRun, documents⟩)

/-- Reads what belongs to a document and writes its results, unless the run is dry. -/
def visitFile (disk : Disk m) (plan : Plan) (file : FoundFile) : m Visit := do
  let source := (← disk.read (plan.files file).source).toOption
  let document ← disk.read (plan.files file).document
  let overrides ← disk.read (plan.files file).overrides
  match resultsOf plan.settings.options (plan.files file) source document overrides with
  | .error _ => pure ⟨file, source, document, overrides, false⟩
  | .ok results =>
    if plan.dryRun then pure ⟨file, source, document, overrides, false⟩
    else
      let stored ← store disk (plan.files file) results.value
      pure ⟨file, source, document, overrides, stored⟩

variable [LawfulMonad m]

/-- Processing a document is visiting it and reporting what was seen. -/
theorem process_eq_report (disk : Disk m) (plan : Plan) (file : FoundFile) :
    process disk plan.settings plan.input plan.out plan.dryRun file =
      plan.report <$> visitFile disk plan file := by
  simp only [process, visitFile, map_bind, Plan.files]
  refine bind_congr fun source => bind_congr fun document => bind_congr fun overrides => ?_
  cases hr : resultsOf plan.settings.options (file.files plan.input plan.out plan.settings.extension)
    source.toOption document overrides with
  | error error => simp [Plan.report, Plan.results, Plan.files, hr]
  | ok results =>
    cases hd : plan.dryRun with
    | true => simp [Plan.report, Plan.results, Plan.files, hr, hd]
    | false =>
      simp only [Bool.false_eq_true, if_false, map_bind, map_pure]
      refine bind_congr fun stored => ?_
      cases stored <;> simp [Plan.report, Plan.results, Plan.files, hr, hd]

/-- Making the same of every answer is making it of all of them. -/
theorem mapM_map_eq {α β γ : Type} (step : α → m β) (f : β → γ) (list : List α) :
    list.mapM (fun item => f <$> step item) = (·.map f) <$> list.mapM step := by
  induction list with
  | nil => simp
  | cons first rest ih => simp [ih]

theorem processAll_eq_reports (disk : Disk m) (schedule : Schedule) (plan : Plan)
    (documents : List FoundFile) :
    processAll disk schedule plan.settings plan.input plan.out plan.dryRun documents =
      (fun visits => (schedule.restore visits).map plan.report) <$>
        (schedule.order documents).mapM (visitFile disk plan) := by
  have reports : process disk plan.settings plan.input plan.out plan.dryRun =
      fun file => plan.report <$> visitFile disk plan file :=
    funext (process_eq_report disk plan)
  rw [processAll, reports, mapM_map_eq, bind_map_left, map_eq_pure_bind]
  refine bind_congr fun visits => ?_
  rw [schedule.restore_map]

/-- A run makes its plan, visits the documents and reports what was seen. -/
theorem run_eq_reports (disk : Disk m) (schedule : Schedule) (workingDirectory : String)
    (arguments : Arguments) :
    run disk schedule workingDirectory arguments = (do
      match ← planRun disk workingDirectory arguments with
      | .error error => pure (.error error)
      | .ok plan =>
        let visits ← (schedule.order plan.documents).mapM (visitFile disk plan)
        pure (.ok ((schedule.restore visits).map plan.report))) := by
  unfold run planRun
  simp only [bind_assoc]
  refine bind_congr fun isDirectory => ?_
  cases isDirectory with
  | false => simp
  | true =>
    simp only [Bool.not_true, Bool.false_eq_true, if_false, bind_assoc]
    refine bind_congr fun settings => ?_
    cases settings with
    | error error => simp
    | ok settings =>
      cases hv : settings.options.validate with
      | error error => simp [hv]
      | ok _ =>
        cases hg : readGlobs (settings.ignore ++ ignoredAlways) with
        | error error => simp [hv, hg]
        | ok ignored =>
          simp only [hv, hg, bind_assoc, pure_bind]
          refine bind_congr fun documents => ?_
          rw [processAll_eq_reports disk schedule ⟨settings, _, _, arguments.dryRun, documents⟩]
          simp

end

section Outcomes

variable {σ : Type} {disk : Disk (StateM σ)} {schedule : Schedule} {workingDirectory : String}
  {arguments : Arguments}

/-- The second step goes on in the state that the first one left. -/
theorem run_bind_eq {α β : Type} (step : StateM σ α) (next : α → StateM σ β) (state : σ) :
    (step >>= next).run state = (next (step.run state).1).run (step.run state).2 := rfl

theorem run_pure_eq {α : Type} (value : α) (state : σ) :
    (pure value : StateM σ α).run state = (value, state) := rfl

/-- A visit is one of the document that was to be visited. -/
theorem file_visitFile (plan : Plan) (file : FoundFile) (state : σ) :
    ((visitFile disk plan file).run state).1.file = file := by
  unfold visitFile
  rw [run_bind_eq, run_bind_eq, run_bind_eq]
  split
  · rfl
  · split <;> rfl

theorem files_visited (disk : Disk (StateM σ)) (plan : Plan) (files : List FoundFile) (state : σ) :
    ((files.mapM (visitFile disk plan)).run state).1.map (·.file) = files := by
  induction files generalizing state with
  | nil => rfl
  | cons file rest ih =>
    rw [List.mapM_cons, run_bind_eq, run_bind_eq, run_pure_eq, List.map_cons, file_visitFile, ih]

/-- A plan is only made with options that are valid. -/
theorem planRun_ok {before middle : σ} {plan : Plan}
    (h : (planRun disk workingDirectory arguments).run before = (.ok plan, middle)) :
    plan.dryRun = arguments.dryRun ∧ plan.settings.options.validate = .ok () := by
  unfold planRun at h
  dsimp only at h
  rw [run_bind_eq] at h
  split at h
  · cases h
  · rw [run_bind_eq] at h
    split at h
    · cases h
    · split at h
      · cases h
      · cases h
      · rename_i valid _
        cases h
        exact ⟨rfl, valid⟩

/-- A run with reports made a plan and visited its documents. The visits that are reported are those
of the documents, in their order. -/
theorem run_ok {before after : σ} {reports : List FileReport}
    (h : (run disk schedule workingDirectory arguments).run before = (.ok reports, after)) :
    ∃ plan middle visits,
      (planRun disk workingDirectory arguments).run before = (.ok plan, middle) ∧
      ((schedule.order plan.documents).mapM (visitFile disk plan)).run middle = (visits, after) ∧
      (schedule.restore visits).map (·.file) = plan.documents ∧
      reports = (schedule.restore visits).map plan.report := by
  rw [run_eq_reports, run_bind_eq] at h
  rcases hp : (planRun disk workingDirectory arguments).run before with ⟨made, middle⟩
  rw [hp] at h
  cases made with
  | error error => cases h
  | ok plan =>
    dsimp only at h
    rw [run_bind_eq] at h
    cases h
    refine ⟨plan, middle, (((schedule.order plan.documents).mapM (visitFile disk plan)).run middle).1,
      rfl, rfl, ?_, rfl⟩
    rw [← schedule.restore_map, files_visited, schedule.restore_order]

/-- With a plan, a run visits the documents and reports what was seen. -/
theorem run_of_plan (schedule : Schedule) {before middle : σ} {plan : Plan}
    (h : (planRun disk workingDirectory arguments).run before = (.ok plan, middle)) :
    (run disk schedule workingDirectory arguments).run before =
      (.ok ((schedule.restore
          (((schedule.order plan.documents).mapM (visitFile disk plan)).run middle).1).map
            plan.report),
        (((schedule.order plan.documents).mapM (visitFile disk plan)).run middle).2) := by
  rw [run_eq_reports, run_bind_eq, h]
  rfl

end Outcomes

namespace FileTree

variable {workingDirectory : String} {arguments : Arguments}

/-- The settings that a run over a tree has. -/
def settings (tree : FileTree) (arguments : Arguments) (path : String) :
    Except RunError Settings :=
  ((readSettings disk arguments path).run tree).1

/-- The documents that a run over a tree finds. -/
def documents (tree : FileTree) (input out extension : String) (ignored : List Glob) :
    List FoundFile :=
  (((tree.filesBelow input).filterMap FoundFile.ofComponents?).filter
    (isDocument input out extension ignored)).mergeSort
      fun a b => Path.componentsLe a.components b.components

theorem isDirectory_run (tree : FileTree) (path : String) :
    (disk.isDirectory path).run tree = (tree.isDirectory path, tree) := rfl

theorem readSettings_run (tree : FileTree) (path : String) :
    (readSettings disk arguments path).run tree = (tree.settings arguments path, tree) := by
  refine Prod.ext rfl ?_
  unfold readSettings
  rw [run_bind_eq]
  split
  · rfl
  · rfl
  · split <;> rfl

/-- Without a file of its own a project has the settings of the command line. -/
theorem settings_of_missing {tree : FileTree} {path : String}
    (h : tree.read path = .error .missing) :
    tree.settings arguments path = .ok (Settings.resolve arguments {}) := by
  have read : (disk.read path).run tree = (.error .missing, tree) := Prod.ext h rfl
  rw [settings, readSettings, run_bind_eq, read]
  rfl

/-- The place of the settings of a project. -/
def configPath (workingDirectory input : String) (arguments : Arguments) : String :=
  match arguments.config with
  | some path => Path.absolute workingDirectory path
  | none => Path.join input configFile

/-- What a plan for a run over a tree is made of. -/
structure Plans (tree : FileTree) (workingDirectory : String) (arguments : Arguments)
    (plan : Plan) : Prop where
  input : plan.input = Path.absolute workingDirectory arguments.input
  out : plan.out = Path.absolute workingDirectory arguments.out
  dryRun : plan.dryRun = arguments.dryRun
  directory : tree.isDirectory plan.input = true
  settings : tree.settings arguments (configPath workingDirectory plan.input arguments) =
    .ok plan.settings
  valid : plan.settings.options.validate = .ok ()
  documents : ∃ ignored, readGlobs (plan.settings.ignore ++ ignoredAlways) = .ok ignored ∧
    plan.documents = tree.documents plan.input plan.out plan.settings.extension ignored

/-- Making a plan does not change the tree. -/
theorem planRun_ok_iff {tree middle : FileTree} {plan : Plan} :
    (planRun disk workingDirectory arguments).run tree = (.ok plan, middle) ↔
      middle = tree ∧ tree.Plans workingDirectory arguments plan := by
  constructor
  · intro h
    unfold planRun at h
    dsimp only at h
    rw [run_bind_eq, isDirectory_run] at h
    split at h
    · cases h
    · rename_i directory
      rw [run_bind_eq, readSettings_run] at h
      split at h
      · cases h
      · rename_i settings read
        split at h
        · cases h
        · cases h
        · rename_i valid globs
          cases h
          exact ⟨rfl, rfl, rfl, rfl, by simpa using directory, read, valid, _, globs, rfl⟩
  · rintro ⟨rfl, planned⟩
    obtain ⟨settings, input, out, dryRun, documents⟩ := plan
    obtain ⟨hi, ho, hd, directory, read, valid, ignored, globs, found⟩ := planned
    dsimp only at hi ho hd directory read valid globs found
    subst hi ho hd found
    unfold planRun
    dsimp only
    rw [run_bind_eq, isDirectory_run, directory, Bool.not_true, if_neg Bool.false_ne_true,
      run_bind_eq, readSettings_run, ← configPath, read]
    dsimp only
    rw [valid, globs]
    rfl

/-- The documents of a plan, if they stand in order and are what is found in the tree. -/
theorem documents_of_found {tree : FileTree} {plan : Plan}
    (readable : (readGlobs (plan.settings.ignore ++ ignoredAlways)).isOk = true)
    (found : ((tree.filesBelow plan.input).filterMap FoundFile.ofComponents?).filter
      (isDocument plan.input plan.out plan.settings.extension
        ((readGlobs (plan.settings.ignore ++ ignoredAlways)).toOption.getD [])) = plan.documents)
    (sorted : plan.documents.Pairwise fun a b => Path.componentsLe a.components b.components) :
    ∃ ignored, readGlobs (plan.settings.ignore ++ ignoredAlways) = .ok ignored ∧
      plan.documents = tree.documents plan.input plan.out plan.settings.extension ignored := by
  cases globs : readGlobs (plan.settings.ignore ++ ignoredAlways) with
  | error error =>
    rw [globs] at readable
    cases readable
  | ok ignored =>
    rw [globs] at found
    change List.filter (isDocument _ _ _ ignored) _ = _ at found
    refine ⟨ignored, rfl, ?_⟩
    rw [documents, found]
    exact (List.mergeSort_of_pairwise sorted).symm

end FileTree

/-- A project with four documents. The first two have names that differ in one mark only, the
third is no JSON, and the results of the fourth have a file in their way. -/
def shelf : FileTree where
  entries := [
    (["/"], .directory),
    (["/", "p"], .directory),
    (["/", "p", "a-b.json"], .file "[]".toUTF8),
    (["/", "p", "a.b.json"], .file "[]".toUTF8),
    (["/", "p", "bad.json"], .file "?".toUTF8),
    (["/", "p", "box.json"], .file "[]".toUTF8),
    (["/", "p", "out"], .directory),
    (["/", "p", "out", "box"], .file ByteArray.empty)]

def shelfArguments : Arguments :=
  { out := "out", theme := some "shop", extension := some ".json", failOnWarnings := true }

def shelfPlan : Plan where
  settings := Settings.resolve shelfArguments {}
  input := "/p/."
  out := "/p/out"
  dryRun := false
  documents := ["a-b.json", "a.b.json", "bad.json", "box.json"].map (FoundFile.mk [])

theorem shelf_plans : shelf.Plans "/p" shelfArguments shelfPlan where
  input := by decide +kernel
  out := by decide +kernel
  dryRun := rfl
  directory := by decide +kernel
  settings := FileTree.settings_of_missing (by decide +kernel)
  valid := by decide +kernel
  documents := FileTree.documents_of_found (by decide +kernel) (by decide +kernel)
    (by decide +kernel)

def shelfVisits : List Visit := [
  ⟨⟨[], "a-b.json"⟩, none, .ok "[]", .error .missing, true⟩,
  ⟨⟨[], "a.b.json"⟩, none, .ok "[]", .error .missing, true⟩,
  ⟨⟨[], "bad.json"⟩, none, .ok "?", .error .missing, false⟩,
  ⟨⟨[], "box.json"⟩, none, .ok "[]", .error .missing, false⟩]

def shelfAfter : FileTree :=
  ((shelfPlan.documents.mapM (visitFile FileTree.disk shelfPlan)).run shelf).2

theorem shelf_visited :
    (shelfPlan.documents.mapM (visitFile FileTree.disk shelfPlan)).run shelf =
      (shelfVisits, shelfAfter) := by
  have visits : ((shelfPlan.documents.mapM (visitFile FileTree.disk shelfPlan)).run shelf).1 =
      shelfVisits := by
    decide +kernel
  rw [shelfAfter, ← visits]
  exact (Prod.eta _).symm

theorem shelf_planned :
    (planRun FileTree.disk "/p" shelfArguments).run shelf = (.ok shelfPlan, shelf) :=
  FileTree.planRun_ok_iff.mpr ⟨rfl, shelf_plans⟩

theorem shelf_run :
    (run FileTree.disk .forwards "/p" shelfArguments).run shelf =
      (.ok (shelfVisits.map shelfPlan.report), shelfAfter) := by
  have runs := run_of_plan .forwards shelf_planned
  rw [Schedule.order_forwards, shelf_visited, Schedule.restore_forwards] at runs
  dsimp only at runs
  exact runs

end TwigComponent
