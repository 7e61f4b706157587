import TwigComponent.Proofs.RunCourse
import TwigComponent.Proofs.Complaints

/-!
# The counts of a run

What a run counts is exact. A report has at most one error, which is its last
diagnostic, and without a dry run a document is written exactly if its report has
none, so the documents written and the errors add up to the documents found. No
threshold hides an error. The statements hold for every disk: a disk is any state
with operations on it, so its answers may be anything and may change from one
operation to the next.
-/
namespace TwigComponent

open Source

namespace FileReport

def hasError (report : FileReport) : Bool := report.diagnostics.any (·.severity == .error)

def hasWarning (report : FileReport) : Bool := report.diagnostics.any (·.severity == .warning)

theorem hasError_iff {report : FileReport} : report.hasError = true ↔
    ∃ diagnostic ∈ report.diagnostics, diagnostic.severity = .error := by
  simp [hasError]

theorem hasError_eq_false_iff {report : FileReport} : report.hasError = false ↔
    ∀ diagnostic ∈ report.diagnostics, diagnostic.severity ≠ .error := by
  simp [hasError]

theorem hasWarning_iff {report : FileReport} : report.hasWarning = true ↔
    ∃ diagnostic ∈ report.diagnostics, diagnostic.severity = .warning := by
  simp [hasWarning]

end FileReport

/-- Whether the document, the author's metadata or the metadata document could not be made of what
the disk answered. -/
def Plan.fails (plan : Plan) (visit : Visit) : Bool :=
  match readDocument (plan.files visit.file) visit.document,
    readOverrides (plan.files visit.file) visit.overrides with
  | .ok document, .ok overrides =>
    let context := Component.context ⟨document, visit.source⟩ (plan.files visit.file).name overrides
      plan.settings.options
    match plan.settings.options.metadataText context.value with
    | .ok _ => false
    | .error _ => true
  | _, _ => true

section Visits

variable {plan : Plan} {visit : Visit}

theorem severity_readDocument {files : ComponentFiles} {read : Except ReadFailure String}
    {error : Diagnostic} (h : readDocument files read = .error error) : error.severity = .error := by
  unfold readDocument at h
  split at h
  · cases h
    rfl
  · split at h
    · cases h
    · cases h
      rfl

theorem severity_readOverrides {files : ComponentFiles} {read : Except ReadFailure String}
    {error : Diagnostic} (h : readOverrides files read = .error error) :
    error.severity = .error := by
  unfold readOverrides at h
  split at h
  · cases h
  · cases h
    rfl
  · split at h
    · cases h
    · cases h
      rfl

/-- A document has results if it and the author's metadata can be read and the component can be
transformed. -/
theorem results_eq_ok_iff {results : Report Transformed} :
    plan.results visit = .ok results ↔ ∃ document overrides,
      readDocument (plan.files visit.file) visit.document = .ok document ∧
      readOverrides (plan.files visit.file) visit.overrides = .ok overrides ∧
      Component.transform ⟨document, visit.source⟩ (plan.files visit.file).name overrides
        plan.settings.options = .ok results := by
  unfold Plan.results resultsOf
  cases hd : readDocument (plan.files visit.file) visit.document with
  | error error => simp [bind, Except.bind]
  | ok document =>
    cases ho : readOverrides (plan.files visit.file) visit.overrides with
    | error error => simp [bind, Except.bind]
    | ok overrides =>
      cases ht : Component.transform ⟨document, visit.source⟩ (plan.files visit.file).name overrides
          plan.settings.options with
      | error error => simp [bind, Except.bind, ht]
      | ok report => simp [bind, Except.bind, ht]

/-- A document without results has an error in their place. -/
theorem severity_results {error : Diagnostic} (h : plan.results visit = .error error) :
    error.severity = .error := by
  unfold Plan.results resultsOf at h
  cases hd : readDocument (plan.files visit.file) visit.document with
  | error failure =>
    rw [hd] at h
    cases h
    exact severity_readDocument hd
  | ok document =>
    cases ho : readOverrides (plan.files visit.file) visit.overrides with
    | error failure =>
      rw [hd, ho] at h
      cases h
      exact severity_readOverrides ho
    | ok overrides =>
      rw [hd, ho] at h
      simp only [bind, Except.bind] at h
      split at h
      · cases h
      · cases h
        split <;> rfl

theorem results_mild {results : Report Transformed} (h : plan.results visit = .ok results) :
    ∀ diagnostic ∈ results.diagnostics, diagnostic.severity ≠ .error := by
  obtain ⟨document, overrides, -, -, transformed⟩ := results_eq_ok_iff.mp h
  exact Component.transform_mild transformed

/-- With valid options, what can go wrong is the document, the author's metadata or the metadata
document. -/
theorem fails_eq_false_iff (valid : plan.settings.options.validate = .ok ()) :
    plan.fails visit = false ↔ ∃ results, plan.results visit = .ok results := by
  simp only [results_eq_ok_iff, Component.transform_eq_ok_iff, valid, true_and]
  unfold Plan.fails
  cases readDocument (plan.files visit.file) visit.document with
  | error error => simp
  | ok document =>
    cases readOverrides (plan.files visit.file) visit.overrides with
    | error error => simp
    | ok overrides =>
      cases hm : plan.settings.options.metadataText (Component.context ⟨document, visit.source⟩
          (plan.files visit.file).name overrides plan.settings.options).value with
      | error fault => simp [hm]
      | ok text => simp [hm]

/-- No diagnostic but the last is an error. -/
theorem report_dropLast_mild (plan : Plan) (visit : Visit) :
    ∀ diagnostic ∈ (plan.report visit).diagnostics.dropLast, diagnostic.severity ≠ .error := by
  unfold Plan.report
  cases hr : plan.results visit with
  | error error =>
    intro diagnostic hd
    cases hd
  | ok results =>
    have mild := results_mild hr
    dsimp only
    split
    · exact fun diagnostic hd => mild diagnostic ((List.dropLast_sublist _).subset hd)
    · split
      · exact fun diagnostic hd => mild diagnostic ((List.dropLast_sublist _).subset hd)
      · rw [List.dropLast_concat]
        exact mild

/-- Without a dry run a document is written exactly if its report has no error. -/
theorem report_written (hd : plan.dryRun = false) (visit : Visit) :
    (plan.report visit).written = !(plan.report visit).hasError := by
  unfold Plan.report
  cases hr : plan.results visit with
  | error error =>
    have severe := severity_results hr
    simp [FileReport.hasError, severe]
  | ok results =>
    have mild := results_mild hr
    cases hs : visit.stored with
    | true =>
      simp only [hd, Bool.false_eq_true, if_false, if_true]
      rw [FileReport.hasError_eq_false_iff.mpr mild]
      rfl
    | false =>
      simp [hd, FileReport.hasError, fileError, Diagnostic.severity, Code.severity]

/-- In a dry run no document is written, and the errors are those of the documents that fail. -/
theorem report_dry (hd : plan.dryRun = true) (valid : plan.settings.options.validate = .ok ())
    (visit : Visit) :
    (plan.report visit).written = false ∧ (plan.report visit).hasError = plan.fails visit := by
  cases hr : plan.results visit with
  | error error =>
    have severe := severity_results hr
    have failed : plan.fails visit = true := by
      rw [← Bool.not_eq_false, fails_eq_false_iff valid]
      simp [hr]
    simp [Plan.report, hr, FileReport.hasError, severe, failed]
  | ok results =>
    have succeeded : plan.fails visit = false := (fails_eq_false_iff valid).mpr ⟨results, hr⟩
    simp only [Plan.report, hr, hd, if_true, true_and]
    rw [succeeded]
    exact FileReport.hasError_eq_false_iff.mpr (results_mild hr)

end Visits

section Counts

/-- No threshold hides an error. -/
theorem includes_error (threshold : Threshold) : threshold.includes .error = true := by
  cases threshold <;> decide

theorem includes_warning_iff (threshold : Threshold) :
    threshold.includes .warning = true ↔ threshold ≠ .error := by
  cases threshold <;> decide

/-- A severity that is not hidden is counted as if nothing were. -/
theorem countSeverity_shown {severity : Severity} {threshold : Threshold}
    (h : threshold.includes severity = true) (report : FileReport) :
    countSeverity severity (report.shown threshold) = countSeverity severity report.diagnostics := by
  rw [countSeverity, FileReport.shown, List.countP_filter, countSeverity]
  refine List.countP_congr fun diagnostic _ => ?_
  constructor
  · intro both
    exact (Bool.and_eq_true_iff.mp both).1
  · intro severe
    rw [severe, eq_of_beq severe, h]
    rfl

theorem countSeverity_append (severity : Severity) (first second : List Diagnostic) :
    countSeverity severity (first ++ second) =
      countSeverity severity first + countSeverity severity second :=
  List.countP_append

theorem countSeverity_pos_iff (severity : Severity) (diagnostics : List Diagnostic) :
    0 < countSeverity severity diagnostics ↔
      diagnostics.any (·.severity == severity) = true := by
  rw [countSeverity, List.countP_pos_iff, List.any_eq_true]

/-- If no diagnostic but the last is an error, there is one error or none. -/
theorem countSeverity_error {report : FileReport}
    (h : ∀ diagnostic ∈ report.diagnostics.dropLast, diagnostic.severity ≠ .error) :
    countSeverity .error report.diagnostics = if report.hasError then 1 else 0 := by
  rw [FileReport.hasError]
  rcases List.eq_nil_or_concat report.diagnostics with empty | ⟨earlier, last, ends⟩
  · rw [empty]
    rfl
  · rw [ends, List.concat_eq_append] at h ⊢
    rw [List.dropLast_concat] at h
    have none : countSeverity .error earlier = 0 :=
      List.countP_eq_zero.mpr fun diagnostic hd => by simpa using h diagnostic hd
    have quiet : earlier.any (·.severity == .error) = false :=
      List.any_eq_false.mpr fun diagnostic hd => by simpa using h diagnostic hd
    rw [countSeverity_append, none, List.any_append, quiet]
    by_cases severe : last.severity = .error <;> simp [countSeverity, severe]

/-- The errors of a run are the reports that have one, whatever is shown. -/
theorem errors_ofReports (arguments : Arguments) {reports : List FileReport}
    (h : ∀ report ∈ reports, ∀ diagnostic ∈ report.diagnostics.dropLast,
      diagnostic.severity ≠ .error) :
    (Summary.ofReports arguments reports).errors = reports.countP (·.hasError) := by
  change countSeverity .error (reports.flatMap (·.shown arguments.threshold)) = _
  induction reports with
  | nil => rfl
  | cons report rest ih =>
    rw [List.forall_mem_cons] at h
    rw [List.flatMap_cons, countSeverity_append, countSeverity_shown (includes_error _),
      countSeverity_error h.1, ih h.2, List.countP_cons, Nat.add_comm]

/-- Warnings count unless only errors are shown. -/
theorem warnings_pos_iff (arguments : Arguments) (reports : List FileReport) :
    0 < (Summary.ofReports arguments reports).warnings ↔
      arguments.threshold ≠ .error ∧ ∃ report ∈ reports, report.hasWarning = true := by
  change 0 < countSeverity .warning (reports.flatMap (·.shown arguments.threshold)) ↔ _
  rw [countSeverity_pos_iff, ← includes_warning_iff]
  simp only [List.any_eq_true, List.mem_flatMap, FileReport.shown, FileReport.hasWarning,
    List.mem_filter]
  constructor
  · rintro ⟨diagnostic, ⟨report, hr, hd, shown⟩, severe⟩
    rw [eq_of_beq severe] at shown
    exact ⟨shown, report, hr, diagnostic, hd, severe⟩
  · rintro ⟨shown, report, hr, diagnostic, hd, severe⟩
    refine ⟨diagnostic, ⟨report, hr, hd, ?_⟩, severe⟩
    rwa [eq_of_beq severe]

/-- If documents are written exactly when their reports have no error, the documents written and
the errors add up to all documents. -/
theorem written_add_errors (arguments : Arguments) {reports : List FileReport}
    (mild : ∀ report ∈ reports, ∀ diagnostic ∈ report.diagnostics.dropLast,
      diagnostic.severity ≠ .error)
    (written : ∀ report ∈ reports, report.written = !report.hasError) :
    (Summary.ofReports arguments reports).written + (Summary.ofReports arguments reports).errors =
      (Summary.ofReports arguments reports).files := by
  have unfailed : (Summary.ofReports arguments reports).written =
      reports.countP (fun report => ¬report.hasError) :=
    List.countP_congr fun report hr => by simp [written report hr]
  rw [errors_ofReports arguments mild, unfailed, Nat.add_comm]
  exact (List.length_eq_countP_add_countP FileReport.hasError).symm

theorem failed_ofReports_iff (arguments : Arguments) {reports : List FileReport}
    (mild : ∀ report ∈ reports, ∀ diagnostic ∈ report.diagnostics.dropLast,
      diagnostic.severity ≠ .error) :
    (Summary.ofReports arguments reports).failed = true ↔
      (∃ report ∈ reports, report.hasError = true) ∨
      (arguments.failOnWarnings = true ∧ arguments.threshold ≠ .error ∧
        ∃ report ∈ reports, report.hasWarning = true) := by
  have errors : 0 < (Summary.ofReports arguments reports).errors ↔
      ∃ report ∈ reports, report.hasError = true := by
    rw [errors_ofReports arguments mild, List.countP_pos_iff]
  rw [← errors, ← warnings_pos_iff, Summary.failed, Bool.or_eq_true, Bool.and_eq_true,
    decide_eq_true_eq, decide_eq_true_eq]
  rfl

end Counts

/-- The accounts of a run that gives reports, on any disk and in any order. It made a plan and visited
its documents as the schedule says, and the reports are those of the visits, in the order of the
documents. No diagnostic of a report but the last is an error. Without a dry run a document is
written exactly if its report has no error, and under every threshold the documents written and the
errors add up to all documents. In a dry run nothing is written, and the errors are the documents
that could not be read, whose overrides could not be used or whose metadata could not be made. The
run fails exactly if a report has an error, or if warnings are to count, are shown and there is
one. -/
theorem run_accounts {σ : Type} (disk : Disk (StateM σ)) (schedule : Schedule)
    (workingDirectory : String) (arguments : Arguments) (before after : σ)
    (reports : List FileReport)
    (h : (run disk schedule workingDirectory arguments).run before = (.ok reports, after)) :
    ∃ plan middle visits,
      (planRun disk workingDirectory arguments).run before = (.ok plan, middle) ∧
      ((schedule.order plan.documents).mapM (visitFile disk plan)).run middle = (visits, after) ∧
      (schedule.restore visits).map (·.file) = plan.documents ∧
      reports = (schedule.restore visits).map plan.report ∧
      (∀ report ∈ reports, ∀ diagnostic ∈ report.diagnostics.dropLast,
        diagnostic.severity ≠ .error) ∧
      (arguments.dryRun = false →
        (∀ report ∈ reports, report.written = true ↔
          ∀ diagnostic ∈ report.diagnostics, diagnostic.severity ≠ .error) ∧
        ∀ threshold,
          (Summary.ofReports { arguments with threshold } reports).written +
            (Summary.ofReports { arguments with threshold } reports).errors =
          (Summary.ofReports { arguments with threshold } reports).files) ∧
      (arguments.dryRun = true →
        (Summary.ofReports arguments reports).written = 0 ∧
        (Summary.ofReports arguments reports).errors = visits.countP plan.fails) ∧
      ((Summary.ofReports arguments reports).failed = true ↔
        (∃ report ∈ reports, ∃ diagnostic ∈ report.diagnostics, diagnostic.severity = .error) ∨
        (arguments.failOnWarnings = true ∧ arguments.threshold ≠ .error ∧
          ∃ report ∈ reports, ∃ diagnostic ∈ report.diagnostics,
            diagnostic.severity = .warning)) := by
  obtain ⟨plan, middle, visits, planned, visited, files, rfl⟩ := run_ok h
  obtain ⟨dry, valid⟩ := planRun_ok planned
  have mild : ∀ report ∈ (schedule.restore visits).map plan.report,
      ∀ diagnostic ∈ report.diagnostics.dropLast, diagnostic.severity ≠ .error :=
    List.forall_mem_map.mpr fun visit _ => report_dropLast_mild plan visit
  refine ⟨plan, middle, visits, planned, visited, files, rfl, mild, ?_, ?_, ?_⟩
  · intro wet
    rw [← dry] at wet
    have written : ∀ report ∈ (schedule.restore visits).map plan.report,
        report.written = !report.hasError :=
      List.forall_mem_map.mpr fun visit _ => report_written wet visit
    constructor
    · intro report hr
      rw [written report hr, Bool.not_eq_true', FileReport.hasError_eq_false_iff]
    · intro threshold
      exact written_add_errors _ mild written
  · intro dryRun
    rw [← dry] at dryRun
    constructor
    · refine List.countP_eq_zero.mpr (List.forall_mem_map.mpr fun visit _ => ?_)
      rw [(report_dry dryRun valid visit).1]
      exact Bool.false_ne_true
    · rw [errors_ofReports _ mild, List.countP_map, ← (schedule.restore_perm visits).countP_eq]
      exact List.countP_congr fun visit _ => by
        rw [Function.comp_apply, (report_dry dryRun valid visit).2]
  · rw [failed_ofReports_iff _ mild]
    simp only [FileReport.hasError_iff, FileReport.hasWarning_iff]

/-- On the shelf two documents are written and two have errors. -/
theorem run_accounts_shelf :
    (run FileTree.disk .forwards "/p" shelfArguments).run shelf =
      (.ok (shelfVisits.map shelfPlan.report), shelfAfter) ∧
    (shelfVisits.map shelfPlan.report).map (·.written) = [true, true, false, false] ∧
    ∀ threshold,
      (Summary.ofReports { shelfArguments with threshold }
        (shelfVisits.map shelfPlan.report)).written +
      (Summary.ofReports { shelfArguments with threshold }
        (shelfVisits.map shelfPlan.report)).errors =
      (Summary.ofReports { shelfArguments with threshold }
        (shelfVisits.map shelfPlan.report)).files := by
  refine ⟨shelf_run, by decide +kernel, ?_⟩
  obtain ⟨-, -, -, -, -, -, -, -, wet, -⟩ := run_accounts _ _ _ _ _ _ _ shelf_run
  exact (wet rfl).2

end TwigComponent
