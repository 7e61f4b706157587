import Mathlib.Data.List.Permutation
import TwigComponent.Proofs.Accounting
import TwigComponent.Proofs.ResultPaths

/-!
# Which results are kept

A visit of a document changes a tree at the places of the document's results only, so
the results of a document stay until a later document writes to the same directory.
That happens exactly if the two have the same folders and the slugs of their names are
the same: of such documents only the last one keeps its results, although all are
reported as written. What a visit reads is not touched by the visits before it, so in
whatever order documents are visited, each gets the results that it would have alone.
-/
namespace TwigComponent

namespace Plan

/-- The places that a visit may have written to. -/
def written (plan : Plan) (visit : Visit) : List (List String) :=
  match plan.results visit with
  | .ok _ => plan.outputs visit.file
  | .error _ => []

/-- The results that a document has in a tree. -/
def resultsIn (plan : Plan) (tree : FileTree) (file : FoundFile) :
    Except Diagnostic (Report Transformed) :=
  resultsOf plan.settings.options (plan.files file)
    (tree.read (plan.files file).source).toOption (tree.read (plan.files file).document)
    (tree.read (plan.files file).overrides)

/-- With metadata switched on, the results hold a metadata document. -/
theorem metadata_of_results {plan : Plan} {visit : Visit} {results : Report Transformed}
    (h : plan.results visit = .ok results) (on : plan.settings.options.metadata = true) :
    ∃ document overrides,
      readDocument (plan.files visit.file) visit.document = .ok document ∧
      readOverrides (plan.files visit.file) visit.overrides = .ok overrides ∧
      ∃ text, Metadata.text (Component.context ⟨document, visit.source⟩
          (plan.files visit.file).name overrides plan.settings.options).value = .ok text ∧
        results.value.metadata = some text := by
  obtain ⟨document, overrides, read, parsed, transformed⟩ := results_eq_ok_iff.mp h
  obtain ⟨-, metadata, made, rfl⟩ := Component.transform_eq_ok_iff.mp transformed
  refine ⟨document, overrides, read, parsed, ?_⟩
  rw [Options.metadataText, if_pos on] at made
  cases written : Metadata.text (Component.context ⟨document, visit.source⟩
      (plan.files visit.file).name overrides plan.settings.options).value with
  | error fault =>
    rw [written] at made
    cases made
  | ok text =>
    rw [written] at made
    cases made
    exact ⟨text, rfl, rfl⟩

theorem mem_written {plan : Plan} {visit : Visit} {place : List String} :
    place ∈ plan.written visit ↔
      (∃ results, plan.results visit = .ok results) ∧ place ∈ plan.outputs visit.file := by
  unfold written
  cases plan.results visit with
  | error error => simp
  | ok results => simp

theorem report_written_iff {plan : Plan} {visit : Visit} :
    (plan.report visit).written = true ↔
      (∃ results, plan.results visit = .ok results) ∧ plan.dryRun = false ∧
        visit.stored = true := by
  unfold report
  cases plan.results visit with
  | error error => simp
  | ok results => cases plan.dryRun <;> cases visit.stored <;> simp

end Plan

namespace FileTree

section Operations

theorem read_run (tree : FileTree) (path : String) :
    (disk.read path).run tree = (tree.read path, tree) := rfl

theorem makeDirectory_run (tree : FileTree) (path : String) :
    (disk.makeDirectory path).run tree =
      ((tree.makeDirectory path).2, (tree.makeDirectory path).1) := rfl

theorem write_run (tree : FileTree) (path text : String) :
    (disk.write path text).run tree = ((tree.write path text).2, (tree.write path text).1) := rfl

/-- Storing results changes nothing but their places, and when it worked they are there. -/
theorem store_run {files : ComponentFiles} (results : Transformed) (tree : FileTree)
    (apart : Path.place files.twig ≠ Path.place files.metadata) :
    Grows [Path.place files.twig, Path.place files.metadata] tree
        ((store disk files results).run tree).2 ∧
      (((store disk files results).run tree).1 = true →
        ((store disk files results).run tree).2.Holds files.twig results.twig ∧
        ∀ text, results.metadata = some text →
          ((store disk files results).run tree).2.Holds files.metadata text) := by
  have made := grows_makeDirectory tree files.folder
  have wrote := made.trans (grows_write _ files.twig results.twig)
  have both (text : String) := wrote.trans (grows_write _ files.metadata text)
  unfold store
  rw [run_bind_eq, makeDirectory_run]
  dsimp only
  split
  · rw [run_bind_eq, write_run]
    dsimp only
    split
    · rename_i twig
      have holds := holds_write twig
      cases results.metadata with
      | none =>
        refine ⟨wrote.mono (by simp), fun _ => ⟨holds, ?_⟩⟩
        intro text none
        cases none
      | some metadata =>
        dsimp only
        rw [write_run]
        refine ⟨(both metadata).mono (by simp), fun stored => ⟨?_, ?_⟩⟩
        · exact holds.grows (grows_write _ files.metadata metadata) (by simpa using apart)
        · rintro text ⟨⟩
          exact holds_write stored
    · exact ⟨wrote.mono (by simp), nofun⟩
  · exact ⟨made.mono (by simp), nofun⟩

end Operations

/-- What a visit of a document saw in a tree and left there. -/
structure Visited (plan : Plan) (before : FileTree) (visit : Visit) (after : FileTree) : Prop where
  source : visit.source = (before.read (plan.files visit.file).source).toOption
  document : visit.document = before.read (plan.files visit.file).document
  overrides : visit.overrides = before.read (plan.files visit.file).overrides
  grows : Grows (plan.written visit) before after
  stored : ∀ results, plan.results visit = .ok results → visit.stored = true →
    after.Holds (plan.files visit.file).twig results.value.twig ∧
    ∀ text, results.value.metadata = some text →
      after.Holds (plan.files visit.file).metadata text

section Visits

variable {plan : Plan} {file : FoundFile}

/-- A visit that stored nothing leaves the tree as it was. -/
theorem visited_unstored (plan : Plan) (file : FoundFile) (tree : FileTree) :
    Visited plan tree ⟨file, (tree.read (plan.files file).source).toOption,
      tree.read (plan.files file).document, tree.read (plan.files file).overrides, false⟩ tree := by
  constructor
  · dsimp only
  · dsimp only
  · dsimp only
  · exact .refl _ _
  · intro results _ stored
    cases stored

/-- A visit that stored results leaves them behind. -/
theorem visited_stored (h : file.Proper plan.settings.extension) (tree : FileTree)
    {results : Report Transformed} (hr : plan.resultsIn tree file = .ok results) :
    Visited plan tree ⟨file, (tree.read (plan.files file).source).toOption,
      tree.read (plan.files file).document, tree.read (plan.files file).overrides,
      ((store disk (plan.files file) results.value).run tree).1⟩
      ((store disk (plan.files file) results.value).run tree).2 := by
  obtain ⟨grows, holds⟩ := store_run results.value tree (Plan.twig_ne_metadata h)
  rw [Plan.resultsIn] at hr
  constructor
  · dsimp only
  · dsimp only
  · dsimp only
  · dsimp only [Plan.written, Plan.results]
    rw [hr]
    exact grows
  · intro other own stored
    dsimp only [Plan.results] at own
    rw [hr] at own
    cases own
    exact holds stored

theorem visited_visitFile (h : file.Proper plan.settings.extension) (tree : FileTree) :
    Visited plan tree ((visitFile disk plan file).run tree).1
      ((visitFile disk plan file).run tree).2 := by
  unfold visitFile
  rw [run_bind_eq, read_run, run_bind_eq, read_run, run_bind_eq, read_run]
  dsimp only
  cases results : resultsOf plan.settings.options (plan.files file)
      (tree.read (plan.files file).source).toOption (tree.read (plan.files file).document)
      (tree.read (plan.files file).overrides) with
  | error error =>
    dsimp only
    rw [run_pure_eq]
    exact visited_unstored plan file tree
  | ok report =>
    dsimp only
    split
    · rw [run_pure_eq]
      exact visited_unstored plan file tree
    · rw [run_bind_eq, run_pure_eq]
      exact visited_stored h tree results

end Visits

/-- Visits of documents one after the other. -/
inductive Course (plan : Plan) : FileTree → List Visit → FileTree → Prop
  | nil (tree : FileTree) : Course plan tree [] tree
  | cons {before middle after : FileTree} {visit : Visit} {visits : List Visit} :
      Visited plan before visit middle → Course plan middle visits after →
        Course plan before (visit :: visits) after

section Courses

variable {plan : Plan} {before after : FileTree} {visits : List Visit}

theorem course_mapM {order : List FoundFile}
    (h : ∀ file ∈ order, file.Proper plan.settings.extension) (tree : FileTree) :
    Course plan tree ((order.mapM (visitFile disk plan)).run tree).1
      ((order.mapM (visitFile disk plan)).run tree).2 := by
  induction order generalizing tree with
  | nil => exact .nil tree
  | cons file rest ih =>
    rw [List.forall_mem_cons] at h
    rw [List.mapM_cons, run_bind_eq, run_bind_eq, run_pure_eq]
    exact .cons (visited_visitFile h.1 tree) (ih h.2 _)

theorem Course.split {earlier later : List Visit}
    (h : Course plan before (earlier ++ later) after) :
    ∃ middle, Course plan before earlier middle ∧ Course plan middle later after := by
  induction earlier generalizing before with
  | nil => exact ⟨before, .nil before, h⟩
  | cons visit rest ih =>
    cases h with
    | cons seen course =>
      obtain ⟨middle, first, second⟩ := ih course
      exact ⟨middle, .cons seen first, second⟩

theorem Course.grows (h : Course plan before visits after) :
    Grows (visits.flatMap plan.written) before after := by
  induction h with
  | nil tree => exact .refl _ tree
  | cons seen _ ih => exact seen.grows.trans ih

end Courses

section Documents

variable {tree : FileTree} {input out extension : String} {ignored : List Glob} {file : FoundFile}

theorem mem_documents (h : file ∈ tree.documents input out extension ignored) :
    file.components ∈ tree.filesBelow input ∧
      isDocument input out extension ignored file = true := by
  rw [documents, List.mem_mergeSort, List.mem_filter, List.mem_filterMap] at h
  obtain ⟨⟨components, listed, found⟩, document⟩ := h
  obtain ⟨name, last, rfl⟩ := Option.map_eq_some_iff.mp found
  obtain ⟨folders, rfl⟩ := List.getLast?_eq_some_iff.mp last
  refine ⟨?_, document⟩
  simpa [FoundFile.components] using listed

/-- The documents in a tree have the names that they need. -/
theorem proper_of_mem_documents (wellFormed : tree.WellFormed) (rooted : Path.place input ≠ [])
    (h : file ∈ tree.documents input out extension ignored) : file.Proper extension := by
  obtain ⟨listed, document⟩ := mem_documents h
  obtain ⟨-, content, entry⟩ := mem_filesBelow listed
  constructor
  · intro name hn
    refine wellFormed.names _ entry name ?_
    rw [List.tail_append_of_ne_nil rooted]
    exact List.mem_append_right _ hn
  · rw [isDocument, Bool.and_eq_true, Bool.and_eq_true, Bool.and_eq_true] at document
    exact componentName_ne_empty (of_decide_eq_true document.1.1.2) document.1.2

theorem Plans.proper {plan : Plan} {workingDirectory : String} {arguments : Arguments}
    (plans : tree.Plans workingDirectory arguments plan) (wellFormed : tree.WellFormed)
    (rooted : Path.place plan.input ≠ []) :
    ∀ file ∈ plan.documents, file.Proper plan.settings.extension := by
  obtain ⟨ignored, -, documents⟩ := plans.documents
  intro file hf
  rw [documents] at hf
  exact proper_of_mem_documents wellFormed rooted hf

theorem outside_of_mem_documents (h : file ∈ tree.documents input out extension ignored) :
    Path.isBelow (Path.components input ++ file.components) (Path.components out) = false := by
  have document := (mem_documents h).2
  rw [isDocument, Bool.and_eq_true, Bool.and_eq_true, Bool.and_eq_true] at document
  simpa using document.1.1.1

/-- There is something where a document was found. -/
theorem isSome_get?_document (h : file ∈ tree.documents input out extension ignored) :
    (tree.get? (Path.place input ++ file.components)).isSome = true := by
  obtain ⟨-, content, entry⟩ := mem_filesBelow (mem_documents h).1
  exact isSome_get?_of_mem entry

/-- What may stand beside a document can be reached. -/
theorem locate_beside (wellFormed : tree.WellFormed)
    (h : file ∈ tree.documents input out extension ignored) {path name : String}
    (hp : Path.components path = Path.components input ++ (file.folders ++ [name]))
    (names : ∀ part ∈ file.folders ++ [name], Path.IsFileName part) :
    tree.locate path = .ok (Path.place path) := by
  have reached := (mem_filesBelow (mem_documents h).1).1
  have down : ".." ∉ file.folders ++ [name] := fun up => (names _ up).not_above rfl
  have way : (file.folders ++ [name]).foldlM tree.enter (Path.place input) =
      .ok (Path.place input ++ (file.folders ++ [name])) := by
    refine foldlM_enter_of_directories down fun n inside => ?_
    -- The folders of the document are above the document, which is there.
    have within : n ≤ file.folders.length := by simpa [Nat.lt_succ_iff] using inside
    have shorter : (Path.place input).length + n <
        (Path.place input ++ file.components).length := by
      simp only [FoundFile.components, List.length_append, List.length_singleton]
      omega
    have above := wellFormed.get?_take (isSome_get?_document h) shorter
    rw [List.take_length_add_append, FoundFile.components,
      List.take_append_of_le_length within] at above
    rw [List.take_append_of_le_length within]
    exact above
  rw [locate] at reached
  rw [locate, hp, List.foldlM_append, reached, Path.place_eq_append hp names]
  exact way

/-- A visit that gives results reads what was there before the visits ahead of it, if none of them
wrote over the document. -/
theorem Visited.reads_before {plan : Plan} {visit : Visit} {before middle after : FileTree}
    {written : List (List String)} (wellFormed : before.WellFormed)
    (proper : visit.file.Proper plan.settings.extension)
    (found : visit.file ∈ before.documents plan.input out plan.settings.extension ignored)
    (grows : Grows written before middle) (seen : Visited plan middle visit after)
    (document : Path.place (plan.files visit.file).document ∉ written)
    (source : Path.place (plan.files visit.file).source ∉ written)
    (overrides : Path.place (plan.files visit.file).overrides ∉ written)
    {results : Report Transformed} (hr : plan.results visit = .ok results) :
    plan.resultsIn before visit.file = .ok results := by
  rw [← hr, Plan.results, Plan.resultsIn]
  congr 1
  · have reached := locate_beside wellFormed found (Plan.components_source proper)
      (Plan.isFileName_beside proper (by decide) (by decide))
    rw [seen.source]
    -- A directory in place of a source that was missing is no source either.
    rcases grows.read reached source with same | ⟨missing, unreadable⟩
    · rw [same]
    · rw [missing, unreadable]
      rfl
  · have reached := locate_beside wellFormed found (Plan.components_document proper) proper.names
    rw [seen.document]
    rcases grows.read reached document with same | ⟨missing, -⟩
    · exact same.symm
    · refine absurd missing (read_ne_missing reached ?_)
      rw [Path.place_eq_append (Plan.components_document proper) proper.names]
      exact isSome_get?_document found
  · have reached := locate_beside wellFormed found (Plan.components_overrides proper)
      (Plan.isFileName_beside proper (by decide) (by decide))
    rw [seen.overrides]
    -- In place of overrides that were missing, a directory would have been an error.
    rcases grows.read reached overrides with same | ⟨-, unreadable⟩
    · exact same.symm
    · obtain ⟨_, _, -, readable, -⟩ := results_eq_ok_iff.mp hr
      rw [seen.overrides, unreadable] at readable
      cases readable

end Documents

section Kept

variable {plan : Plan} {before after : FileTree} {earlier later : List Visit} {visit : Visit}

/-- What was stored by a visit is there at the end, unless a later visit wrote to the same
directory. -/
theorem Course.kept (course : Course plan before (earlier ++ visit :: later) after)
    (proper : ∀ other ∈ visit :: later, other.file.Proper plan.settings.extension)
    {results : Report Transformed} (hr : plan.results visit = .ok results)
    (stored : visit.stored = true)
    (last : ∀ other ∈ later, Path.place (plan.files other.file).folder =
      Path.place (plan.files visit.file).folder → ∃ error, plan.results other = .error error) :
    after.read (plan.files visit.file).twig = .ok results.value.twig ∧
      ∀ text, results.value.metadata = some text →
        after.read (plan.files visit.file).metadata = .ok text := by
  obtain ⟨middle, -, rest⟩ := course.split
  cases rest with
  | cons seen course =>
    obtain ⟨twig, metadata⟩ := seen.stored results hr stored
    have untouched : ∀ place ∈ plan.outputs visit.file, place ∉ later.flatMap plan.written := by
      intro place own touched
      obtain ⟨other, ho, written⟩ := List.mem_flatMap.mp touched
      obtain ⟨⟨_, succeeded⟩, output⟩ := Plan.mem_written.mp written
      have same := Plan.folder_eq_of_mem_outputs (proper other (List.mem_cons_of_mem _ ho))
        (proper visit List.mem_cons_self) output own
      obtain ⟨error, failed⟩ := last other ho same
      rw [failed] at succeeded
      cases succeeded
    constructor
    · exact (twig.grows course.grows (untouched _ (by simp [Plan.outputs]))).read
    · intro text ht
      exact ((metadata text ht).grows course.grows (untouched _ (by simp [Plan.outputs]))).read

/-- In a course of visits a document has the results that it had at the start, if no visit ahead of
it may have written over it. -/
theorem Course.results_before {out : String} {ignored : List Glob}
    (course : Course plan before (earlier ++ visit :: later) after) (wellFormed : before.WellFormed)
    (proper : ∀ other ∈ earlier ++ visit :: later, other.file.Proper plan.settings.extension)
    (found : visit.file ∈ before.documents plan.input out plan.settings.extension ignored)
    {results : Report Transformed} (hr : plan.results visit = .ok results)
    (apart : ∀ other ∈ earlier,
      Path.place (plan.files visit.file).document ∉ plan.outputs other.file) :
    plan.resultsIn before visit.file = .ok results := by
  have own := proper visit (by simp)
  have ahead : ∀ other ∈ earlier, other.file.Proper plan.settings.extension :=
    fun other ho => proper other (List.mem_append_left _ ho)
  have unwritten {place : List String} (h : ∀ other ∈ earlier, place ∉ plan.outputs other.file) :
      place ∉ earlier.flatMap plan.written := by
    intro touched
    obtain ⟨other, ho, written⟩ := List.mem_flatMap.mp touched
    exact h other ho (Plan.mem_written.mp written).2
  obtain ⟨middle, first, rest⟩ := course.split
  cases rest with
  | cons seen _ =>
    refine seen.reads_before wellFormed own found first.grows (unwritten apart) ?_ ?_ hr
    · exact unwritten fun other ho => Plan.source_not_mem_outputs own (ahead other ho)
    · exact unwritten fun other ho => Plan.overrides_not_mem_outputs own (ahead other ho)

end Kept

end FileTree

section Bare

theorem Yaml.text_eq {document : Yaml} {text : String} (h : document.text = .ok text) :
    text = endLine (nodeText .root document) := by
  unfold Yaml.text at h
  cases checked : checkEvents document with
  | error fault =>
    rw [checked] at h
    cases h
  | ok _ =>
    rw [checked] at h
    cases h
    rfl

theorem Yaml.endLine_append {first last : String} (nonempty : last ≠ "")
    (h : last.toList.getLast?.any isBreak = false) :
    endLine (first ++ last) = first ++ last ++ "\n" := by
  have ends : (first ++ last).toList.getLast? = last.toList.getLast? := by
    rw [String.toList_append, List.getLast?_append]
    cases hl : last.toList.getLast? with
    | none => exact absurd (by simpa using hl) nonempty
    | some c => rfl
  rw [endLine, ends, h]
  rfl

/-- What stands before the name in the metadata of a component that has nothing but a name. -/
def Metadata.bareHead : String :=
  Yaml.endLine ("$schema" ++ ":" ++ Yaml.nodeText (.value 0) (.str schemaUrl))

/-- The metadata of a component that has nothing but a name, if the name needs no quotes. -/
theorem Metadata.text_bare {name text : String} (h : Metadata.text { name := name } = .ok text)
    (plain : Yaml.nodeText (.value 0) (.str name) = " " ++ name) (nonempty : name ≠ "")
    (ends : name.toList.getLast?.any Yaml.isBreak = false) :
    text = bareHead ++ "name: " ++ (name ++ "\n") := by
  have built : Metadata.build { name := name } =
      .map [(.str "$schema", .str schemaUrl), (.str "name", .str name)] := rfl
  have schemaKey : Yaml.simpleKey? (.str "$schema") = some "$schema" := by decide +kernel
  have nameKey : Yaml.simpleKey? (.str "name") = some "name" := by decide +kernel
  have spaced : "name" ++ ":" ++ (" " ++ name) = "name: " ++ name :=
    String.toList_inj.mp (by simp)
  have lines : Yaml.entryTexts 0 [(.str "$schema", .str schemaUrl), (.str "name", .str name)] =
      ["$schema" ++ ":" ++ Yaml.nodeText (.value 0) (.str schemaUrl), "name: " ++ name] := by
    rw [Yaml.entryTexts, Yaml.entryTexts, Yaml.entryTexts, schemaKey, nameKey, plain]
    dsimp only
    rw [spaced]
  have whole : Yaml.nodeText .root (.map [(.str "$schema", .str schemaUrl),
      (.str "name", .str name)]) = bareHead ++ "name: " ++ name := by
    rw [Yaml.nodeText]
    change "" ++ Yaml.stack 0 (Yaml.entryTexts 0 _) = _
    rw [lines, String.empty_append]
    change bareHead ++ "" ++ ("name: " ++ name) = _
    rw [String.append_empty, String.append_assoc]
  rw [Metadata.text, built] at h
  rw [Yaml.text_eq h, whole, Yaml.endLine_append nonempty ends, String.append_assoc]

/-- A document without anything, its source and its author's metadata gives a component that has
nothing but a name. -/
theorem Plan.metadata_bare {plan : Plan} {file : FoundFile} {stored : Bool}
    {results : Report Transformed}
    (h : plan.results ⟨file, none, .ok "[]", .error .missing, stored⟩ = .ok results)
    (on : plan.settings.options.metadata = true) :
    ∃ text, results.value.metadata = some text ∧
      Metadata.text { name := (plan.files file).name } = .ok text := by
  obtain ⟨document, overrides, read, parsed, text, written, made⟩ := metadata_of_results h on
  have empty : readDocument (plan.files file) (.ok "[]") = .ok {} := rfl
  cases empty.symm.trans read
  cases parsed
  exact ⟨text, made, written⟩

end Bare

section Twins

/-- A project with two documents whose names differ in one mark only. -/
def twins : FileTree where
  entries := [
    (["/"], .directory),
    (["/", "p"], .directory),
    (["/", "p", "nav-bar.json"], .file "[]".toUTF8),
    (["/", "p", "nav.bar.json"], .file "[]".toUTF8)]

def twinsArguments : Arguments :=
  { out := "out", theme := some "shop", extension := some ".json" }

def twinsPlan : Plan where
  settings := Settings.resolve twinsArguments {}
  input := "/p/."
  out := "/p/out"
  dryRun := false
  documents := [⟨[], "nav-bar.json"⟩, ⟨[], "nav.bar.json"⟩]

/-- A visit of one of them. -/
def twinVisit (file : FoundFile) : Visit := ⟨file, none, .ok "[]", .error .missing, true⟩

theorem twins_plans : twins.Plans "/p" twinsArguments twinsPlan where
  input := by decide +kernel
  out := by decide +kernel
  dryRun := rfl
  directory := by decide +kernel
  settings := FileTree.settings_of_missing (by decide +kernel)
  valid := by decide +kernel
  documents := FileTree.documents_of_found (by decide +kernel) (by decide +kernel)
    (by decide +kernel)

theorem twins_planned :
    (planRun FileTree.disk "/p" twinsArguments).run twins = (.ok twinsPlan, twins) :=
  FileTree.planRun_ok_iff.mpr ⟨rfl, twins_plans⟩

theorem twins_wellFormed : twins.WellFormed where
  names := by decide +kernel
  above := by decide +kernel

/-- The two are visited in one order or in the other. -/
theorem order_twins (schedule : Schedule) :
    schedule.order twinsPlan.documents = twinsPlan.documents ∨
      schedule.order twinsPlan.documents = twinsPlan.documents.reverse :=
  List.perm_pair.mp (schedule.order_perm twinsPlan.documents)

/-- In either order both visits see the same and store their results. -/
theorem twins_visited (schedule : Schedule) :
    (((schedule.order twinsPlan.documents).mapM (visitFile FileTree.disk twinsPlan)).run twins).1 =
      (schedule.order twinsPlan.documents).map twinVisit := by
  rcases order_twins schedule with forth | back
  · rw [forth]
    decide +kernel
  · rw [back]
    decide +kernel

/-- What a run leaves of the two. -/
def twinsAfter (schedule : Schedule) : FileTree :=
  (((schedule.order twinsPlan.documents).mapM (visitFile FileTree.disk twinsPlan)).run twins).2

def twinReports : List FileReport := (twinsPlan.documents.map twinVisit).map twinsPlan.report

theorem twins_run (schedule : Schedule) :
    (run FileTree.disk schedule "/p" twinsArguments).run twins =
      (.ok twinReports, twinsAfter schedule) := by
  rw [run_of_plan schedule twins_planned, twins_visited, schedule.restore_map,
    schedule.restore_order, ← twinReports, ← twinsAfter]

end Twins

/-- Which results a run over a tree keeps, whatever its schedule, and every order of the documents is
that of a schedule. Documents share a directory exactly if they have the same folders and their names
have the same slug. A document that is reported as written finds its results where they belong after
the run, if no document that was visited later has results for the same directory. They are the
results that the document has in the tree before the run, unless the document was itself written
over as the result of another one, which cannot be if neither the input nor the output directory is
given by a path that goes up. -/
theorem last_results_kept {schedule : Schedule} {workingDirectory : String} {arguments : Arguments}
    {before after : FileTree} {reports : List FileReport} (wellFormed : before.WellFormed)
    (rooted : Path.place (Path.absolute workingDirectory arguments.input) ≠ [])
    (ran : (run FileTree.disk schedule workingDirectory arguments).run before =
      (.ok reports, after)) :
    ∃ plan visits,
      (planRun FileTree.disk workingDirectory arguments).run before = (.ok plan, before) ∧
      ((schedule.order plan.documents).mapM (visitFile FileTree.disk plan)).run before =
        (visits, after) ∧
      visits.map (·.file) = schedule.order plan.documents ∧
      reports = (schedule.restore visits).map plan.report ∧
      (∀ order, order.Perm plan.documents ↔
        ∃ other : Schedule, other.order plan.documents = order) ∧
      (∀ a ∈ plan.documents, ∀ b ∈ plan.documents,
        Path.place (plan.files a).folder = Path.place (plan.files b).folder ↔
          a.folders = b.folders ∧
            componentSlug (plan.files a).name = componentSlug (plan.files b).name) ∧
      (".." ∉ Path.components plan.input → ".." ∉ Path.components plan.out →
        ∀ a ∈ plan.documents, ∀ b ∈ plan.documents,
          Path.place (plan.files a).document ∉ plan.outputs b) ∧
      ∀ earlier visit later, visits = earlier ++ visit :: later →
        (plan.report visit).written = true →
        (∀ other ∈ later, Path.place (plan.files other.file).folder =
          Path.place (plan.files visit.file).folder → ∃ error, plan.results other = .error error) →
        ∃ results, plan.results visit = .ok results ∧
          after.read (plan.files visit.file).twig = .ok results.value.twig ∧
          (plan.settings.options.metadata = true → ∃ text, results.value.metadata = some text ∧
            after.read (plan.files visit.file).metadata = .ok text) ∧
          ((∀ other ∈ earlier,
              Path.place (plan.files visit.file).document ∉ plan.outputs other.file) →
            plan.resultsIn before visit.file = .ok results) := by
  obtain ⟨plan, middle, visits, planned, visited, -, rfl⟩ := run_ok ran
  obtain ⟨rfl, plans⟩ := FileTree.planRun_ok_iff.mp planned
  have proper := plans.proper wellFormed (plans.input ▸ rooted)
  have listed := (schedule.order_perm plan.documents).subset
  obtain ⟨ignored, -, documents⟩ := plans.documents
  have files := files_visited FileTree.disk plan (schedule.order plan.documents) middle
  have course := FileTree.course_mapM (fun file hf => proper file (listed hf)) middle
  rw [visited] at files course
  dsimp only at files course
  refine ⟨plan, visits, planned, visited, files, rfl, ?_, ?_, ?_, ?_⟩
  · intro order
    constructor
    · exact Schedule.exists_order
    · rintro ⟨other, rfl⟩
      exact other.order_perm _
  · intro a ha b hb
    exact Plan.folder_eq_iff (proper a ha) (proper b hb)
  · intro hi ho a ha b hb
    have outside := FileTree.outside_of_mem_documents (documents ▸ ha)
    exact Plan.document_not_mem_outputs (proper a ha) (proper b hb) hi ho outside
  · rintro earlier visit later rfl written last
    obtain ⟨⟨results, hr⟩, -, stored⟩ := Plan.report_written_iff.mp written
    have found : ∀ other ∈ earlier ++ visit :: later, other.file ∈ plan.documents := by
      intro other ho
      apply listed
      rw [← files]
      exact List.mem_map_of_mem ho
    have all : ∀ other ∈ earlier ++ visit :: later, other.file.Proper plan.settings.extension :=
      fun other ho => proper other.file (found other ho)
    obtain ⟨twig, metadata⟩ := course.kept (fun other ho => all other (List.mem_append_right _ ho))
      hr stored last
    refine ⟨results, hr, twig, fun on => ?_, fun apart => ?_⟩
    · obtain ⟨_, _, _, _, text, _, made⟩ := Plan.metadata_of_results hr on
      exact ⟨text, made, metadata text made⟩
    · exact course.results_before wellFormed all (documents ▸ found visit (by simp)) hr apart

/-- If the last document is visited first, the first one keeps its results. -/
theorem last_results_kept_twins :
    (run FileTree.disk .backwards "/p" twinsArguments).run twins =
      (.ok twinReports, twinsAfter .backwards) ∧
    ∃ results text, twinsPlan.resultsIn twins ⟨[], "nav-bar.json"⟩ = .ok results ∧
      (twinsAfter .backwards).read "/p/out/nav-bar/nav-bar.twig" = .ok results.value.twig ∧
      results.value.metadata = some text ∧
      (twinsAfter .backwards).read "/p/out/nav-bar/nav-bar.component.yml" = .ok text := by
  obtain ⟨plan, visits, planned, visited, -, -, -, -, apart, kept⟩ :=
    last_results_kept twins_wellFormed (by decide +kernel) (twins_run .backwards)
  cases twins_planned.symm.trans planned
  have seen := twins_visited .backwards
  rw [visited] at seen
  dsimp only at seen
  have order : Schedule.backwards.order twinsPlan.documents = twinsPlan.documents.reverse := by
    decide +kernel
  rw [order] at seen
  obtain ⟨results, -, twig, metadata, before⟩ := kept [twinVisit ⟨[], "nav.bar.json"⟩]
    (twinVisit ⟨[], "nav-bar.json"⟩) [] seen (by decide +kernel) (by simp)
  obtain ⟨text, made, there⟩ := metadata (by decide +kernel)
  have twigPath : (twinsPlan.files (twinVisit ⟨[], "nav-bar.json"⟩).file).twig =
      "/p/out/nav-bar/nav-bar.twig" := by
    decide +kernel
  have metadataPath : (twinsPlan.files (twinVisit ⟨[], "nav-bar.json"⟩).file).metadata =
      "/p/out/nav-bar/nav-bar.component.yml" := by
    decide +kernel
  rw [twigPath] at twig
  rw [metadataPath] at there
  refine ⟨twins_run .backwards, results, text, before fun other ho => ?_, twig, made, there⟩
  refine apart (by decide +kernel) (by decide +kernel) _ (by decide +kernel) _ ?_
  rw [List.mem_singleton.mp ho]
  decide +kernel

/-- A visit of a twin sees what is there before the run. -/
theorem resultsIn_twins {file : FoundFile} (hf : file ∈ twinsPlan.documents) :
    twinsPlan.resultsIn twins file = twinsPlan.results (twinVisit file) := by
  have source : (twins.read (twinsPlan.files file).source).toOption = none := by
    revert file
    decide +kernel
  have document : twins.read (twinsPlan.files file).document = .ok "[]" := by
    revert file
    decide +kernel
  have overrides : twins.read (twinsPlan.files file).overrides = .error .missing := by
    revert file
    decide +kernel
  rw [Plan.resultsIn, source, document, overrides]
  rfl

/-- The metadata of a twin says its name and nothing else. -/
theorem twins_metadata {file : FoundFile} (hf : file ∈ twinsPlan.documents) :
    ∃ results, twinsPlan.results (twinVisit file) = .ok results ∧
      results.value.metadata =
        some (Metadata.bareHead ++ "name: " ++ ((twinsPlan.files file).name ++ "\n")) := by
  have written : (twinsPlan.report (twinVisit file)).written = true := by
    revert file
    decide +kernel
  have plain : Yaml.nodeText (.value 0) (.str (twinsPlan.files file).name) =
      " " ++ (twinsPlan.files file).name := by
    revert file
    decide +kernel
  have nonempty : (twinsPlan.files file).name ≠ "" := by
    revert file
    decide +kernel
  have ends : (twinsPlan.files file).name.toList.getLast?.any Yaml.isBreak = false := by
    revert file
    decide +kernel
  obtain ⟨⟨results, hr⟩, -⟩ := Plan.report_written_iff.mp written
  obtain ⟨text, made, own⟩ := Plan.metadata_bare hr (by decide +kernel)
  rw [Metadata.text_bare own plain nonempty ends] at made
  exact ⟨results, hr, made⟩

/-- The twins have one place for their metadata, and names of their own. -/
theorem twins_files : ∀ a ∈ twinsPlan.documents, ∀ b ∈ twinsPlan.documents,
    (twinsPlan.files a).metadata = (twinsPlan.files b).metadata ∧
      ((twinsPlan.files a).name = (twinsPlan.files b).name → a = b) := by
  decide +kernel

/-- Whatever the schedule, both documents are reported as written to one directory, and one of them
does not find its metadata there. -/
theorem twins_results_lost :
    (∃ a ∈ twinsPlan.documents, ∃ b ∈ twinsPlan.documents, a ≠ b ∧
      (twinsPlan.files a).folder = (twinsPlan.files b).folder) ∧
    ∀ schedule : Schedule,
      (run FileTree.disk schedule "/p" twinsArguments).run twins =
        (.ok twinReports, twinsAfter schedule) ∧
      (∀ report ∈ twinReports, report.written = true) ∧
      ∃ lost ∈ twinsPlan.documents, ∃ results text,
        twinsPlan.resultsIn twins lost = .ok results ∧ results.value.metadata = some text ∧
        (twinsAfter schedule).read (twinsPlan.files lost).metadata ≠ .ok text := by
  refine ⟨by decide +kernel, fun schedule => ⟨twins_run schedule, by decide +kernel, ?_⟩⟩
  have perm := schedule.order_perm twinsPlan.documents
  obtain ⟨first, last, order⟩ := List.length_eq_two.mp (schedule.length_order twinsPlan.documents)
  rw [order] at perm
  have hf : first ∈ twinsPlan.documents := perm.subset (by simp)
  have hl : last ∈ twinsPlan.documents := perm.subset (by simp)
  have distinct : first ≠ last := by
    have nodup := perm.nodup_iff.mpr (by decide +kernel)
    simpa using nodup
  obtain ⟨results, hr, own⟩ := twins_metadata hf
  obtain ⟨lastResults, lastRead, other⟩ := twins_metadata hl
  obtain ⟨shared, named⟩ := twins_files first hf last hl
  -- The document that is visited last has its metadata in the directory of both.
  have proper := twins_plans.proper twins_wellFormed (by decide +kernel)
  have course : FileTree.Course twinsPlan twins ([twinVisit first] ++ twinVisit last :: [])
      (twinsAfter schedule) := by
    have visits := FileTree.course_mapM (fun file hf =>
      proper file ((schedule.order_perm twinsPlan.documents).subset hf)) twins
    rw [twins_visited, ← twinsAfter, order] at visits
    exact visits
  have lastProper : ∀ other ∈ [twinVisit last], other.file.Proper twinsPlan.settings.extension :=
    List.forall_mem_singleton.mpr (proper last hl)
  obtain ⟨-, metadata⟩ := course.kept lastProper lastRead rfl (by simp)
  refine ⟨first, hf, results, _, (resultsIn_twins hf).trans hr, own, ?_⟩
  rw [shared]
  intro same
  have texts := Except.ok.inj (same.symm.trans (metadata _ other))
  rw [String.append_right_inj, String.append_left_inj] at texts
  exact distinct (named texts)

end TwigComponent
