import TwigComponent.Proofs.Balance
import TwigComponent.Proofs.RunCourse
import TwigComponent.Proofs.Trees

/-!
# Where results go

The directory of a document's results is named by the folders of the document and
the slug of its name, so documents share a directory exactly if they have the same
folders and their names have the same slug. The files in it have names that no
source and no file with the author's metadata can have.
-/
namespace TwigComponent

section Slugs

/-- All characters of a slug are letters, digits and hyphens. -/
theorem ne_of_mem_componentSlug {name : String} {c d : Char} (h : c ∈ (componentSlug name).toList)
    (hd : d.isAlphanum = false) (hyphen : d ≠ '-') : c ≠ d := by
  rw [componentSlug, String.toList_ofList, List.mem_map] at h
  obtain ⟨e, -, rfl⟩ := h
  split
  · rename_i letter
    exact Twig.toLower_ne letter hd
  · exact hyphen.symm

/-- A slug can be the name of a directory, or with an ending that of a file. -/
theorem isFileName_componentSlug {name ending : String} (hn : name ≠ "")
    (he : '/' ∉ ending.toList) : Path.IsFileName (componentSlug name ++ ending) := by
  obtain ⟨first, rest, hs⟩ : ∃ first rest, (componentSlug name).toList = first :: rest := by
    cases hs : (componentSlug name).toList with
    | nil => exact absurd hs (by simpa [componentSlug] using hn)
    | cons first rest => exact ⟨first, rest, rfl⟩
  have listed : first ∈ (componentSlug name).toList := by simp [hs]
  have dotless : first ≠ '.' := ne_of_mem_componentSlug listed (by decide) (by decide)
  have chars : (componentSlug name ++ ending).toList = first :: (rest ++ ending.toList) := by
    simp [hs]
  constructor
  · intro empty
    simp [empty] at chars
  · intro dot
    rw [dot] at chars
    exact dotless (List.cons.inj chars).1.symm
  · intro dots
    rw [dots] at chars
    exact dotless (List.cons.inj chars).1.symm
  · intro slash
    rw [String.toList_append, List.mem_append] at slash
    rcases slash with slash | slash
    · exact ne_of_mem_componentSlug slash (by decide) (by decide) rfl
    · exact he slash

/-- Texts whose endings differ in the last characters differ. -/
theorem append_ne_append (n : Nat) {a b s t : String} (hs : n ≤ s.toList.length)
    (ht : n ≤ t.toList.length) (h : s.toList.reverse.take n ≠ t.toList.reverse.take n) :
    a ++ s ≠ b ++ t := by
  intro same
  have ends := congrArg (fun text => text.toList.reverse.take n) same
  simp only [String.toList_append, List.reverse_append] at ends
  rw [List.take_append_of_le_length (by simpa using hs),
    List.take_append_of_le_length (by simpa using ht)] at ends
  exact h ends

end Slugs

/-- The names on the way to a document are names of files, and the document has a name beside its
extension. -/
structure FoundFile.Proper (extension : String) (file : FoundFile) : Prop where
  names : ∀ name ∈ file.components, Path.IsFileName name
  named : componentName extension file.name ≠ ""

section ComponentNames

variable {extension : String} {file : FoundFile}

theorem FoundFile.Proper.folders (h : file.Proper extension) :
    ∀ name ∈ file.folders, Path.IsFileName name :=
  fun name hn => h.names name (List.mem_append_left _ hn)

theorem FoundFile.Proper.name (h : file.Proper extension) : Path.IsFileName file.name :=
  h.names file.name (by simp [components])

/-- A file beside the document can have the component's name with an ending. -/
theorem FoundFile.Proper.isFileName_append (h : file.Proper extension) {ending : String}
    (two : 2 < ending.toList.length) (he : '/' ∉ ending.toList) :
    Path.IsFileName (componentName extension file.name ++ ending) := by
  have long : 2 < (componentName extension file.name ++ ending).toList.length := by
    rw [String.toList_append, List.length_append]
    omega
  constructor
  · intro same
    rw [same] at long
    exact absurd long (by decide)
  · intro same
    rw [same] at long
    exact absurd long (by decide)
  · intro same
    rw [same] at long
    exact absurd long (by decide)
  · rw [String.toList_append, List.mem_append, not_or]
    refine ⟨fun slash => h.name.no_slash ?_, he⟩
    rw [componentName, String.toList_ofList] at slash
    exact List.mem_of_mem_take slash

/-- A document has a name beside its extension. -/
theorem componentName_ne_empty {extension name : String}
    (longer : extension.utf8ByteSize < name.utf8ByteSize)
    (ends : extension.toList.isSuffixOf name.toList = true) :
    componentName extension name ≠ "" := by
  obtain ⟨first, whole⟩ := List.isSuffixOf_iff_suffix.mp ends
  intro empty
  have taken : name.toList.take (name.length - extension.length) = first := by
    rw [← String.length_toList, ← String.length_toList, ← whole, List.length_append,
      Nat.add_sub_cancel, List.take_left]
  rw [componentName, taken] at empty
  have none : first = [] := by simpa using empty
  rw [none, List.nil_append, String.toList_inj] at whole
  rw [whole] at longer
  exact absurd longer (Nat.lt_irrefl _)

end ComponentNames

namespace Plan

/-- The places that the results of a document are written to. -/
def outputs (plan : Plan) (file : FoundFile) : List (List String) :=
  [Path.place (plan.files file).twig, Path.place (plan.files file).metadata]

section Places

variable {plan : Plan} {a b file : FoundFile}

theorem files_name :
    (plan.files file).name = componentName plan.settings.extension file.name := by
  simp only [files, FoundFile.files]

theorem files_folder : (plan.files file).folder =
    Path.join (Path.join plan.out ("/".intercalate file.folders))
      (componentSlug (plan.files file).name) := by
  simp only [files, FoundFile.files]

theorem files_twig : (plan.files file).twig =
    Path.join (plan.files file).folder (componentSlug (plan.files file).name ++ ".twig") := by
  simp only [files, FoundFile.files]

theorem files_metadata : (plan.files file).metadata =
    Path.join (plan.files file).folder (componentSlug (plan.files file).name ++ ".component.yml") := by
  simp only [files, FoundFile.files]

theorem isFileName_slug (h : file.Proper plan.settings.extension) {ending : String}
    (he : '/' ∉ ending.toList) :
    Path.IsFileName (componentSlug (plan.files file).name ++ ending) := by
  rw [files_name]
  exact isFileName_componentSlug h.named he

theorem isFileName_slug_self (h : file.Proper plan.settings.extension) :
    Path.IsFileName (componentSlug (plan.files file).name) := by
  have whole : Path.IsFileName (componentSlug (plan.files file).name ++ "") :=
    isFileName_slug h (by decide)
  rwa [String.append_empty] at whole

theorem components_folder (h : file.Proper plan.settings.extension) :
    Path.components (plan.files file).folder =
      Path.components plan.out ++ (file.folders ++ [componentSlug (plan.files file).name]) := by
  have slug := isFileName_slug_self h
  rw [files_folder, Path.components_join_fileName _ slug,
    Path.components_join _ (Path.isAbsolute_intercalate h.folders),
    Path.components_intercalate h.folders, List.append_assoc]

theorem place_folder (h : file.Proper plan.settings.extension) :
    Path.place (plan.files file).folder =
      Path.place plan.out ++ (file.folders ++ [componentSlug (plan.files file).name]) := by
  refine Path.place_eq_append (components_folder h) fun name hn => ?_
  rcases List.mem_append.mp hn with folder | last
  · exact h.folders name folder
  · rw [List.mem_singleton.mp last]
    exact isFileName_slug_self h

theorem place_join_folder (h : file.Proper plan.settings.extension) {ending : String}
    (he : '/' ∉ ending.toList) :
    Path.place (Path.join (plan.files file).folder (componentSlug (plan.files file).name ++ ending)) =
      Path.place (plan.files file).folder ++ [componentSlug (plan.files file).name ++ ending] := by
  have name := isFileName_slug h he
  exact Path.place_eq_append (Path.components_join_fileName _ name) (by simpa using name)

theorem place_twig (h : file.Proper plan.settings.extension) :
    Path.place (plan.files file).twig = Path.place (plan.files file).folder ++
      [componentSlug (plan.files file).name ++ ".twig"] := by
  rw [files_twig, place_join_folder h (by decide)]

theorem place_metadata (h : file.Proper plan.settings.extension) :
    Path.place (plan.files file).metadata = Path.place (plan.files file).folder ++
      [componentSlug (plan.files file).name ++ ".component.yml"] := by
  rw [files_metadata, place_join_folder h (by decide)]

/-- Documents share a directory exactly if they have the same folders and their names have the same
slug. -/
theorem folder_eq_iff (ha : a.Proper plan.settings.extension)
    (hb : b.Proper plan.settings.extension) :
    Path.place (plan.files a).folder = Path.place (plan.files b).folder ↔
      a.folders = b.folders ∧
        componentSlug (plan.files a).name = componentSlug (plan.files b).name := by
  rw [place_folder ha, place_folder hb, List.append_cancel_left_eq]
  constructor
  · intro same
    obtain ⟨folders, last⟩ := List.append_inj' same (by simp)
    exact ⟨folders, (List.cons.inj last).1⟩
  · rintro ⟨folders, slug⟩
    rw [folders, slug]

theorem mem_outputs (h : file.Proper plan.settings.extension) {place : List String} :
    place ∈ plan.outputs file ↔ ∃ ending ∈ [".twig", ".component.yml"],
      place = Path.place (plan.files file).folder ++
        [componentSlug (plan.files file).name ++ ending] := by
  rw [outputs, place_twig h, place_metadata h]
  simp

theorem twig_ne_metadata (h : file.Proper plan.settings.extension) :
    Path.place (plan.files file).twig ≠ Path.place (plan.files file).metadata := by
  rw [place_twig h, place_metadata h]
  intro same
  have names := List.append_cancel_left same
  exact append_ne_append 1 (by decide) (by decide) (by decide) (List.cons.inj names).1

/-- Results that go to one place go to one directory. -/
theorem folder_eq_of_mem_outputs (ha : a.Proper plan.settings.extension)
    (hb : b.Proper plan.settings.extension) {place : List String} (oa : place ∈ plan.outputs a)
    (ob : place ∈ plan.outputs b) :
    Path.place (plan.files a).folder = Path.place (plan.files b).folder := by
  obtain ⟨_, -, whereA⟩ := (mem_outputs ha).mp oa
  obtain ⟨_, -, whereB⟩ := (mem_outputs hb).mp ob
  have parents := congrArg List.dropLast (whereA.symm.trans whereB)
  rwa [List.dropLast_concat, List.dropLast_concat] at parents

end Places

section Inputs

variable {plan : Plan} {file other : FoundFile}

theorem components_document (h : file.Proper plan.settings.extension) :
    Path.components (plan.files file).document = Path.components plan.input ++ file.components := by
  have named : (plan.files file).document = Path.joinAll plan.input file.components := by
    simp only [files, FoundFile.files]
  rw [named, Path.components_joinAll _ h.names]

/-- What stands beside a document has its folders. -/
theorem components_beside (h : file.Proper plan.settings.extension) {name : String}
    (hn : Path.IsFileName name) :
    Path.components (Path.join (if file.folders.isEmpty then Path.trimEnd plan.input
      else Path.joinAll plan.input file.folders) name) =
      Path.components plan.input ++ (file.folders ++ [name]) := by
  rw [Path.components_join_fileName _ hn, ← List.append_assoc]
  congr 1
  split
  · rename_i top
    rw [Path.components_trimEnd, List.isEmpty_iff.mp top, List.append_nil]
  · exact Path.components_joinAll _ h.folders

theorem components_source (h : file.Proper plan.settings.extension) :
    Path.components (plan.files file).source = Path.components plan.input ++
      (file.folders ++ [(plan.files file).name ++ ".svelte"]) := by
  have name := h.isFileName_append (by decide : 2 < ".svelte".toList.length) (by decide)
  simpa only [files, FoundFile.files] using components_beside h name

theorem components_overrides (h : file.Proper plan.settings.extension) :
    Path.components (plan.files file).overrides = Path.components plan.input ++
      (file.folders ++ [(plan.files file).name ++ ".override.yml"]) := by
  have name := h.isFileName_append (by decide : 2 < ".override.yml".toList.length) (by decide)
  simpa only [files, FoundFile.files] using components_beside h name

theorem isFileName_beside (h : file.Proper plan.settings.extension) {ending : String}
    (two : 2 < ending.toList.length) (he : '/' ∉ ending.toList) :
    ∀ name ∈ file.folders ++ [(plan.files file).name ++ ending], Path.IsFileName name := by
  intro name hn
  rcases List.mem_append.mp hn with folder | last
  · exact h.folders name folder
  · rw [List.mem_singleton.mp last, files_name]
    exact h.isFileName_append two he

/-- A file with another ending is no result. -/
theorem not_mem_outputs_of_ending (h : other.Proper plan.settings.extension)
    {above : List String} {name ending : String} (n : Nat) (hn : n ≤ ending.toList.length)
    (apart : ∀ result ∈ [".twig", ".component.yml"], n ≤ result.toList.length ∧
      ending.toList.reverse.take n ≠ result.toList.reverse.take n) :
    above ++ [name ++ ending] ∉ plan.outputs other := by
  intro output
  obtain ⟨result, hr, same⟩ := (mem_outputs h).mp output
  have last := congrArg List.getLast? same
  rw [List.getLast?_concat, List.getLast?_concat, Option.some.injEq] at last
  exact append_ne_append n hn (apart result hr).1 (apart result hr).2 last

theorem source_not_mem_outputs (h : file.Proper plan.settings.extension)
    (ho : other.Proper plan.settings.extension) :
    Path.place (plan.files file).source ∉ plan.outputs other := by
  rw [Path.place_eq_append (components_source h) (isFileName_beside h (by decide) (by decide)),
    ← List.append_assoc]
  exact not_mem_outputs_of_ending ho 1 (by decide) (by decide)

theorem overrides_not_mem_outputs (h : file.Proper plan.settings.extension)
    (ho : other.Proper plan.settings.extension) :
    Path.place (plan.files file).overrides ∉ plan.outputs other := by
  rw [Path.place_eq_append (components_overrides h) (isFileName_beside h (by decide) (by decide)),
    ← List.append_assoc]
  exact not_mem_outputs_of_ending ho 5 (by decide) (by decide)

/-- A document outside the output directory is no result, if neither directory is given by a path
that goes up. -/
theorem document_not_mem_outputs (h : file.Proper plan.settings.extension)
    (ho : other.Proper plan.settings.extension) (hi : ".." ∉ Path.components plan.input)
    (hout : ".." ∉ Path.components plan.out)
    (outside : Path.isBelow (Path.components plan.input ++ file.components)
      (Path.components plan.out) = false) :
    Path.place (plan.files file).document ∉ plan.outputs other := by
  rw [Path.place_eq_append (components_document h) h.names, Path.place_eq_components hi]
  intro output
  obtain ⟨result, -, same⟩ := (mem_outputs ho).mp output
  rw [place_folder ho, Path.place_eq_components hout, List.append_assoc] at same
  have below : Path.isBelow (Path.components plan.input ++ file.components)
      (Path.components plan.out) = true := by
    rw [same]
    exact List.isPrefixOf_iff_prefix.mpr (List.prefix_append _ _)
  rw [outside] at below
  cases below

end Inputs

end Plan

end TwigComponent
