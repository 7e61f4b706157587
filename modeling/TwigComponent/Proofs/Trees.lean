import Mathlib.Data.List.Induction
import TwigComponent.Files.Tree
import TwigComponent.Proofs.Paths

/-!
# What a tree keeps

A tree changes in two ways only: a directory is made where nothing was, or a file is
written. So a directory stays one, whatever else happens, and a file stays as it is
until something is written to its place. A path that leads somewhere therefore leads
to the same place ever after.
-/
namespace TwigComponent

namespace Ordered

variable {κ ν : Type} [BEq κ] [LawfulBEq κ]

/-- An insertion is seen under its key and nowhere else. -/
theorem get?_insert (key other : κ) (value : ν) (entries : List (κ × ν)) :
    get? other (insert key value entries) =
      if key == other then some value else get? other entries := by
  induction entries with
  | nil => rfl
  | cons entry rest ih =>
    obtain ⟨k, old⟩ := entry
    rw [insert, alter]
    by_cases hk : k = key
    · subst hk
      rw [if_pos BEq.rfl, get?, get?]
      split <;> rfl
    · rw [if_neg (by simpa using hk), get?, get?, ← insert, ih]
      by_cases hother : k = other
      · subst hother
        simp [Ne.symm hk]
      · simp [hother]

theorem isSome_get?_of_mem {entry : κ × ν} {entries : List (κ × ν)} (h : entry ∈ entries) :
    (get? entry.1 entries).isSome = true := by
  induction entries with
  | nil => cases h
  | cons first rest ih =>
    rw [get?]
    split
    · rfl
    · rename_i other
      rcases List.mem_cons.mp h with rfl | later
      · exact absurd BEq.rfl other
      · exact ih later

theorem mem_of_get? {key : κ} {value : ν} {entries : List (κ × ν)}
    (h : get? key entries = some value) : (key, value) ∈ entries := by
  induction entries with
  | nil => cases h
  | cons first rest ih =>
    rw [get?] at h
    split at h
    · rename_i same
      cases h
      rw [← eq_of_beq same]
      exact List.mem_cons_self
    · exact List.mem_cons_of_mem _ (ih h)

end Ordered

namespace FileTree

section Entries

theorem ne_nil_of_get? {tree : FileTree} {place : List String}
    (h : tree.get? place ≠ some .directory) : place ≠ [] := by
  rintro rfl
  exact h rfl

theorem isSome_get?_of_mem {tree : FileTree} {entry : List String × Entry}
    (h : entry ∈ tree.entries) : (tree.get? entry.1).isSome = true := by
  rw [get?]
  split
  · rfl
  · exact Ordered.isSome_get?_of_mem h

theorem get?_insert {place : List String} (h : place ≠ []) (tree : FileTree) (entry : Entry)
    (other : List String) :
    (tree.insert place entry).get? other = if place = other then some entry else tree.get? other := by
  cases other with
  | nil => rw [if_neg h]; rfl
  | cons name rest =>
    have seen := Ordered.get?_insert place (name :: rest) entry tree.entries
    simp only [beq_iff_eq] at seen
    exact seen

end Entries

/-- All that stood in a tree still does, but for files at some places, and all that is new beside
those files is directories. -/
structure Grows (written : List (List String)) (before after : FileTree) : Prop where
  directory : ∀ {place}, before.get? place = some .directory → after.get? place = some .directory
  entry : ∀ {place}, place ∉ written →
    after.get? place = before.get? place ∨
      before.get? place = none ∧ after.get? place = some .directory

section Growth

variable {written more : List (List String)} {before middle after tree : FileTree}

theorem Grows.refl (written : List (List String)) (tree : FileTree) : Grows written tree tree :=
  ⟨id, fun _ => .inl rfl⟩

theorem Grows.mono (h : Grows written before after) (hs : written ⊆ more) :
    Grows more before after :=
  ⟨h.directory, fun hp => h.entry fun hw => hp (hs hw)⟩

theorem Grows.trans (first : Grows written before middle) (second : Grows more middle after) :
    Grows (written ++ more) before after where
  directory := fun hd => second.directory (first.directory hd)
  entry := by
    intro place hp
    rw [List.mem_append, not_or] at hp
    rcases second.entry hp.2 with same | ⟨missing, made⟩
    · rw [same]
      exact first.entry hp.1
    · rcases first.entry hp.1 with same | ⟨-, present⟩
      · exact .inr ⟨same ▸ missing, made⟩
      · rw [missing] at present
        cases present

theorem grows_insert_directory {place : List String} (h : tree.get? place = none) :
    Grows [] tree (tree.insert place .directory) := by
  have absent : tree.get? place ≠ some .directory := by simp [h]
  have named : place ≠ [] := ne_nil_of_get? absent
  constructor
  · intro other hd
    rw [get?_insert named]
    split
    · rfl
    · exact hd
  · intro other _
    rw [get?_insert named]
    split
    · rename_i same
      exact .inr ⟨same ▸ h, rfl⟩
    · exact .inl rfl

theorem grows_insert_file {place : List String} {content : ByteArray}
    (h : tree.get? place ≠ some .directory) :
    Grows [place] tree (tree.insert place (.file content)) := by
  have named : place ≠ [] := ne_nil_of_get? h
  constructor
  · intro other hd
    rw [get?_insert named, if_neg, hd]
    rintro rfl
    exact h hd
  · intro other hp
    rw [get?_insert named, if_neg]
    · exact .inl rfl
    · rintro rfl
      exact hp List.mem_cons_self

/-- A file stays as it is unless its place is written to. -/
theorem Grows.file (h : Grows written before after) {place : List String} {content : ByteArray}
    (hp : place ∉ written) (hf : before.get? place = some (.file content)) :
    after.get? place = some (.file content) := by
  rcases h.entry hp with same | ⟨missing, -⟩
  · rw [same, hf]
  · rw [hf] at missing
    cases missing

end Growth

section Locations

variable {written : List (List String)} {before after tree : FileTree} {path : String}

theorem enter_of_directory {place : List String} (h : tree.get? place = some .directory)
    (component : String) : tree.enter place component = .ok (Path.step place component) := by
  rw [enter, h]
  rfl

theorem directory_of_enter {place next : List String} {component : String}
    (h : tree.enter place component = .ok next) :
    tree.get? place = some .directory ∧ next = Path.step place component := by
  unfold enter at h
  split at h
  · rename_i directory
    cases h
    exact ⟨directory, rfl⟩
  · cases h
  · cases h

/-- Wherever a way leads, its components say where. -/
theorem foldlM_enter_ok {components start place : List String}
    (h : components.foldlM tree.enter start = .ok place) :
    place = components.foldl Path.step start := by
  induction components generalizing start with
  | nil =>
    cases h
    rfl
  | cons component rest ih =>
    rw [List.foldlM_cons] at h
    cases entered : tree.enter start component with
    | error failure =>
      rw [entered] at h
      cases h
    | ok next =>
      rw [entered] at h
      rw [List.foldl_cons, ← (directory_of_enter entered).2]
      exact ih h

/-- A way through a tree stays open. -/
theorem Grows.foldlM_enter (h : Grows written before after) {components start place : List String}
    (ho : components.foldlM before.enter start = .ok place) :
    components.foldlM after.enter start = .ok place := by
  induction components generalizing start with
  | nil => exact ho
  | cons component rest ih =>
    rw [List.foldlM_cons] at ho ⊢
    cases entered : before.enter start component with
    | error failure =>
      rw [entered] at ho
      cases ho
    | ok next =>
      rw [entered] at ho
      obtain ⟨directory, rfl⟩ := directory_of_enter entered
      rw [enter_of_directory (h.directory directory)]
      exact ih ho

theorem eq_place_of_locate {place : List String} (h : tree.locate path = .ok place) :
    place = Path.place path :=
  foldlM_enter_ok h

theorem Grows.locate (h : Grows written before after) {place : List String}
    (hl : before.locate path = .ok place) : after.locate path = .ok place :=
  h.foldlM_enter hl

end Locations

section Directories

theorem grows_makeFrom (tree : FileTree) (place components : List String) :
    Grows [] tree (tree.makeFrom place components).1 := by
  induction components generalizing tree place with
  | nil => exact .refl _ _
  | cons component rest ih =>
    rw [makeFrom]
    split
    · exact ih _ _
    · exact .refl _ _
    · rename_i missing
      exact (grows_insert_directory missing).trans (ih _ _)

theorem grows_makeDirectory (tree : FileTree) (path : String) :
    Grows [] tree (tree.makeDirectory path).1 :=
  grows_makeFrom tree [] _

end Directories

/-- A path leads to a file with a text. -/
structure Holds (tree : FileTree) (path text : String) : Prop where
  reached : tree.locate path = .ok (Path.place path)
  content : tree.get? (Path.place path) = some (.file text.toUTF8)

section Files

variable {written : List (List String)} {before after tree : FileTree} {path text : String}

/-- A write is refused, or it puts a file to the place of the path and nothing else. -/
theorem write_cases (tree : FileTree) (path text : String) :
    tree.write path text = (tree, false) ∨
      tree.locate path = .ok (Path.place path) ∧
      tree.get? (Path.place path) ≠ some .directory ∧
      tree.write path text = (tree.insert (Path.place path) (.file text.toUTF8), true) := by
  unfold write
  cases located : tree.locate path with
  | error failure => exact .inl rfl
  | ok place =>
    obtain rfl := eq_place_of_locate located
    dsimp only
    split
    · exact .inl rfl
    · rename_i other
      split
      · exact .inr ⟨rfl, other, rfl⟩
      · exact .inl rfl

theorem grows_write (tree : FileTree) (path text : String) :
    Grows [Path.place path] tree (tree.write path text).1 := by
  rcases write_cases tree path text with refused | ⟨-, free, done⟩
  · rw [refused]
    exact .refl _ _
  · rw [done]
    exact grows_insert_file free

theorem holds_write (h : (tree.write path text).2 = true) :
    (tree.write path text).1.Holds path text := by
  have grows := grows_write tree path text
  rcases write_cases tree path text with refused | ⟨reached, free, done⟩
  · rw [refused] at h
    cases h
  · refine ⟨grows.locate reached, ?_⟩
    rw [done]
    exact (get?_insert (ne_nil_of_get? free) ..).trans (if_pos rfl)

/-- A file that is not written to holds what it held. -/
theorem Holds.grows (h : before.Holds path text) (hg : Grows written before after)
    (hp : Path.place path ∉ written) : after.Holds path text :=
  ⟨hg.locate h.reached, hg.file hp h.content⟩

theorem Holds.read (h : tree.Holds path text) : tree.read path = .ok text := by
  have decoded : String.fromUTF8? text.toUTF8 = some text := dif_pos text.isValidUTF8
  rw [FileTree.read, h.reached]
  dsimp only [bind, Except.bind]
  rw [h.content]
  dsimp only
  rw [decoded]

theorem read_ne_missing {place : List String} (reached : tree.locate path = .ok place)
    (there : (tree.get? place).isSome = true) : tree.read path ≠ .error .missing := by
  intro missing
  rw [FileTree.read, reached] at missing
  dsimp only [bind, Except.bind] at missing
  split at missing
  · split at missing <;> cases missing
  · cases missing
  · rename_i none
    rw [none] at there
    cases there

/-- What was read from a place that is not written to is read again, unless nothing was there. -/
theorem Grows.read (hg : Grows written before after) {place : List String}
    (reached : before.locate path = .ok place) (hp : place ∉ written) :
    after.read path = before.read path ∨
      before.read path = .error .missing ∧ after.read path = .error .unreadable := by
  rw [FileTree.read, FileTree.read, reached, hg.locate reached]
  dsimp only [bind, Except.bind]
  rcases hg.entry hp with same | ⟨missing, made⟩
  · rw [same]
    exact .inl rfl
  · rw [missing, made]
    exact .inr ⟨rfl, rfl⟩

end Files

/-- The names in a tree are names that files can have, but for the slash of the root, and whatever
there is stands in a directory. -/
structure WellFormed (tree : FileTree) : Prop where
  names : ∀ entry ∈ tree.entries, ∀ name ∈ entry.1.tail, Path.IsFileName name
  above : ∀ entry ∈ tree.entries, tree.get? entry.1.dropLast = some .directory

section WellFormed

variable {tree : FileTree}

/-- All places above something are directories. -/
theorem WellFormed.get?_take (h : tree.WellFormed) {place : List String} {n : Nat}
    (there : (tree.get? place).isSome = true) (hn : n < place.length) :
    tree.get? (place.take n) = some .directory := by
  induction place using List.reverseRecOn with
  | nil => cases hn
  | append_singleton parent name ih =>
    obtain ⟨entry, found⟩ := Option.isSome_iff_exists.mp there
    have listed : (parent ++ [name], entry) ∈ tree.entries := by
      refine Ordered.mem_of_get? ?_
      rw [get?, if_neg (by simp)] at found
      exact found
    have parentThere : tree.get? parent = some .directory := by
      simpa using h.above _ listed
    rw [List.length_append, List.length_singleton] at hn
    rw [List.take_append_of_le_length (by omega)]
    by_cases whole : n = parent.length
    · rw [whole, List.take_length]
      exact parentThere
    · exact ih (by rw [parentThere]; rfl) (by omega)

/-- A way down through directories is open. -/
theorem foldlM_enter_of_directories {start names : List String} (down : ".." ∉ names)
    (h : ∀ n, n < names.length → tree.get? (start ++ names.take n) = some .directory) :
    names.foldlM tree.enter start = .ok (start ++ names) := by
  induction names generalizing start with
  | nil => exact congrArg Except.ok (List.append_nil start).symm
  | cons name rest ih =>
    rw [List.mem_cons, not_or] at down
    have first : tree.get? start = some .directory := by simpa using h 0 (by simp)
    have further : Path.step start name = start ++ [name] := if_neg (Ne.symm down.1)
    have last : rest.foldlM tree.enter (start ++ [name]) = .ok (start ++ [name] ++ rest) := by
      refine ih down.2 fun n hn => ?_
      simpa using h (n + 1) (by simpa using hn)
    rw [List.foldlM_cons, enter_of_directory first, further]
    exact last.trans (by rw [List.append_assoc]; rfl)

/-- What is listed below a path is a file there. -/
theorem mem_filesBelow {path : String} {names : List String} (h : names ∈ tree.filesBelow path) :
    tree.locate path = .ok (Path.place path) ∧
      ∃ content, (Path.place path ++ names, Entry.file content) ∈ tree.entries := by
  unfold filesBelow at h
  cases located : tree.locate path with
  | error failure =>
    rw [located] at h
    cases h
  | ok place =>
    rw [located] at h
    obtain rfl := eq_place_of_locate located
    obtain ⟨⟨key, entry⟩, listed, found⟩ := List.mem_filterMap.mp h
    refine ⟨rfl, ?_⟩
    dsimp only at found
    split at found
    · rename_i content
      split at found
      · rename_i below
        obtain ⟨names', rfl⟩ := List.isPrefixOf_iff_prefix.mp below
        rw [List.drop_left, Option.some.injEq] at found
        exact ⟨content, found ▸ listed⟩
      · cases found
    · cases found

end WellFormed

end FileTree

end TwigComponent
