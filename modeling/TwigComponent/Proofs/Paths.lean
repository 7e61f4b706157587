import Mathlib.Data.List.Basic
import TwigComponent.Files.Path

/-!
# Where paths lead

The components of a path that is put together are those of its parts, so the place
that a path leads to can be read off the parts. A place is a list of names from the
top down. Going up takes the last name off, which is why two paths with different
components may lead to the same place, but paths that only go down from one
directory lead to different places if they name different things.
-/
namespace TwigComponent.Path

/-- A name that a file or a directory can have. -/
structure IsFileName (name : String) : Prop where
  nonempty : name ≠ ""
  not_same : name ≠ "."
  not_above : name ≠ ".."
  no_slash : '/' ∉ name.toList

instance (name : String) : Decidable (IsFileName name) :=
  decidable_of_iff (name ≠ "" ∧ name ≠ "." ∧ name ≠ ".." ∧ '/' ∉ name.toList)
    ⟨fun ⟨h₁, h₂, h₃, h₄⟩ => ⟨h₁, h₂, h₃, h₄⟩, fun ⟨h₁, h₂, h₃, h₄⟩ => ⟨h₁, h₂, h₃, h₄⟩⟩

section Components

theorem pieces_of_no_slash {name : String} (h : '/' ∉ name.toList) : pieces name = [name] := by
  rw [pieces, List.splitOn_eq_singleton h, List.map_singleton, String.ofList_toList]

theorem pieces_append_slash (base rest : String) :
    pieces (base ++ "/" ++ rest) = pieces base ++ pieces rest := by
  have slash : (base ++ "/" ++ rest).toList = base.toList ++ '/' :: rest.toList := by simp
  rw [pieces, slash, List.splitOn_append_cons_self, List.map_append]
  rfl

theorem no_slash_of_mem_splitOn {text piece : List Char} (h : piece ∈ text.splitOn '/') :
    '/' ∉ piece := by
  induction text generalizing piece with
  | nil =>
    rw [List.splitOn_nil, List.mem_singleton] at h
    rw [h]
    exact List.not_mem_nil
  | cons c rest ih =>
    rw [List.splitOn_cons_eq_if_modifyHead] at h
    split at h
    · rcases List.mem_cons.mp h with rfl | later
      · exact List.not_mem_nil
      · exact ih later
    · rename_i other
      cases hr : rest.splitOn '/' with
      | nil =>
        rw [hr] at h
        cases h
      | cons first later =>
        rw [hr, List.modifyHead_cons] at h
        rw [hr] at ih
        rcases List.mem_cons.mp h with rfl | hl
        · intro hs
          rcases List.mem_cons.mp hs with same | hs
          · exact other (by rw [← same]; rfl)
          · exact ih List.mem_cons_self hs
        · exact ih (List.mem_cons_of_mem _ hl)

theorem no_slash_of_mem_pieces {path piece : String} (h : piece ∈ pieces path) :
    '/' ∉ piece.toList := by
  obtain ⟨chars, hc, rfl⟩ := List.mem_map.mp h
  rw [String.toList_ofList]
  exact no_slash_of_mem_splitOn hc

/-- Pieces with slashes between them come apart again. -/
theorem pieces_intercalate {names : List String} (h : ∀ name ∈ names, '/' ∉ name.toList)
    (nonempty : names ≠ []) : pieces ("/".intercalate names) = names := by
  have apart : ∀ name ∈ names.map String.toList, '/' ∉ name := by simpa using h
  have slash : ("/".intercalate names).toList = ['/'].intercalate (names.map String.toList) :=
    String.toList_intercalate
  rw [pieces, slash, List.splitOn_intercalate '/' apart (by simpa using nonempty), List.map_map]
  exact (List.map_congr_left fun name _ => String.ofList_toList).trans (List.map_id names)

theorem isAbsolute_append {base : String} (h : base ≠ "") (rest : String) :
    isAbsolute (base ++ rest) = isAbsolute base := by
  cases hb : base.toList with
  | nil => exact absurd (String.toList_eq_nil_iff.mp hb) h
  | cons c later => simp [isAbsolute, hb]

theorem isAbsolute_of_isFileName {name : String} (h : IsFileName name) :
    isAbsolute name = false := by
  cases hn : name.toList with
  | nil => exact absurd (String.toList_eq_nil_iff.mp hn) h.nonempty
  | cons c later =>
    have other : c ≠ '/' := by
      intro same
      exact h.no_slash (by simp [hn, same])
    simp [isAbsolute, hn, other]

theorem isName_of_isFileName {name : String} (h : IsFileName name) : isName name = true := by
  simp [isName, h.nonempty, h.not_same]

theorem components_of_isFileName {name : String} (h : IsFileName name) :
    components name = [name] := by
  rw [components, isAbsolute_of_isFileName h, pieces_of_no_slash h.no_slash,
    List.filter_cons_of_pos (isName_of_isFileName h)]
  rfl

/-- The components of a relative path below another one follow those of the other one. -/
theorem components_join (base : String) {path : String} (h : isAbsolute path = false) :
    components (join base path) = components base ++ components path := by
  have relative : components path = (pieces path).filter isName := by simp [components, h]
  rw [join, h, Bool.false_or]
  split
  · rename_i empty
    rw [of_decide_eq_true empty]
    rfl
  · rename_i nonempty
    have nonempty : base ≠ "" := fun same => nonempty (decide_eq_true same)
    split
    · rename_i slash
      obtain ⟨above, ends⟩ : ∃ above : String, base = above ++ "/" := by
        obtain ⟨chars, hc⟩ := List.getLast?_eq_some_iff.mp (eq_of_beq slash)
        exact ⟨String.ofList chars, String.toList_inj.mp (by simp [hc])⟩
      have own : pieces base = pieces above ++ [""] := by
        have := pieces_append_slash above ""
        rw [String.append_empty, ← ends] at this
        exact this
      have both : pieces (base ++ path) = pieces above ++ pieces path := by
        rw [ends, pieces_append_slash]
      rw [relative, components, components, isAbsolute_append nonempty, own, both]
      simp [isName]
    · have both : pieces (base ++ "/" ++ path) = pieces base ++ pieces path :=
        pieces_append_slash base path
      rw [relative, components, components, String.append_assoc, isAbsolute_append nonempty,
        ← String.append_assoc, both, List.filter_append, List.append_assoc]

theorem components_join_fileName (base : String) {name : String} (h : IsFileName name) :
    components (join base name) = components base ++ [name] := by
  rw [components_join base (isAbsolute_of_isFileName h), components_of_isFileName h]

theorem components_joinAll (base : String) {names : List String}
    (h : ∀ name ∈ names, IsFileName name) :
    components (joinAll base names) = components base ++ names := by
  induction names generalizing base with
  | nil => exact (List.append_nil _).symm
  | cons name rest ih =>
    rw [List.forall_mem_cons] at h
    have tail := ih (join base name) h.2
    rw [components_join_fileName base h.1, List.append_assoc] at tail
    exact tail

/-- A path is absolute if its first piece, which another one follows, is empty. -/
theorem isAbsolute_iff {path : String} :
    isAbsolute path = true ↔ ∃ rest, rest ≠ [] ∧ pieces path = "" :: rest := by
  cases hp : path.toList with
  | nil => simp [isAbsolute, pieces, hp]
  | cons c later =>
    rw [isAbsolute, pieces, hp, List.splitOn_cons_eq_if_modifyHead]
    by_cases slash : c = '/'
    · simp [slash, List.splitOn_ne_nil]
    · cases hl : later.splitOn '/' with
      | nil => exact absurd hl (List.splitOn_ne_nil _ _)
      | cons first rest => simp [slash]

theorem isAbsolute_intercalate {names : List String} (h : ∀ name ∈ names, IsFileName name) :
    isAbsolute ("/".intercalate names) = false := by
  cases names with
  | nil => rfl
  | cons name rest =>
    rw [← Bool.not_eq_true, isAbsolute_iff]
    rintro ⟨more, -, first⟩
    rw [pieces_intercalate (fun name hn => (h name hn).no_slash) (List.cons_ne_nil _ _)] at first
    exact (h name List.mem_cons_self).nonempty (List.cons.inj first).1

theorem components_intercalate {names : List String} (h : ∀ name ∈ names, IsFileName name) :
    components ("/".intercalate names) = names := by
  rw [components, isAbsolute_intercalate h]
  cases names with
  | nil => rfl
  | cons name rest =>
    rw [pieces_intercalate (fun name hn => (h name hn).no_slash) (List.cons_ne_nil _ _)]
    exact List.filter_eq_self.mpr fun name hn => isName_of_isFileName (h name hn)

/-- Pieces that count for nothing may be left off at the end, up to the last one that counts. -/
theorem components_of_pieces_append {path kept last : String} {above blank : List String}
    (whole : pieces path = above ++ [last] ++ blank)
    (own : pieces kept = above ++ [last]) (counts : isName last = true)
    (blanks : blank.filter isName = []) : components kept = components path := by
  have absolute : isAbsolute kept = isAbsolute path := by
    rw [Bool.eq_iff_iff, isAbsolute_iff, isAbsolute_iff, whole, own]
    cases above with
    | nil =>
      have first : last ≠ "" := by
        rintro rfl
        exact absurd counts (by decide)
      simp [first]
    | cons first more => simp
  rw [components, components, absolute, whole, own, List.filter_append _ blank, blanks,
    List.append_nil]

/-- What is taken off the end of a path counts for nothing. -/
theorem components_trimEnd (path : String) : components (trimEnd path) = components path := by
  have parts : (pieces path).reverse.takeWhile (fun piece => !isName piece) ++
      (pieces path).reverse.dropWhile (fun piece => !isName piece) = (pieces path).reverse :=
    List.takeWhile_append_dropWhile
  have blanks : ((pieces path).reverse.takeWhile fun piece => !isName piece).reverse.filter isName =
      [] := by
    have none := List.all_eq_true.mp (List.all_takeWhile (l := (pieces path).reverse)
      (p := fun piece => !isName piece))
    exact List.filter_eq_nil_iff.mpr fun piece hp => by simpa using none piece (List.mem_reverse.mp hp)
  unfold trimEnd
  cases kept : (pieces path).reverse.dropWhile fun piece => !isName piece with
  | nil =>
    rw [kept, List.append_nil] at parts
    rw [parts, List.reverse_reverse] at blanks
    rw [components, components, blanks]
    cases isAbsolute path <;> rfl
  | cons last above =>
    rw [kept] at parts
    have whole : pieces path = above.reverse ++ [last] ++
        ((pieces path).reverse.takeWhile fun piece => !isName piece).reverse := by
      rw [← List.reverse_cons, ← List.reverse_append, parts, List.reverse_reverse]
    have counts : isName last = true := by
      have first := List.head?_dropWhile_not (fun piece => !isName piece) (pieces path).reverse
      rw [kept] at first
      simpa using first
    refine components_of_pieces_append whole ?_ counts blanks
    dsimp only
    rw [List.reverse_cons]
    refine pieces_intercalate (fun name hn => ?_) (by simp)
    apply no_slash_of_mem_pieces
    rw [whole]
    exact List.mem_append_left _ hn

end Components

/-- One component further, or up. -/
def step (place : List String) (component : String) : List String :=
  if component = ".." then place.dropLast else place ++ [component]

/-- The place that a path leads to, if there are directories all along. -/
def place (path : String) : List String := (components path).foldl step []

section Places

theorem foldl_step_names (start : List String) {names : List String} (h : ".." ∉ names) :
    names.foldl step start = start ++ names := by
  induction names generalizing start with
  | nil => exact (List.append_nil start).symm
  | cons name rest ih =>
    rw [List.mem_cons, not_or] at h
    rw [List.foldl_cons, step, if_neg (Ne.symm h.1), ih _ h.2, List.append_assoc]
    rfl

/-- A path that never goes up leads where its components say. -/
theorem place_eq_components {path : String} (h : ".." ∉ components path) :
    place path = components path := by
  rw [place, foldl_step_names [] h, List.nil_append]

theorem place_eq_append {path base : String} {names : List String}
    (h : components path = components base ++ names) (down : ∀ name ∈ names, IsFileName name) :
    place path = place base ++ names := by
  have up : ".." ∉ names := fun hn => (down _ hn).not_above rfl
  rw [place, h, List.foldl_append, foldl_step_names _ up]
  rfl

end Places

end TwigComponent.Path
