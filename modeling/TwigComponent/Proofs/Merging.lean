import TwigComponent.Proofs.Keys
import TwigComponent.Yaml.Merge

/-!
# Merging twice

What a merge leaves under a key of the overlay is the merge of what both have
there, and an overlay whose values are already merged everywhere changes nothing.
So a second merge of the same overlay finds every one of its keys and keeps the
document as it is, the order of its keys included.

The keys of the base may repeat, since only the first entry of a key is ever
looked at. They have to be values with distinct keys themselves, which all keys
that are read are.
-/
namespace TwigComponent

namespace Ordered

attribute [local simp] alter get?

variable {κ ν : Type} [BEq κ] {key other : κ} {value fresh : ν} {change : ν → ν}
  {entries : List (κ × ν)}

theorem exists_mem_of_get? (h : get? key entries = some value) :
    ∃ entry ∈ entries, (entry.1 == key) = true ∧ entry.2 = value := by
  induction entries with
  | nil => cases h
  | cons first rest ih =>
    rw [get?] at h
    split at h
    · rename_i found
      cases h
      exact ⟨first, by simp, found, rfl⟩
    · obtain ⟨entry, he, found⟩ := ih h
      exact ⟨entry, by simp [he], found⟩

theorem get?_eq_none_iff :
    get? key entries = none ↔ ∀ entry ∈ entries, (entry.1 == key) = false := by
  induction entries with
  | nil => simp
  | cons first rest ih =>
    rw [get?]
    split <;> simp_all

/-- An altered entry is seen under its key. -/
theorem get?_alter_self (hk : (key == key) = true) :
    get? key (alter key change fresh entries) = some (((get? key entries).map change).getD fresh) := by
  induction entries with
  | nil => simp [hk]
  | cons first rest ih =>
    rw [alter, get?]
    split
    · rename_i found
      simp [found]
    · rename_i found
      simp [found, ih]

/-- A key is not affected if no key is the same as both. -/
theorem get?_alter_other (hk : (key == other) = false)
    (h : ∀ entry ∈ entries, (entry.1 == key) = true → (entry.1 == other) = false) :
    get? other (alter key change fresh entries) = get? other entries := by
  induction entries with
  | nil => simp [hk]
  | cons first rest ih =>
    rw [List.forall_mem_cons] at h
    rw [alter]
    split
    · rename_i found
      simp [h.1 found]
    · simp [ih h.2]

/-- Nothing changes if the value under the key does not change. -/
theorem alter_eq_self (h : get? key entries = some value) (hv : change value = value) :
    alter key change fresh entries = entries := by
  induction entries with
  | nil => cases h
  | cons first rest ih =>
    rw [get?] at h
    rw [alter]
    split at h
    · rename_i found
      cases h
      rw [if_pos found, hv]
    · rename_i found
      rw [if_neg found, ih h]

theorem keys_alter :
    (alter key change fresh entries).map Prod.fst =
      entries.map Prod.fst ++ if (get? key entries).isNone then [key] else [] := by
  induction entries with
  | nil => simp
  | cons first rest ih =>
    rw [alter, get?]
    split <;> simp [ih]

end Ordered

namespace Yaml

open Ordered

mutual

/-- Whether the keys of a mapping, and those of the mappings in its values, have distinct keys. -/
def hasProperKeys : Yaml → Bool
  | .map entries => entriesProper entries
  | _ => true

def entriesProper : List (Yaml × Yaml) → Bool
  | [] => true
  | (key, value) :: rest => hasDistinctKeys key && hasProperKeys value && entriesProper rest

end

theorem hasProperKeys_map_iff (entries : List (Yaml × Yaml)) :
    (Yaml.map entries).hasProperKeys = true ↔
      ∀ entry ∈ entries, entry.1.hasDistinctKeys = true ∧ entry.2.hasProperKeys = true := by
  rw [hasProperKeys]
  induction entries with
  | nil => simp [entriesProper]
  | cons entry rest ih =>
    obtain ⟨key, value⟩ := entry
    simp [entriesProper, ih]

variable {entries overlay : List (Yaml × Yaml)} {key value : Yaml}

/-- An overlay whose keys are all there with values that absorb those of the overlay changes
nothing. -/
theorem mergeEntries_eq_self
    (h : ∀ item ∈ overlay, ∃ found, get? item.1 entries = some found ∧ merge found item.2 = found) :
    mergeEntries entries overlay = entries := by
  induction overlay with
  | nil => simp [mergeEntries]
  | cons item rest ih =>
    rw [List.forall_mem_cons] at h
    obtain ⟨found, hf, hm⟩ := h.1
    rw [mergeEntries, alter_eq_self hf hm]
    exact ih h.2

/-- The keys of an overlay that are not among the entries, in the order of the overlay. -/
def newKeys (entries overlay : List (Yaml × Yaml)) : List Yaml :=
  (overlay.filter fun item => (get? item.1 entries).isNone).map Prod.fst

section Overlay

variable (hd : (Yaml.map overlay).hasDistinctKeys = true)

include hd

/-- Two keys of an overlay are not the same, whichever comes first. -/
theorem apart_of_distinct {first : Yaml × Yaml} {rest : List (Yaml × Yaml)}
    (ho : overlay = first :: rest) {item : Yaml × Yaml} (hi : item ∈ rest) :
    same item.1 first.1 = false ∧ same first.1 item.1 = false := by
  subst ho
  rw [hasDistinctKeys_map_iff, List.pairwise_cons, List.forall_mem_cons] at hd
  have later := hd.1.1 item hi
  refine ⟨later, ?_⟩
  rw [← Bool.not_eq_true]
  intro found
  rw [same_symm hd.2.1.1 found] at later
  cases later

theorem distinct_tail {first : Yaml × Yaml} {rest : List (Yaml × Yaml)}
    (ho : overlay = first :: rest) : (Yaml.map rest).hasDistinctKeys = true := by
  subst ho
  rw [hasDistinctKeys_map_iff, List.pairwise_cons, List.forall_mem_cons] at hd
  rw [hasDistinctKeys_map_iff]
  exact ⟨hd.1.2, hd.2.2⟩

/-- In a mapping with distinct keys every entry is found under its key. -/
theorem get?_of_mem {item : Yaml × Yaml} (hi : item ∈ overlay) :
    get? item.1 overlay = some item.2 := by
  induction overlay with
  | nil => cases hi
  | cons first rest ih =>
    rw [get?, beq_eq_same]
    rcases List.mem_cons.mp hi with rfl | hi
    · rw [if_pos (same_refl _)]
    · rw [(apart_of_distinct hd rfl hi).2, if_neg (by simp)]
      exact ih (distinct_tail hd rfl) hi

end Overlay

/-- The entries after one step of a merge. -/
theorem proper_alter (change : Yaml → Yaml) (fresh : Yaml)
    (he : ∀ entry ∈ entries, entry.1.hasDistinctKeys = true) (hk : key.hasDistinctKeys = true) :
    ∀ entry ∈ alter key change fresh entries, entry.1.hasDistinctKeys = true := by
  intro entry hin
  have listed : entry.1 ∈ (alter key change fresh entries).map Prod.fst :=
    List.mem_map.mpr ⟨entry, hin, rfl⟩
  rw [keys_alter, List.mem_append] at listed
  rcases listed with old | new
  · obtain ⟨source, hs, heq⟩ := List.mem_map.mp old
    exact heq ▸ he source hs
  · split at new
    · rw [List.mem_singleton.mp new]
      exact hk
    · cases new

/-- A step of a merge does not affect a key that is not the same as that of the step. -/
theorem get?_step {change : Yaml → Yaml} {fresh other : Yaml}
    (he : ∀ entry ∈ entries, entry.1.hasDistinctKeys = true) (hk : same key other = false) :
    get? other (alter key change fresh entries) = get? other entries := by
  apply get?_alter_other hk
  intro entry hin found
  rw [beq_eq_same] at found ⊢
  rw [← Bool.not_eq_true]
  intro also
  rw [same_of_same (he entry hin) found also] at hk
  cases hk

/-- A merge does not affect a key that is not one of the overlay. -/
theorem get?_mergeEntries_other (hd : (Yaml.map overlay).hasDistinctKeys = true)
    (he : ∀ entry ∈ entries, entry.1.hasDistinctKeys = true)
    (hk : ∀ item ∈ overlay, same item.1 key = false) :
    get? key (mergeEntries entries overlay) = get? key entries := by
  induction overlay generalizing entries with
  | nil => simp [mergeEntries]
  | cons first rest ih =>
    rw [List.forall_mem_cons] at hk
    have proper := (hasDistinctKeys_map_iff _).mp hd
    rw [mergeEntries, ih (distinct_tail hd rfl)]
    · exact get?_step he hk.1
    · exact proper_alter _ _ he (proper.2 first (by simp)).1
    · exact hk.2

/-- What a merge leaves under a key of the overlay. -/
theorem get?_mergeEntries (hd : (Yaml.map overlay).hasDistinctKeys = true)
    (he : ∀ entry ∈ entries, entry.1.hasDistinctKeys = true) {item : Yaml × Yaml}
    (hi : item ∈ overlay) :
    get? item.1 (mergeEntries entries overlay) =
      some (((get? item.1 entries).map fun existing => merge existing item.2).getD item.2) := by
  induction overlay generalizing entries with
  | nil => cases hi
  | cons first rest ih =>
    have proper := ((hasDistinctKeys_map_iff _).mp hd).2 first (by simp)
    have kept := distinct_tail hd rfl
    have stepped := proper_alter (fun existing => merge existing first.2) first.2 he proper.1
    rw [mergeEntries]
    rcases List.mem_cons.mp hi with rfl | hi
    · -- The later keys of the overlay are other keys.
      have later : ∀ other ∈ rest, same other.1 item.1 = false :=
        fun other ho => (apart_of_distinct hd rfl ho).1
      rw [get?_mergeEntries_other kept stepped later, get?_alter_self (same_refl _)]
    · rw [ih kept stepped hi, get?_step he (apart_of_distinct hd rfl hi).2]

/-- A merge keeps the keys of the entries where they are and appends the new ones. -/
theorem keys_mergeEntries (hd : (Yaml.map overlay).hasDistinctKeys = true)
    (he : ∀ entry ∈ entries, entry.1.hasDistinctKeys = true) :
    (mergeEntries entries overlay).map Prod.fst =
      entries.map Prod.fst ++ newKeys entries overlay := by
  induction overlay generalizing entries with
  | nil => simp [mergeEntries, newKeys]
  | cons first rest ih =>
    have proper := ((hasDistinctKeys_map_iff _).mp hd).2 first (by simp)
    have stepped := proper_alter (fun existing => merge existing first.2) first.2 he proper.1
    have same : newKeys (alter first.1 (fun existing => merge existing first.2) first.2 entries) rest =
        newKeys entries rest := by
      unfold newKeys
      congr 1
      apply List.filter_congr
      intro item hi
      rw [get?_step he (apart_of_distinct hd rfl hi).2]
    rw [mergeEntries, ih (distinct_tail hd rfl) stepped, same, keys_alter, List.append_assoc]
    congr 1
    unfold newKeys
    rw [List.filter_cons]
    split <;> simp

theorem merge_of_not_map {base overlay : Yaml} (h : ∀ entries, overlay ≠ .map entries) :
    merge base overlay = overlay := by
  cases overlay with
  | map entries => exact absurd rfl (h entries)
  | _ => cases base <;> rfl

theorem merge_map_of_not_map {base : Yaml} (h : ∀ entries, base ≠ .map entries) :
    merge base (.map overlay) = .map overlay := by
  cases base with
  | map entries => exact absurd rfl (h entries)
  | _ => rfl

theorem merge_map_map (entries overlay : List (Yaml × Yaml)) :
    merge (.map entries) (.map overlay) = .map (mergeEntries entries overlay) := by
  rw [merge]

/-- Merging a document into itself changes nothing. -/
theorem merge_self {value : Yaml} (h : value.hasDistinctKeys = true) : merge value value = value := by
  induction value using Yaml.induction with
  | map entries _ hv =>
    have parts := (hasDistinctKeys_map_iff _).mp h
    rw [merge_map_map]
    congr 1
    apply mergeEntries_eq_self
    intro item hi
    exact ⟨item.2, get?_of_mem h hi, hv item hi (parts.2 item hi).2⟩
  | _ => exact merge_of_not_map (by simp)

/-- After a merge every key of the overlay is there with a value that absorbs that of the overlay, if
this holds of the values themselves. -/
theorem mergeEntries_absorbs (he : (Yaml.map entries).hasProperKeys = true)
    (hd : (Yaml.map overlay).hasDistinctKeys = true)
    (hv : ∀ item ∈ overlay, ∀ base : Yaml, base.hasProperKeys = true →
      merge (merge base item.2) item.2 = merge base item.2) :
    ∀ item ∈ overlay, ∃ found,
      get? item.1 (mergeEntries entries overlay) = some found ∧ merge found item.2 = found := by
  rw [hasProperKeys_map_iff] at he
  intro item hi
  refine ⟨_, get?_mergeEntries hd (fun entry hin => (he entry hin).1) hi, ?_⟩
  cases hg : get? item.1 entries with
  | none => exact merge_self (((hasDistinctKeys_map_iff _).mp hd).2 item hi).2
  | some existing =>
    obtain ⟨entry, hin, -, rfl⟩ := exists_mem_of_get? hg
    exact hv item hi entry.2 (he entry hin).2

/-- Merging an overlay a second time changes nothing. -/
theorem merge_merge_self {base overlay : Yaml} (hb : base.hasProperKeys = true)
    (ho : overlay.hasDistinctKeys = true) :
    merge (merge base overlay) overlay = merge base overlay := by
  induction overlay using Yaml.induction generalizing base with
  | map items _ hv =>
    have parts := (hasDistinctKeys_map_iff _).mp ho
    by_cases hm : ∃ entries, base = .map entries
    · obtain ⟨entries, rfl⟩ := hm
      have absorbed := mergeEntries_absorbs hb ho fun item hi _ hp =>
        hv item hi hp (parts.2 item hi).2
      rw [merge_map_map, merge_map_map, mergeEntries_eq_self absorbed]
    · have replaced : merge base (.map items) = .map items :=
        merge_map_of_not_map fun entries heq => hm ⟨entries, heq⟩
      rw [replaced]
      exact merge_self ho
  | _ => rw [merge_of_not_map (by simp), merge_of_not_map (by simp)]

end Yaml

end TwigComponent
