import TwigComponent.Proofs.Overrides

/-!
# Merging, path by path

A path is a list of keys, each looked up in the mapping that the keys before it
lead to. What a merge leaves at a path follows from what the two documents have
there: a value of the overlay is merged into that of the base, and where the
overlay has no say the base is left alone. The overlay has a say at every path
that it reaches, and at every path beyond one of its values that is no mapping,
since such a value replaces what it meets as a whole.

Keys are looked up by sameness, so no path has to spell a key as a document does.
-/
namespace TwigComponent.Yaml

open Ordered

def isMapping : Yaml → Bool
  | .map _ => true
  | _ => false

/-- The value at a path, if every key on the way is found in a mapping. -/
def at? : List Yaml → Yaml → Option Yaml
  | [], value => some value
  | key :: path, .map entries => (get? key entries).bind (at? path)
  | _ :: _, _ => none

/-- Whether a document has only mappings at the paths that lead to a path. -/
def OpenTo (path : List Yaml) (document : Yaml) : Prop :=
  ∀ before found, before <+: path → before ≠ path → at? before document = some found →
    found.isMapping = true

theorem at?_cons_map (key : Yaml) (path : List Yaml) (entries : List (Yaml × Yaml)) :
    at? (key :: path) (.map entries) = (get? key entries).bind (at? path) := rfl

theorem at?_cons_of_not_map {value : Yaml} (h : ∀ entries, value ≠ .map entries) (key : Yaml)
    (path : List Yaml) : at? (key :: path) value = none := by
  cases value with
  | map entries => exact absurd rfl (h entries)
  | _ => rfl

/-- A path that goes on leads through a mapping. -/
theorem exists_map_of_at? {value found : Yaml} {key : Yaml} {path : List Yaml}
    (h : at? (key :: path) value = some found) :
    ∃ entries inner, value = .map entries ∧ get? key entries = some inner ∧
      at? path inner = some found := by
  cases value with
  | map entries =>
    rw [at?_cons_map, Option.bind_eq_some_iff] at h
    obtain ⟨inner, hi, hf⟩ := h
    exact ⟨entries, inner, rfl, hi, hf⟩
  | _ => cases h

theorem OpenTo.exists_map {key : Yaml} {path : List Yaml} {document : Yaml}
    (h : OpenTo (key :: path) document) : ∃ entries, document = .map entries := by
  have first := h [] document (List.nil_prefix) (by simp) rfl
  cases document with
  | map entries => exact ⟨entries, rfl⟩
  | _ => cases first

theorem OpenTo.tail {key : Yaml} {path : List Yaml} {entries : List (Yaml × Yaml)} {inner : Yaml}
    (h : OpenTo (key :: path) (.map entries)) (hi : get? key entries = some inner) :
    OpenTo path inner := by
  intro before found hp hne hf
  apply h (key :: before) found
  · exact (List.prefix_cons_inj key).mpr hp
  · intro heq
    exact hne (List.cons.inj heq).2
  · rw [at?_cons_map, hi]
    exact hf

theorem hasProperKeys_of_hasDistinctKeys {value : Yaml} (h : value.hasDistinctKeys = true) :
    value.hasProperKeys = true := by
  induction value using Yaml.induction with
  | map entries _ hv =>
    have parts := ((hasDistinctKeys_map_iff _).mp h).2
    rw [hasProperKeys_map_iff]
    intro entry he
    exact ⟨(parts entry he).1, hv entry he (parts entry he).2⟩
  | _ => rfl

theorem hasDistinctKeys_of_get? {entries : List (Yaml × Yaml)} {key inner : Yaml}
    (h : (Yaml.map entries).hasDistinctKeys = true) (hi : get? key entries = some inner) :
    inner.hasDistinctKeys = true := by
  obtain ⟨entry, he, -, rfl⟩ := exists_mem_of_get? hi
  exact (((hasDistinctKeys_map_iff _).mp h).2 entry he).2

/-- What stands at a path has distinct keys too. -/
theorem hasDistinctKeys_at? {document found : Yaml} {path : List Yaml}
    (h : document.hasDistinctKeys = true) (hf : at? path document = some found) :
    found.hasDistinctKeys = true := by
  induction path generalizing document with
  | nil =>
    cases hf
    exact h
  | cons key path ih =>
    obtain ⟨entries, inner, rfl, hi, hf⟩ := exists_map_of_at? hf
    exact ih (hasDistinctKeys_of_get? h hi) hf

/-- Keys that are the same find the same entry. -/
theorem get?_congr {key other : Yaml} (hk : key.hasDistinctKeys = true) (h : same key other = true)
    (entries : List (Yaml × Yaml)) : get? other entries = get? key entries := by
  induction entries with
  | nil => rfl
  | cons entry rest ih =>
    have sides : (entry.1 == other) = (entry.1 == key) := by
      rw [Bool.eq_iff_iff, beq_eq_same, beq_eq_same]
      constructor
      · intro found
        exact same_trans found (same_symm hk h)
      · intro found
        exact same_trans found h
    rw [get?, get?, sides, ih]

section Entries

variable {entries overlay : List (Yaml × Yaml)}
  (he : (Yaml.map entries).hasDistinctKeys = true) (ho : (Yaml.map overlay).hasDistinctKeys = true)

include he ho

/-- What a merge leaves under a key that the overlay has, however the key is spelled. -/
theorem get?_mergeEntries_some {key value : Yaml} (hv : get? key overlay = some value) :
    get? key (mergeEntries entries overlay) =
      some (((get? key entries).map fun existing => merge existing value).getD value) := by
  obtain ⟨item, hi, found, rfl⟩ := exists_mem_of_get? hv
  have proper := (((hasDistinctKeys_map_iff _).mp ho).2 item hi).1
  have keys := fun entry hin => (((hasDistinctKeys_map_iff _).mp he).2 entry hin).1
  rw [get?_congr proper found, get?_congr proper found]
  exact get?_mergeEntries ho keys hi

/-- What a merge leaves under a key that the overlay does not have. -/
theorem get?_mergeEntries_none {key : Yaml} (hv : get? key overlay = none) :
    get? key (mergeEntries entries overlay) = get? key entries := by
  have keys := fun entry hin => (((hasDistinctKeys_map_iff _).mp he).2 entry hin).1
  exact get?_mergeEntries_other ho keys (get?_eq_none_iff.mp hv)

end Entries

/-- Where the overlay has a value, it is merged into that of the base. -/
theorem at?_merge_some {base overlay value : Yaml} {path : List Yaml}
    (hb : base.hasDistinctKeys = true) (ho : overlay.hasDistinctKeys = true)
    (hv : at? path overlay = some value) :
    at? path (merge base overlay) =
      some (((at? path base).map fun existing => merge existing value).getD value) := by
  induction path generalizing base overlay with
  | nil =>
    cases hv
    rfl
  | cons key path ih =>
    obtain ⟨items, inner, rfl, hi, hf⟩ := exists_map_of_at? hv
    by_cases hm : ∃ entries, base = .map entries
    · obtain ⟨entries, rfl⟩ := hm
      rw [merge_map_map, at?_cons_map, at?_cons_map, get?_mergeEntries_some hb ho hi]
      cases hg : get? key entries with
      | none => simp [hf]
      | some existing =>
        exact ih (hasDistinctKeys_of_get? hb hg) (hasDistinctKeys_of_get? ho hi) hf
    · have other : ∀ entries, base ≠ .map entries := fun entries heq => hm ⟨entries, heq⟩
      rw [merge_map_of_not_map other, at?_cons_of_not_map other, hv]
      rfl

/-- Where the overlay has no say, the base is left alone. -/
theorem at?_merge_none {base overlay : Yaml} {path : List Yaml}
    (hb : base.hasDistinctKeys = true) (ho : overlay.hasDistinctKeys = true)
    (hv : at? path overlay = none) (hp : OpenTo path overlay) :
    at? path (merge base overlay) = at? path base := by
  induction path generalizing base overlay with
  | nil => cases hv
  | cons key path ih =>
    obtain ⟨items, rfl⟩ := hp.exists_map
    by_cases hm : ∃ entries, base = .map entries
    · obtain ⟨entries, rfl⟩ := hm
      rw [merge_map_map, at?_cons_map, at?_cons_map]
      cases hi : get? key items with
      | none => rw [get?_mergeEntries_none hb ho hi]
      | some inner =>
        rw [at?_cons_map, hi] at hv
        rw [get?_mergeEntries_some hb ho hi]
        cases hg : get? key entries with
        | none => exact hv
        | some existing =>
          have below := ih (hasDistinctKeys_of_get? hb hg) (hasDistinctKeys_of_get? ho hi) hv
            (hp.tail hi)
          exact below
    · have other : ∀ entries, base ≠ .map entries := fun entries heq => hm ⟨entries, heq⟩
      rw [merge_map_of_not_map other, at?_cons_of_not_map other, hv]

/-- A merge keeps the keys of a mapping in their order, appends the new ones of the overlay in
theirs, and repeats none. -/
theorem keys_of_merged {entries overlay : List (Yaml × Yaml)}
    (he : (Yaml.map entries).hasDistinctKeys = true)
    (ho : (Yaml.map overlay).hasDistinctKeys = true) :
    (mergeEntries entries overlay).map Prod.fst = entries.map Prod.fst ++ newKeys entries overlay ∧
      distinctKeys (mergeEntries entries overlay) = true := by
  have parts := (hasDistinctKeys_map_iff _).mp he
  have keys := fun entry hin => (parts.2 entry hin).1
  refine ⟨keys_mergeEntries ho keys, ?_⟩
  rw [distinctKeys_iff, ← List.pairwise_map (R := fun earlier later => same later earlier = false)]
  exact pairwise_mergeEntries ho keys (List.pairwise_map.mpr parts.1)

/-- At every path the overlay wins: its values that are no mappings stand in the result, what it
does not mention is that of the base, its mappings are merged with those of the base key by key,
with the keys of the base first, and stand by themselves where the base has no mapping. Merging the
overlay again changes nothing, the order of the keys included. -/
theorem overlay_wins_at_every_path {base overlay : Yaml} (hb : base.hasDistinctKeys = true)
    (ho : overlay.hasDistinctKeys = true) :
    (∀ path value, at? path overlay = some value → value.isMapping = false →
      at? path (merge base overlay) = some value) ∧
    (∀ path, at? path overlay = none → OpenTo path overlay →
      at? path (merge base overlay) = at? path base) ∧
    (∀ path entries items, at? path base = some (.map entries) →
      at? path overlay = some (.map items) →
      ∃ merged, at? path (merge base overlay) = some (.map merged) ∧
        merged.map Prod.fst = entries.map Prod.fst ++ newKeys entries items ∧
        distinctKeys merged = true) ∧
    (∀ path items, at? path overlay = some (.map items) →
      (∀ entries, at? path base ≠ some (.map entries)) →
      at? path (merge base overlay) = some (.map items)) ∧
    merge (merge base overlay) overlay = merge base overlay := by
  refine ⟨?_, ?_, ?_, ?_, ?_⟩
  · intro path value hv hm
    have replaces : ∀ existing, merge existing value = value := fun existing =>
      merge_of_not_map fun entries heq => by rw [heq] at hm; cases hm
    rw [at?_merge_some hb ho hv]
    cases at? path base <;> simp [replaces]
  · intro path hv hp
    exact at?_merge_none hb ho hv hp
  · intro path entries items hbase hover
    refine ⟨mergeEntries entries items, ?_, ?_⟩
    · rw [at?_merge_some hb ho hover, hbase, Option.map_some, Option.getD_some, merge_map_map]
    · exact keys_of_merged (hasDistinctKeys_at? hb hbase) (hasDistinctKeys_at? ho hover)
  · intro path items hover hbase
    rw [at?_merge_some hb ho hover]
    cases hf : at? path base with
    | none => rfl
    | some existing =>
      have other : ∀ entries, existing ≠ .map entries := fun entries heq =>
        hbase entries (hf.trans (congrArg some heq))
      rw [Option.map_some, Option.getD_some, merge_map_of_not_map other]
  · exact merge_merge_self (hasProperKeys_of_hasDistinctKeys hb) ho

/-- A document with a schema, a status and a key that is a mapping. -/
def plainCard : Yaml := .map [
  (.str "props", .map [
    (.str "type", .str "object"),
    (.str "properties", .map [
      (.str "a", .map [(.str "type", .str "string"), (.str "enum", .seq [.str "x", .str "y"])])])]),
  (.str "status", .str "stable"),
  (.map [(.str "x", .null), (.str "y", .null)], .str "old")]

/-- An overlay that adds to the schema, puts a mapping in place of the status, and has the mapping
among the keys in another order. -/
def relabeled : Yaml := .map [
  (.str "props", .map [
    (.str "properties", .map [
      (.str "b", .map [(.str "type", .str "number")]),
      (.str "a", .map [(.str "title", .str "A"), (.str "enum", .seq [.str "z"])])])]),
  (.str "status", .map [(.str "label", .str "Stable")]),
  (.map [(.str "y", .null), (.str "x", .null)], .str "new")]

theorem overlay_wins_at_every_path_relabeled :
    plainCard.hasDistinctKeys = true ∧ relabeled.hasDistinctKeys = true ∧
    at? [.str "props", .str "properties", .str "a", .str "enum"] (merge plainCard relabeled) =
      some (.seq [.str "z"]) ∧
    at? [.map [(.str "x", .null), (.str "y", .null)]] (merge plainCard relabeled) =
      some (.str "new") ∧
    at? [.str "props", .str "type"] (merge plainCard relabeled) = some (.str "object") ∧
    (∃ merged, at? [.str "props", .str "properties"] (merge plainCard relabeled) =
        some (.map merged) ∧
      merged.map Prod.fst = [.str "a", .str "b"] ∧ distinctKeys merged = true) ∧
    at? [.str "status"] (merge plainCard relabeled) =
      some (.map [(.str "label", .str "Stable")]) ∧
    merge (merge plainCard relabeled) relabeled = merge plainCard relabeled := by
  have hb : plainCard.hasDistinctKeys = true := rfl
  have ho : relabeled.hasDistinctKeys = true := rfl
  obtain ⟨replaced, kept, keyed, placed, again⟩ := overlay_wins_at_every_path hb ho
  have reached : OpenTo [.str "props", .str "type"] relabeled := by
    intro before found hp hne hf
    simp only [List.prefix_cons_iff, List.prefix_nil] at hp
    obtain rfl | ⟨_, rfl, rfl | ⟨_, rfl, rfl⟩⟩ := hp
    · cases hf
      rfl
    · cases hf
      rfl
    · exact absurd rfl hne
  refine ⟨hb, ho, replaced _ _ rfl rfl, replaced _ _ rfl rfl, kept _ rfl reached, ?_,
    placed _ _ rfl ?_, again⟩
  · exact keyed [.str "props", .str "properties"] _ _ rfl rfl
  · intro entries heq
    cases heq

end TwigComponent.Yaml
