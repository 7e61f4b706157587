import Mathlib.Data.List.Nodup
import TwigComponent.Metadata
import TwigComponent.Proofs.Keys

/-!
# Ordering the keys of a mapping

The known keys are put first, one for each name, and a key is known by its text,
whatever tags stand before it. Two keys may differ in their tags and have the same
text, so there may be two entries for one place, and the first of them is lost. This
is the only way in which ordering loses an entry: the result is a permutation of
the mapping if and only if no two known keys have the same text, which is so
whenever the known keys have no tags.

In any case the known keys come in their order, the others keep theirs, and
ordering a second time changes nothing.
-/
namespace TwigComponent

namespace Yaml

def isTagged : Yaml → Bool
  | .tagged _ _ => true
  | _ => false

theorem text?_eq_some_iff {key : Yaml} (h : key.isTagged = false) (text : String) :
    key.text? = some text ↔ key = .str text := by
  cases key with
  | tagged name value => cases h
  | _ => simp [text?]

end Yaml

namespace Metadata

open Yaml

variable {entries : List (Yaml × Yaml)} {entry : Yaml × Yaml} {name : String}

/-- The texts of the known keys, in the order of the entries. -/
def knownTexts (entries : List (Yaml × Yaml)) : List (Option String) :=
  (entries.filter fun entry => isKnown entry.1).map fun entry => entry.1.text?

/-- The entries that stand first after ordering. -/
def knownEntries (entries : List (Yaml × Yaml)) : List (Yaml × Yaml) :=
  keyOrder.filterMap (findKnown? entries)

theorem orderKeys_eq_append (entries : List (Yaml × Yaml)) :
    orderKeys entries = knownEntries entries ++ entries.filter fun entry => !isKnown entry.1 := rfl

theorem isKnown_iff_text? {key : Yaml} :
    isKnown key = true ↔ ∃ name ∈ keyOrder, key.text? = some name := by
  rw [isKnown]
  cases key.text? with
  | none => simp
  | some text => simp

/-- The entry that is found for a name is the last one whose key has that text. -/
theorem findKnown?_eq_some_iff :
    findKnown? entries name = some entry ↔ entry.1.text? = some name ∧
      ∃ before after, entries = before ++ entry :: after ∧
        ∀ later ∈ after, later.1.text? ≠ some name := by
  rw [findKnown?, List.find?_eq_some_iff_append, beq_iff_eq]
  refine and_congr_right fun _ => ?_
  constructor
  · rintro ⟨after, before, split, none⟩
    refine ⟨before.reverse, after.reverse, ?_, ?_⟩
    · rw [List.reverse_eq_iff] at split
      simp [split]
    · intro later hl
      simpa using none later (List.mem_reverse.mp hl)
  · rintro ⟨before, after, rfl, none⟩
    refine ⟨after.reverse, before.reverse, by simp, ?_⟩
    intro later hl
    simpa using none later (List.mem_reverse.mp hl)

theorem text?_of_findKnown? (h : findKnown? entries name = some entry) :
    entry.1.text? = some name := (findKnown?_eq_some_iff.mp h).1

theorem mem_of_findKnown? (h : findKnown? entries name = some entry) : entry ∈ entries := by
  obtain ⟨-, before, after, rfl, -⟩ := findKnown?_eq_some_iff.mp h
  simp

theorem isSome_findKnown? (entries : List (Yaml × Yaml)) (name : String) :
    (findKnown? entries name).isSome = entries.any fun entry => entry.1.text? == some name := by
  rw [findKnown?, List.isSome_find?, List.any_reverse]

theorem mem_knownEntries :
    entry ∈ knownEntries entries ↔ ∃ name ∈ keyOrder, findKnown? entries name = some entry :=
  List.mem_filterMap

theorem isKnown_of_mem (h : entry ∈ knownEntries entries) : isKnown entry.1 = true := by
  obtain ⟨name, hn, hf⟩ := mem_knownEntries.mp h
  exact isKnown_iff_text?.mpr ⟨name, hn, text?_of_findKnown? hf⟩

/-- The known keys come in their order. -/
theorem texts_knownEntries (entries : List (Yaml × Yaml)) :
    (knownEntries entries).map (fun entry => entry.1.text?) =
      (keyOrder.filter fun name => entries.any fun entry => entry.1.text? == some name).map some := by
  rw [knownEntries]
  induction keyOrder with
  | nil => rfl
  | cons name names ih =>
    rw [List.filterMap_cons, List.filter_cons, ← isSome_findKnown?]
    cases hf : findKnown? entries name with
    | none => simpa using ih
    | some entry => simpa [text?_of_findKnown? hf] using ih

theorem nodup_texts_knownEntries (entries : List (Yaml × Yaml)) :
    ((knownEntries entries).map fun entry => entry.1.text?).Nodup := by
  have names : keyOrder.Nodup := by decide
  rw [texts_knownEntries]
  exact (names.sublist List.filter_sublist).map fun _ _ => Option.some.inj

theorem filter_knownEntries (entries : List (Yaml × Yaml)) :
    (orderKeys entries).filter (fun entry => isKnown entry.1) = knownEntries entries := by
  have all : (knownEntries entries).filter (fun entry => isKnown entry.1) = knownEntries entries :=
    List.filter_eq_self.mpr fun _ => isKnown_of_mem
  rw [orderKeys_eq_append, List.filter_append, all, List.filter_filter]
  simp

/-- If no two known keys have the same text, every entry with a known key is found. -/
theorem mem_knownEntries_iff (h : (knownTexts entries).Nodup) :
    entry ∈ knownEntries entries ↔ entry ∈ entries ∧ isKnown entry.1 = true := by
  constructor
  · intro he
    obtain ⟨name, -, hf⟩ := mem_knownEntries.mp he
    exact ⟨mem_of_findKnown? hf, isKnown_of_mem he⟩
  · rintro ⟨he, known⟩
    obtain ⟨name, hn, ht⟩ := isKnown_iff_text?.mp known
    have present : (findKnown? entries name).isSome = true := by
      rw [isSome_findKnown?, List.any_eq_true]
      exact ⟨entry, he, by simp [ht]⟩
    obtain ⟨found, hf⟩ := Option.isSome_iff_exists.mp present
    have knownFound : isKnown found.1 = true :=
      isKnown_iff_text?.mpr ⟨name, hn, text?_of_findKnown? hf⟩
    have equal : found = entry := by
      apply List.inj_on_of_nodup_map h
      · simp [mem_of_findKnown? hf, knownFound]
      · simp [he, known]
      · rw [text?_of_findKnown? hf, ht]
    exact mem_knownEntries.mpr ⟨name, hn, equal ▸ hf⟩

theorem perm_knownEntries (h : (knownTexts entries).Nodup) :
    (knownEntries entries).Perm (entries.filter fun entry => isKnown entry.1) := by
  have found := List.Nodup.of_map _ (nodup_texts_knownEntries entries)
  have given := List.Nodup.of_map _ h
  rw [List.perm_ext_iff_of_nodup found given]
  intro entry
  rw [mem_knownEntries_iff h, List.mem_filter]

/-- Ordering loses nothing if and only if no two known keys have the same text. -/
theorem orderKeys_perm_iff (entries : List (Yaml × Yaml)) :
    (orderKeys entries).Perm entries ↔ (knownTexts entries).Nodup := by
  constructor
  · intro perm
    have known := perm.filter fun entry => isKnown entry.1
    rw [filter_knownEntries] at known
    exact (known.map _).nodup_iff.mp (nodup_texts_knownEntries entries)
  · intro h
    rw [orderKeys_eq_append]
    exact ((perm_knownEntries h).append_right _).trans (List.filter_append_perm _ entries)

/-- Distinct keys without tags have distinct texts. -/
theorem nodup_knownTexts (h : distinctKeys entries = true)
    (hu : ∀ entry ∈ entries, isKnown entry.1 = true → entry.1.isTagged = false) :
    (knownTexts entries).Nodup := by
  rw [distinctKeys_iff] at h
  rw [knownTexts, List.Nodup, List.pairwise_map]
  refine (h.sublist List.filter_sublist).imp_of_mem fun {a b} ha hb hab heq => ?_
  rw [List.mem_filter] at ha hb
  obtain ⟨name, -, ht⟩ := isKnown_iff_text?.mp ha.2
  have keyA := (text?_eq_some_iff (hu a ha.1 ha.2) name).mp ht
  have keyB := (text?_eq_some_iff (hu b hb.1 hb.2) name).mp (heq.symm.trans ht)
  rw [keyA, keyB, same_refl] at hab
  cases hab

/-- What is found for a known name is found again after ordering. -/
theorem findKnown?_orderKeys (hn : name ∈ keyOrder) :
    findKnown? (orderKeys entries) name = findKnown? entries name := by
  have others : ∀ entry ∈ entries.filter (fun entry => !isKnown entry.1),
      entry.1.text? ≠ some name := by
    intro entry he ht
    have known := isKnown_iff_text?.mpr ⟨name, hn, ht⟩
    simp [known] at he
  cases hf : findKnown? entries name with
  | none =>
    -- Every entry after ordering is one of the entries before it.
    rw [← Option.not_isSome_iff_eq_none, isSome_findKnown?] at hf ⊢
    rw [orderKeys_eq_append, List.any_append, Bool.or_eq_true, not_or]
    constructor
    · intro found
      obtain ⟨entry, he, ht⟩ := List.any_eq_true.mp found
      obtain ⟨other, -, ho⟩ := mem_knownEntries.mp he
      exact hf (List.any_eq_true.mpr ⟨entry, mem_of_findKnown? ho, ht⟩)
    · intro found
      obtain ⟨entry, he, ht⟩ := List.any_eq_true.mp found
      exact others entry he (beq_iff_eq.mp ht)
  | some entry =>
    obtain ⟨before, after, split⟩ :=
      List.append_of_mem (mem_knownEntries.mpr ⟨name, hn, hf⟩)
    have distinct := nodup_texts_knownEntries entries
    rw [split, List.map_append, List.map_cons, List.nodup_append, List.nodup_cons] at distinct
    rw [orderKeys_eq_append, split, findKnown?_eq_some_iff]
    refine ⟨text?_of_findKnown? hf, before, _, List.append_assoc _ (entry :: after) _, ?_⟩
    intro later hl ht
    rcases List.mem_append.mp hl with known | other
    · refine distinct.2.1.1 (List.mem_map.mpr ⟨later, known, ?_⟩)
      rw [ht, text?_of_findKnown? hf]
    · exact others later other ht

theorem orderKeys_idem (entries : List (Yaml × Yaml)) :
    orderKeys (orderKeys entries) = orderKeys entries := by
  have known : knownEntries (orderKeys entries) = knownEntries entries :=
    List.filterMap_congr fun _ hn => findKnown?_orderKeys hn
  have none : (knownEntries entries).filter (fun entry => !isKnown entry.1) = [] := by
    rw [List.filter_eq_nil_iff]
    intro entry he
    simp [isKnown_of_mem he]
  rw [orderKeys_eq_append (orderKeys entries), known, orderKeys_eq_append, List.filter_append, none,
    List.nil_append, List.filter_filter]
  simp

/-- Ordering the keys of a mapping is a permutation if and only if no two known keys have the same
text, which is so if the known keys have no tags. In any case the known keys come first, in their
order and each the last of its text, the others follow in the order they had, and ordering again
changes nothing. -/
theorem orderKeys_keeps_iff (entries : List (Yaml × Yaml)) (h : distinctKeys entries = true) :
    ((orderKeys entries).Perm entries ↔ (knownTexts entries).Nodup) ∧
    ((∀ entry ∈ entries, isKnown entry.1 = true → entry.1.isTagged = false) →
      (orderKeys entries).Perm entries) ∧
    (∃ known, orderKeys entries = known ++ entries.filter (fun entry => !isKnown entry.1) ∧
      known.map (fun entry => entry.1.text?) =
        (keyOrder.filter fun name => entries.any fun entry => entry.1.text? == some name).map some ∧
      ∀ entry ∈ known, ∃ before after, entries = before ++ entry :: after ∧
        ∀ later ∈ after, later.1.text? ≠ entry.1.text?) ∧
    orderKeys (orderKeys entries) = orderKeys entries := by
  refine ⟨orderKeys_perm_iff entries, ?_, ⟨knownEntries entries, rfl, texts_knownEntries entries, ?_⟩,
    orderKeys_idem entries⟩
  · intro untagged
    exact (orderKeys_perm_iff entries).mpr (nodup_knownTexts h untagged)
  · intro entry he
    obtain ⟨name, -, hf⟩ := mem_knownEntries.mp he
    rw [text?_of_findKnown? hf]
    exact (findKnown?_eq_some_iff.mp hf).2

/-- Keys of several kinds: a number, a sequence, two known names, and a tagged text that is no known
name. -/
def mixedKeys : List (Yaml × Yaml) :=
  [(.num (.int 1), .null), (.str "slots", .map []), (.seq [.str "name"], .bool true),
    (.tagged "t" (.str "label"), .str "x"), (.str "name", .str "Card")]

theorem orderKeys_keeps_iff_mixedKeys :
    distinctKeys mixedKeys = true ∧ (orderKeys mixedKeys).Perm mixedKeys ∧
      orderKeys mixedKeys = [(.str "name", .str "Card"), (.str "slots", .map []),
        (.num (.int 1), .null), (.seq [.str "name"], .bool true),
        (.tagged "t" (.str "label"), .str "x")] := by
  have distinct : distinctKeys mixedKeys = true := rfl
  obtain ⟨exactly, -, -, -⟩ := orderKeys_keeps_iff mixedKeys distinct
  have texts : (knownTexts mixedKeys).Nodup := by
    rw [show knownTexts mixedKeys = [some "slots", some "name"] from rfl]
    decide
  exact ⟨distinct, exactly.mpr texts, rfl⟩

/-- A name and the same name under a tag are distinct keys with one place. -/
def namedTwice : List (Yaml × Yaml) :=
  [(.str "name", .str "a"), (.tagged "t" (.str "name"), .str "b")]

theorem namedTwice_loses_entry :
    distinctKeys namedTwice = true ∧
      orderKeys namedTwice = [(.tagged "t" (.str "name"), .str "b")] ∧
      ¬ (orderKeys namedTwice).Perm namedTwice := by
  refine ⟨rfl, rfl, ?_⟩
  intro perm
  have lengths := perm.length_eq
  cases lengths

end Metadata

end TwigComponent
