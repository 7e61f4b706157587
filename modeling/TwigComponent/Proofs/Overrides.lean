import TwigComponent.Proofs.KeyOrdering
import TwigComponent.Proofs.Merging

/-!
# Overriding a metadata document

The author's document is merged into the one that follows from the interface, and
the known keys are put first. Doing both again with the result changes nothing:
the keys of the author's document are all there with values that have absorbed
it, and ordered keys stay ordered.

A tagged key of the author's document counts as known by the text under its tag,
so that two keys may claim one place. Documents with such keys at the top are
left out here.
-/
namespace TwigComponent

namespace Yaml

open Ordered

/-- A key that is the same as none of the entries, either way round. -/
theorem apart_of_get?_eq_none {entries : List (Yaml × Yaml)} {key : Yaml}
    (hk : key.hasDistinctKeys = true) (h : get? key entries = none) {entry : Yaml × Yaml}
    (he : entry ∈ entries) : same key entry.1 = false := by
  have absent := get?_eq_none_iff.mp h entry he
  rw [← Bool.not_eq_true]
  intro found
  rw [beq_eq_same, same_symm hk found] at absent
  cases absent

/-- A merge of mappings with distinct keys has distinct keys. -/
theorem pairwise_mergeEntries {entries overlay : List (Yaml × Yaml)}
    (hd : (Yaml.map overlay).hasDistinctKeys = true)
    (he : ∀ entry ∈ entries, entry.1.hasDistinctKeys = true)
    (hp : (entries.map Prod.fst).Pairwise fun earlier later => same later earlier = false) :
    ((mergeEntries entries overlay).map Prod.fst).Pairwise
      fun earlier later => same later earlier = false := by
  have parts := (hasDistinctKeys_map_iff _).mp hd
  rw [keys_mergeEntries hd he, List.pairwise_append]
  refine ⟨hp, ?_, ?_⟩
  · rw [newKeys, List.pairwise_map]
    exact parts.1.sublist List.filter_sublist
  · intro key hk later hl
    obtain ⟨entry, hin, rfl⟩ := List.mem_map.mp hk
    obtain ⟨item, hi, rfl⟩ := List.mem_map.mp hl
    rw [List.mem_filter, Option.isNone_iff_eq_none] at hi
    exact apart_of_get?_eq_none (parts.2 item hi.1).1 hi.2 hin

end Yaml

namespace Ordered

variable {κ ν : Type} [BEq κ]

theorem get?_append (key : κ) (first second : List (κ × ν)) :
    get? key (first ++ second) = (get? key first).or (get? key second) := by
  induction first with
  | nil => rfl
  | cons entry rest ih =>
    rw [List.cons_append, get?, get?]
    split <;> simp [ih]

/-- Entries that are left out are not found anyway. -/
theorem get?_filter {key : κ} {keep : κ × ν → Bool} {entries : List (κ × ν)}
    (h : ∀ entry ∈ entries, (entry.1 == key) = true → keep entry = true) :
    get? key (entries.filter keep) = get? key entries := by
  induction entries with
  | nil => rfl
  | cons entry rest ih =>
    rw [List.forall_mem_cons] at h
    rw [List.filter_cons, get?]
    split
    · rw [get?]
      split <;> simp [ih h.2]
    · rename_i dropped
      rw [if_neg fun found => dropped (h.1 found)]
      exact ih h.2

end Ordered

namespace Metadata

open Yaml Ordered

section Ordering

variable {entries : List (Yaml × Yaml)}

/-- Entries whose keys are distinct and have no tags. -/
structure PlainKeys (entries : List (Yaml × Yaml)) : Prop where
  untagged : ∀ entry ∈ entries, entry.1.isTagged = false
  distinct : (entries.map Prod.fst).Pairwise fun earlier later => same later earlier = false

theorem isKnown_iff {key : Yaml} (h : key.isTagged = false) :
    isKnown key = true ↔ ∃ name ∈ keyOrder, key = .str name := by
  rw [isKnown_iff_text?]
  exact exists_congr fun name => and_congr_right fun _ => text?_eq_some_iff h name

/-- If at most one member passes, it does not matter from which end it is looked for. -/
theorem find?_reverse {α : Type} {p : α → Bool} {items : List α}
    (h : items.Pairwise fun a b => p a = true → p b = false) :
    items.reverse.find? p = items.find? p := by
  induction items with
  | nil => rfl
  | cons item rest ih =>
    rw [List.pairwise_cons] at h
    rw [List.reverse_cons, List.find?_append, ih h.2, List.find?_cons]
    cases hp : p item with
    | true =>
      have none : rest.find? p = none := by
        rw [List.find?_eq_none]
        intro other ho
        simp [h.1 other ho hp]
      simp [none, hp]
    | false => simp [hp]

/-- The entry of a known key is the one that is found under its name. -/
theorem findKnown?_eq (h : PlainKeys entries) (name : String) :
    findKnown? entries name = (get? (.str name) entries).map fun value => (.str name, value) := by
  have named : ∀ entry ∈ entries,
      (entry.1.text? == some name) = true ↔ (entry.1 == Yaml.str name) = true := by
    intro entry he
    rw [beq_iff_eq, beq_eq_same, same_str_right, text?_eq_some_iff (h.untagged entry he)]
  have single : entries.Pairwise fun a b =>
      (a.1.text? == some name) = true → (b.1.text? == some name) = false := by
    have distinct := List.pairwise_map.mp h.distinct
    refine distinct.imp_of_mem fun {a b} ha hb hab found => ?_
    rw [← Bool.not_eq_true]
    intro also
    rw [named a ha, beq_eq_same, same_str_right] at found
    rw [named b hb, beq_eq_same, same_str_right] at also
    rw [found, also, same_refl] at hab
    cases hab
  rw [findKnown?, find?_reverse single]
  clear single h
  induction entries with
  | nil => rfl
  | cons entry rest ih =>
    rw [List.forall_mem_cons] at named
    rw [List.find?_cons, get?, ih named.2]
    cases ht : entry.1.text? == some name with
    | true =>
      have found := named.1.mp ht
      have key := found
      rw [beq_eq_same, same_str_right] at key
      rw [if_pos found, ← key]
      rfl
    | false =>
      rw [if_neg fun found => by simp [named.1.mpr found] at ht]

/-- The entries that are found under the names given, in the order of the names. -/
def namedEntries (entries : List (Yaml × Yaml)) (names : List String) : List (Yaml × Yaml) :=
  names.filterMap fun name => (get? (.str name) entries).map fun value => (.str name, value)

theorem mem_namedEntries {names : List String} {entry : Yaml × Yaml}
    (h : entry ∈ namedEntries entries names) : ∃ name ∈ names, entry.1 = .str name := by
  obtain ⟨name, hn, hv⟩ := List.mem_filterMap.mp h
  obtain ⟨value, -, rfl⟩ := Option.map_eq_some_iff.mp hv
  exact ⟨name, hn, rfl⟩

theorem orderKeys_eq (h : PlainKeys entries) :
    orderKeys entries =
      namedEntries entries keyOrder ++ entries.filter fun entry => !isKnown entry.1 := by
  rw [orderKeys, namedEntries]
  congr 2
  funext name
  exact findKnown?_eq h name

/-- The known ones among some keys first in their order, then the others in the order they have. -/
def orderedKeys (keys : List Yaml) : List Yaml :=
  (keyOrder.filter fun name => keys.contains (.str name)).map .str
    ++ keys.filter fun key => !isKnown key

theorem isSome_get?_iff (entries : List (Yaml × Yaml)) (name : String) :
    (get? (.str name) entries).isSome = (entries.map Prod.fst).contains (.str name) := by
  induction entries with
  | nil => rfl
  | cons entry rest ih =>
    rw [get?, List.map_cons, List.contains_cons, ← ih]
    have sides : (entry.1 == Yaml.str name) = (Yaml.str name == entry.1) := by
      rw [Bool.eq_iff_iff, beq_eq_same, beq_eq_same, same_str_right, same_str_left]
    rw [← sides]
    split <;> simp_all

theorem keys_orderKeys (h : PlainKeys entries) :
    (orderKeys entries).map Prod.fst = orderedKeys (entries.map Prod.fst) := by
  rw [orderKeys_eq h, orderedKeys, List.map_append, List.filter_map]
  congr 1
  -- A known key stands there if and only if it is found.
  have each : ∀ names : List String, (namedEntries entries names).map Prod.fst =
      (names.filter fun name => (entries.map Prod.fst).contains (.str name)).map Yaml.str := by
    intro names
    induction names with
    | nil => rfl
    | cons name rest ih =>
      rw [namedEntries] at ih
      rw [namedEntries, List.filterMap_cons, List.filter_cons, ← isSome_get?_iff]
      cases get? (.str name) entries <;> simp [ih]
  exact each keyOrder

theorem mem_orderedKeys {keys : List Yaml} (h : ∀ key ∈ keys, key.isTagged = false) (key : Yaml) :
    key ∈ orderedKeys keys ↔ key ∈ keys := by
  have listed : ∀ name, keys.contains (.str name) = true ↔ .str name ∈ keys := by
    intro name
    simp [List.contains_eq_any_beq, beq_eq_same]
  rw [orderedKeys, List.mem_append, List.mem_map, List.mem_filter]
  constructor
  · rintro (⟨name, hn, rfl⟩ | hk)
    · rw [List.mem_filter, listed] at hn
      exact hn.2
    · exact hk.1
  · intro hk
    cases known : isKnown key with
    | true =>
      obtain ⟨name, hn, rfl⟩ := (isKnown_iff (h key hk)).mp known
      refine .inl ⟨name, ?_, rfl⟩
      rw [List.mem_filter, listed]
      exact ⟨hn, hk⟩
    | false => exact .inr ⟨hk, rfl⟩

theorem pairwise_orderedKeys {keys : List Yaml} (h : ∀ key ∈ keys, key.isTagged = false)
    (hp : keys.Pairwise fun earlier later => same later earlier = false) :
    (orderedKeys keys).Pairwise fun earlier later => same later earlier = false := by
  have names : keyOrder.Nodup := by decide
  rw [orderedKeys, List.pairwise_append]
  refine ⟨?_, hp.sublist List.filter_sublist, ?_⟩
  · rw [List.pairwise_map]
    refine (names.sublist List.filter_sublist).imp fun {a b} hab => ?_
    rw [← Bool.not_eq_true, same_str_left]
    intro heq
    exact hab (Yaml.str.inj heq)
  · intro key hk other ho
    obtain ⟨name, hn, rfl⟩ := List.mem_map.mp hk
    rw [List.mem_filter] at hn ho
    rw [← Bool.not_eq_true, same_str_right]
    rintro rfl
    have known := (isKnown_iff (h _ ho.1)).mpr ⟨name, hn.1, rfl⟩
    simp [known] at ho

theorem PlainKeys.orderKeys (h : PlainKeys entries) : PlainKeys (orderKeys entries) := by
  have untagged : ∀ key ∈ entries.map Prod.fst, key.isTagged = false := by
    intro key hk
    obtain ⟨entry, he, rfl⟩ := List.mem_map.mp hk
    exact h.untagged entry he
  constructor
  · intro entry he
    have listed : entry.1 ∈ (Metadata.orderKeys entries).map Prod.fst :=
      List.mem_map.mpr ⟨entry, he, rfl⟩
    rw [keys_orderKeys h, mem_orderedKeys untagged] at listed
    exact untagged _ listed
  · rw [keys_orderKeys h]
    exact pairwise_orderedKeys untagged h.distinct

/-- What is found under a known key among the known keys. -/
theorem get?_known (name : String) (names : List String) :
    get? (Yaml.str name) (namedEntries entries names) =
      if name ∈ names then get? (.str name) entries else none := by
  induction names with
  | nil => rfl
  | cons first rest ih =>
    rw [namedEntries] at ih
    rw [namedEntries, List.filterMap_cons]
    by_cases hf : first = name
    · subst hf
      cases found : get? (Yaml.str first) entries with
      | none => simp [ih, found]
      | some value => simp [get?, beq_eq_same]
    · cases get? (Yaml.str first) entries with
      | none => simp [ih, Ne.symm hf]
      | some value => simp [get?, beq_eq_same, ih, hf, Ne.symm hf]

/-- Ordering the keys does not change what is found under a key. -/
theorem get?_orderKeys (h : PlainKeys entries) {key : Yaml} (hk : key.isTagged = false) :
    get? key (orderKeys entries) = get? key entries := by
  rw [orderKeys_eq h, get?_append]
  cases known : isKnown key with
  | true =>
    obtain ⟨name, hn, rfl⟩ := (isKnown_iff hk).mp known
    have others : get? (Yaml.str name) (entries.filter fun entry => !isKnown entry.1) = none := by
      rw [get?_eq_none_iff]
      intro entry he
      rw [List.mem_filter] at he
      rw [← Bool.not_eq_true, beq_eq_same, same_str_right]
      intro heq
      rw [heq, known] at he
      cases he.2
    rw [get?_known, if_pos hn, others, Option.or_none]
  | false =>
    have first : get? key (namedEntries entries keyOrder) = none := by
      rw [get?_eq_none_iff]
      intro entry he
      obtain ⟨name, hn, heq⟩ := mem_namedEntries he
      rw [← Bool.not_eq_true, beq_eq_same, heq, same_str_left]
      rintro rfl
      rw [(isKnown_iff rfl).mpr ⟨name, hn, rfl⟩] at known
      cases known
    rw [first, Option.none_or]
    apply get?_filter
    intro entry he found
    cases also : isKnown entry.1 with
    | true =>
      obtain ⟨name, hn, heq⟩ := (isKnown_iff (h.untagged entry he)).mp also
      rw [heq, beq_eq_same, same_str_left] at found
      rw [found, ← heq, also] at known
      cases known
    | false => rfl

end Ordering

section Inferred

mutual

theorem hasProperKeys_ofJson : ∀ json : Json, (Yaml.ofJson json).hasProperKeys = true
  | .null => rfl
  | .bool _ => rfl
  | .num (.int _) => rfl
  | .num (.float _) => rfl
  | .str _ => rfl
  | .arr _ => rfl
  | .obj members => by
    rw [Yaml.ofJson, hasProperKeys]
    exact entriesProper_ofJsonMembers members

theorem entriesProper_ofJsonMembers :
    ∀ members : List (String × Json), entriesProper (ofJsonMembers members) = true
  | [] => rfl
  | (key, value) :: rest => by
    have first := hasProperKeys_ofJson value
    have others := entriesProper_ofJsonMembers rest
    simp [ofJsonMembers, entriesProper, hasDistinctKeys, first, others]

end

theorem proper_optionalEntry (key : String) {value : Option Yaml}
    (h : ∀ document ∈ value, document.hasProperKeys = true) :
    ∀ entry ∈ optionalEntry key value,
      entry.1.hasDistinctKeys = true ∧ entry.2.hasProperKeys = true := by
  intro entry he
  cases value with
  | none => cases he
  | some document =>
    rw [List.mem_singleton.mp he]
    exact ⟨rfl, h document rfl⟩

theorem hasProperKeys_definition (definition : PropDefinition) :
    (definitionDocument definition).hasProperKeys = true := by
  have text : ∀ value : Option String, ∀ document ∈ value.map Yaml.str,
      document.hasProperKeys = true := by
    rintro (_ | value) document ⟨⟩
    rfl
  have json : ∀ document ∈ definition.default.map Yaml.ofJson, document.hasProperKeys = true := by
    intro document hd
    obtain ⟨value, -, rfl⟩ := Option.map_eq_some_iff.mp hd
    exact hasProperKeys_ofJson value
  have list : ∀ document ∈ definition.allowed.map fun values => Yaml.seq (values.map .ofJson),
      document.hasProperKeys = true := by
    intro document hd
    obtain ⟨values, -, rfl⟩ := Option.map_eq_some_iff.mp hd
    rfl
  rw [definitionDocument, hasProperKeys_map_iff]
  simp only [List.forall_mem_append, List.forall_mem_singleton]
  exact ⟨⟨⟨⟨⟨rfl, rfl⟩, proper_optionalEntry _ (text _)⟩, proper_optionalEntry _ (text _)⟩,
    proper_optionalEntry _ json⟩, proper_optionalEntry _ list⟩

theorem hasProperKeys_props (props : List (String × PropDefinition)) :
    ∀ document ∈ propsDocument? props, document.hasProperKeys = true := by
  intro document hd
  unfold propsDocument? at hd
  split at hd
  · cases hd
  · cases hd
    rw [hasProperKeys_map_iff, List.forall_mem_cons, List.forall_mem_singleton]
    refine ⟨⟨rfl, rfl⟩, rfl, ?_⟩
    rw [hasProperKeys_map_iff]
    intro entry he
    obtain ⟨⟨name, definition⟩, -, rfl⟩ := List.mem_map.mp he
    exact ⟨rfl, hasProperKeys_definition definition⟩

theorem hasProperKeys_slots (slots : List String) :
    ∀ document ∈ slotsDocument? slots, document.hasProperKeys = true := by
  intro document hd
  unfold slotsDocument? at hd
  split at hd
  · cases hd
  · cases hd
    rw [hasProperKeys_map_iff]
    intro entry he
    obtain ⟨name, -, rfl⟩ := List.mem_map.mp he
    exact ⟨rfl, rfl⟩

/-- All keys of the inferred document are strings. -/
theorem hasProperKeys_inferred (context : Context) :
    (Yaml.map (inferred context)).hasProperKeys = true := by
  rw [hasProperKeys_map_iff, inferred, List.forall_mem_append, List.forall_mem_append,
    List.forall_mem_cons, List.forall_mem_singleton]
  exact ⟨⟨⟨⟨rfl, rfl⟩, rfl, rfl⟩, proper_optionalEntry _ (hasProperKeys_props _)⟩,
    proper_optionalEntry _ (hasProperKeys_slots _)⟩

/-- The keys of the inferred document are known keys in their order. -/
theorem keys_inferred (context : Context) :
    List.Sublist ((inferred context).map Prod.fst) (keyOrder.map Yaml.str) := by
  have optional : ∀ (key : String) (value : Option Yaml),
      List.Sublist ((optionalEntry key value).map Prod.fst) [Yaml.str key] := by
    intro key value
    cases value with
    | none => exact List.nil_sublist _
    | some document => exact List.Sublist.refl _
  rw [inferred, List.map_append, List.map_append]
  have listed := ((List.Sublist.refl ([Yaml.str "$schema", Yaml.str "name"])).append
    (optional "props" (propsDocument? context.props))).append
      (optional "slots" (slotsDocument? context.slots))
  refine listed.trans ?_
  exact List.Sublist.map Yaml.str (by decide :
    List.Sublist ["$schema", "name", "props", "slots"] keyOrder)

theorem str_of_mem_inferred {context : Context} {key : Yaml}
    (h : key ∈ (inferred context).map Prod.fst) : ∃ name, key = .str name := by
  obtain ⟨name, -, rfl⟩ := List.mem_map.mp ((keys_inferred context).subset h)
  exact ⟨name, rfl⟩

theorem pairwise_inferred (context : Context) :
    ((inferred context).map Prod.fst).Pairwise fun earlier later => same later earlier = false := by
  have names : keyOrder.Nodup := by decide
  refine List.Pairwise.sublist (keys_inferred context) ?_
  rw [List.pairwise_map]
  refine names.imp fun {a b} hab => ?_
  rw [← Bool.not_eq_true, same_str_left]
  exact fun heq => hab (Yaml.str.inj heq)

/-- After a merge the keys are those of the inferred document and of the overlay. -/
theorem mem_mergedKeys (context : Context) (overlay : List (Yaml × Yaml)) (key : Yaml) :
    key ∈ (inferred context).map Prod.fst ++ newKeys (inferred context) overlay ↔
      key ∈ (inferred context).map Prod.fst ∨ key ∈ overlay.map Prod.fst := by
  rw [List.mem_append]
  constructor
  · rintro (old | new)
    · exact .inl old
    · exact .inr ((List.filter_sublist.map _).subset new)
  · rintro (old | new)
    · exact .inl old
    · obtain ⟨item, hi, rfl⟩ := List.mem_map.mp new
      cases hg : get? item.1 (inferred context) with
      | none =>
        refine .inr (List.mem_map.mpr ⟨item, ?_, rfl⟩)
        simp [hi, hg]
      | some value =>
        -- The key that is found is a string, so it is the same only as itself.
        obtain ⟨entry, he, found, -⟩ := exists_mem_of_get? hg
        have listed : entry.1 ∈ (inferred context).map Prod.fst := List.mem_map.mpr ⟨entry, he, rfl⟩
        obtain ⟨name, hn⟩ := str_of_mem_inferred listed
        rw [hn, beq_eq_same, same_str_left] at found
        rw [found, ← hn]
        exact .inl listed

theorem untagged_mergedKeys {overlay : List (Yaml × Yaml)}
    (hu : ∀ entry ∈ overlay, entry.1.isTagged = false) (context : Context) :
    ∀ key ∈ (inferred context).map Prod.fst ++ newKeys (inferred context) overlay,
      key.isTagged = false := by
  intro key hk
  rw [mem_mergedKeys] at hk
  rcases hk with old | new
  · obtain ⟨name, rfl⟩ := str_of_mem_inferred old
    rfl
  · obtain ⟨item, hi, rfl⟩ := List.mem_map.mp new
    exact hu item hi

end Inferred

/-- Merges an author's document, if there is one, and puts the known keys first. -/
def amend (overrides : Option Yaml) (document : Yaml) : Yaml :=
  match (match overrides with
    | some overlay => document.merge overlay
    | none => document) with
  | .map entries => .map (orderKeys entries)
  | other => other

theorem build_eq_amend (context : Context) :
    build context = amend context.overrides (.map (inferred context)) := rfl

/-- The entries of an author's document. -/
def overrideEntries : Option Yaml → List (Yaml × Yaml)
  | some (.map entries) => entries
  | _ => []

/-- An author's document as it can be read: a mapping with distinct keys, if there is one. -/
structure IsRead (overrides : Option Yaml) : Prop where
  mapping : ∀ overlay ∈ overrides, ∃ entries, overlay = .map entries
  distinct : ∀ overlay ∈ overrides, overlay.hasDistinctKeys = true

theorem isRead_of_parseOverrides {text : String} {overrides : Option Yaml}
    (h : parseOverrides text = .ok overrides) : IsRead overrides := by
  unfold parseOverrides at h
  split at h
  · cases h
    exact ⟨by simp, by simp⟩
  · split at h <;> cases h
    · exact ⟨by simp, by simp⟩
    · rename_i entries found
      have distinct := hasDistinctKeys_ofText found
      exact ⟨by simp, by simpa using distinct⟩

section Amending

variable {overrides : Option Yaml} (h : IsRead overrides)

include h

theorem amend_map (entries : List (Yaml × Yaml)) :
    amend overrides (.map entries) =
      .map (orderKeys (mergeEntries entries (overrideEntries overrides))) := by
  cases overrides with
  | none => simp [amend, overrideEntries, mergeEntries]
  | some overlay =>
    obtain ⟨items, rfl⟩ := h.mapping overlay rfl
    simp [amend, overrideEntries, merge_map_map]

theorem distinct_overrideEntries :
    (Yaml.map (overrideEntries overrides)).hasDistinctKeys = true := by
  cases overrides with
  | none => rfl
  | some overlay =>
    obtain ⟨items, rfl⟩ := h.mapping overlay rfl
    exact h.distinct _ rfl

theorem plainKeys_merged (hu : ∀ entry ∈ overrideEntries overrides, entry.1.isTagged = false)
    (context : Context) :
    PlainKeys (mergeEntries (inferred context) (overrideEntries overrides)) := by
  have distinct := distinct_overrideEntries h
  have proper : ∀ entry ∈ inferred context, entry.1.hasDistinctKeys = true := fun entry he =>
    ((hasProperKeys_map_iff _).mp (hasProperKeys_inferred context) entry he).1
  constructor
  · intro entry he
    have listed : entry.1 ∈ (mergeEntries (inferred context) (overrideEntries overrides)).map
        Prod.fst := List.mem_map.mpr ⟨entry, he, rfl⟩
    rw [keys_mergeEntries distinct proper] at listed
    exact untagged_mergedKeys hu context _ listed
  · exact pairwise_mergeEntries distinct proper (pairwise_inferred context)

end Amending

/-- The metadata document of a component is a mapping with the keys of the inferred document and of
the author's, each once: the known ones in their order, and behind them the author's other keys in
the author's order. Amending it with the author's document once more changes nothing, the order of
the keys at every depth included. -/
theorem overrides_absorbed (context : Context) (h : IsRead context.overrides)
    (hu : ∀ entry ∈ overrideEntries context.overrides, entry.1.isTagged = false) :
    ∃ entries, build context = .map entries ∧
      entries.map Prod.fst = orderedKeys ((inferred context).map Prod.fst ++
        newKeys (inferred context) (overrideEntries context.overrides)) ∧
      (∀ key, key ∈ entries.map Prod.fst ↔
        key ∈ (inferred context).map Prod.fst ∨
          key ∈ (overrideEntries context.overrides).map Prod.fst) ∧
      distinctKeys entries = true ∧
      amend context.overrides (build context) = build context := by
  have distinct := distinct_overrideEntries h
  have proper := hasProperKeys_inferred context
  have plain := plainKeys_merged h hu context
  have keys := keys_orderKeys plain
  rw [keys_mergeEntries distinct fun entry he => ((hasProperKeys_map_iff _).mp proper entry he).1]
    at keys
  have absorbed : mergeEntries
      (orderKeys (mergeEntries (inferred context) (overrideEntries context.overrides)))
      (overrideEntries context.overrides) =
      orderKeys (mergeEntries (inferred context) (overrideEntries context.overrides)) := by
    apply mergeEntries_eq_self
    intro item hi
    rw [get?_orderKeys plain (hu item hi)]
    exact mergeEntries_absorbs proper distinct (fun item hi base hb => merge_merge_self hb
      (((hasDistinctKeys_map_iff _).mp distinct).2 item hi).2) item hi
  refine ⟨_, amend_map h _, keys, ?_, ?_, ?_⟩
  · intro key
    rw [keys, mem_orderedKeys (untagged_mergedKeys hu context), mem_mergedKeys]
  · rw [distinctKeys_iff, ← List.pairwise_map (R := fun earlier later => same later earlier = false)]
    exact plain.orderKeys.distinct
  · rw [build_eq_amend, amend_map h, amend_map h, absorbed, orderKeys_idem]

/-- A card with a prop and two slots, whose author adds a title to a slot, a status, a key of their
own and a key that is a mapping. -/
def titledCard : Context where
  name := "Card"
  props := [("count", { type := .number, default := some (.num (.int 0)) })]
  slots := ["header", "content", "header"]
  overrides := some (.map [
    (.str "custom", .bool true),
    (.str "slots", .map [(.str "header", .map [(.str "title", .str "Header")])]),
    (.map [(.str "a", .null), (.str "b", .null)], .seq []),
    (.str "status", .str "stable")])

theorem overrides_absorbed_titledCard :
    IsRead titledCard.overrides ∧
    (∀ entry ∈ overrideEntries titledCard.overrides, entry.1.isTagged = false) ∧
    ∃ entries, build titledCard = .map entries ∧
      entries.map Prod.fst = [.str "$schema", .str "name", .str "status", .str "props", .str "slots",
        .str "custom", .map [(.str "a", .null), (.str "b", .null)]] ∧
      amend titledCard.overrides (build titledCard) = build titledCard := by
  have read : IsRead titledCard.overrides := by
    constructor
    · rintro overlay ⟨⟩
      exact ⟨_, rfl⟩
    · rintro overlay ⟨⟩
      rfl
  have untagged : ∀ entry ∈ overrideEntries titledCard.overrides, entry.1.isTagged = false := by
    simp [titledCard, overrideEntries, isTagged]
  obtain ⟨entries, built, keys, -, -, again⟩ := overrides_absorbed titledCard read untagged
  exact ⟨read, untagged, entries, built, keys, again⟩

end Metadata

end TwigComponent
