import Mathlib.Data.List.Induction
import Mathlib.Data.List.Nodup
import TwigComponent.Proofs.Merging

/-!
# Ordered maps

A finite map whose entries have an order: a key stands where it was first inserted
and holds the value that was inserted last. Merging a map into another inserts its
entries one after the other. The main fact is `merge_insert`: it makes no
difference whether an entry is inserted before a merge or after it. So a list of
entries can first be collected into a map of its own, whatever keys repeat in it.
-/
namespace TwigComponent

namespace Ordered

variable {κ ν : Type} [BEq κ] [LawfulBEq κ] {key other : κ} {value former : ν}
  {entries done : List (κ × ν)}

/-- Inserts the entries one after the other into those that are there. -/
def insertAll (entries done : List (κ × ν)) : List (κ × ν) :=
  entries.foldl (fun done entry => insert entry.1 entry.2 done) done

theorem insert_cons_self (key : κ) (value former : ν) (rest : List (κ × ν)) :
    insert key value ((key, former) :: rest) = (key, value) :: rest := by
  simp [insert, alter]

theorem insert_cons_ne (h : other ≠ key) (value former : ν) (rest : List (κ × ν)) :
    insert key value ((other, former) :: rest) = (other, former) :: insert key value rest := by
  simp [insert, alter, h]

theorem get?_isNone_iff : (get? key entries).isNone = true ↔ key ∉ entries.map Prod.fst := by
  rw [Option.isNone_iff_eq_none, get?_eq_none_iff, List.mem_map]
  constructor
  · rintro h ⟨entry, he, rfl⟩
    simpa using h entry he
  · intro h entry he
    rw [beq_eq_false_iff_ne]
    intro heq
    exact h ⟨entry, he, heq⟩

theorem nodup_insert (h : (entries.map Prod.fst).Nodup) :
    ((insert key value entries).map Prod.fst).Nodup := by
  rw [insert, keys_alter]
  split
  · rename_i absent
    rw [get?_isNone_iff] at absent
    exact h.append (List.nodup_singleton key) (List.disjoint_singleton.mpr absent)
  · rwa [List.append_nil]

theorem mem_keys_insert_self (key : κ) (value : ν) (entries : List (κ × ν)) :
    key ∈ (insert key value entries).map Prod.fst := by
  rw [insert, keys_alter]
  split
  · simp
  · rename_i present
    rw [get?_isNone_iff, not_not] at present
    simpa using present

omit [LawfulBEq κ] in
theorem mem_keys_insert (h : key ∈ done.map Prod.fst) :
    key ∈ (insert other value done).map Prod.fst := by
  rw [insert, keys_alter]
  exact List.mem_append_left _ h

/-- A key that is not there comes last. -/
theorem insert_of_not_mem (h : key ∉ entries.map Prod.fst) (value : ν) :
    insert key value entries = entries ++ [(key, value)] := by
  induction entries with
  | nil => rfl
  | cons entry rest ih =>
    rw [List.map_cons, List.mem_cons, not_or] at h
    rw [insert_cons_ne (Ne.symm h.1), ih h.2]
    rfl

theorem insert_insert_self (key : κ) (value former : ν) (entries : List (κ × ν)) :
    insert key value (insert key former entries) = insert key value entries := by
  induction entries with
  | nil => exact insert_cons_self key value former []
  | cons entry rest ih =>
    obtain ⟨first, old⟩ := entry
    by_cases h : first = key
    · subst h
      rw [insert_cons_self, insert_cons_self, insert_cons_self]
    · rw [insert_cons_ne h, insert_cons_ne h, insert_cons_ne h, ih]

/-- A key that has its place keeps it whatever is inserted beside it. -/
theorem insert_comm_of_mem (h : key ∈ entries.map Prod.fst) (hne : key ≠ other) (value former : ν) :
    insert key value (insert other former entries) = insert other former (insert key value entries) := by
  induction entries with
  | nil => cases h
  | cons entry rest ih =>
    obtain ⟨first, old⟩ := entry
    by_cases hk : first = key
    · subst hk
      rw [insert_cons_ne hne, insert_cons_self, insert_cons_self, insert_cons_ne hne]
    · have later : key ∈ rest.map Prod.fst := by
        rcases List.mem_cons.mp h with heq | later
        · exact absurd heq.symm hk
        · exact later
      by_cases ho : first = other
      · subst ho
        rw [insert_cons_self, insert_cons_ne hk, insert_cons_ne hk, insert_cons_self]
      · rw [insert_cons_ne ho, insert_cons_ne hk, insert_cons_ne hk, insert_cons_ne ho, ih later]

theorem insertAll_insert_of_mem (hn : key ∉ entries.map Prod.fst) (hm : key ∈ done.map Prod.fst)
    (value : ν) :
    insertAll entries (insert key value done) = insert key value (insertAll entries done) := by
  induction entries generalizing done with
  | nil => rfl
  | cons entry rest ih =>
    rw [List.map_cons, List.mem_cons, not_or] at hn
    have first := insert_comm_of_mem hm hn.1 value entry.2
    calc insertAll (entry :: rest) (insert key value done)
        = insertAll rest (insert key value (insert entry.1 entry.2 done)) := by
          rw [first]
          rfl
      _ = insert key value (insertAll (entry :: rest) done) := ih hn.2 (mem_keys_insert hm)

/-- Inserting an entry into a map that is to be inserted is inserting it afterwards. -/
theorem insertAll_insert (h : (entries.map Prod.fst).Nodup) (key : κ) (value : ν)
    (done : List (κ × ν)) :
    insertAll (insert key value entries) done = insert key value (insertAll entries done) := by
  induction entries generalizing done with
  | nil => rfl
  | cons entry rest ih =>
    obtain ⟨first, old⟩ := entry
    rw [List.map_cons, List.nodup_cons] at h
    by_cases hk : first = key
    · subst hk
      rw [insert_cons_self]
      calc insertAll rest (insert first value done)
          = insertAll rest (insert first value (insert first old done)) := by
            rw [insert_insert_self]
        _ = insert first value (insertAll rest (insert first old done)) :=
            insertAll_insert_of_mem h.1 (mem_keys_insert_self first old done) value
    · rw [insert_cons_ne hk]
      exact ih h.2 (insert first old done)

/-- Entries with keys of their own are appended. -/
theorem insertAll_eq_append (h : ((done ++ entries).map Prod.fst).Nodup) :
    insertAll entries done = done ++ entries := by
  induction entries generalizing done with
  | nil => exact (List.append_nil done).symm
  | cons entry rest ih =>
    have absent : entry.1 ∉ done.map Prod.fst := by
      rw [List.map_append, List.map_cons, List.nodup_append] at h
      intro hm
      exact h.2.2 _ hm _ (List.mem_cons_self) rfl
    rw [List.append_cons] at h
    calc insertAll (entry :: rest) done
        = insertAll rest (done ++ [entry]) := congrArg (insertAll rest) (insert_of_not_mem absent entry.2)
      _ = done ++ entry :: rest := by rw [ih h, List.append_assoc, List.singleton_append]

omit [LawfulBEq κ] in
theorem ofList_concat (entries : List (κ × ν)) (entry : κ × ν) :
    ofList (entries ++ [entry]) = insert entry.1 entry.2 (ofList entries) := by
  simp [ofList]

/-- The keys are in order of their first insertion. -/
theorem keys_ofList (entries : List (κ × ν)) :
    (ofList entries).map Prod.fst = (entries.map Prod.fst).eraseDups := by
  induction entries using List.reverseRecOn with
  | nil => rfl
  | append_singleton entries entry ih =>
    have absent : (get? entry.1 (ofList entries)).isNone =
        !List.elem entry.1 (entries.map Prod.fst) := by
      rw [Bool.eq_iff_iff, get?_isNone_iff, ih, List.mem_eraseDups, Bool.not_eq_true', ← List.elem_iff,
        Bool.not_eq_true]
    rw [ofList_concat, insert, keys_alter, ih, List.map_append, List.eraseDups_append, absent,
      List.map_singleton, List.removeAll, List.filter_singleton]
    cases List.elem entry.1 (entries.map Prod.fst) <;> rfl

/-- A key holds what was inserted last. -/
theorem get?_ofList (key : κ) (entries : List (κ × ν)) :
    get? key (ofList entries) = (entries.findRev? fun entry => entry.1 == key).map Prod.snd := by
  rw [List.findRev?_eq_find?_reverse]
  induction entries using List.reverseRecOn with
  | nil => rfl
  | append_singleton entries entry ih =>
    rw [ofList_concat, insert, List.reverse_concat, List.find?_cons]
    by_cases same : entry.1 = key
    · subst same
      rw [get?_alter_self (by simp)]
      cases get? entry.1 (ofList entries) <;> simp
    · have other : (entry.1 == key) = false := by simpa using same
      rw [get?_alter_other other, ih, other]
      intro entry he found
      simp_all

theorem get?_ofList_map {α : Type} (key : κ) (entryOf : α → κ × ν) (items : List α) :
    get? key (ofList (items.map entryOf)) =
      (items.findRev? fun item => (entryOf item).1 == key).map fun item => (entryOf item).2 := by
  rw [get?_ofList, List.findRev?_eq_find?_reverse, ← List.map_reverse, List.find?_map,
    Option.map_map, List.findRev?_eq_find?_reverse]
  rfl

end Ordered

/-- A finite map in the order in which its keys were inserted. -/
@[ext]
structure OrderedMap (κ ν : Type) where
  entries : List (κ × ν)
  distinct : (entries.map Prod.fst).Nodup

namespace OrderedMap

variable {κ ν : Type} [DecidableEq κ]

def empty : OrderedMap κ ν := ⟨[], List.nodup_nil⟩

def insert (map : OrderedMap κ ν) (entry : κ × ν) : OrderedMap κ ν :=
  ⟨Ordered.insert entry.1 entry.2 map.entries, Ordered.nodup_insert map.distinct⟩

/-- Inserts the entries of another map, which win. -/
def merge (map other : OrderedMap κ ν) : OrderedMap κ ν :=
  other.entries.foldl insert map

theorem entries_foldl_insert (entries : List (κ × ν)) (map : OrderedMap κ ν) :
    (entries.foldl insert map).entries = Ordered.insertAll entries map.entries := by
  induction entries generalizing map with
  | nil => rfl
  | cons entry rest ih => exact ih (map.insert entry)

theorem merge_empty (map : OrderedMap κ ν) : map.merge empty = map := rfl

theorem empty_merge (map : OrderedMap κ ν) : empty.merge map = map := by
  apply OrderedMap.ext
  rw [merge, entries_foldl_insert]
  exact Ordered.insertAll_eq_append map.distinct

theorem merge_insert (map other : OrderedMap κ ν) (entry : κ × ν) :
    map.merge (other.insert entry) = (map.merge other).insert entry := by
  apply OrderedMap.ext
  simp only [merge, insert, entries_foldl_insert]
  exact Ordered.insertAll_insert other.distinct entry.1 entry.2 map.entries

end OrderedMap

end TwigComponent
