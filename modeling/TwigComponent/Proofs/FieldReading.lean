import Mathlib.Data.List.Forall2
import TwigComponent.Source.DocumentReader

/-!
# Reading fields

The readers of a document look at an object through its fields only. This module
says which fields a reader looks at, so that a change elsewhere in the object makes
no difference to it, and what each way of reading a field makes of the value that
stands there.
-/
namespace TwigComponent

namespace Json

/-- A step from a value to one that stands in it. -/
inductive Step where
  | field (key : String)
  | item (index : Nat)
deriving DecidableEq, Repr

/-- The value that a step leads to. -/
def at? : Step → Json → Option Json
  | .field key, json => json.get? key
  | .item index, .arr items => items[index]?
  | _, _ => none

/-- Puts a value in place of the one that a step leads to. -/
def put : Step → Json → Json → Json
  | .field key, .obj members, value =>
    .obj (members.map fun member => if member.1 = key then (key, value) else member)
  | .item index, .arr items, value => .arr (items.set index value)
  | _, json, _ => json

end Json

namespace Source

open Json

section Results

variable {ε α β : Type}

theorem bind_eq_ok_iff {first : Except ε α} {next : α → Except ε β} {result : β} :
    (first >>= next) = .ok result ↔ ∃ value, first = .ok value ∧ next value = .ok result := by
  cases first <;> simp [Bind.bind, Except.bind]

theorem pure_eq_ok_iff {value result : α} :
    (pure value : Except ε α) = .ok result ↔ value = result := by
  simp [pure, Except.pure]

theorem map_eq_ok_iff {attempt : Except ε α} {f : α → β} {result : β} :
    f <$> attempt = .ok result ↔ ∃ value, attempt = .ok value ∧ f value = result := by
  cases attempt <;> simp [Functor.map, Except.map]

theorem mapM_eq_ok_iff {read : α → Except ε β} {items : List α} {results : List β} :
    items.mapM read = .ok results ↔
      List.Forall₂ (fun item result => read item = .ok result) items results := by
  induction items generalizing results with
  | nil => cases results <;> simp [pure, Except.pure]
  | cons item rest ih =>
    rw [List.mapM_cons]
    simp only [bind_eq_ok_iff, pure_eq_ok_iff, List.forall₂_cons_left_iff]
    constructor
    · rintro ⟨value, hv, values, hr, rfl⟩
      exact ⟨value, values, hv, ih.mp hr, rfl⟩
    · rintro ⟨value, values, hv, hr, rfl⟩
      exact ⟨value, hv, values, ih.mpr hr, rfl⟩

theorem exists_getElem?_of_forall₂ {R : α → β → Prop} {items : List α} {results : List β}
    (h : List.Forall₂ R items results) {index : Nat} {item : α} (hi : items[index]? = some item) :
    ∃ result, results[index]? = some result ∧ R item result := by
  induction h generalizing index with
  | nil => simp at hi
  | @cons first result rest others hr _ ih =>
    cases index with
    | zero =>
      cases hi
      exact ⟨result, rfl, hr⟩
    | succ index => exact ih hi

theorem forall₂_set {R : α → β → Prop} {items : List α} {results : List β}
    (h : List.Forall₂ R items results) (index : Nat) {item : α} {result : β} (hr : R item result) :
    List.Forall₂ R (items.set index item) (results.set index result) := by
  induction h generalizing index with
  | nil => exact .nil
  | cons first _ ih =>
    cases index with
    | zero => exact .cons hr ‹_›
    | succ index => exact .cons first (ih index)

end Results

/-- The values written under a key. -/
def valuesUnder (key : String) : Json → Except LoadError (List Json)
  | .obj members =>
    .ok (members.filterMap fun member => if member.1 = key then some member.2 else none)
  | _ => .error (.mistyped "an object")

def atMostOne (key : String) : List Json → Except LoadError (Option Json)
  | [] => .ok none
  | [value] => .ok (some value)
  | _ => .error (.repeated key)

/-- The value of a field by itself. -/
def value? (json : Json) (key : String) : Except LoadError (Option Json) :=
  valuesUnder key json >>= atMostOne key

theorem map_fieldValues (key : String) (json : Json) :
    List.map Subtype.val <$> fieldValues key json = valuesUnder key json := by
  cases json with
  | obj members =>
    rw [fieldValues, valuesUnder]
    refine congrArg Except.ok ?_
    rw [List.map_filterMap]
    conv_rhs => rw [← List.attach_map_subtype_val members, List.filterMap_map]
    refine List.filterMap_congr fun member _ => ?_
    exact apply_ite (Option.map Subtype.val) _ _ _
  | _ => rfl

theorem map_field? (json : Json) (key : String) :
    Option.map Subtype.val <$> field? json key = value? json key := by
  rw [field?, value?, ← map_fieldValues]
  cases fieldValues key json with
  | error fault => rfl
  | ok found => rcases found with _ | ⟨first, _ | ⟨second, rest⟩⟩ <;> rfl

/-- What is made of a field that is read. -/
theorem field?_bind {α : Type} {json : Json} {key : String}
    {next : Option (Inside json) → Except LoadError α} {plain : Option Json → Except LoadError α}
    (h : ∀ found, next found = plain (found.map Subtype.val)) :
    (field? json key >>= next) = value? json key >>= plain := by
  rw [← map_field?]
  cases field? json key with
  | error fault => rfl
  | ok found => exact h found

section Putting

variable {json value : Json} {key other : String}

/-- A field that can be read has the value that its step leads to. -/
theorem value?_eq_of_at? {found : Option Json} (h : value? json key = .ok found)
    (hv : json.at? (.field key) = some value) : value? json key = .ok (some value) := by
  cases json with
  | obj members =>
    have first : members.lookup key =
        (members.filterMap fun member => if member.1 = key then some member.2 else none).head? := by
      clear h hv
      induction members with
      | nil => rfl
      | cons member rest ih =>
        obtain ⟨name, inner⟩ := member
        by_cases hn : name = key
        · simp [hn]
        · have different : (key == name) = false := beq_eq_false_iff_ne.mpr (Ne.symm hn)
          simp [List.lookup_cons, hn, different, ih]
    rw [Json.at?, Json.get?, first] at hv
    rw [value?, valuesUnder] at h ⊢
    generalize List.filterMap _ members = values at h hv ⊢
    rcases values with _ | ⟨only, _ | ⟨second, rest⟩⟩
    · cases hv
    · cases hv
      rfl
    · cases h
  | _ => cases hv

theorem value?_put_self (h : value? json key = .ok (some value)) (new : Json) :
    value? (json.put (.field key) new) key = .ok (some new) := by
  cases json with
  | obj members =>
    have changed : (members.map fun member => if member.1 = key then (key, new) else member).filterMap
        (fun member => if member.1 = key then some member.2 else none) =
          (members.filterMap fun member => if member.1 = key then some member.2 else none).map
            fun _ => new := by
      rw [List.filterMap_map, List.map_filterMap]
      refine List.filterMap_congr fun member _ => ?_
      rw [Function.comp_apply]
      split <;> simp_all
    rw [value?, valuesUnder] at h
    rw [Json.put, value?, valuesUnder, changed]
    generalize List.filterMap _ members = values at h ⊢
    rcases values with _ | ⟨only, _ | ⟨second, rest⟩⟩
    · cases h
    · rfl
    · cases h
  | _ => cases h

theorem value?_put_ne (h : other ≠ key) (json new : Json) :
    value? (json.put (.field key) new) other = value? json other := by
  cases json with
  | obj members =>
    have same : (members.map fun member => if member.1 = key then (key, new) else member).filterMap
        (fun member => if member.1 = other then some member.2 else none) =
          members.filterMap fun member => if member.1 = other then some member.2 else none := by
      rw [List.filterMap_map]
      refine List.filterMap_congr fun member _ => ?_
      rw [Function.comp_apply]
      split
      · rename_i hm
        rw [if_neg (Ne.symm h), hm, if_neg (Ne.symm h)]
      · rfl
    rw [Json.put, value?, value?, valuesUnder, valuesUnder, same]
  | _ => rfl

end Putting

/-- A reader that looks at nothing but the fields with the keys given. -/
def ReadsOnly {α : Type} (keys : List String) (read : Json → Except LoadError α) : Prop :=
  ∀ json other, (∀ key ∈ keys, value? json key = value? other key) → read json = read other

namespace ReadsOnly

variable {α β : Type} {key : String} {keys others : List String}

theorem of_value? {read : Json → Except LoadError α} (plain : Option Json → Except LoadError α)
    (h : ∀ json, read json = value? json key >>= plain) : ReadsOnly [key] read := by
  intro json other same
  rw [h, h, same key List.mem_cons_self]

theorem bind {first : Json → Except LoadError α} {next : α → Json → Except LoadError β}
    (hf : ReadsOnly keys first) (hn : ∀ value, ReadsOnly others (next value)) :
    ReadsOnly (keys ++ others) fun json => first json >>= fun value => next value json := by
  intro json other same
  dsimp only
  rw [hf json other fun key hk => same key (List.mem_append_left _ hk)]
  congr 1
  funext value
  exact hn value json other fun key hk => same key (List.mem_append_right _ hk)

theorem constant (result : Except LoadError α) : ReadsOnly [] fun _ => result :=
  fun _ _ _ => rfl

/-- A change under another key makes no difference. -/
theorem put {read : Json → Except LoadError α} (h : ReadsOnly keys read) (hk : key ∉ keys)
    (json new : Json) : read (json.put (.field key) new) = read json := by
  refine h _ _ fun other ho => value?_put_ne ?_ json new
  rintro rfl
  exact hk ho

end ReadsOnly

section Combinators

variable {α : Type} (read : Json → Except LoadError α) (key : String)

/-- Reads the value of a field that has to be there. -/
def readField (json : Json) : Except LoadError α := do
  read (← field json key).1

/-- Reads the value of a field, if it is there. -/
def readOptional (json : Json) : Except LoadError (Option α) := do
  (← field? json key).mapM fun value => read value.1

/-- Reads the value of a field, if it is there and not null. -/
def readNullable (json : Json) : Except LoadError (Option α) := do
  (← nullable json key).mapM fun value => read value.1

/-- Reads every item of a list. -/
def readEach (json : Json) : Except LoadError (List α) := do
  (← itemsOf json).mapM fun item => read item.1

/-- Reads every item of a list field, none if it is not there. -/
def readItems (json : Json) : Except LoadError (List α) := do
  (← items json key).mapM fun item => read item.1

theorem readField_eq (json : Json) :
    readField read key json = value? json key >>= fun found =>
      match found with
      | some value => read value
      | none => .error (.missing key) := by
  rw [readField, field, bind_assoc]
  apply field?_bind
  rintro (_ | value) <;> rfl

theorem readOptional_eq (json : Json) :
    readOptional read key json = value? json key >>= fun found => found.mapM read := by
  apply field?_bind
  rintro (_ | value) <;> rfl

/-- Reads a value unless it is null or not there. -/
def readPresent : Option Json → Except LoadError (Option α)
  | some .null => .ok none
  | found => found.mapM read

theorem readNullable_eq (json : Json) :
    readNullable read key json = value? json key >>= readPresent read := by
  rw [readNullable, nullable, bind_assoc]
  apply field?_bind
  rintro (_ | ⟨value, h⟩)
  · rfl
  · cases value <;> rfl

theorem readItems_eq (json : Json) :
    readItems read key json = value? json key >>= fun found =>
      match found with
      | some list => readEach read list
      | none => .ok [] := by
  rw [readItems, items, bind_assoc]
  apply field?_bind
  rintro (_ | list)
  · rfl
  · change ((itemsOf list.1 >>= fun found => pure (found.map (Inside.trans list))) >>= _) = _
    rw [bind_assoc]
    refine bind_congr fun found => ?_
    rw [pure_bind, List.mapM_map]
    rfl

theorem readEach_arr (list : List Json) : readEach read (.arr list) = list.mapM read := by
  rw [readEach, itemsOf]
  change (list.attach.map _).mapM _ = _
  rw [List.mapM_map]
  conv_rhs => rw [← List.attach_map_subtype_val list, List.mapM_map]
  rfl

theorem readsOnly_field : ReadsOnly [key] (readField read key) :=
  .of_value? _ (readField_eq read key)

theorem readsOnly_optional : ReadsOnly [key] (readOptional read key) :=
  .of_value? _ (readOptional_eq read key)

theorem readsOnly_nullable : ReadsOnly [key] (readNullable read key) :=
  .of_value? _ (readNullable_eq read key)

theorem readsOnly_items : ReadsOnly [key] (readItems read key) :=
  .of_value? _ (readItems_eq read key)

end Combinators

section Texts

theorem readsOnly_text (key : String) : ReadsOnly [key] fun json => text json key :=
  readsOnly_field textOf key

theorem readsOnly_textOrEmpty (key : String) : ReadsOnly [key] fun json => textOrEmpty json key := by
  refine .of_value? (fun found => (found.map textOf).getD (.ok "")) fun json => field?_bind ?_
  rintro (_ | value) <;> rfl

theorem readsOnly_nullableText (key : String) : ReadsOnly [key] fun json => nullableText json key := by
  have same : ∀ json, nullableText json key = readNullable textOf key json := by
    intro json
    refine bind_congr fun found => ?_
    cases found <;> rfl
  intro json other agree
  dsimp only
  rw [same, same]
  exact readsOnly_nullable textOf key json other agree

/-- A flag by its value. -/
def flagOf : Option Json → Except LoadError Bool
  | some (.bool value) => .ok value
  | some _ => .error (.mistyped "a boolean")
  | none => .ok false

theorem readsOnly_flag (key : String) : ReadsOnly [key] fun json => flag json key := by
  refine .of_value? flagOf fun json => field?_bind ?_
  rintro (_ | ⟨value, h⟩)
  · rfl
  · cases value <;> rfl

theorem readsOnly_offset (key : String) : ReadsOnly [key] fun json => offset json key := by
  refine .of_value? (fun found => (found.map offsetOf).getD (.ok 0)) fun json => field?_bind ?_
  rintro (_ | value) <;> rfl

theorem readsOnly_span : ReadsOnly ["start", "end"] readSpan :=
  (readsOnly_offset "start").bind fun _ => (readsOnly_offset "end").bind fun _ => .constant _

theorem readsOnly_expression : ReadsOnly ["expression"] readExpression :=
  readsOnly_field (readExpr .inner) "expression"

/-- The kind of an object is read from its type. -/
theorem kindOf_put {key : String} (hk : key ≠ "type") (standing : Standing) (kinds : List String)
    (json new : Json) : kindOf standing kinds (json.put (.field key) new) = kindOf standing kinds json := by
  cases json with
  | obj members =>
    exact (readsOnly_field (kindName standing kinds) "type").put (by simpa using hk) (.obj members) new
  | _ => rfl

end Texts

section Carrying

variable {α : Type} {read : Json → Except LoadError α} {json value : Json} {key : String}

theorem value?_of_bind {plain : Option Json → Except LoadError α} {result : α}
    (h : (value? json key >>= plain) = .ok result) (hv : json.at? (.field key) = some value) :
    value? json key = .ok (some value) := by
  obtain ⟨found, hf, -⟩ := bind_eq_ok_iff.mp h
  exact value?_eq_of_at? hf hv

/-- A field that has to be there, before and after a change of its value. -/
theorem readField_carries {result : α} (h : readField read key json = .ok result)
    (hv : json.at? (.field key) = some value) :
    read value = .ok result ∧
      ∀ new, readField read key (json.put (.field key) new) = read new := by
  rw [readField_eq] at h
  have present := value?_of_bind h hv
  rw [present] at h
  refine ⟨h, fun new => ?_⟩
  rw [readField_eq, value?_put_self present]
  rfl

theorem readOptional_carries {result : Option α} (h : readOptional read key json = .ok result)
    (hv : json.at? (.field key) = some value) :
    (∃ inner, result = some inner ∧ read value = .ok inner) ∧
      ∀ new, readOptional read key (json.put (.field key) new) = some <$> read new := by
  rw [readOptional_eq] at h
  have present := value?_of_bind h hv
  rw [present] at h
  obtain ⟨inner, hr, hi⟩ := map_eq_ok_iff.mp h
  refine ⟨⟨inner, hi.symm, hr⟩, fun new => ?_⟩
  rw [readOptional_eq, value?_put_self present]
  rfl

theorem readNullable_carries {result : Option α} (h : readNullable read key json = .ok result)
    (hv : json.at? (.field key) = some value) (hn : value ≠ .null) :
    (∃ inner, result = some inner ∧ read value = .ok inner) ∧
      ∀ new, new ≠ .null → readNullable read key (json.put (.field key) new) = some <$> read new := by
  rw [readNullable_eq] at h
  have present := value?_of_bind h hv
  have given : ∀ new : Json, new ≠ .null → readPresent read (some new) = some <$> read new := by
    intro new hne
    cases new with
    | null => exact absurd rfl hne
    | _ => rfl
  rw [present] at h
  obtain ⟨inner, hr, hi⟩ := map_eq_ok_iff.mp ((given value hn).symm.trans h)
  refine ⟨⟨inner, hi.symm, hr⟩, fun new hne => ?_⟩
  rw [readNullable_eq, value?_put_self present]
  exact given new hne

theorem readItems_carries {results : List α} (h : readItems read key json = .ok results)
    (hv : json.at? (.field key) = some value) :
    readEach read value = .ok results ∧
      ∀ new, readItems read key (json.put (.field key) new) = readEach read new := by
  rw [readItems_eq] at h
  have present := value?_of_bind h hv
  rw [present] at h
  refine ⟨h, fun new => ?_⟩
  rw [readItems_eq, value?_put_self present]
  rfl

/-- An item of a list, before and after a change of its value. -/
theorem readEach_carries {index : Nat} {results : List α} (h : readEach read json = .ok results)
    (hv : json.at? (.item index) = some value) :
    (∃ result, results[index]? = some result ∧ read value = .ok result) ∧
      ∀ new result, read new = .ok result →
        readEach read (json.put (.item index) new) = .ok (results.set index result) := by
  cases json with
  | arr items =>
    change items[index]? = some value at hv
    rw [readEach_arr, mapM_eq_ok_iff] at h
    refine ⟨exists_getElem?_of_forall₂ h hv, fun new result hr => ?_⟩
    change readEach read (.arr (items.set index new)) = _
    rw [readEach_arr, mapM_eq_ok_iff]
    exact forall₂_set h index hr
  | _ => cases hv

end Carrying

end Source

end TwigComponent
