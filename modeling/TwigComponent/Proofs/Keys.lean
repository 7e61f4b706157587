import Mathlib.Data.List.Forall2
import TwigComponent.Yaml.Reader

/-!
# Keys of mappings

Two values are the same key regardless of the order of the mappings inside them,
so being the same key is weaker than equality. It is reflexive and transitive on
all values. It is symmetric only where mappings have distinct keys: the entries
of one mapping are looked up in the other, and the count of the entries then
leaves none of the other's out. Values that are read from a text have distinct
keys everywhere, so on them it is an equivalence.
-/
namespace TwigComponent.Yaml

theorem sizeOf_entry {entries : List (Yaml × Yaml)} {entry : Yaml × Yaml} (h : entry ∈ entries) :
    sizeOf entry.1 < sizeOf (Yaml.map entries) ∧ sizeOf entry.2 < sizeOf (Yaml.map entries) := by
  have inside := List.sizeOf_lt_of_mem h
  have whole : sizeOf (Yaml.map entries) = 1 + sizeOf entries := by simp
  have pair : sizeOf entry = 1 + sizeOf entry.1 + sizeOf entry.2 := by
    obtain ⟨key, value⟩ := entry
    simp
  omega

/-- Induction over values, with the keys and the values of a mapping apart. -/
theorem induction {motive : Yaml → Prop} (null : motive .null) (bool : ∀ value, motive (.bool value))
    (num : ∀ value, motive (.num value)) (str : ∀ value, motive (.str value))
    (seq : ∀ items, (∀ item ∈ items, motive item) → motive (.seq items))
    (map : ∀ entries, (∀ entry ∈ entries, motive entry.1) → (∀ entry ∈ entries, motive entry.2) →
      motive (.map entries))
    (tagged : ∀ name value, motive value → motive (.tagged name value)) (value : Yaml) :
    motive value := by
  suffices bounded : ∀ n (value : Yaml), sizeOf value < n → motive value from
    bounded _ value (Nat.lt_succ_self _)
  intro n
  induction n with
  | zero => intro value hn; omega
  | succ n ih =>
    intro value hn
    cases value with
    | null => exact null
    | bool value => exact bool value
    | num value => exact num value
    | str value => exact str value
    | seq items =>
      rw [Yaml.seq.sizeOf_spec] at hn
      apply seq
      intro item hi
      have := List.sizeOf_lt_of_mem hi
      exact ih item (by omega)
    | map entries =>
      apply map
      · intro entry he
        have := (sizeOf_entry he).1
        exact ih entry.1 (by omega)
      · intro entry he
        have := (sizeOf_entry he).2
        exact ih entry.2 (by omega)
    | tagged name value =>
      rw [Yaml.tagged.sizeOf_spec] at hn
      exact tagged name value (ih value (by omega))

theorem beq_eq_same (x y : Yaml) : (x == y) = same x y := rfl

theorem Number.same_refl (x : Number) : x.same x = true := by
  cases x <;> simp [Number.same]

/-- Two numbers are the same if they are equal or both are floating-point zeros. -/
theorem Number.same_iff (x y : Number) :
    x.same y = true ↔ x = y ∨
      ∃ a b, x = .float a ∧ y = .float b ∧ a.isZero = true ∧ b.isZero = true := by
  cases x <;> cases y <;> simp [Number.same]

theorem Number.same_symm {x y : Number} (h : x.same y = true) : y.same x = true := by
  rw [Number.same_iff] at h ⊢
  obtain rfl | ⟨a, b, rfl, rfl, ha, hb⟩ := h
  · exact .inl rfl
  · exact .inr ⟨b, a, rfl, rfl, hb, ha⟩

theorem Number.same_trans {x y z : Number} (h : x.same y = true) (k : y.same z = true) :
    x.same z = true := by
  rw [Number.same_iff] at h k ⊢
  obtain rfl | ⟨a, b, rfl, rfl, ha, hb⟩ := h
  · exact k
  · obtain rfl | ⟨b', c, hb', rfl, -, hc⟩ := k
    · exact .inr ⟨a, b, rfl, rfl, ha, hb⟩
    · exact .inr ⟨a, c, rfl, rfl, ha, hc⟩

section Sameness

attribute [local simp] same sameItems sameEntries

theorem sameItems_iff (xs ys : List Yaml) :
    sameItems xs ys = true ↔ List.Forall₂ (fun x y => same x y = true) xs ys := by
  induction xs generalizing ys with
  | nil => cases ys <;> simp
  | cons x xs ih => cases ys <;> simp [ih]

theorem sameEntries_iff (xs ys : List (Yaml × Yaml)) :
    sameEntries xs ys = true ↔
      ∀ x ∈ xs, ∃ y ∈ ys, same x.1 y.1 = true ∧ same x.2 y.2 = true := by
  induction xs with
  | nil => simp
  | cons x xs ih =>
    obtain ⟨key, value⟩ := x
    simp [ih]

theorem same_map_iff (xs ys : List (Yaml × Yaml)) :
    same (.map xs) (.map ys) = true ↔ xs.length = ys.length ∧
      ∀ x ∈ xs, ∃ y ∈ ys, same x.1 y.1 = true ∧ same x.2 y.2 = true := by
  simp [sameEntries_iff]

@[simp] theorem same_str_left (text : String) (y : Yaml) :
    same (.str text) y = true ↔ y = .str text := by
  cases y <;> simp only [same, beq_iff_eq, Yaml.str.injEq, reduceCtorEq, Bool.false_eq_true]
  exact eq_comm

@[simp] theorem same_str_right (x : Yaml) (text : String) :
    same x (.str text) = true ↔ x = .str text := by
  cases x <;> simp

theorem same_refl (x : Yaml) : same x x = true := by
  induction x using Yaml.induction with
  | null => rfl
  | bool value => simp
  | num value => simp [Number.same_refl]
  | str value => simp
  | seq items ih =>
    rw [same, sameItems_iff, List.forall₂_same]
    exact ih
  | map entries hk hv =>
    rw [same_map_iff]
    exact ⟨rfl, fun entry he => ⟨entry, he, hk entry he, hv entry he⟩⟩
  | tagged name value ih => simp [ih]

theorem same_trans {x y z : Yaml} (h : same x y = true) (k : same y z = true) :
    same x z = true := by
  induction x using Yaml.induction generalizing y z with
  | null => cases y <;> simp_all
  | bool value => cases y <;> cases z <;> simp_all
  | num value =>
    match y, z, h, k with
    | .num b, .num c, h, k =>
      simp only [same] at h k ⊢
      exact Number.same_trans h k
  | str value =>
    rw [same_str_left] at h
    exact h ▸ k
  | seq xs ih =>
    match y, z, h, k with
    | .seq ys, .seq zs, h, k =>
      rw [same, sameItems_iff] at h k ⊢
      clear * - ih h k
      induction h generalizing zs with
      | nil => exact k
      | @cons x y xs ys hxy _ rest =>
        cases k with
        | cons hyz k =>
          have later := rest (fun item hi => ih item (List.mem_cons_of_mem _ hi)) _ k
          exact .cons (ih x (by simp) hxy hyz) later
  | map xs hk hv =>
    match y, z, h, k with
    | .map ys, .map zs, h, k =>
      rw [same_map_iff] at h k ⊢
      refine ⟨h.1.trans k.1, fun x hx => ?_⟩
      obtain ⟨y, hy, keys, values⟩ := h.2 x hx
      obtain ⟨z, hz, keys', values'⟩ := k.2 y hy
      exact ⟨z, hz, hk x hx keys keys', hv x hx values values'⟩
  | tagged name x ih =>
    match y, z, h, k with
    | .tagged _ y, .tagged _ z, h, k =>
      simp only [same, Bool.and_eq_true, beq_iff_eq] at h k ⊢
      exact ⟨h.1.trans k.1, ih h.2 k.2⟩

end Sameness

mutual

/-- Whether no mapping in a value has the same key twice, those inside keys included. -/
def hasDistinctKeys : Yaml → Bool
  | .seq items => itemsDistinct items
  | .map entries => distinctKeys entries && entriesDistinct entries
  | .tagged _ value => hasDistinctKeys value
  | _ => true

def itemsDistinct : List Yaml → Bool
  | [] => true
  | item :: rest => hasDistinctKeys item && itemsDistinct rest

def entriesDistinct : List (Yaml × Yaml) → Bool
  | [] => true
  | (key, value) :: rest => hasDistinctKeys key && hasDistinctKeys value && entriesDistinct rest

end

theorem itemsDistinct_iff (items : List Yaml) :
    itemsDistinct items = true ↔ ∀ item ∈ items, item.hasDistinctKeys = true := by
  induction items with
  | nil => simp [itemsDistinct]
  | cons item rest ih => simp [itemsDistinct, ih]

theorem entriesDistinct_iff (entries : List (Yaml × Yaml)) :
    entriesDistinct entries = true ↔
      ∀ entry ∈ entries, entry.1.hasDistinctKeys = true ∧ entry.2.hasDistinctKeys = true := by
  induction entries with
  | nil => simp [entriesDistinct]
  | cons entry rest ih =>
    obtain ⟨key, value⟩ := entry
    simp [entriesDistinct, ih]

theorem distinctKeys_iff (entries : List (Yaml × Yaml)) :
    distinctKeys entries = true ↔
      entries.Pairwise fun earlier later => same later.1 earlier.1 = false := by
  induction entries with
  | nil => simp [distinctKeys]
  | cons entry rest ih =>
    obtain ⟨key, value⟩ := entry
    simp [distinctKeys, ih, beq_eq_same]

theorem hasDistinctKeys_map_iff (entries : List (Yaml × Yaml)) :
    (Yaml.map entries).hasDistinctKeys = true ↔
      (entries.Pairwise fun earlier later => same later.1 earlier.1 = false) ∧
        ∀ entry ∈ entries, entry.1.hasDistinctKeys = true ∧ entry.2.hasDistinctKeys = true := by
  rw [hasDistinctKeys, Bool.and_eq_true, distinctKeys_iff, entriesDistinct_iff]

/-- If the members of one list are related to members of another of the same length, and no two to
the same one, then no member of the other list is left out. -/
theorem covered_of_length_eq {α β : Type} {R : α → β → Prop} {xs : List α} {ys : List β}
    (hl : xs.length = ys.length) (h : ∀ x ∈ xs, ∃ y ∈ ys, R x y)
    (ha : xs.Pairwise fun a b => ∀ y ∈ ys, R a y → ¬ R b y) : ∀ y ∈ ys, ∃ x ∈ xs, R x y := by
  induction xs generalizing ys with
  | nil =>
    have none : ys = [] := List.length_eq_zero_iff.mp hl.symm
    simp [none]
  | cons x xs ih =>
    rw [List.pairwise_cons] at ha
    obtain ⟨y, hy, hxy⟩ := h x (by simp)
    -- The rest of the first list is related to the second without `y`.
    obtain ⟨before, after, rfl⟩ := List.append_of_mem hy
    have shorter : xs.length = (before ++ after).length := by
      simp at hl ⊢
      omega
    have others : ∀ a ∈ xs, ∃ b ∈ before ++ after, R a b := by
      intro a hin
      obtain ⟨b, hb, hab⟩ := h a (by simp [hin])
      have other : b ≠ y := by
        rintro rfl
        exact ha.1 a hin b hy hxy hab
      refine ⟨b, ?_, hab⟩
      simpa [other] using hb
    have apart : xs.Pairwise fun a b => ∀ z ∈ before ++ after, R a z → ¬ R b z := by
      refine ha.2.imp fun hab z hz => hab z ?_
      rw [List.mem_append] at hz
      rw [List.mem_append, List.mem_cons]
      tauto
    have rest := ih shorter others apart
    intro z hz
    by_cases hzy : z = y
    · exact ⟨x, by simp, hzy ▸ hxy⟩
    · obtain ⟨a, hin, haz⟩ := rest z (by simpa [hzy] using hz)
      exact ⟨a, by simp [hin], haz⟩

theorem same_symm {x y : Yaml} (hx : x.hasDistinctKeys = true) (h : same x y = true) :
    same y x = true := by
  induction x using Yaml.induction generalizing y with
  | null => cases y <;> simp_all [same]
  | bool value => cases y <;> simp_all [same]
  | num value =>
    match y, h with
    | .num b, h =>
      simp only [same] at h ⊢
      exact Number.same_symm h
  | str value =>
    rw [same_str_left] at h
    simp [h]
  | seq xs ih =>
    match y, h with
    | .seq ys, h =>
      rw [hasDistinctKeys, itemsDistinct_iff] at hx
      rw [same, sameItems_iff] at h ⊢
      clear * - ih hx h
      induction h with
      | nil => exact .nil
      | @cons a b as bs hab _ rest =>
        have later := rest (fun item hi => ih item (by simp [hi])) fun item hi => hx item (by simp [hi])
        exact .cons (ih a (by simp) (hx a (by simp)) hab) later
  | map xs hk hv =>
    match y, h with
    | .map ys, h =>
      rw [hasDistinctKeys_map_iff] at hx
      rw [same_map_iff] at h ⊢
      -- Two entries that are found under the same key have the same key.
      have apart : xs.Pairwise fun a b => ∀ y ∈ ys,
          (same a.1 y.1 = true ∧ same a.2 y.2 = true) →
            ¬ (same b.1 y.1 = true ∧ same b.2 y.2 = true) := by
        refine hx.1.imp_of_mem fun {a b} ha hb hab y hy hay hby => ?_
        have back := hk a ha (hx.2 a ha).1 hay.1
        rw [same_trans hby.1 back] at hab
        cases hab
      refine ⟨h.1.symm, fun y hy => ?_⟩
      obtain ⟨x, hin, keys, values⟩ := covered_of_length_eq h.1 h.2 apart y hy
      exact ⟨x, hin, hk x hin (hx.2 x hin).1 keys, hv x hin (hx.2 x hin).2 values⟩
  | tagged name x ih =>
    match y, h with
    | .tagged _ y, h =>
      rw [hasDistinctKeys] at hx
      simp only [same, Bool.and_eq_true, beq_iff_eq] at h ⊢
      exact ⟨h.1.symm, ih hx h.2⟩

/-- Two keys that one key is the same as are the same. -/
theorem same_of_same {x y z : Yaml} (hx : x.hasDistinctKeys = true) (h : same x y = true)
    (k : same x z = true) : same y z = true :=
  same_trans (same_symm hx h) k

section Reading

theorem hasDistinctKeys_plain {text : String} {value : Yaml} (h : Plain.value? text = some value) :
    value.hasDistinctKeys = true := by
  unfold Plain.value? at h
  split at h
  case h_3 => split at h <;> cases h; rfl
  all_goals cases h; rfl

theorem hasDistinctKeys_untagged {text : String} {plain : Bool} {value : Yaml}
    (h : untaggedScalar? text plain = some value) : value.hasDistinctKeys = true := by
  unfold untaggedScalar? at h
  split at h
  · exact hasDistinctKeys_plain h
  · cases h
    rfl

theorem hasDistinctKeys_core {tag : Tag} {text : String} {plain : Bool} {value : Yaml}
    (h : coreScalar? tag text plain = some value) : value.hasDistinctKeys = true := by
  unfold coreScalar? at h
  split at h
  · obtain ⟨flag, -, rfl⟩ := Option.map_eq_some_iff.mp h
    rfl
  · split at h
    · split at h <;> cases h
      rfl
    · cases h
  · obtain ⟨number, -, rfl⟩ := Option.map_eq_some_iff.mp h
    rfl
  · split at h <;> cases h
    rfl
  · split at h
    · exact hasDistinctKeys_untagged h
    · cases h
      rfl

theorem hasDistinctKeys_scalar {tag : Option Tag} {text : String} {plain : Bool} {value : Yaml}
    (h : scalarValue? tag text plain = some value) : value.hasDistinctKeys = true := by
  unfold scalarValue? at h
  split at h
  · exact hasDistinctKeys_untagged h
  · split at h
    · obtain ⟨inner, hi, rfl⟩ := Option.map_eq_some_iff.mp h
      rw [hasDistinctKeys]
      exact hasDistinctKeys_untagged hi
    · exact hasDistinctKeys_core h

theorem hasDistinctKeys_withTag {tag : Option Tag} {value : Yaml}
    (h : value.hasDistinctKeys = true) : (withTag tag value).hasDistinctKeys = true := by
  unfold withTag
  split
  · exact h
  · exact h

/-- Every value that a list yields is read from one of its members. -/
theorem mem_of_readEach {α β : Type} {read : α → Nat → Option (β × Nat)} {items : List α}
    {jumps after : Nat} {values : List β} (h : readEach read items jumps = some (values, after)) :
    ∀ value ∈ values, ∃ item ∈ items, ∃ before later, read item before = some (value, later) := by
  induction items generalizing jumps values with
  | nil =>
    cases h
    simp
  | cons item rest ih =>
    simp only [readEach, Option.bind_eq_bind, Option.bind_eq_some_iff] at h
    obtain ⟨⟨first, middle⟩, hf, ⟨others, last⟩, ho, heq⟩ := h
    cases heq
    intro value hv
    rcases List.mem_cons.mp hv with rfl | hv
    · exact ⟨item, by simp, jumps, middle, hf⟩
    · obtain ⟨source, hs, found⟩ := ih ho value hv
      exact ⟨source, by simp [hs], found⟩

theorem hasDistinctKeys_scalarNode {expansion : Expansion} {depth : Nat} {anchor : Option Nat}
    {tag : Option Tag} {text : String} {plain : Bool} {jumps after : Nat} {value : Yaml}
    (h : nodeValue? expansion depth (.scalar anchor tag text plain) jumps = some (value, after)) :
    value.hasDistinctKeys = true := by
  simp only [nodeValue?, Option.bind_eq_bind, Option.bind_eq_some_iff] at h
  obtain ⟨found, hf, heq⟩ := h
  cases heq
  exact hasDistinctKeys_scalar hf

theorem hasDistinctKeys_nodeValue {expansion : Expansion} {depth : Nat} {node : Node Nat}
    {jumps after : Nat} {value : Yaml}
    (h : nodeValue? expansion depth node jumps = some (value, after)) :
    value.hasDistinctKeys = true := by
  induction depth generalizing node jumps value after with
  | zero =>
    cases node with
    | scalar anchor tag text plain => exact hasDistinctKeys_scalarNode h
    | _ => simp [nodeValue?] at h
  | succ depth ih =>
    have followed : ∀ {inner : Node Nat} {before later : Nat} {found : Yaml},
        nodeValue?.followed expansion depth inner before = some (found, later) →
          found.hasDistinctKeys = true := by
      intro inner before later found hf
      simp only [nodeValue?.followed, Option.bind_eq_bind, Option.bind_eq_some_iff] at hf
      obtain ⟨target, -, hf⟩ := hf
      exact ih hf
    cases node with
    | scalar anchor tag text plain => exact hasDistinctKeys_scalarNode h
    | sequence anchor tag items =>
      simp only [nodeValue?, Option.bind_eq_bind, Option.bind_eq_some_iff] at h
      obtain ⟨⟨values, last⟩, hr, heq⟩ := h
      cases heq
      apply hasDistinctKeys_withTag
      rw [hasDistinctKeys, itemsDistinct_iff]
      intro item hi
      obtain ⟨source, -, before, later, hs⟩ := mem_of_readEach hr item hi
      exact followed hs
    | mapping anchor tag entries =>
      simp only [nodeValue?, Option.bind_eq_bind, Option.bind_eq_some_iff] at h
      obtain ⟨⟨values, last⟩, hr, heq⟩ := h
      split at heq
      · rename_i distinct
        cases heq
        apply hasDistinctKeys_withTag
        rw [hasDistinctKeys, Bool.and_eq_true, entriesDistinct_iff]
        refine ⟨distinct, fun entry he => ?_⟩
        obtain ⟨source, -, before, later, hs⟩ := mem_of_readEach hr entry he
        simp only [Option.bind_eq_some_iff] at hs
        obtain ⟨⟨key, middle⟩, hk, ⟨found, last⟩, hv, heq⟩ := hs
        cases heq
        exact ⟨followed hk, followed hv⟩
      · cases heq
    | _ => simp [nodeValue?] at h

/-- A document that is read from a text has distinct keys. -/
theorem hasDistinctKeys_ofText {text : String} {value : Yaml} (h : ofText? text = some value) :
    value.hasDistinctKeys = true := by
  simp only [ofText?] at h
  split at h
  · simp only [Option.bind_eq_bind, Option.bind_eq_some_iff] at h
    obtain ⟨tokens, -, found, -, h⟩ := h
    cases found with
    | none =>
      cases h
      rfl
    | some root =>
      simp only [rootValue?, Option.bind_eq_bind, Option.bind_eq_some_iff] at h
      obtain ⟨linked, -, ⟨read, jumps⟩, hr, heq⟩ := h
      cases heq
      exact hasDistinctKeys_nodeValue hr
  · cases h

end Reading

end TwigComponent.Yaml
