import TwigComponent.Text.Lines
import TwigComponent.Text.Span

/-!
# Lookups in a line index

On the way through a text the line of the next offset starts where the line of this
one does, unless the byte between them is a newline. So the starts up to an offset
are those of the bytes before it: there is one for each newline, and the last of
them is where the line of the offset starts. The line and the start give the offset
back, and the order of positions is the order of offsets.

The starts increase, so a bisection finds the last one up to an offset. It is done
here in words of 32 bits, with a fault wherever a number is no word, a difference
is negative or an entry does not exist. For a text of less than 2^32 - 1 bytes it
has no fault and the same result.
-/
namespace TwigComponent.Text

/-- The byte that ends a line. -/
def newline : UInt8 := 10

/-- The line of an offset starts right after the last newline before the offset, or with the text. -/
structure IsLineStart (bs : List UInt8) (offset start : Nat) : Prop where
  le : start ≤ offset
  opens : start = 0 ∨ ∃ i, start = i + 1 ∧ bs[i]? = some newline
  unbroken : ∀ i, start ≤ i → i < offset → bs[i]? ≠ some newline

/-- The position of an offset, counted from the beginning of the text and of its line. -/
structure IsPosition (bs : List UInt8) (offset : Nat) (position : Position) : Prop where
  line : position.line = (bs.take offset).count newline
  column : ∃ start, IsLineStart bs offset start ∧ start + position.column = offset

/-- Positions are ordered by their lines, and in one line by their columns. -/
def Position.Before (p q : Position) : Prop :=
  p.line < q.line ∨ p.line = q.line ∧ p.column < q.column

section Starts

variable {first : Nat} {bs : List UInt8}

theorem startsFrom_cons (first : Nat) (b : UInt8) (bs : List UInt8) :
    startsFrom first (b :: bs) =
      if b = newline then (first + 1) :: startsFrom (first + 1) bs else startsFrom (first + 1) bs :=
  rfl

theorem startsFrom_append (first : Nat) (bs cs : List UInt8) :
    startsFrom first (bs ++ cs) = startsFrom first bs ++ startsFrom (first + bs.length) cs := by
  induction bs generalizing first with
  | nil => rfl
  | cons b bs ih =>
    have shift : first + 1 + bs.length = first + (bs.length + 1) := by omega
    rw [List.cons_append, startsFrom_cons, startsFrom_cons, ih, shift, List.length_cons]
    split <;> rfl

theorem length_startsFrom (first : Nat) (bs : List UInt8) :
    (startsFrom first bs).length = bs.count newline := by
  induction bs generalizing first with
  | nil => rfl
  | cons b bs ih =>
    rw [startsFrom_cons, List.count_cons, ← ih (first + 1)]
    by_cases hb : b = newline <;> simp [hb]

theorem range_of_mem_startsFrom {start : Nat} (h : start ∈ startsFrom first bs) :
    first < start ∧ start ≤ first + bs.length := by
  induction bs generalizing first with
  | nil => cases h
  | cons b bs ih =>
    have later : start ∈ startsFrom (first + 1) bs →
        first < start ∧ start ≤ first + (bs.length + 1) := by
      intro found
      have range := ih found
      omega
    rw [startsFrom_cons] at h
    rw [List.length_cons]
    split at h
    · rcases List.mem_cons.mp h with rfl | found
      · omega
      · exact later found
    · exact later h

theorem startsFrom_increasing (first : Nat) (bs : List UInt8) :
    (startsFrom first bs).Pairwise (· < ·) := by
  induction bs generalizing first with
  | nil => exact .nil
  | cons b bs ih =>
    rw [startsFrom_cons]
    split
    · exact .cons (fun start h => (range_of_mem_startsFrom h).1) (ih (first + 1))
    · exact ih (first + 1)

/-- In an increasing list the entries up to a bound are the first ones. -/
theorem le_iff_of_increasing {list : List Nat} (h : list.Pairwise (· < ·)) (bound : Nat) {i entry : Nat}
    (hi : list[i]? = some entry) : entry ≤ bound ↔ i < (list.takeWhile (· ≤ bound)).length := by
  induction list generalizing i with
  | nil => cases hi
  | cons first rest ih =>
    rw [List.pairwise_cons] at h
    rw [List.takeWhile_cons]
    split
    · rename_i low
      cases i with
      | zero =>
        rw [List.getElem?_cons_zero, Option.some_inj] at hi
        simpa [hi] using low
      | succ i => simpa using ih h.2 hi
    · rename_i high
      have above : bound < first := by simpa using high
      have least : first ≤ entry := by
        rcases List.mem_cons.mp (List.mem_of_getElem? hi) with rfl | later
        · exact Nat.le_refl entry
        · exact Nat.le_of_lt (h.1 entry later)
      exact ⟨fun low => by omega, fun none => absurd none (Nat.not_lt_zero i)⟩

end Starts

section LineStart

/-- Where the line of an offset starts. -/
def lineStart (bs : List UInt8) (offset : Nat) : Nat := (startsFrom 0 (bs.take offset)).getLastD 0

variable {bs : List UInt8} {offset : Nat}

/-- One more byte is one more start if it is a newline. -/
theorem startsFrom_take_succ {b : UInt8} (hb : bs[offset]? = some b) :
    startsFrom 0 (bs.take (offset + 1)) =
      startsFrom 0 (bs.take offset) ++ if b = newline then [offset + 1] else [] := by
  have inside : offset < bs.length := (List.getElem?_eq_some_iff.mp hb).1
  rw [List.take_add_one, hb, startsFrom_append, List.length_take_of_le (Nat.le_of_lt inside),
    Nat.zero_add]
  rfl

/-- The line starts are right at every offset up to the end of the text. -/
theorem isLineStart_lineStart (h : offset ≤ bs.length) :
    IsLineStart bs offset (lineStart bs offset) := by
  induction offset with
  | zero => exact ⟨Nat.le_refl 0, .inl rfl, fun i _ below => absurd below (Nat.not_lt_zero i)⟩
  | succ offset ih =>
    have before := ih (Nat.le_of_succ_le h)
    have byte : bs[offset]? = some bs[offset] := List.getElem?_eq_getElem h
    rw [lineStart, startsFrom_take_succ byte]
    split
    · rename_i ends
      rw [List.getLastD_concat]
      refine ⟨Nat.le_refl _, .inr ⟨offset, rfl, ends ▸ byte⟩, fun i since below => ?_⟩
      omega
    · rename_i goesOn
      rw [List.append_nil]
      refine ⟨Nat.le_succ_of_le before.le, before.opens, fun i since below => ?_⟩
      rcases Nat.lt_succ_iff_lt_or_eq.mp below with earlier | rfl
      · exact before.unbroken i since earlier
      · rw [byte, ne_eq, Option.some_inj]
        exact goesOn

end LineStart

namespace LineIndex

variable {text : String} {offset : Nat} {position : Position}

theorem length_bytes (text : String) : (bytes text).length = text.utf8ByteSize := rfl

theorem starts_increasing (text : String) : (ofText text).starts.Pairwise (· < ·) :=
  .cons (fun _ h => (range_of_mem_startsFrom h).1) (startsFrom_increasing 0 (bytes text))

theorem le_size_of_mem_starts {start : Nat} (h : start ∈ (ofText text).starts) :
    start ≤ text.utf8ByteSize := by
  rcases List.mem_cons.mp h with rfl | later
  · exact Nat.zero_le _
  · simpa [length_bytes] using (range_of_mem_startsFrom later).2

/-- The starts up to an offset are those that the bytes before it give. -/
theorem reached_eq (h : offset ≤ text.utf8ByteSize) :
    (ofText text).starts.takeWhile (· ≤ offset) = 0 :: startsFrom 0 ((bytes text).take offset) := by
  have size : ((bytes text).take offset).length = offset := List.length_take_of_le h
  have split : startsFrom 0 (bytes text) =
      startsFrom 0 ((bytes text).take offset) ++ startsFrom offset ((bytes text).drop offset) := by
    have parts := startsFrom_append 0 ((bytes text).take offset) ((bytes text).drop offset)
    rwa [List.take_append_drop, size, Nat.zero_add] at parts
  have low : ∀ start ∈ 0 :: startsFrom 0 ((bytes text).take offset),
      decide (start ≤ offset) = true := by
    intro start hs
    rw [decide_eq_true_eq]
    rcases List.mem_cons.mp hs with rfl | later
    · exact Nat.zero_le offset
    · simpa [size] using (range_of_mem_startsFrom later).2
  have high : (startsFrom offset ((bytes text).drop offset)).takeWhile (· ≤ offset) = [] := by
    cases later : startsFrom offset ((bytes text).drop offset) with
    | nil => rfl
    | cons start rest =>
      have above := (range_of_mem_startsFrom (later ▸ List.mem_cons_self)).1
      exact List.takeWhile_cons_of_neg (by simpa using above)
  change (0 :: startsFrom 0 (bytes text)).takeWhile _ = _
  rw [split, ← List.cons_append, List.takeWhile_append_of_pos low, high, List.append_nil]

theorem position?_eq_none_iff : (ofText text).position? offset = none ↔ text.utf8ByteSize < offset := by
  change (if text.utf8ByteSize < offset then none else _) = none ↔ _
  split <;> simp [*]

/-- The position of an offset by the bytes before it. -/
theorem position?_eq (h : offset ≤ text.utf8ByteSize) :
    (ofText text).position? offset =
      some ⟨((bytes text).take offset).count newline, offset - lineStart (bytes text) offset⟩ := by
  have inside : ¬ (ofText text).size < offset := Nat.not_lt.mpr h
  rw [position?, if_neg inside, reached_eq h]
  simp only [List.length_cons, length_startsFrom, Nat.add_sub_cancel, List.getLastD_cons, lineStart]

theorem le_size_of_position? (h : (ofText text).position? offset = some position) :
    offset ≤ text.utf8ByteSize := by
  rw [← Nat.not_lt, ← position?_eq_none_iff, h]
  exact Option.some_ne_none position

theorem line_of_position? (h : (ofText text).position? offset = some position) :
    position.line = ((bytes text).take offset).count newline := by
  rw [position?_eq (le_size_of_position? h), Option.some_inj] at h
  rw [← h]

theorem column_of_position? (h : (ofText text).position? offset = some position) :
    lineStart (bytes text) offset + position.column = offset := by
  have inside := le_size_of_position? h
  rw [position?_eq inside, Option.some_inj] at h
  rw [← h]
  exact Nat.add_sub_of_le (isLineStart_lineStart inside).le

/-- The lines are numbered by their starts. -/
theorem getElem?_starts (h : offset ≤ text.utf8ByteSize) :
    (ofText text).starts[((bytes text).take offset).count newline]? =
      some (lineStart (bytes text) offset) := by
  have last : (0 :: startsFrom 0 ((bytes text).take offset)).getLast? =
      some (lineStart (bytes text) offset) := by
    rw [List.getLast?_cons, lineStart, List.getLastD_eq_getLast?]
  rw [List.getLast?_eq_getElem?, List.length_cons, Nat.add_sub_cancel, ← reached_eq h] at last
  obtain ⟨later, starts⟩ := (ofText text).starts.takeWhile_prefix (· ≤ offset)
  have reached : (startsFrom 0 ((bytes text).take offset)).length <
      ((ofText text).starts.takeWhile (· ≤ offset)).length := by
    rw [reached_eq h, List.length_cons]
    exact Nat.lt_succ_self _
  rw [← length_startsFrom 0, ← last, ← List.getElem?_append_left reached, starts]

/-- The offset of a position: the start of its line and the distance to that start. -/
def offset? (index : LineIndex) (position : Position) : Option Nat :=
  index.starts[position.line]?.map (· + position.column)

/-- The offset can be read off its position. -/
theorem offset?_of_position? (h : (ofText text).position? offset = some position) :
    (ofText text).offset? position = some offset := by
  rw [offset?, line_of_position? h, getElem?_starts (le_size_of_position? h), Option.map_some,
    column_of_position? h]

theorem before_of_lt {a b : Nat} {p q : Position} (hp : (ofText text).position? a = some p)
    (hq : (ofText text).position? b = some q) (h : a < b) : p.Before q := by
  have lines : p.line ≤ q.line := by
    rw [line_of_position? hp, line_of_position? hq]
    exact (List.take_sublist_take_left (Nat.le_of_lt h)).count_le newline
  rcases Nat.lt_or_eq_of_le lines with above | same
  · exact .inl above
  · -- Two offsets of one line are as far apart as their columns.
    have first := offset?_of_position? hp
    have second := offset?_of_position? hq
    rw [offset?, Option.map_eq_some_iff] at first second
    obtain ⟨start, starts, rfl⟩ := first
    obtain ⟨start', starts', rfl⟩ := second
    rw [same, starts', Option.some_inj] at starts
    exact .inr ⟨same, by omega⟩

/-- Positions are in the order of their offsets. -/
theorem before_iff_lt {a b : Nat} {p q : Position} (hp : (ofText text).position? a = some p)
    (hq : (ofText text).position? b = some q) : p.Before q ↔ a < b := by
  refine ⟨fun h => ?_, before_of_lt hp hq⟩
  rcases Nat.lt_trichotomy a b with less | rfl | greater
  · exact less
  · rw [hp, Option.some_inj] at hq
    subst hq
    unfold Position.Before at h
    omega
  · have back := before_of_lt hq hp greater
    unfold Position.Before at h back
    omega

end LineIndex

section Words

/-- What can go wrong in a lookup with words. -/
inductive Fault where
  | overflow
  | underflow
  | outOfRange
deriving DecidableEq, Repr

/-- A number as a word of 32 bits. -/
def word (n : Nat) : Except Fault UInt32 :=
  if n < UInt32.size then .ok (.ofNat n) else .error .overflow

def minus (a b : Nat) : Except Fault Nat :=
  if b ≤ a then .ok (a - b) else .error .underflow

def entry (starts : Array UInt32) (i : Nat) : Except Fault UInt32 :=
  match starts[i]? with
  | some start => .ok start
  | none => .error .outOfRange

/-- A line index in words. -/
structure WordIndex where
  starts : Array UInt32
  size : UInt32

def LineIndex.toWords (index : LineIndex) : Except Fault WordIndex := do
  let starts ← index.starts.mapM word
  let size ← word index.size
  pure ⟨starts.toArray, size⟩

/-- The number of starts up to `offset`, if those before `low` are and those from `high` on are not. -/
def bisect (starts : Array UInt32) (offset : UInt32) (low high : Nat) : Except Fault Nat :=
  if low < high then do
    let middle := low + (high - low) / 2
    let start ← entry starts middle
    if start ≤ offset then bisect starts offset (middle + 1) high
    else bisect starts offset low middle
  else
    .ok low
termination_by high - low

def WordIndex.position? (index : WordIndex) (offset : UInt32) : Except Fault (Option Position) := do
  if index.size < offset then
    return none
  let reached ← bisect index.starts offset 0 index.starts.size
  let line ← minus reached 1
  let start ← entry index.starts line
  let column ← minus offset.toNat start.toNat
  return some ⟨(← word line).toNat, column⟩

theorem ok_bind {α β : Type} (a : α) (f : α → Except Fault β) : (Except.ok a >>= f) = f a := rfl

theorem word_of_lt {n : Nat} (h : n < UInt32.size) : word n = .ok (.ofNat n) := if_pos h

theorem minus_of_le {a b : Nat} (h : b ≤ a) : minus a b = .ok (a - b) := if_pos h

theorem entry_of_getElem? {starts : Array UInt32} {i : Nat} {start : UInt32}
    (h : starts[i]? = some start) : entry starts i = .ok start := by
  rw [entry, h]

theorem mapM_word {list : List Nat} (h : ∀ n ∈ list, n < UInt32.size) :
    list.mapM word = .ok (list.map UInt32.ofNat) := by
  induction list with
  | nil => rfl
  | cons n list ih =>
    rw [List.forall_mem_cons] at h
    rw [List.mapM_cons, word_of_lt h.1, ih h.2]
    rfl

/-- The bisection ends at the first start behind the offset, if no start up to the offset stands
behind one that is greater. -/
theorem bisect_eq {starts : Array UInt32} {offset : UInt32} {reached : Nat}
    (parted : ∀ i start, starts[i]? = some start → (start ≤ offset ↔ i < reached)) {low high : Nat}
    (hlow : low ≤ reached) (hhigh : reached ≤ high) (hsize : high ≤ starts.size) :
    bisect starts offset low high = .ok reached := by
  fun_induction bisect starts offset low high with
  | case1 low high range middle ih₁ ih₂ =>
    have inside : middle < starts.size := by omega
    have found : starts[middle]? = some starts[middle] := Array.getElem?_eq_getElem inside
    rw [entry_of_getElem? found, ok_bind]
    split
    · rename_i below
      exact ih₁ ((parted middle _ found).mp below) hhigh hsize
    · rename_i above
      have behind : reached ≤ middle := Nat.not_lt.mp fun h => above ((parted middle _ found).mpr h)
      exact ih₂ hlow behind (by omega)
  | case2 low high empty =>
    have same : low = reached := by omega
    rw [same]

/-- The words are the numbers of the index. -/
structure WordIndex.Holds (words : WordIndex) (index : LineIndex) : Prop where
  starts : words.starts.toList.map UInt32.toNat = index.starts
  size : words.size.toNat = index.size

namespace WordIndex.Holds

variable {words : WordIndex} {index : LineIndex}

theorem starts_size (h : words.Holds index) : words.starts.size = index.starts.length := by
  rw [← h.starts, List.length_map, Array.length_toList]

theorem getElem? (h : words.Holds index) (i : Nat) :
    index.starts[i]? = words.starts[i]?.map UInt32.toNat := by
  rw [← h.starts, List.getElem?_map, Array.getElem?_toList]

/-- The bisection of increasing starts counts those up to the offset. -/
theorem bisect_starts (h : words.Holds index) (increasing : index.starts.Pairwise (· < ·))
    (offset : UInt32) :
    bisect words.starts offset 0 words.starts.size =
      .ok (index.starts.takeWhile (· ≤ offset.toNat)).length := by
  refine bisect_eq (fun i start hi => ?_) (Nat.zero_le _) ?_ (Nat.le_refl _)
  · have found : index.starts[i]? = some start.toNat := by rw [h.getElem?, hi, Option.map_some]
    rw [UInt32.le_iff_toNat_le, le_iff_of_increasing increasing offset.toNat found]
  · rw [h.starts_size]
    exact (List.takeWhile_sublist _).length_le

end WordIndex.Holds

variable {text : String}

/-- All numbers of the index of a short text are words. -/
theorem toWords_ofText (short : text.utf8ByteSize < Span.limit) :
    ∃ words, (LineIndex.ofText text).toWords = .ok words ∧ words.Holds (.ofText text) := by
  have size : text.utf8ByteSize < UInt32.size := Nat.lt_trans short (by decide)
  have starts : ∀ start ∈ (LineIndex.ofText text).starts, start < UInt32.size :=
    fun start h => Nat.lt_of_le_of_lt (LineIndex.le_size_of_mem_starts h) size
  refine ⟨⟨((LineIndex.ofText text).starts.map UInt32.ofNat).toArray, .ofNat text.utf8ByteSize⟩,
    ?_, ?_, UInt32.toNat_ofNat_of_lt' size⟩
  · have ofSize : word (LineIndex.ofText text).size = .ok (.ofNat text.utf8ByteSize) := word_of_lt size
    rw [LineIndex.toWords, mapM_word starts, ok_bind, ofSize]
    rfl
  · rw [List.map_map]
    have same : ∀ start ∈ (LineIndex.ofText text).starts, (UInt32.ofNat start).toNat = start :=
      fun start h => UInt32.toNat_ofNat_of_lt' (starts start h)
    exact (List.map_congr_left same).trans (List.map_id _)

/-- The lookup in words meets no fault. -/
theorem word_position?_eq {words : WordIndex} (h : words.Holds (.ofText text)) (offset : UInt32) :
    words.position? offset = .ok ((LineIndex.ofText text).position? offset.toNat) := by
  have size : words.size.toNat = text.utf8ByteSize := h.size
  unfold WordIndex.position?
  split
  · rename_i past
    rw [UInt32.lt_iff_toNat_lt, size] at past
    rw [LineIndex.position?_eq_none_iff.mpr past]
    rfl
  · rename_i upTo
    rw [UInt32.lt_iff_toNat_lt, size, Nat.not_lt] at upTo
    have reached := h.bisect_starts (LineIndex.starts_increasing text) offset
    rw [LineIndex.reached_eq upTo, List.length_cons, length_startsFrom] at reached
    have start := LineIndex.getElem?_starts upTo
    rw [h.getElem?, Option.map_eq_some_iff] at start
    obtain ⟨start, found, starts⟩ := start
    have column : start.toNat ≤ offset.toNat := by
      rw [starts]
      exact (isLineStart_lineStart upTo).le
    have line : ((bytes text).take offset.toNat).count newline < UInt32.size := by
      have few : ((bytes text).take offset.toNat).count newline ≤ offset.toNat :=
        Nat.le_trans List.count_le_length (List.length_take_le _ _)
      exact Nat.lt_of_le_of_lt few offset.toNat_lt_size
    rw [reached, ok_bind, minus_of_le (Nat.le_add_left 1 _), ok_bind, Nat.add_sub_cancel,
      entry_of_getElem? found, ok_bind, minus_of_le column, ok_bind, word_of_lt line, ok_bind,
      UInt32.toNat_ofNat_of_lt' line, starts, LineIndex.position?_eq upTo]
    rfl

end Words

namespace LineIndex

/-- An offset has a position in a text exactly if it is not past the end. The line counts the
newlines before the offset, the column the bytes from the start of the line, and both together give
the offset back. Positions are in the order of their offsets, and no two offsets share one. The
lookup by bisection in words meets no fault and has the same result. -/
theorem positions_match_offsets {text : String} (short : text.utf8ByteSize < Span.limit) :
    (∀ offset, (ofText text).position? offset = none ↔ text.utf8ByteSize < offset) ∧
    (∀ offset position, (ofText text).position? offset = some position →
      IsPosition (bytes text) offset position ∧ (ofText text).offset? position = some offset) ∧
    (∀ a b p q, (ofText text).position? a = some p → (ofText text).position? b = some q →
      (p.Before q ↔ a < b) ∧ (p = q → a = b)) ∧
    ∃ words, (ofText text).toWords = .ok words ∧
      ∀ offset, words.position? offset = .ok ((ofText text).position? offset.toNat) := by
  obtain ⟨words, converted, holds⟩ := toWords_ofText short
  refine ⟨fun offset => position?_eq_none_iff, fun offset position h => ?_, fun a b p q hp hq => ?_,
    words, converted, word_position?_eq holds⟩
  · have start := isLineStart_lineStart (le_size_of_position? h)
    exact ⟨⟨line_of_position? h, _, start, column_of_position? h⟩, offset?_of_position? h⟩
  · refine ⟨before_iff_lt hp hq, fun same => ?_⟩
    subst same
    exact Option.some_inj.mp ((offset?_of_position? hp).symm.trans (offset?_of_position? hq))

theorem positions_match_offsets_accented :
    "é\n\nx".utf8ByteSize < Span.limit ∧ (ofText "é\n\nx").position? 6 = none ∧
    ∃ words, (ofText "é\n\nx").toWords = .ok words ∧
      words.position? 4 = .ok (some ⟨2, 0⟩) := by
  have short : "é\n\nx".utf8ByteSize < Span.limit := by decide
  obtain ⟨ends, -, -, words, converted, lookup⟩ := positions_match_offsets short
  exact ⟨short, (ends 6).mpr (by decide), words, converted, lookup 4⟩

end LineIndex

end TwigComponent.Text
