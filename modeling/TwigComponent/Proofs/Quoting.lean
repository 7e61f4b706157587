import TwigComponent.Proofs.Words

/-!
# Reading literals and keys back

The reader of a string literal has two rules. A backslash takes the next character
as it stands, and the first quote that no backslash takes is the end. What a value
is written as, character by character, leaves such a reader where it was, so the
end is the quote that was put there, whatever is in the value and whatever text
follows. A key is read as a literal if it begins with a quote, and as a name if
not. A name never begins with a quote, so no two keys are written in the same way.
-/
namespace TwigComponent.Twig

/-- Reads a string behind its opening quote: the value, and the text behind the closing quote. The
flag says whether a backslash has taken the next character. -/
def readString : Bool → List Char → Option (List Char × List Char)
  | _, [] => none
  | true, c :: rest => (readString false rest).map (Prod.map (c :: ·) id)
  | false, c :: rest =>
    if c = '\'' then some ([], rest)
    else if c = '\\' then readString true rest
    else (readString false rest).map (Prod.map (c :: ·) id)

/-- Reads a name: letters, digits and underscores as far as they go, and no digit first. -/
def readName (chars : List Char) : Option (List Char × List Char) :=
  match chars.takeWhile isWordChar with
  | [] => none
  | c :: cs => if c.isDigit then none else some (c :: cs, chars.dropWhile isWordChar)

/-- Reads a string literal at the beginning of a text. -/
def readLiteral (text : String) : Option (String × String) :=
  if text.toList.head? = some '\'' then
    (readString false text.toList.tail).map (Prod.map String.ofList String.ofList)
  else
    none

/-- Reads a key at the beginning of a text. -/
def readKey (text : String) : Option (String × String) :=
  if text.toList.head? = some '\'' then readLiteral text
  else (readName text.toList).map (Prod.map String.ofList String.ofList)

section Strings

variable {chars value rest : List Char}

/-- One character of a value is read back from its escaped form. -/
theorem readString_escapeChar (c : Char) (rest : List Char) :
    readString false (escapeChar c ++ rest) =
      (readString false rest).map (Prod.map (c :: ·) id) := by
  unfold escapeChar
  split
  · rfl
  · rename_i plain
    rw [not_or] at plain
    rw [List.singleton_append, readString, if_neg plain.2, if_neg plain.1]

theorem readString_escaped (value rest : List Char) :
    readString false (value.flatMap escapeChar ++ '\'' :: rest) = some (value, rest) := by
  induction value with
  | nil => rfl
  | cons c value ih =>
    rw [List.flatMap_cons, List.append_assoc, readString_escapeChar, ih]
    rfl

/-- What stands behind a string changes nothing in it. -/
theorem readString_append {escaped : Bool} (h : readString escaped chars = some (value, rest))
    (more : List Char) : readString escaped (chars ++ more) = some (value, rest ++ more) := by
  induction chars generalizing escaped value with
  | nil => cases escaped <;> cases h
  | cons c chars ih =>
    -- The character belongs to the value, and the string goes on behind it.
    have goesOn : (readString false chars).map (Prod.map (c :: ·) id) = some (value, rest) →
        (readString false (chars ++ more)).map (Prod.map (c :: ·) id) =
          some (value, rest ++ more) := by
      intro read
      obtain ⟨⟨tail, rest'⟩, found, same⟩ := Option.map_eq_some_iff.mp read
      cases same
      rw [ih found]
      rfl
    cases escaped with
    | true => exact goesOn h
    | false =>
      rw [readString] at h
      rw [List.cons_append, readString]
      split
      · rename_i closing
        rw [if_pos closing] at h
        cases h
        rfl
      · rename_i inner
        rw [if_neg inner] at h
        split
        · rename_i backslash
          rw [if_pos backslash] at h
          exact ih h
        · rename_i plain
          rw [if_neg plain] at h
          exact goesOn h

end Strings

theorem toList_quote (value : String) :
    (quote value).toList = '\'' :: (value.toList.flatMap escapeChar ++ ['\'']) := by
  simp [quote]

/-- A literal ends with its own closing quote. -/
theorem readLiteral_quote (value rest : String) :
    readLiteral (quote value ++ rest) = some (value, rest) := by
  have read := readString_escaped value.toList rest.toList
  rw [readLiteral, String.toList_append, toList_quote]
  simp [read]

theorem readLiteral_append {text value rest : String} (h : readLiteral text = some (value, rest))
    (more : String) : readLiteral (text ++ more) = some (value, rest ++ more) := by
  rw [readLiteral] at h
  split at h
  · rename_i opens
    obtain ⟨inner, whole⟩ := List.head?_eq_some_iff.mp opens
    obtain ⟨⟨chars, behind⟩, read, same⟩ := Option.map_eq_some_iff.mp h
    cases same
    rw [whole, List.tail_cons] at read
    simp [readLiteral, whole, readString_append read]
  · cases h

theorem quote_injective : Function.Injective quote := by
  intro value other same
  have read := readLiteral_quote value ""
  rw [same, readLiteral_quote, Option.some_inj, Prod.mk.injEq] at read
  exact read.1.symm

/-- No part of a literal that lacks its end is a literal. -/
theorem readLiteral_front {value front back : String} (h : quote value = front ++ back)
    (hb : back ≠ "") : readLiteral front = none := by
  cases read : readLiteral front with
  | none => rfl
  | some result =>
    have whole := readLiteral_append read back
    have own := readLiteral_quote value ""
    rw [String.append_empty, h, whole, Option.some_inj, Prod.mk.injEq] at own
    exact absurd (String.append_eq_empty_iff.mp own.2).2 hb

/-- A plain name ends where no more characters of names follow. -/
theorem readName_of_isPlainKey {name : String} (h : isPlainKey name = true) {rest : List Char}
    (hr : Starts isBoundary rest) : readName (name.toList ++ rest) = some (name.toList, rest) := by
  have word := isWordText_of_isPlainKey h
  have behind : rest.takeWhile isWordChar = [] ∧ rest.dropWhile isWordChar = rest := by
    cases rest with
    | nil => exact ⟨rfl, rfl⟩
    | cons c cs =>
      have stop : isWordChar c = false := by simpa [isBoundary] using hr
      simp [stop]
  obtain ⟨c, cs, first⟩ := List.exists_cons_of_ne_nil word.ne_nil
  have letter := first_of_isPlainKey h first
  rw [readName, List.takeWhile_append_of_pos word.wordChars,
    List.dropWhile_append_of_pos word.wordChars, behind.1, behind.2, List.append_nil, first]
  simp [letter]

theorem head?_of_isPlainKey {name : String} (h : isPlainKey name = true) (rest : String) :
    (name ++ rest).toList.head? ≠ some '\'' := by
  have word := isWordText_of_isPlainKey h
  obtain ⟨c, cs, first⟩ := List.exists_cons_of_ne_nil word.ne_nil
  have letter := word.wordChars c (by simp [first])
  intro opens
  have mark : c = '\'' := by simpa [first] using opens
  subst mark
  exact absurd letter (by decide)

/-- A key is read back if no more characters of names follow. -/
theorem readKey_hashKey (name rest : String) (hr : Starts isBoundary rest.toList) :
    readKey (hashKey name ++ rest) = some (name, rest) := by
  unfold hashKey
  split
  · rename_i plain
    rw [readKey, if_neg (head?_of_isPlainKey plain rest), String.toList_append,
      readName_of_isPlainKey plain hr]
    simp
  · have opens : (quote name ++ rest).toList.head? = some '\'' := by simp [toList_quote]
    rw [readKey, if_pos opens, readLiteral_quote]

/-- A text that is read as one name is a plain name. -/
theorem isPlainKey_of_readName {name : String}
    (h : readName name.toList = some (name.toList, [])) : isPlainKey name = true := by
  unfold readName at h
  split at h
  · cases h
  · rename_i c cs run
    split at h
    · cases h
    · rename_i digit
      rw [Option.some_inj, Prod.mk.injEq] at h
      have word : (c :: cs).all isWordChar = true := run ▸ List.all_takeWhile
      rw [List.all_cons, Bool.and_eq_true] at word
      rw [isPlainKey, ← h.1]
      have letter : (c.isAlpha || c == '_') = true := by
        simpa [isWordChar, Char.isAlphanum, digit] using word.1
      exact Bool.and_eq_true_iff.mpr ⟨letter, word.2⟩

theorem hashKey_injective : Function.Injective hashKey := by
  intro name other same
  have read := readKey_hashKey name "" .nil
  rw [same, readKey_hashKey other "" .nil, Option.some_inj, Prod.mk.injEq] at read
  exact read.1.symm

/-- The reader of literals takes exactly the literal from the front of a text and returns its value,
and nothing short of the whole literal is one. The reader of keys returns the name of a key, and a
key has quotes only if it is no name without them. So no two values, and no two names, are written
in the same way. -/
theorem literals_read_back :
    (∀ value rest, readLiteral (quote value ++ rest) = some (value, rest)) ∧
    (∀ value front back, quote value = front ++ back → back ≠ "" → readLiteral front = none) ∧
    Function.Injective quote ∧
    (∀ name rest, Starts isBoundary rest.toList →
      readKey (hashKey name ++ rest) = some (name, rest)) ∧
    (∀ name, readName name.toList = some (name.toList, []) → hashKey name = name) ∧
    Function.Injective hashKey :=
  ⟨readLiteral_quote, fun _ _ _ => readLiteral_front, quote_injective, readKey_hashKey,
    fun _ h => if_pos (isPlainKey_of_readName h), hashKey_injective⟩

theorem literals_read_back_escapes :
    quote "it's\\" = "'it\\'s\\\\'" ∧
    readLiteral (quote "it's\\" ++ "' ~ x") = some ("it's\\", "' ~ x") ∧
    readKey (hashKey "2col" ++ ": 1") = some ("2col", ": 1") ∧
    readKey (hashKey "col" ++ ": 1") = some ("col", ": 1") := by
  obtain ⟨literal, -, -, key, -, -⟩ := literals_read_back
  have stop : Starts isBoundary ": 1".toList := Starts.cons_iff.mpr (by decide)
  exact ⟨by decide, literal _ _, key _ _ stop, key _ _ stop⟩

end TwigComponent.Twig
