import Mathlib.Data.List.Infix
import TwigComponent.Proofs.Quoting
import TwigComponent.Proofs.Writing

/-!
# Quotes and brackets

A reader of an expression keeps the closing brackets that are due and whether it
stands in a quoted string, where a backslash takes the next character with it. A
character is outside if no bracket is due and no string is open before and after
it. A text whose brackets do not match has no outside.

A text that closes what it opens can be read inside any brackets, and there it
shows nothing. This is `outsideFrom_append`, from which the rules for joined and
for bracketed texts follow.

A postfix operator (a filter, the name of a member, an index, arguments) takes
the whole text before it if that text is atomic: no blank stands outside, and
the text does not begin with a sign or a negation.
-/
namespace TwigComponent.Twig

open Source Text

/-- The bracket that is due after an opening one. -/
def closing? (c : Char) : Option Char :=
  if c = '(' then some ')'
  else if c = '[' then some ']'
  else if c = '\x7b' then some '\x7d'
  else none

def isClosing (c : Char) : Bool := c == ')' || c == ']' || c == '\x7d'

/-- A character that neither opens nor closes anything. -/
def isNeutral (c : Char) : Bool := c != '\'' && (closing? c).isNone && !isClosing c

inductive Quoting where
  | plain
  | quoted
  | escaped
deriving DecidableEq, Repr

/-- Where a reader stands. The innermost bracket is due first. -/
structure Depth where
  due : List Char := []
  quoting : Quoting := .plain
deriving DecidableEq, Repr

/-- Reads one character, unless it is a closing bracket that is not due. -/
def Depth.step (depth : Depth) (c : Char) : Option Depth :=
  match depth.quoting with
  | .escaped => some { depth with quoting := .quoted }
  | .quoted =>
    if c = '\\' then some { depth with quoting := .escaped }
    else if c = '\'' then some { depth with quoting := .plain }
    else some depth
  | .plain =>
    if c = '\'' then some { depth with quoting := .quoted }
    else
      match closing? c with
      | some close => some { depth with due := close :: depth.due }
      | none =>
        if isClosing c then
          match depth.due with
          | [] => none
          | close :: rest => if c = close then some { depth with due := rest } else none
        else some depth

/-- The characters outside quotes and brackets, if all that is open is closed in the end. -/
def outsideFrom : Depth → List Char → Option (List Char)
  | depth, [] => if depth = {} then some [] else none
  | depth, c :: rest => do
    let next ← depth.step c
    let found ← outsideFrom next rest
    pure (if depth = {} ∧ next = {} then c :: found else found)

def outside? (text : String) : Option (List Char) := outsideFrom {} text.toList

/-- Quotes and brackets match. -/
def Closed (text : String) : Prop := (outside? text).isSome = true

/-- A blank stands outside quotes and brackets. -/
def Spaced (text : String) : Prop := ' ' ∈ (outside? text).getD []

instance : DecidablePred Spaced := fun text =>
  List.instDecidableMemOfLawfulBEq ' ' ((outside? text).getD [])

def Signed (text : String) : Prop :=
  text.toList.head? = some '-' ∨ text.toList.head? = some '+'

instance : DecidablePred Signed := fun _ => inferInstanceAs (Decidable (_ ∨ _))

/-- A text that a postfix operator applies to as a whole. -/
structure Atomic (text : String) : Prop where
  closed : Closed text
  unspaced : ¬ Spaced text
  unsigned : ¬ Signed text
  unnegated : ¬ "not ".toList <+: text.toList

/-- An operator shows outside quotes and brackets. Signs count if they are looked for. -/
def Protrudes (signs : Bool) (text : String) : Prop := Spaced text ∨ signs = true ∧ Signed text

/-! ## Reading inside brackets -/

/-- The same place inside further brackets. -/
def Depth.under (depth : Depth) (outer : List Char) : Depth :=
  { depth with due := depth.due ++ outer }

theorem Depth.under_eq_start_iff (depth : Depth) (outer : List Char) :
    depth.under outer = {} ↔ depth = {} ∧ outer = [] := by
  obtain ⟨due, quoting⟩ := depth
  simp only [under, Depth.mk.injEq, List.append_eq_nil_iff]
  constructor
  · rintro ⟨⟨hd, ho⟩, hq⟩
    exact ⟨⟨hd, hq⟩, ho⟩
  · rintro ⟨⟨hd, hq⟩, ho⟩
    exact ⟨⟨hd, ho⟩, hq⟩

/-- A step does not depend on the brackets around it. -/
theorem Depth.step_under {depth next : Depth} {c : Char} (h : depth.step c = some next)
    (outer : List Char) : (depth.under outer).step c = some (next.under outer) := by
  obtain ⟨due, quoting⟩ := depth
  cases quoting with
  | escaped =>
    cases h
    rfl
  | quoted =>
    simp only [step, under] at h ⊢
    split_ifs at h ⊢ <;> cases h <;> rfl
  | plain =>
    simp only [step, under] at h ⊢
    by_cases quote : c = '\''
    · rw [if_pos quote] at h ⊢
      cases h
      rfl
    rw [if_neg quote] at h ⊢
    cases hc : closing? c with
    | some close =>
      rw [hc] at h
      cases h
      rfl
    | none =>
      rw [hc] at h
      dsimp only at h ⊢
      by_cases close : isClosing c = true
      · rw [if_pos close] at h ⊢
        cases due with
        | nil => cases h
        | cons first rest =>
          dsimp only [List.cons_append] at h ⊢
          split_ifs at h ⊢ with same
          cases h
          rfl
      · rw [if_neg close] at h ⊢
        cases h
        rfl

/-- A text that closes what it opens is read to its end, and shows what is outside in it only if
no bracket is due around it. -/
theorem outsideFrom_append {depth : Depth} {text found : List Char}
    (h : outsideFrom depth text = some found) (outer rest : List Char) :
    outsideFrom (depth.under outer) (text ++ rest) =
      (outsideFrom ⟨outer, .plain⟩ rest).map fun more => if outer = [] then found ++ more else more := by
  induction text generalizing depth found with
  | nil =>
    rw [outsideFrom] at h
    split_ifs at h with start
    cases h
    rw [start]
    simp [Depth.under]
  | cons c text ih =>
    rw [outsideFrom] at h
    obtain ⟨next, hs, h⟩ := Option.bind_eq_some_iff.mp h
    obtain ⟨inner, hi, h⟩ := Option.bind_eq_some_iff.mp h
    cases h
    rw [List.cons_append, outsideFrom, Depth.step_under hs outer]
    change ((outsideFrom (next.under outer) (text ++ rest)).bind _) = _
    rw [ih hi]
    simp only [Depth.under_eq_start_iff]
    cases outsideFrom ⟨outer, .plain⟩ rest with
    | none => rfl
    | some more =>
      by_cases ho : outer = []
      · by_cases hd : depth = {} ∧ next = {}
        · simp [ho, hd]
        · simp [ho, hd]
      · simp [ho]

/-! ## Joined and bracketed texts -/

section Joining

variable {signs : Bool} {a b text : String}

theorem outside?_append {found more : List Char} (ha : outside? a = some found)
    (hb : outside? b = some more) : outside? (a ++ b) = some (found ++ more) := by
  have whole := outsideFrom_append ha [] b.toList
  rw [outside?, String.toList_append]
  refine whole.trans ?_
  change (outside? b).map _ = _
  rw [hb]
  rfl

theorem closed_append (ha : Closed a) (hb : Closed b) : Closed (a ++ b) := by
  obtain ⟨found, hf⟩ := Option.isSome_iff_exists.mp ha
  obtain ⟨more, hm⟩ := Option.isSome_iff_exists.mp hb
  rw [Closed, outside?_append hf hm]
  rfl

theorem spaced_append (ha : Closed a) (hb : Closed b) :
    Spaced (a ++ b) ↔ Spaced a ∨ Spaced b := by
  obtain ⟨found, hf⟩ := Option.isSome_iff_exists.mp ha
  obtain ⟨more, hm⟩ := Option.isSome_iff_exists.mp hb
  rw [Spaced, Spaced, Spaced, outside?_append hf hm, hf, hm]
  exact List.mem_append

theorem signed_append : Signed (a ++ b) ↔ Signed a ∨ a = "" ∧ Signed b := by
  cases ha : a.toList with
  | nil =>
    have empty : a = "" := String.toList_eq_nil_iff.mp ha
    simp [Signed, empty]
  | cons c cs =>
    have nonempty : a ≠ "" := by
      rintro rfl
      cases ha
    simp [Signed, ha, nonempty]

theorem outsideFrom_neutral {c : Char} (h : isNeutral c = true) (rest : List Char) :
    outsideFrom {} (c :: rest) = (outsideFrom {} rest).map (c :: ·) := by
  simp only [isNeutral, Bool.and_eq_true, bne_iff_ne, ne_eq, Option.isNone_iff_eq_none,
    Bool.not_eq_true'] at h
  have stay : Depth.step {} c = some {} := by simp [Depth.step, h]
  rw [outsideFrom, stay]
  change ((outsideFrom {} rest).bind fun found => some _) = _
  cases outsideFrom {} rest <;> rfl

theorem outside?_neutral (h : ∀ c ∈ text.toList, isNeutral c = true) :
    outside? text = some text.toList := by
  rw [outside?]
  generalize text.toList = cs at h ⊢
  induction cs with
  | nil => rfl
  | cons c cs ih =>
    rw [List.forall_mem_cons] at h
    rw [outsideFrom_neutral h.1, ih h.2]
    rfl

/-- The blank after a negation stands outside. -/
theorem spaced_of_negation (hc : Closed text) (hn : "not ".toList <+: text.toList) :
    Spaced text := by
  obtain ⟨rest, hr⟩ := hn
  have tail : outside? text = (outsideFrom {} rest).map ("not ".toList ++ ·) := by
    rw [outside?, ← hr]
    change outsideFrom {} ('n' :: 'o' :: 't' :: ' ' :: rest) = _
    rw [outsideFrom_neutral (by decide), outsideFrom_neutral (by decide),
      outsideFrom_neutral (by decide), outsideFrom_neutral (by decide)]
    cases outsideFrom {} rest <;> rfl
  rw [Closed, tail, Option.isSome_map] at hc
  obtain ⟨found, hf⟩ := Option.isSome_iff_exists.mp hc
  rw [Spaced, tail, hf]
  simp

theorem atomic_iff : Atomic text ↔ Closed text ∧ ¬ Protrudes true text := by
  constructor
  · intro h
    refine ⟨h.closed, ?_⟩
    rintro (spaced | ⟨-, signed⟩)
    · exact h.unspaced spaced
    · exact h.unsigned signed
  · rintro ⟨closed, hidden⟩
    have unspaced : ¬ Spaced text := fun spaced => hidden (.inl spaced)
    exact ⟨closed, unspaced, fun signed => hidden (.inr ⟨rfl, signed⟩),
      fun negated => unspaced (spaced_of_negation closed negated)⟩

/-- A check for what protrudes in a closed text is a check for whether it is atomic. -/
theorem atomic_iff_of_protrudes {found : Bool} (hc : Closed text)
    (hf : found = true ↔ Protrudes true text) : Atomic text ↔ found = false := by
  rw [atomic_iff, ← hf, Bool.not_eq_true]
  exact and_iff_right hc

theorem not_protrudes_of_atomic (h : Atomic text) : ¬ Protrudes signs text := by
  rintro (spaced | ⟨-, signed⟩)
  · exact h.unspaced spaced
  · exact h.unsigned signed

/-- What an atomic text is attached to decides what shows. -/
theorem protrudes_append (ha : Closed a) (hb : Atomic b) :
    Protrudes signs (a ++ b) ↔ Protrudes signs a := by
  rw [Protrudes, Protrudes, spaced_append ha hb.closed, signed_append]
  simp [hb.unspaced, hb.unsigned]

theorem atomic_append (ha : Atomic a) (hb : Atomic b) : Atomic (a ++ b) := by
  rw [atomic_iff, protrudes_append ha.closed hb]
  exact ⟨closed_append ha.closed hb.closed, not_protrudes_of_atomic ha⟩

theorem protrudes_between {middle : String} (ha : Closed a) (hm : Closed middle) (hb : Closed b)
    (hs : Spaced middle) : Protrudes signs (a ++ middle ++ b) := by
  left
  rw [spaced_append (closed_append ha hm) hb, spaced_append ha hm]
  exact .inl (.inr hs)

theorem atomic_empty : Atomic "" :=
  ⟨rfl, by simp [Spaced, outside?, outsideFrom], by simp [Signed], by decide⟩

theorem atomic_join {texts : List String} (h : ∀ text ∈ texts, Atomic text) :
    Atomic (String.join texts) := by
  induction texts with
  | nil => exact atomic_empty
  | cons text rest ih =>
    rw [List.forall_mem_cons] at h
    rw [String.join_cons]
    exact atomic_append h.1 (ih h.2)

theorem closed_intercalate {separator : String} (hs : Closed separator) {texts : List String}
    (h : ∀ text ∈ texts, Closed text) : Closed (separator.intercalate texts) := by
  induction texts with
  | nil => rfl
  | cons text rest ih =>
    rw [List.forall_mem_cons] at h
    cases rest with
    | nil => simpa using h.1
    | cons next rest =>
      rw [String.intercalate_cons_cons]
      exact closed_append (closed_append h.1 hs) (ih h.2)

end Joining

section Bracketing

variable {text : String}

theorem atomic_of_outside? (h : outside? text = some []) (hs : ¬ Signed text) : Atomic text := by
  rw [atomic_iff, Closed, Protrudes, Spaced, h]
  simp [hs]

/-- What is read with something open does not show. -/
theorem outsideFrom_hidden {depth next : Depth} {c : Char} (hd : depth ≠ {})
    (hs : depth.step c = some next) (rest : List Char) :
    outsideFrom depth (c :: rest) = outsideFrom next rest := by
  rw [outsideFrom, hs]
  change ((outsideFrom next rest).bind fun found => some _) = _
  cases outsideFrom next rest <;> simp [hd]

/-- Brackets hide what is in them. -/
theorem outsideFrom_bracketed {opening close : Char} (hc : closing? opening = some close)
    {inner found : List Char} (h : outsideFrom {} inner = some found) :
    outsideFrom {} (opening :: (inner ++ [close])) = some [] := by
  have opens : Depth.step {} opening = some ⟨[close], .plain⟩ := by
    have unquoted : opening ≠ '\'' := by
      rintro rfl
      cases hc
    simp [Depth.step, unquoted, hc]
  have closes : outsideFrom ⟨[close], .plain⟩ [close] = some [] := by
    unfold closing? at hc
    split_ifs at hc <;> cases hc <;> decide
  have inside : outsideFrom ⟨[close], .plain⟩ (inner ++ [close]) = some [] := by
    refine (outsideFrom_append h [close] [close]).trans ?_
    rw [closes]
    rfl
  rw [outsideFrom, opens]
  change ((outsideFrom _ (inner ++ [close])).bind _) = _
  rw [inside]
  simp

theorem atomic_round (h : Closed text) : Atomic ("(" ++ text ++ ")") := by
  obtain ⟨found, hf⟩ := Option.isSome_iff_exists.mp h
  apply atomic_of_outside?
  · rw [outside?, String.toList_append, String.toList_append]
    exact outsideFrom_bracketed (by decide) hf
  · simp [Signed]

theorem atomic_applied {name : String} (hn : Atomic name) (h : Closed text) :
    Atomic (name ++ "(" ++ text ++ ")") := by
  have whole := atomic_append hn (atomic_round h)
  rwa [← String.append_assoc, ← String.append_assoc] at whole

theorem atomic_square (h : Closed text) : Atomic ("[" ++ text ++ "]") := by
  obtain ⟨found, hf⟩ := Option.isSome_iff_exists.mp h
  apply atomic_of_outside?
  · rw [outside?, String.toList_append, String.toList_append]
    exact outsideFrom_bracketed (by decide) hf
  · simp [Signed]

theorem atomic_hash (h : Closed text) : Atomic ("\x7b " ++ text ++ " \x7d") := by
  have padded : Closed (" " ++ text ++ " ") := closed_append (closed_append rfl h) rfl
  obtain ⟨found, hf⟩ := Option.isSome_iff_exists.mp padded
  apply atomic_of_outside?
  · have whole := outsideFrom_bracketed (by decide : closing? '\x7b' = some '\x7d') hf
    rw [outside?]
    simpa using whole
  · simp [Signed]

/-- A quoted string ends at the quote behind it, whatever is in it. -/
theorem outsideFrom_escaped (text : List Char) :
    outsideFrom ⟨[], .quoted⟩ (text.flatMap escapeChar ++ ['\'']) = some [] := by
  induction text with
  | nil => decide
  | cons c text ih =>
    rw [List.flatMap_cons, List.append_assoc, escapeChar]
    split_ifs with special
    · have escape : Depth.step ⟨[], .quoted⟩ '\\' = some ⟨[], .escaped⟩ := rfl
      have escaped : Depth.step ⟨[], .escaped⟩ c = some ⟨[], .quoted⟩ := rfl
      rw [List.cons_append, List.cons_append, List.nil_append,
        outsideFrom_hidden (by decide) escape, outsideFrom_hidden (by decide) escaped, ih]
    · rw [not_or] at special
      have plain : Depth.step ⟨[], .quoted⟩ c = some ⟨[], .quoted⟩ := by simp [Depth.step, special]
      rw [List.cons_append, List.nil_append, outsideFrom_hidden (by decide) plain, ih]

theorem atomic_quote (content : String) : Atomic (quote content) := by
  apply atomic_of_outside?
  · have opened : Depth.step {} '\'' = some ⟨[], .quoted⟩ := rfl
    rw [outside?, toList_quote, outsideFrom, opened]
    change ((outsideFrom _ _).bind _) = _
    rw [outsideFrom_escaped]
    simp
  · simp [Signed, quote]

theorem atomic_parenthesize (h : Closed text) : Atomic (parenthesize text) := by
  unfold parenthesize
  split_ifs
  · exact atomic_empty
  · exact atomic_round h

end Bracketing

section Words

variable {text : String}

theorem isNeutral_of_not_mem {c : Char} (h : c ∉ ['\'', '(', '[', '\x7b', ')', ']', '\x7d']) :
    isNeutral c = true := by
  simp only [List.mem_cons, List.not_mem_nil, or_false, not_or] at h
  simp [isNeutral, closing?, isClosing, h]

/-- A class of characters without quotes and brackets is neutral. -/
theorem isNeutral_of_class {p : Char → Bool}
    (hp : (['\'', '(', '[', '\x7b', ')', ']', '\x7d'].all fun d => !p d) = true) {c : Char}
    (h : p c = true) : isNeutral c = true := by
  refine isNeutral_of_not_mem fun mark => ?_
  have foreign := List.all_eq_true.mp hp c mark
  simp [h] at foreign

theorem atomic_of_neutral (h : ∀ c ∈ text.toList, isNeutral c = true ∧ c ≠ ' ')
    (hs : ¬ Signed text) : Atomic text := by
  have all := outside?_neutral fun c hc => (h c hc).1
  rw [atomic_iff, Closed, Protrudes, Spaced, all]
  refine ⟨rfl, ?_⟩
  rintro (blank | ⟨-, signed⟩)
  · exact (h _ blank).2 rfl
  · exact hs signed

theorem atomic_of_all (h : (text.toList.all fun c => isNeutral c && c != ' ') = true)
    (hs : ¬ Signed text) : Atomic text := by
  refine atomic_of_neutral (fun c hc => ?_) hs
  simpa using List.all_eq_true.mp h c hc

theorem atomic_of_isPlainKey (h : isPlainKey text = true) : Atomic text := by
  have word := (isWordText_of_isPlainKey h).wordChars
  have apart : ∀ d, isWordChar d = false → d ∉ text.toList := by
    intro d hd hin
    rw [word d hin] at hd
    cases hd
  apply atomic_of_neutral
  · intro c hc
    refine ⟨isNeutral_of_class (by decide) (word c hc), ?_⟩
    rintro rfl
    exact apart ' ' (by decide) hc
  · rintro (minus | plus)
    · exact apart '-' (by decide) (List.mem_of_mem_head? minus)
    · exact apart '+' (by decide) (List.mem_of_mem_head? plus)

theorem isNeutral_of_isNumeral {c : Char} (h : isNumeral c = true) : isNeutral c = true ∧ c ≠ ' ' := by
  refine ⟨isNeutral_of_class (by decide) h, ?_⟩
  rintro rfl
  exact absurd h (by decide)

theorem closed_number (value : Json.Number) : Closed value.text := by
  rw [Closed, outside?_neutral fun c hc => (isNeutral_of_isNumeral (value.isNumeral_of_mem c hc)).1]
  rfl

theorem atomic_number {value : Json.Number} (h : value.isNegative = false) : Atomic value.text := by
  obtain ⟨c, cs, heq, digit, -⟩ := Json.Number.isDigital_text h
  apply atomic_of_neutral
  · intro d hd
    exact isNeutral_of_isNumeral (value.isNumeral_of_mem d hd)
  · rw [Signed, heq]
    rintro (minus | plus)
    · cases minus
      exact absurd digit (by decide)
    · cases plus
      exact absurd digit (by decide)

theorem closed_hashKey (name : String) : Closed (hashKey name) := by
  unfold hashKey
  split_ifs with plain
  · exact (atomic_of_isPlainKey plain).closed
  · exact (atomic_quote name).closed

end Words

end TwigComponent.Twig
