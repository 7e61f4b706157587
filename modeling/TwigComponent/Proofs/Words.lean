import TwigComponent.Json.Basic
import TwigComponent.Twig.Literal

/-!
# Texts of names and numbers

A plain name is a word of letters, digits and underscores, and a word ends where
another character follows. The text of a number is made of digits, a point, the
mark of an exponent and signs, whatever layout its digits have. It begins with a
digit, after a minus sign if the number is negative.
-/
namespace TwigComponent

namespace Twig

/-- Characters of names and numbers. -/
def isWordChar (c : Char) : Bool := c.isAlphanum || c == '_'

/-- A word is not empty and has only characters of words. -/
structure IsWordText (text : List Char) : Prop where
  ne_nil : text ≠ []
  wordChars : ∀ c ∈ text, isWordChar c = true

theorem IsWordText.of_all {text : List Char} (hne : text ≠ [])
    (h : text.all isWordChar = true) : IsWordText text :=
  ⟨hne, List.all_eq_true.mp h⟩

theorem isWordText_of_isPlainKey {name : String} (h : isPlainKey name = true) :
    IsWordText name.toList := by
  unfold isPlainKey at h
  split at h
  · cases h
  · rename_i c cs hn
    simp only [Bool.and_eq_true, Bool.or_eq_true, List.all_eq_true] at h
    refine ⟨by simp [hn], fun d hd => ?_⟩
    rw [hn, List.mem_cons] at hd
    rcases hd with rfl | hd
    · rcases h.1 with letter | underscore
      · simp [isWordChar, Char.isAlphanum, letter]
      · simp [isWordChar, underscore]
    · simpa [isWordChar] using h.2 d hd

theorem first_of_isPlainKey {name : String} (h : isPlainKey name = true) {c : Char}
    {cs : List Char} (hn : name.toList = c :: cs) : c.isDigit = false := by
  simp only [isPlainKey, hn, Bool.and_eq_true, Bool.or_eq_true, beq_iff_eq] at h
  rcases h.1 with letter | rfl
  · delta Char.isAlpha Char.isUpper Char.isLower at letter
    simp [Char.isDigit, UInt32.le_iff_toNat_le] at letter ⊢
    omega
  · decide

theorem isWordText_repr (n : Nat) : IsWordText n.repr.toList := by
  refine ⟨by simp, fun c hc => ?_⟩
  rw [Nat.toList_repr] at hc
  have digit := Nat.isDigit_of_mem_toDigits (by decide) (by decide) hc
  simp [isWordChar, Char.isAlphanum, digit]

/-- The text is empty or starts with a character of the class. -/
def Starts (p : Char → Bool) (text : List Char) : Prop := ∀ c ∈ text.head?, p c = true

namespace Starts

variable {p q : Char → Bool} {c : Char} {cs : List Char}

theorem nil : Starts p [] := by simp [Starts]

@[simp] theorem cons_iff : Starts p (c :: cs) ↔ p c = true := by simp [Starts]

theorem mono (h : Starts p cs) (hpq : ∀ c, p c = true → q c = true) : Starts q cs :=
  fun c hc => hpq c (h c hc)

end Starts

/-- Characters that cannot prolong a word. -/
def isBoundary (c : Char) : Bool := !isWordChar c

end Twig

open Decimal

def isNumeral (c : Char) : Bool :=
  c.isDigit || c == '.' || c == 'e' || c == '+' || c == '-'

/-- A digit, and nothing after it but characters of numbers. -/
def IsDigital (text : String) : Prop :=
  ∃ c cs, text.toList = c :: cs ∧ c.isDigit = true ∧ ∀ d ∈ cs, isNumeral d = true

namespace IsDigital

variable {text : String}

theorem forall_mem (h : IsDigital text) : ∀ c ∈ text.toList, isNumeral c = true := by
  obtain ⟨c, cs, heq, first, rest⟩ := h
  rw [heq, List.forall_mem_cons]
  exact ⟨by simp [isNumeral, first], rest⟩

theorem append (h : IsDigital text) {more : String}
    (hm : ∀ c ∈ more.toList, isNumeral c = true) : IsDigital (text ++ more) := by
  obtain ⟨c, cs, heq, first, rest⟩ := h
  refine ⟨c, cs ++ more.toList, ?_, first, ?_⟩
  · rw [String.toList_append, heq, List.cons_append]
  · rw [List.forall_mem_append]
    exact ⟨rest, hm⟩

theorem repr (n : Nat) : IsDigital n.repr := by
  have digits : ∀ c ∈ n.repr.toList, c.isDigit = true := by
    intro c hin
    rw [Nat.toList_repr] at hin
    exact Nat.isDigit_of_mem_toDigits (by decide) (by decide) hin
  have nonempty : n.repr.toList ≠ [] := by
    rw [Nat.toList_repr]
    exact Nat.toDigits_ne_nil
  obtain ⟨c, cs, heq⟩ := List.exists_cons_of_ne_nil nonempty
  rw [heq, List.forall_mem_cons] at digits
  refine ⟨c, cs, heq, digits.1, fun d hd => ?_⟩
  simp [isNumeral, digits.2 d hd]

/-- A point after the first digits. -/
theorem split (h : IsDigital text) (n : Nat) :
    IsDigital (String.ofList (text.toList.take (n + 1)) ++ "."
      ++ String.ofList (text.toList.drop (n + 1))) := by
  obtain ⟨c, cs, heq, first, rest⟩ := h
  have front : IsDigital (String.ofList (text.toList.take (n + 1))) := by
    refine ⟨c, cs.take n, by simp [heq], first, fun d hd => ?_⟩
    exact rest d (List.mem_of_mem_take hd)
  refine (front.append (List.all_eq_true.mp (by decide))).append fun d hd => ?_
  rw [heq, String.toList_ofList, List.drop_succ_cons] at hd
  exact rest d (List.mem_of_mem_drop hd)

theorem write (layout : Layout) (hm : ∀ c ∈ layout.positiveMark.toList, isNumeral c = true)
    (d : Scientific) : IsDigital (layout.write d) := by
  have digits := repr d.digits
  have zeros : ∀ n : Nat, ∀ c ∈ (String.ofList (List.replicate n '0')).toList,
      isNumeral c = true := by
    intro n c hin
    rw [String.toList_ofList] at hin
    rw [List.eq_of_mem_replicate hin]
    decide
  have mantissa : IsDigital (if d.digits.repr.length = 1 then d.digits.repr
      else String.ofList (d.digits.repr.toList.take 1) ++ "."
        ++ String.ofList (d.digits.repr.toList.drop 1)) := by
    split
    · exact digits
    · exact digits.split 0
  unfold Layout.write
  dsimp only
  split
  · split
    · exact (digits.append (zeros _)).append (List.all_eq_true.mp (by decide))
    · split
      · exact digits.split _
      · have zero : IsDigital "0." :=
          ⟨'0', ['.'], by decide, by decide, List.all_eq_true.mp (by decide)⟩
        exact (zero.append (zeros _)).append digits.forall_mem
  · split
    · exact ((mantissa.append (List.all_eq_true.mp (by decide))).append hm).append
        (repr _).forall_mem
    · exact (mantissa.append (List.all_eq_true.mp (by decide))).append (repr _).forall_mem

end IsDigital

namespace Json.Number

/-- A negative zero counts as negative, since its sign is written. -/
def isNegative : Json.Number → Bool
  | .int value => value < 0
  | .float value => value.negative

theorem isDigital_text {value : Json.Number} (h : value.isNegative = false) :
    IsDigital value.text := by
  cases value with
  | int value =>
    cases value with
    | ofNat n => exact .repr n
    | negSucc n => simp [isNegative, Int.negSucc_lt_zero] at h
  | float value =>
    have unsigned : value.negative = false := h
    change IsDigital ((if value.negative then "-" else "") ++ _)
    rw [unsigned, if_neg (by decide), String.empty_append]
    split
    · exact ⟨'0', ['.', '0'], by decide, by decide, List.all_eq_true.mp (by decide)⟩
    · exact .write _ (List.all_eq_true.mp (by decide)) _

theorem isNumeral_of_mem (value : Json.Number) : ∀ c ∈ value.text.toList, isNumeral c = true := by
  -- A negative number is a minus sign and a text of the other sign.
  have signed : ∀ text, IsDigital text → ∀ c ∈ ("-" ++ text).toList, isNumeral c = true := by
    intro text digital
    rw [String.toList_append, List.forall_mem_append]
    exact ⟨List.all_eq_true.mp (by decide), digital.forall_mem⟩
  cases hn : value.isNegative with
  | false => exact (isDigital_text hn).forall_mem
  | true =>
    cases value with
    | int value =>
      cases value with
      | ofNat n => exact absurd hn (by simp [isNegative])
      | negSucc n => exact signed _ (.repr (n + 1))
    | float value =>
      have negative : value.negative = true := hn
      change ∀ c ∈ ((if value.negative then "-" else "") ++ _).toList, isNumeral c = true
      rw [negative, if_pos rfl]
      have positive : IsDigital (text (.float { value with negative := false })) :=
        isDigital_text rfl
      exact signed _ positive

end Json.Number

end TwigComponent
