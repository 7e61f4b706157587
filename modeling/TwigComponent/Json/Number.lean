import TwigComponent.Json.Basic

/-!
# Reading JSON numbers

A number without fraction and exponent that fits 64 bits is an integer; `-0` is
not. Any other number is read in binary64 arithmetic: its digits are collected
as long as they fit an unsigned word of 64 bits, the collected integer is
rounded, and the result is scaled by the power of ten.
-/
namespace TwigComponent.Json

open Decimal

/-- The parts of a number as written. `exponent` is its sign and its digits. -/
structure NumberParts where
  negative : Bool
  whole : List Char
  fraction : List Char
  exponent : Option (Bool × List Char)
  hasFraction : Bool
deriving Repr

def digitValue (c : Char) : Nat := c.toNat - '0'.toNat

/-- Splits a number into its parts, if all characters belong to it. -/
def NumberParts.ofChars? (cs : List Char) : Option NumberParts :=
  let (negative, cs) := match cs with
    | '-' :: rest => (true, rest)
    | _ => (false, cs)
  let whole := cs.takeWhile Char.isDigit
  let cs := cs.dropWhile Char.isDigit
  let (hasFraction, fraction, cs) := match cs with
    | '.' :: rest => (true, rest.takeWhile Char.isDigit, rest.dropWhile Char.isDigit)
    | _ => (false, [], cs)
  let (exponent, cs) := match cs with
    | c :: rest =>
      if c = 'e' ∨ c = 'E' then
        let (negative, rest) := match rest with
          | '-' :: rest => (true, rest)
          | '+' :: rest => (false, rest)
          | _ => (false, rest)
        (some (negative, rest.takeWhile Char.isDigit), rest.dropWhile Char.isDigit)
      else (none, cs)
    | [] => (none, cs)
  let leadingZero := match whole with
    | '0' :: _ :: _ => true
    | _ => false
  if whole.isEmpty || leadingZero || (hasFraction && fraction.isEmpty) || !cs.isEmpty
      || exponent.any (·.2.isEmpty) then none
  else some ⟨negative, whole, fraction, exponent, hasFraction⟩

/-- Appends digits to an integer as long as it stays within 64 bits, and gives back the digits
that no longer fit. -/
def appendDigits : Nat → List Char → Nat × List Char
  | n, [] => (n, [])
  | n, c :: cs =>
    if n * 10 + digitValue c < Nat.pow 2 64 then appendDigits (n * 10 + digitValue c) cs
    else (n, c :: cs)

def decimalValue (cs : List Char) : Nat :=
  cs.foldl (fun n c => n * 10 + digitValue c) 0

/-- The binary64 value of a number, unless it is too large. Exponents beyond 31 bits leave only
zero. -/
def NumberParts.float? (parts : NumberParts) : Option Binary64 := do
  let (digits, unread) := appendDigits 0 parts.whole
  let (digits, unreadFraction) := appendDigits digits parts.fraction
  let shift : Int := (unread.length : Int) - ((parts.fraction.length : Int) - unreadFraction.length)
  let rounded ← Binary64.nearest? false digits 1
  let value ← match parts.exponent with
    | none => rounded.scale? shift
    | some (negative, exponent) =>
      let exponent : Int := decimalValue exponent
      if exponent < Int.pow 2 31 then
        rounded.scale? (if negative then shift - exponent else shift + exponent)
      else if digits = 0 ∨ negative = true then some (Binary64.zero false)
      else none
  pure (if parts.negative then value.neg else value)

/-- The number that the parts stand for, unless it is too large. -/
def NumberParts.value? (parts : NumberParts) : Option Number :=
  let (digits, unread) := appendDigits 0 parts.whole
  if parts.hasFraction || parts.exponent.isSome || !unread.isEmpty then parts.float?.map .float
  else if !parts.negative then some (.int digits)
  else if digits = 0 ∨ Nat.pow 2 63 < digits then parts.float?.map .float
  else some (.int (-digits))

end TwigComponent.Json
