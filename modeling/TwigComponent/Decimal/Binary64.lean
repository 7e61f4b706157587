/-!
# Finite binary64 values

A value is kept as its sign, an integer of at most 53 bits and a power of two,
and every operation is exact integer arithmetic followed by one rounding to the
nearest value, halves to the even neighbour. A result too large to be finite is
reported as `none`; one too small becomes zero and keeps its sign.
-/
namespace TwigComponent.Decimal

/-- The value `mantissa * 2 ^ exponent`, negated if `negative` holds. Rounding produces
mantissas below `2 ^ 53` and exponents of at least `-1074`; zero has exponent `-1074`. -/
structure Binary64 where
  negative : Bool
  mantissa : Nat
  exponent : Int
deriving DecidableEq, Repr, Inhabited

/-- `num / den` rounded to an integer, a half to the even neighbour. -/
def roundHalfEven (num den : Nat) : Nat :=
  let whole := num / den
  let twice := 2 * (num % den)
  if twice < den then whole
  else if den < twice then whole + 1
  else if whole % 2 = 0 then whole
  else whole + 1

/-- The largest `e` with `2 ^ e ≤ num / den`, for positive `num` and `den`. -/
def floorLog2 (num den : Nat) : Int :=
  let e : Int := (num.log2 : Int) - (den.log2 : Int)
  if den * Nat.pow 2 e.toNat ≤ num * Nat.pow 2 (-e).toNat then e else e - 1

namespace Binary64

def zero (negative : Bool) : Binary64 := ⟨negative, 0, -1074⟩

def isZero (x : Binary64) : Bool := x.mantissa == 0

def neg (x : Binary64) : Binary64 := { x with negative := !x.negative }

/-- The value nearest to `num / den`, unless it would not be finite. -/
def nearest? (negative : Bool) (num den : Nat) : Option Binary64 :=
  if num = 0 then some (zero negative)
  else
    let e := max (floorLog2 num den - 52) (-1074)
    let m := roundHalfEven (num * Nat.pow 2 (-e).toNat) (den * Nat.pow 2 e.toNat)
    let (m, e) := if m = Nat.pow 2 53 then (Nat.pow 2 52, e + 1) else (m, e)
    if 971 < e then none else some ⟨negative, m, e⟩

/-- The value nearest to `digits * 10 ^ exponent`. Powers of ten far outside the range of
finite values are settled by their size alone. -/
def ofDecimal? (negative : Bool) (digits : Nat) (exponent : Int) : Option Binary64 :=
  let places : Int := exponent + (Nat.toDigits 10 digits).length
  if digits = 0 ∨ places < -400 then some (zero negative)
  else if 400 < places then none
  else nearest? negative (digits * Nat.pow 10 exponent.toNat) (Nat.pow 10 (-exponent).toNat)

def mul? (x y : Binary64) : Option Binary64 :=
  let e := x.exponent + y.exponent
  nearest? (x.negative != y.negative) (x.mantissa * y.mantissa * Nat.pow 2 e.toNat)
    (Nat.pow 2 (-e).toNat)

/-- The quotient, for a divisor other than zero. -/
def div? (x y : Binary64) : Option Binary64 :=
  let e := x.exponent - y.exponent
  nearest? (x.negative != y.negative) (x.mantissa * Nat.pow 2 e.toNat)
    (y.mantissa * Nat.pow 2 (-e).toNat)

/-- Multiplies or divides by a power of ten in steps of at most 308 places, each step rounded
on its own. -/
def scale? (x : Binary64) (exponent : Int) : Option Binary64 :=
  if h : exponent < -308 then
    if x.isZero then some x
    else do
      let y ← x.div? (← ofDecimal? false 1 308)
      scale? y (exponent + 308)
  else if exponent < 0 then do x.div? (← ofDecimal? false 1 (-exponent))
  else if exponent ≤ 308 then do x.mul? (← ofDecimal? false 1 exponent)
  else if x.isZero then some x
  else none
termination_by (-exponent).toNat
decreasing_by omega

end Binary64

end TwigComponent.Decimal
