import TwigComponent.Decimal.Binary64

/-!
# Shortest decimals

The decimal text of a finite value has two parts. The digits are the fewest that
read back as the value, and of those the nearest to it. The layout says which
decimal exponents are written positionally and how the others are marked.
-/
namespace TwigComponent.Decimal

/-- The number `digits * 10 ^ exponent`. -/
structure Scientific where
  digits : Nat
  exponent : Int
deriving DecidableEq, Repr

/-- Compares `a * 10 ^ i` with `b * 2 ^ j`, exactly. -/
def compareScaled (a : Nat) (i : Int) (b : Nat) (j : Int) : Ordering :=
  compare (a * Nat.pow 10 i.toNat * Nat.pow 2 (-j).toNat)
    (b * Nat.pow 2 j.toNat * Nat.pow 10 (-i).toNat)

/-- Whether `d` rounds to the absolute value of `x`: it lies between the midpoints to the
neighbours of `x`, or on one of them if the mantissa is even. The gap below a power of two
is half the gap above it. -/
def Binary64.readsBack (x : Binary64) (d : Scientific) : Bool :=
  let low :=
    if x.mantissa = Nat.pow 2 52 ∧ -1074 < x.exponent then 4 * x.mantissa - 1
    else 4 * x.mantissa - 2
  let high := 4 * x.mantissa + 2
  let even := x.mantissa % 2 == 0
  let below := compareScaled d.digits d.exponent low (x.exponent - 2)
  let above := compareScaled d.digits d.exponent high (x.exponent - 2)
  (below == .gt || (even && below == .eq)) && (above == .lt || (even && above == .eq))

/-- The least `k` with `num / den < 10 ^ k`, for positive `num` and `den`. -/
def decimalSize (num den : Nat) : Int :=
  if den ≤ num then (Nat.toDigits 10 (num / den)).length
  else 1 - (Nat.toDigits 10 ((den - 1) / num)).length

/-- Moves the zeros at the end of the digits into the exponent. -/
def Scientific.strip (d : Scientific) : Scientific :=
  go (Nat.toDigits 10 d.digits).length d
where
  go : Nat → Scientific → Scientific
    | 0, d => d
    | n + 1, d => if d.digits ≠ 0 ∧ d.digits % 10 = 0 then go n ⟨d.digits / 10, d.exponent + 1⟩ else d

/-- The fewest digits that read back as the absolute value of `x`, the nearest of them first,
the even one of two equally near. -/
def Binary64.shortest (x : Binary64) : Scientific :=
  let num := x.mantissa * Nat.pow 2 x.exponent.toNat
  let den := Nat.pow 2 (-x.exponent).toNat
  let size := decimalSize num den
  let onGrid (n : Nat) : Option Scientific :=
    let e : Int := size - n
    let top := num * Nat.pow 10 (-e).toNat
    let unit := den * Nat.pow 10 e.toNat
    let low : Scientific := ⟨top / unit, e⟩
    let high : Scientific := ⟨top / unit + 1, e⟩
    match x.readsBack low, x.readsBack high with
    | true, true => some ⟨roundHalfEven top unit, e⟩
    | true, false => some low
    | false, true => some high
    | false, false => none
  let exact : Scientific := ⟨num * Nat.pow 5 (-x.exponent).toNat, min x.exponent 0⟩
  ((((List.range 17).map (· + 1)).findSome? onGrid).getD exact).strip

/-- Which decimal exponents are written positionally, and the mark before a positive exponent
of the others. -/
structure Layout where
  least : Int
  greatest : Int
  positiveMark : String
deriving Repr

/-- Writes the digits so that a point always stands between two of them, or a mantissa with an
exponent where the layout is not positional. -/
def Layout.write (layout : Layout) (d : Scientific) : String :=
  let text := Nat.repr d.digits
  let scale : Int := d.exponent + text.length - 1
  let zeros (n : Int) : String := String.ofList (List.replicate n.toNat '0')
  let split (n : Nat) : String :=
    String.ofList (text.toList.take n) ++ "." ++ String.ofList (text.toList.drop n)
  if layout.least ≤ scale ∧ scale ≤ layout.greatest then
    if 0 ≤ d.exponent then text ++ zeros d.exponent ++ ".0"
    else if 0 ≤ scale then split (scale.toNat + 1)
    else "0." ++ zeros (-scale - 1) ++ text
  else
    let mantissa := if text.length = 1 then text else split 1
    if 0 ≤ scale then mantissa ++ "e" ++ layout.positiveMark ++ Nat.repr scale.toNat
    else mantissa ++ "e-" ++ Nat.repr (-scale).toNat

def Binary64.text (x : Binary64) (layout : Layout) : String :=
  (if x.negative then "-" else "") ++
    (if x.isZero then "0.0" else layout.write x.shortest)

end TwigComponent.Decimal
