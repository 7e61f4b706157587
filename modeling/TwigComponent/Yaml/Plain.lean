import TwigComponent.Yaml.Basic

/-!
# Plain scalars

What a scalar without quotes stands for. Integers are decimal, hexadecimal,
octal or binary, with a sign or without; a run of digits with a leading zero is
no number. Floating-point numbers are rounded to the nearest, and one that is
too large is no number.
-/
namespace TwigComponent.Yaml

open Decimal

/-- The reading of a plain scalar. -/
inductive Plain where
  | null
  | bool (value : Bool)
  /-- Any integer of at most 128 bits. -/
  | int (value : Int)
  | float (value : Number)
  | text
deriving DecidableEq, Repr

namespace Plain

def isNull (text : String) : Bool :=
  text == "null" || text == "Null" || text == "NULL" || text == "~"

def bool? (text : String) : Option Bool :=
  if text == "true" || text == "True" || text == "TRUE" then some true
  else if text == "false" || text == "False" || text == "FALSE" then some false
  else none

/-- The text after a leading plus sign, if there is one. -/
def dropPlus : List Char → List Char
  | '+' :: rest => rest
  | cs => cs

def dropSign : List Char → List Char
  | '+' :: rest => rest
  | '-' :: rest => rest
  | cs => cs

/-- Digits after a leading zero, which make no number. -/
def isZeroPadded (cs : List Char) : Bool :=
  match dropSign cs with
  | '0' :: c :: rest => (c :: rest).all Char.isDigit
  | _ => false

def digit? (radix : Nat) (c : Char) : Option Nat :=
  let value :=
    if c.isDigit then c.toNat - '0'.toNat
    else if 'a' ≤ c && c ≤ 'f' then c.toNat - 'a'.toNat + 10
    else if 'A' ≤ c && c ≤ 'F' then c.toNat - 'A'.toNat + 10
    else radix
  if value < radix then some value else none

/-- The number that one or more digits write. -/
def natural? (radix : Nat) : List Char → Option Nat
  | [] => none
  | cs => cs.foldlM (fun total c => (total * radix + ·) <$> digit? radix c) 0

def radix? : Char → Option Nat
  | 'x' => some 16
  | 'o' => some 8
  | 'b' => some 2
  | _ => none

/-- The digits after the mark of a radix. -/
def radixNatural? : List Char → Option Nat
  | '0' :: mark :: digits => (radix? mark).bind (natural? · digits)
  | _ => none

/-- An integer without a sign, or with a plus sign. -/
def unsigned? (cs : List Char) : Option Nat :=
  match radixNatural? (dropPlus cs) with
  | some value => some value
  | none => if isZeroPadded cs then none else natural? 10 (dropPlus cs)

/-- An integer with a minus sign. -/
def negative? : List Char → Option Nat
  | '-' :: cs =>
    match radixNatural? cs with
    | some value => some value
    | none => if isZeroPadded cs then none else natural? 10 cs
  | _ => none

/-- An integer of at most 128 bits, signed or unsigned. -/
def int? (cs : List Char) : Option Int :=
  match unsigned? cs, negative? cs with
  | some value, _ => if value < Nat.pow 2 128 then some value else none
  | none, some value => if value ≤ Nat.pow 2 127 then some (-(value : Int)) else none
  | none, none => none

/-- Digits with a fraction and an exponent, of which one digit before the exponent is needed. -/
def decimal? (negative : Bool) (cs : List Char) : Option Binary64 :=
  let whole := cs.takeWhile Char.isDigit
  let afterWhole := cs.dropWhile Char.isDigit
  let (fraction, afterFraction) :=
    match afterWhole with
    | '.' :: rest => (rest.takeWhile Char.isDigit, rest.dropWhile Char.isDigit)
    | rest => ([], rest)
  let exponent? : Option Int :=
    match afterFraction with
    | [] => some 0
    | mark :: rest =>
      if mark == 'e' || mark == 'E' then
        match rest with
        | '-' :: digits => (fun n => -(n : Int)) <$> natural? 10 digits
        | digits => (fun n => (n : Int)) <$> natural? 10 (dropPlus digits)
      else none
  match natural? 10 (whole ++ fraction), exponent? with
  | some digits, some exponent => Binary64.ofDecimal? negative digits (exponent - fraction.length)
  | _, _ => none

/-- A floating-point number. -/
def float? (text : String) : Option Number :=
  let cs := text.toList
  let positive := dropPlus cs
  if ["+.inf", "+.Inf", "+.INF", ".inf", ".Inf", ".INF"].contains text then some (.infinite false)
  else if ["-.inf", "-.Inf", "-.INF"].contains text then some (.infinite true)
  else if [".nan", ".NaN", ".NAN"].contains text then some .nan
  else
    match cs, positive with
    | '+' :: '+' :: _, _ => none
    | '+' :: '-' :: _, _ => none
    | _, '-' :: rest => .float <$> decimal? true rest
    | _, rest => .float <$> decimal? false rest

def ofText (text : String) : Plain :=
  if text == "" || isNull text then .null
  else
    match bool? text, int? text.toList with
    | some value, _ => .bool value
    | none, some value => .int value
    | none, none =>
      if isZeroPadded text.toList then .text
      else
        match float? text with
        | some value => .float value
        | none => .text

/-- Integers of a document have at most 64 bits. -/
def inRange (value : Int) : Bool := -Int.pow 2 63 ≤ value && value < Int.pow 2 64

/-- The value of a plain scalar, unless it is an integer that no document may hold. -/
def value? (text : String) : Option Yaml :=
  match ofText text with
  | .null => some .null
  | .bool value => some (.bool value)
  | .int value => if inRange value then some (.num (.int value)) else none
  | .float value => some (.num value)
  | .text => some (.str text)

end Plain

end TwigComponent.Yaml
