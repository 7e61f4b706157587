import TwigComponent.Decimal.Shortest

/-!
# JSON values

Objects keep their members in the order written and may repeat a key; what a
repeated key means is up to the reader of the value. A number is either an
integer of 64 bits, signed or unsigned, or a binary64 value.
-/
namespace TwigComponent

open Decimal

/-- Integers lie between `-2 ^ 63` and `2 ^ 64 - 1`. -/
inductive Json.Number where
  | int (value : Int)
  | float (value : Binary64)
deriving DecidableEq, Repr

inductive Json where
  | null
  | bool (value : Bool)
  | num (value : Json.Number)
  | str (value : String)
  | arr (items : List Json)
  | obj (members : List (String × Json))
deriving Repr, Inhabited

namespace Json

/-- Exponents from `-5` to `15` are written positionally, the others with a signed exponent. -/
def numberLayout : Layout := ⟨-5, 15, "+"⟩

def Number.text : Number → String
  | .int value => toString value
  | .float value => value.text numberLayout

/-- The number with the other sign. An integer beyond the signed range becomes a floating-point
number, and the least integer has no negation. -/
def Number.negate? : Number → Option Number
  | .int value =>
    if Int.pow 2 63 ≤ value then Number.float <$> Binary64.nearest? true value.toNat 1
    else if value = -Int.pow 2 63 then none
    else some (.int (-value))
  | .float value => some (.float value.neg)

def ofNat (n : Nat) : Json := .num (.int n)

/-- The first value under a key, if the value is an object that has it. -/
def get? (key : String) : Json → Option Json
  | .obj members => members.lookup key
  | _ => none

/-- Puts a member where its key belongs, unless the key is there already. -/
def insertAbsent (key : String) (value : Json) : List (String × Json) → List (String × Json)
  | [] => [(key, value)]
  | (k, v) :: rest =>
    if key = k then (k, v) :: rest
    else if key < k then (key, value) :: (k, v) :: rest
    else (k, v) :: insertAbsent key value rest

mutual

/-- The same value with the members of every object ordered by key, code point by code point.
Of a repeated key the last value stays. -/
def sortKeys : Json → Json
  | .arr items => .arr (sortKeysItems items)
  | .obj members => .obj (sortKeysMembers members)
  | value => value

def sortKeysItems : List Json → List Json
  | [] => []
  | item :: rest => sortKeys item :: sortKeysItems rest

def sortKeysMembers : List (String × Json) → List (String × Json)
  | [] => []
  | (key, value) :: rest => insertAbsent key (sortKeys value) (sortKeysMembers rest)

end

end Json

end TwigComponent
