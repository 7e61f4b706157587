import TwigComponent.Json.Basic

/-!
# YAML values

The values of a YAML document, with mappings in the order written. Two values
are the same key of a mapping when they are equal in the sense of `same`: the
order of a mapping does not count, an integer never equals a floating-point
number, and not-a-number equals itself.
-/
namespace TwigComponent

open Decimal

/-- Integers lie between `-2 ^ 63` and `2 ^ 64 - 1`. -/
inductive Yaml.Number where
  | int (value : Int)
  | float (value : Binary64)
  | infinite (negative : Bool)
  | nan
deriving DecidableEq, Repr

inductive Yaml where
  | null
  | bool (value : Bool)
  | num (value : Yaml.Number)
  | str (value : String)
  | seq (items : List Yaml)
  | map (entries : List (Yaml × Yaml))
  /-- A value under a tag of the application, whose name is without its mark. -/
  | tagged (name : String) (value : Yaml)
deriving Repr, Inhabited

namespace Yaml

/-- Exponents from `-5` to `15` are written positionally, the others with an exponent that has a
sign only below zero. -/
def numberLayout : Layout := ⟨-5, 15, ""⟩

def Number.text : Number → String
  | .int value => toString value
  | .float value => value.text numberLayout
  | .infinite false => ".inf"
  | .infinite true => "-.inf"
  | .nan => ".nan"

/-- Both zeros are the same number. -/
def Number.same : Number → Number → Bool
  | .float x, .float y => x == y || (x.isZero && y.isZero)
  | x, y => x == y

mutual

/-- Whether two values are the same key. -/
def same : Yaml → Yaml → Bool
  | .null, .null => true
  | .bool x, .bool y => x == y
  | .num x, .num y => x.same y
  | .str x, .str y => x == y
  | .seq xs, .seq ys => sameItems xs ys
  | .map xs, .map ys => xs.length == ys.length && sameEntries xs ys
  | .tagged name x, .tagged name' y => name == name' && same x y
  | _, _ => false

def sameItems : List Yaml → List Yaml → Bool
  | [], [] => true
  | x :: xs, y :: ys => same x y && sameItems xs ys
  | _, _ => false

/-- Whether every entry of the first list is one of the second. -/
def sameEntries : List (Yaml × Yaml) → List (Yaml × Yaml) → Bool
  | [], _ => true
  | (key, value) :: rest, ys =>
    ys.any (fun entry => same key entry.1 && same value entry.2) && sameEntries rest ys

end

instance : BEq Yaml := ⟨same⟩

/-- The text of a string, a tagged one included. -/
def text? : Yaml → Option String
  | .str value => some value
  | .tagged _ value => text? value
  | _ => none

/-- What the value is, in words. -/
def describe : Yaml → String
  | .null => "null"
  | .bool _ => "a boolean"
  | .num _ => "a number"
  | .str _ => "a string"
  | .seq _ => "a sequence"
  | .map _ => "a mapping"
  | .tagged _ _ => "a tagged value"

mutual

def ofJson : Json → Yaml
  | .null => .null
  | .bool value => .bool value
  | .num (.int value) => .num (.int value)
  | .num (.float value) => .num (.float value)
  | .str value => .str value
  | .arr items => .seq (ofJsonItems items)
  | .obj members => .map (ofJsonMembers members)

def ofJsonItems : List Json → List Yaml
  | [] => []
  | item :: rest => ofJson item :: ofJsonItems rest

def ofJsonMembers : List (String × Json) → List (Yaml × Yaml)
  | [] => []
  | (key, value) :: rest => (.str key, ofJson value) :: ofJsonMembers rest

end

end Yaml

end TwigComponent
