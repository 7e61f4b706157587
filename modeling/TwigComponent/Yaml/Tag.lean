/-!
# Tags

A tag is a string of octets, since escapes may write any of them. A null octet
ends it, whatever follows. A tag that begins with a mark belongs to the
application, and its name is what stands after the mark, or after two of them; a
tag of marks alone is named by one.
-/
namespace TwigComponent.Yaml

abbrev Octets := List UInt8

/-- The octets before the first null. -/
def untilNull (octets : Octets) : Octets := octets.takeWhile (· != 0)

def octetOf (c : Char) : UInt8 := c.toNat.toUInt8

structure Tag where
  octets : Octets
deriving DecidableEq, Repr

namespace Tag

/-- The mark alone. -/
def mark : Tag := ⟨[octetOf '!']⟩

/-- Whether the tag belongs to the application. -/
def isLocal (tag : Tag) : Bool := tag.octets.head? == some (octetOf '!')

/-- The text of the tag, if it is one. -/
def text? (tag : Tag) : Option String := String.fromUTF8? ⟨tag.octets.toArray⟩

/-- Drops a mark, unless nothing else is left. -/
def dropMark : List Char → List Char
  | '!' :: c :: rest => c :: rest
  | cs => cs

/-- The name of a tag of the application. A tag that is no text has none. -/
def name? (tag : Tag) : Option String :=
  if tag.isLocal then
    tag.text?.map fun text => String.ofList (dropMark (dropMark text.toList))
  else none

end Tag

end TwigComponent.Yaml
