/-!
# Lines of a text

A line starts at the beginning of the text and after every newline byte. The
index records those starts once and then answers positions by look-up. Lines
and columns count from zero, columns in bytes.
-/
namespace TwigComponent.Text

structure Position where
  line : Nat
  column : Nat
deriving DecidableEq, Repr

/-- The bytes of the UTF-8 form. -/
def bytes (text : String) : List UInt8 :=
  text.toUTF8.data.toList

/-- The offsets right after each newline byte, where `offset` bytes stand before `bs`. -/
def startsFrom (offset : Nat) : List UInt8 → List Nat
  | [] => []
  | b :: bs => if b = 10 then (offset + 1) :: startsFrom (offset + 1) bs else startsFrom (offset + 1) bs

structure LineIndex where
  starts : List Nat
  size : Nat
deriving Repr

def LineIndex.ofText (text : String) : LineIndex where
  starts := 0 :: startsFrom 0 (bytes text)
  size := (bytes text).length

/-- The number of the last line that starts at or before `offset`, and the distance to
that start. No offset past the end of the text has a position. -/
def LineIndex.position? (index : LineIndex) (offset : Nat) : Option Position :=
  if index.size < offset then
    none
  else
    let reached := index.starts.takeWhile (· ≤ offset)
    some ⟨reached.length - 1, offset - reached.getLastD 0⟩

end TwigComponent.Text
