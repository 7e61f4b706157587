/-!
# Reading positions

The rest of a text with the place where it begins. Lines end with a line feed, a
carriage return, both in this order, a next-line character, or a line or
paragraph separator. The first four kinds are read as a line feed.
-/
namespace TwigComponent.Yaml

def isBreak (c : Char) : Bool :=
  c == '\n' || c == '\r' || c == '\u0085' || c == '\u2028' || c == '\u2029'

def isSpacing (c : Char) : Bool := c == ' ' || c == '\t'

/-- Letters and digits are those of ASCII. -/
def isWordChar (c : Char) : Bool := c.isAlphanum || c == '_' || c == '-'

/-- Characters that a document may hold. -/
def isAllowed (c : Char) : Bool :=
  let n := c.toNat
  c == '\t' || c == '\n' || c == '\r' || (0x20 ≤ n && n ≤ 0x7e) || n == 0x85
    || (0xa0 ≤ n && n ≤ 0xd7ff) || (0xe000 ≤ n && n ≤ 0xfffd) || 0x10000 ≤ n

/-- Whether a word ends before this character; the end of the text ends it too. -/
def endsWord : Option Char → Bool
  | none => true
  | some c => isSpacing c || isBreak c

def endsLine : Option Char → Bool
  | none => true
  | some c => isBreak c

/-- A line break as it is read. -/
def breakChar (c : Char) : Char :=
  if c == '\u2028' || c == '\u2029' then c else '\n'

structure Cursor where
  rest : List Char
  index : Nat := 0
  line : Nat := 0
  column : Nat := 0
deriving Repr

namespace Cursor

def head? (cursor : Cursor) : Option Char := cursor.rest.head?

/-- The character `n` places ahead. -/
def at? (cursor : Cursor) (n : Nat) : Option Char := cursor.rest[n]?

/-- Moves over characters of one line. -/
def advance (cursor : Cursor) (n : Nat) : Cursor where
  rest := cursor.rest.drop n
  index := cursor.index + n
  line := cursor.line
  column := cursor.column + n

/-- Moves over a line break. -/
def nextLine (cursor : Cursor) : Cursor :=
  match cursor.rest with
  | '\r' :: '\n' :: rest => ⟨rest, cursor.index + 2, cursor.line + 1, 0⟩
  | c :: rest => if isBreak c then ⟨rest, cursor.index + 1, cursor.line + 1, 0⟩ else cursor
  | [] => cursor

/-- The characters of this line up to the first that fails the test, and the place after them. -/
def takeWhile (cursor : Cursor) (test : Char → Bool) : List Char × Cursor :=
  let taken := cursor.rest.takeWhile test
  (taken, cursor.advance taken.length)

def skipWhile (cursor : Cursor) (test : Char → Bool) : Cursor := (cursor.takeWhile test).2

/-- Moves to the end of the line. -/
def skipLineRest (cursor : Cursor) : Cursor := cursor.skipWhile fun c => !isBreak c

/-- Moves over a byte order mark at the start of a line. It counts as a column. -/
def skipOrderMark (cursor : Cursor) : Cursor :=
  if cursor.column == 0 && cursor.head? == some '\ufeff' then cursor.advance 1 else cursor

/-- Moves over a comment, if there is one. -/
def skipComment (cursor : Cursor) : Cursor :=
  if cursor.head? == some '#' then cursor.skipLineRest else cursor

/-- Moves over spacing and a comment to the end of the line and over the line break, if nothing
else is on the line. -/
def finishLine? (cursor : Cursor) : Option Cursor :=
  let stop := (cursor.skipWhile isSpacing).skipComment
  if endsLine stop.head? then some stop.nextLine else none

/-- Whether three of the given character stand alone at the start of a line. -/
def atMarker (cursor : Cursor) (mark : Char) : Bool :=
  cursor.column == 0 && cursor.rest.take 3 == [mark, mark, mark] && endsWord (cursor.at? 3)

def atDocumentMarker (cursor : Cursor) : Bool := cursor.atMarker '-' || cursor.atMarker '.'

end Cursor

end TwigComponent.Yaml
