import TwigComponent.Yaml.Cursor
import TwigComponent.Yaml.Plain

/-!
# How a string is written

A string is written plain if it then reads back as the same string, as a literal
block if it has several lines, and else in single quotes. Characters that cannot
be printed, and blanks where folding would lose them, need double quotes.
-/
namespace TwigComponent.Yaml

inductive Style where
  | plain
  | singleQuoted
  | doubleQuoted
  | literal
deriving DecidableEq, Repr

/-- Characters that may stand for themselves. -/
def isPrintable (c : Char) : Bool :=
  let n := c.toNat
  c == '\n' || (0x20 ≤ n && n ≤ 0x7e) || (0xa0 ≤ n && n ≤ 0xd7ff)
    || (0xe000 ≤ n && n ≤ 0xfffd && n != 0xfeff) || 0x10000 ≤ n

/-- Whether two characters that pass the tests stand one after the other. -/
def hasAdjacent (first second : Char → Bool) : List Char → Bool
  | a :: b :: rest => (first a && second b) || hasAdjacent first second (b :: rest)
  | _ => false

/-- The next character ends a word. A null character does so too. -/
def endsPlainWord (next : Option Char) : Bool := endsWord next || next == some '\x00'

/-- Whether the text begins like a mark of the syntax. -/
def startsLikeMark : List Char → Bool
  | c :: rest =>
    "#,[]\x7b\x7d&*!|>'\"%@`".toList.contains c
      || ("?:-".toList.contains c && endsPlainWord rest.head?)
  | [] => false

/-- Whether a later character could be read as a mark: a colon that ends a word, or a number sign
that begins one. -/
def containsMark : List Char → Bool
  | a :: b :: rest =>
    (b == ':' && endsPlainWord rest.head?) || (b == '#' && endsPlainWord (some a))
      || containsMark (b :: rest)
  | _ => false

/-- What decides on the style of a text. -/
structure Shape where
  /-- Whether it has a line break of any kind. -/
  multiline : Bool
  plainAllowed : Bool
  singleAllowed : Bool
  blockAllowed : Bool
deriving DecidableEq, Repr

def Shape.ofText (text : String) : Shape :=
  let cs := text.toList
  let isSpace (c : Char) : Bool := c == ' '
  let edges := [cs.head?, cs.getLast?]
  let blankEdge := edges.any fun c => c.any fun c => isSpace c || isBreak c
  let multiline := cs.any isBreak
  let special := !cs.all isPrintable || hasAdjacent isSpace isBreak cs
  let breakBeforeSpace := hasAdjacent isBreak isSpace cs
  let marked :=
    text.startsWith "---" || text.startsWith "..." || startsLikeMark cs || containsMark cs
  if cs.isEmpty then ⟨false, true, true, false⟩
  else
    { multiline := multiline
      plainAllowed := !blankEdge && !breakBeforeSpace && !special && !multiline && !marked
      singleAllowed := !breakBeforeSpace && !special
      blockAllowed := !cs.getLast?.any isSpace && !special }

/-- Whether a plain scalar with this text would be taken for something else, or be mistaken for a
number by eye. -/
def needsQuotes (text : String) : Bool :=
  Plain.ofText text != .text || Plain.isZeroPadded text.toList

/-- The style of a string. A string that is a key on one line with its value is never a block. -/
def stringStyle (isKey : Bool) (text : String) : Style :=
  let shape := Shape.ofText text
  let wanted : Style :=
    if text.toList.contains '\n' then .literal
    else if needsQuotes text then .singleQuoted
    else .plain
  let wanted : Style := if isKey && shape.multiline then .doubleQuoted else wanted
  match wanted with
  | .literal => if shape.blockAllowed && !isKey then .literal else .doubleQuoted
  | .doubleQuoted => .doubleQuoted
  | .singleQuoted => if shape.singleAllowed then .singleQuoted else .doubleQuoted
  | .plain =>
    if shape.plainAllowed then .plain
    else if shape.singleAllowed then .singleQuoted
    else .doubleQuoted

end TwigComponent.Yaml
