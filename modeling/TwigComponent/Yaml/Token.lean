import TwigComponent.Yaml.Scalar
import TwigComponent.Yaml.Tag

/-!
# Tags, anchors and directives

The tokens of a document, and the readers of those that are words: names of
anchors, tags and the values of directives.
-/
namespace TwigComponent.Yaml

inductive Token where
  | version (major minor : Nat)
  | tagDirective (handle : String) (uri : Octets)
  | documentStart
  | documentEnd
  | blockSequenceStart
  | blockMappingStart
  | blockEnd
  | flowSequenceStart
  | flowSequenceEnd
  | flowMappingStart
  | flowMappingEnd
  | blockEntry
  | flowEntry
  | key
  | value
  | alias (name : String)
  | anchor (name : String)
  | tag (handle : String) (suffix : Octets)
  | scalar (text : String) (plain : Bool)
deriving DecidableEq, Repr, Inhabited

/-- Reads the name of an anchor or an alias. -/
def readName (cursor : Cursor) : Option (String × Cursor) :=
  let (name, stop) := cursor.takeWhile isWordChar
  let ends := endsWord stop.head? || stop.head?.any "?:,]\x7d%@`".toList.contains
  if name.isEmpty || !ends then none else some (String.ofList name, stop)

/-- Characters of a tag, beside word characters and escapes. -/
def isTagChar (verbatim : Bool) (c : Char) : Bool :=
  isWordChar c || ";/?:@&=+$.!~*'()".toList.contains c || (verbatim && ",[]".toList.contains c)

/-- A percent sign and two hexadecimal digits. -/
def readOctet : List Char → Option (Nat × List Char)
  | '%' :: a :: b :: rest => do
    let code ← hexNumber? [a, b]
    some (code, rest)
  | _ => none

/-- The octets after the first of a character. -/
def readTrailing : Nat → List Char → Option Octets
  | 0, _ => some []
  | count + 1, cs => do
    let (octet, rest) ← readOctet cs
    if octet / 64 == 2 then (octet.toUInt8 :: ·) <$> readTrailing count rest else none

/-- How many octets follow the first one of a character. -/
def trailingCount? (octet : Nat) : Option Nat :=
  if octet < 0x80 then some 0
  else if octet / 32 == 6 then some 1
  else if octet / 16 == 14 then some 2
  else if octet / 8 == 30 then some 3
  else none

/-- The escaped octets of a character. Only their number and their high bits are looked at, so
they need not stand for one. -/
def readEscapedOctets (cs : List Char) : Option Octets := do
  let (octet, rest) ← readOctet cs
  let count ← trailingCount? octet
  let trailing ← readTrailing count rest
  some (octet.toUInt8 :: trailing)

/-- Reads characters of a tag. -/
def readTagText (verbatim : Bool) : Nat → Octets → Cursor → Option (Octets × Cursor)
  | 0, text, cursor => some (text, cursor)
  | fuel + 1, text, cursor =>
    match cursor.head? with
    | none => some (text, cursor)
    | some c =>
      if c == '%' then do
        let octets ← readEscapedOctets cursor.rest
        readTagText verbatim fuel (text ++ octets) (cursor.advance (3 * octets.length))
      else if isTagChar verbatim c then
        readTagText verbatim fuel (text ++ [octetOf c]) (cursor.advance 1)
      else some (text, cursor)

/-- Reads an exclamation mark, a word and, if there is one, a second mark. -/
def readHandle (cursor : Cursor) : Option (List Char × Cursor) :=
  if cursor.head? == some '!' then
    let (word, stop) := (cursor.advance 1).takeWhile isWordChar
    if stop.head? == some '!' then some ('!' :: word ++ ['!'], stop.advance 1)
    else some ('!' :: word, stop)
  else none

/-- Reads a tag: in angle brackets, with a named handle, or with the handle `!`. A tag of its mark
alone has no handle. -/
def readTag (inFlow : Bool) (fuel : Nat) (cursor : Cursor) : Option (Token × Cursor) := do
  let (handle, suffix, stop) ←
    if cursor.at? 1 == some '<' then do
      let (uri, stop) ← readTagText true fuel [] (cursor.advance 2)
      if uri.isEmpty || stop.head? != some '>' then none
      else some ([], untilNull uri, stop.advance 1)
    else do
      let (handle, stop) ← readHandle cursor
      if 1 < handle.length && handle.getLast? == some '!' then do
        let (suffix, stop) ← readTagText false fuel [] stop
        if suffix.isEmpty then none else some (handle, untilNull suffix, stop)
      else do
        let (suffix, stop) ← readTagText false fuel (handle.tail.map octetOf) stop
        match untilNull suffix with
        | [] => some ([], Tag.mark.octets, stop)
        | suffix => some (['!'], suffix, stop)
  if endsWord stop.head? || (inFlow && stop.head? == some ',') then
    some (.tag (String.ofList handle) suffix, stop)
  else none

/-- Reads a number of at most nine digits. -/
def readVersionNumber (cursor : Cursor) : Option (Nat × Cursor) :=
  let (digits, stop) := cursor.takeWhile Char.isDigit
  if digits.isEmpty || 9 < digits.length then none
  else some (digits.foldl (fun total c => total * 10 + (c.toNat - '0'.toNat)) 0, stop)

def readVersion (cursor : Cursor) : Option (Token × Cursor) := do
  let (major, stop) ← readVersionNumber (cursor.skipWhile isSpacing)
  if stop.head? == some '.' then
    let (minor, stop) ← readVersionNumber (stop.advance 1)
    some (.version major minor, stop)
  else none

def readTagDirective (fuel : Nat) (cursor : Cursor) : Option (Token × Cursor) := do
  let (handle, stop) ← readHandle (cursor.skipWhile isSpacing)
  if handle != ['!'] && handle.getLast? != some '!' then none
  else if !stop.head?.any isSpacing then none
  else
    let (uri, stop) ← readTagText true fuel [] (stop.skipWhile isSpacing)
    if uri.isEmpty || !endsWord stop.head? then none
    else some (.tagDirective (String.ofList handle) (untilNull uri), stop)

/-- Reads a directive with the line it stands on. -/
def readDirective (fuel : Nat) (cursor : Cursor) : Option (Token × Cursor) := do
  let (name, stop) := (cursor.advance 1).takeWhile isWordChar
  if !endsWord stop.head? then none
  else
    let (token, stop) ←
      if name == "YAML".toList then readVersion stop
      else if name == "TAG".toList then readTagDirective fuel stop
      else none
    let stop ← stop.finishLine?
    some (token, stop)

end TwigComponent.Yaml
