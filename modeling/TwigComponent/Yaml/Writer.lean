import TwigComponent.Yaml.Event
import TwigComponent.Yaml.Style

/-!
# Writing documents

Collections are written in block style, one entry to a line, and empty ones as
brackets. A sequence that is the value of a key stands at the indentation of the
key, every other collection two columns further in. A collection that follows
the mark of a sequence item begins on the line of the mark.
-/
namespace TwigComponent.Yaml

def indentation (width : Nat) : String := String.ofList (List.replicate width ' ')

/-- Ends the last line, unless it is ended already. -/
def endLine (text : String) : String :=
  if text.toList.getLast?.any isBreak then text else text ++ "\n"

/-- Items one below the other. The first stands where the text begins. -/
def stack (width : Nat) : List String → String
  | [] => ""
  | [item] => item
  | item :: rest => endLine item ++ indentation width ++ stack width rest

def upperHex (n : Nat) : Char :=
  if n < 10 then Char.ofNat ('0'.toNat + n) else Char.ofNat ('A'.toNat + (n - 10))

/-- The lowest hexadecimal digits of a number. -/
def hexDigits : Nat → Nat → List Char
  | 0, _ => []
  | count + 1, n => hexDigits count (n / 16) ++ [upperHex (n % 16)]

/-- A character in double quotes. -/
def escapeChar (c : Char) : List Char :=
  if isPrintable c && !isBreak c && c != '"' && c != '\\' then [c]
  else
    '\\' ::
      match c with
      | '\x00' => ['0']
      | '\x07' => ['a']
      | '\x08' => ['b']
      | '\t' => ['t']
      | '\n' => ['n']
      | '\x0b' => ['v']
      | '\x0c' => ['f']
      | '\r' => ['r']
      | '\x1b' => ['e']
      | '"' => ['"']
      | '\\' => ['\\']
      | '\u0085' => ['N']
      | '\u2028' => ['L']
      | '\u2029' => ['P']
      | c =>
        let n := c.toNat
        if n ≤ 0xff then 'x' :: hexDigits 2 n
        else if n ≤ 0xffff then 'u' :: hexDigits 4 n
        else 'U' :: hexDigits 8 n

def doubleQuoted (text : String) : String :=
  "\"" ++ String.ofList (text.toList.flatMap escapeChar) ++ "\""

/-- The characters of a text whose lines after a break are indented. `write` gives the form of
a character, and the flag says whether a line begins here. -/
def indentLines (width : Nat) (write : Char → List Char) : Bool → List Char → List Char
  | _, [] => []
  | atStart, c :: rest =>
    if isBreak c then c :: indentLines width write true rest
    else
      (if atStart then List.replicate width ' ' else []) ++ write c
        ++ indentLines width write false rest

/-- A quote is written twice. A line break in the text indents the next line, the closing quote
included. -/
def singleQuoted (width : Nat) (text : String) : String :=
  let cs := text.toList
  let close := if cs.getLast?.any isBreak then List.replicate width ' ' else []
  let content := indentLines width (fun c => if c == '\'' then ['\'', '\''] else [c]) false cs
  "'" ++ String.ofList (content ++ close) ++ "'"

/-- The marks of a literal block: the indentation if the text begins with a blank, and whether
the line breaks at its end are none, one or several. -/
def literalHeader (cs : List Char) : String :=
  let hint := if cs.head?.any fun c => c == ' ' || isBreak c then "2" else ""
  let chomp :=
    match cs.reverse with
    | [] => "-"
    | [last] => if isBreak last then "+" else "-"
    | last :: before :: _ =>
      if !isBreak last then "-" else if isBreak before then "+" else ""
  "|" ++ hint ++ chomp

def literalBlock (width : Nat) (text : String) : String :=
  literalHeader text.toList ++ "\n"
    ++ String.ofList (indentLines width (fun c => [c]) true text.toList)

/-- A string at a place where its later lines are indented by `width`. -/
def stringText (isKey : Bool) (width : Nat) (text : String) : String :=
  match stringStyle isKey text with
  | .plain => text
  | .singleQuoted => singleQuoted width text
  | .doubleQuoted => doubleQuoted text
  | .literal => literalBlock width text

/-- Characters that a tag may hold as they are. -/
def isPlainTagChar (c : Char) : Bool :=
  isWordChar c || ";/?:@&=+$,.~*'()[]".toList.contains c

def escapeTagChar (c : Char) : List Char :=
  if isPlainTagChar c then [c]
  else (String.singleton c).toUTF8.toList.flatMap fun octet => '%' :: hexDigits 2 octet.toNat

def escapeTag (cs : List Char) : String := String.ofList (cs.flatMap escapeTagChar)

/-- The tag with a name. A mark that the name begins with is its mark. -/
def tagOfName (name : String) : List Char :=
  if name.toList.head? == some '!' then name.toList else '!' :: name.toList

/-- A tag after its mark. The mark alone needs angle brackets. -/
def tagText (name : String) : String :=
  match tagOfName name with
  | [mark] => "!<" ++ escapeTag [mark] ++ ">"
  | tag => "!" ++ escapeTag tag.tail

/-- A scalar or an empty collection at a place where later lines are indented by `width`. -/
def inlineText? (isKey : Bool) (width : Nat) : Yaml → Option String
  | .null => some "null"
  | .bool true => some "true"
  | .bool false => some "false"
  | .num value => some value.text
  | .str text => some (stringText isKey width text)
  | .seq [] => some "[]"
  | .map [] => some "\x7b\x7d"
  | _ => none

/-- The length of a key as far as it decides on its form. Keys of several lines have none. -/
def keyLength? : Yaml → Option Nat
  | .null => some 4
  | .bool value => some (if value then 4 else 5)
  | .num value => some value.text.utf8ByteSize
  | .str text => if (Shape.ofText text).multiline then none else some text.utf8ByteSize
  | .seq [] => some 0
  | .map [] => some 0
  | .tagged name value => (· + (String.ofList (tagOfName name)).utf8ByteSize) <$> keyLength? value
  | _ => none

/-- The text of a key that stands on one line with its value. -/
def simpleKeyText : Yaml → String
  | .tagged name value => tagText name ++ " " ++ simpleKeyText value
  | key => (inlineText? true 0 key).getD ""

/-- A key of at most 128 bytes on one line stands before its value. -/
def simpleKey? (key : Yaml) : Option String :=
  match keyLength? key with
  | some length => if length ≤ 128 then some (simpleKeyText key) else none
  | none => none

/-- Where a node stands. -/
structure Place where
  /-- The indentation of the collection around it. -/
  outer : Nat
  /-- The indentation of a collection that begins here. -/
  inner : Nat
  inMapping : Bool
  /-- What separates it from the text before it. -/
  gap : String
  /-- Whether a collection may begin on this line. -/
  fresh : Bool

namespace Place

def root : Place := ⟨0, 0, false, "", true⟩

/-- After the mark of a sequence item. -/
def item (width : Nat) : Place := ⟨width, width + 2, false, " ", true⟩

/-- After the mark of an explicit key or of its value. -/
def explicit (width : Nat) : Place := ⟨width, width + 2, true, " ", true⟩

/-- After a key and its colon. -/
def value (width : Nat) : Place := ⟨width, width + 2, true, " ", false⟩

def afterTag (place : Place) : Place := { place with gap := " ", fresh := false }

/-- The indentation of a sequence here. -/
def sequenceWidth (place : Place) : Nat :=
  if place.inMapping && !place.fresh then place.outer else place.inner

/-- The items of a collection, on this line or below it. -/
def block (place : Place) (width : Nat) (items : List String) : String :=
  (if place.fresh then place.gap else "\n" ++ indentation width) ++ stack width items

end Place

mutual

/-- The text of a node, from the separator before it. -/
def nodeText (place : Place) : Yaml → String
  | .tagged name value => place.gap ++ tagText name ++ nodeText place.afterTag value
  | .seq (item :: rest) =>
    place.block place.sequenceWidth (itemTexts place.sequenceWidth (item :: rest))
  | .map (entry :: rest) => place.block place.inner (entryTexts place.inner (entry :: rest))
  | scalar => place.gap ++ (inlineText? false (place.outer + 2) scalar).getD ""

def itemTexts (width : Nat) : List Yaml → List String
  | [] => []
  | item :: rest => ("-" ++ nodeText (.item width) item) :: itemTexts width rest

def entryTexts (width : Nat) : List (Yaml × Yaml) → List String
  | [] => []
  | (key, value) :: rest =>
    (match simpleKey? key with
      | some text => text ++ ":" ++ nodeText (.value width) value
      | none =>
        endLine ("?" ++ nodeText (.explicit width) key) ++ indentation width ++ ":"
          ++ nodeText (.explicit width) value)
      :: entryTexts width rest

end

/-- The text of a document, if its events fit together. -/
def text (document : Yaml) : Except WriteFault String := do
  checkEvents document
  return endLine (nodeText .root document)

end TwigComponent.Yaml
