import TwigComponent.Yaml.Cursor

/-!
# Scalars

The four ways to write a scalar: plain, in single or double quotes, and as a
block. Plain and quoted scalars fold their lines: a single line break is a space,
and of several the first is dropped. Each reader takes a bound on the number of
its steps, for which the length of the text is enough, and gives nothing for a
text that is not well formed.
-/
namespace TwigComponent.Yaml

/-- The blanks between two words: spacing of one line, or line breaks with whatever spacing is
around them. -/
structure Gap where
  spacing : List Char := []
  /-- Whether there is a line break. -/
  broken : Bool := false
  /-- The first line break. -/
  lead : List Char := []
  /-- The other line breaks. -/
  more : List Char := []

/-- The text that the blanks stand for. -/
def Gap.text (gap : Gap) : List Char :=
  if !gap.broken then gap.spacing
  else if gap.lead == ['\n'] then
    if gap.more.isEmpty then [' '] else gap.more
  else gap.lead ++ gap.more

/-- Reads blanks. A tab on a later line must not stand left of the given column. -/
def readGap (tabColumn : Nat) : Nat → Gap → Cursor → Option (Gap × Cursor)
  | 0, gap, cursor => some (gap, cursor)
  | fuel + 1, gap, cursor =>
    match cursor.rest with
    | [] => some (gap, cursor)
    | c :: _ =>
      if isSpacing c then
        if gap.broken then
          if c == '\t' && cursor.column < tabColumn then none
          else readGap tabColumn fuel gap (cursor.advance 1)
        else readGap tabColumn fuel { gap with spacing := gap.spacing ++ [c] } (cursor.advance 1)
      else if isBreak c then
        if gap.broken then
          readGap tabColumn fuel { gap with more := gap.more ++ [breakChar c] } cursor.nextLine
        else
          readGap tabColumn fuel { broken := true, lead := [breakChar c] } cursor.nextLine
      else some (gap, cursor)

/-- A word of a plain scalar. Inside brackets some characters end it, and a colon must not stand
before one of them. -/
def plainWord (inFlow : Bool) : List Char → Option (List Char)
  | [] => some []
  | c :: rest =>
    if endsWord (some c) then some []
    else if inFlow && c == ':' && rest.head?.any ",?[]\x7b\x7d".toList.contains then none
    else if c == ':' && endsWord rest.head? then some []
    else if inFlow && ",[]\x7b\x7d".toList.contains c then some []
    else (c :: ·) <$> plainWord inFlow rest

/-- A scalar with the place after it. -/
structure Scanned where
  text : List Char
  cursor : Cursor
  /-- Whether it ends on a later line than its text. -/
  broken : Bool := false

/-- Reads a plain scalar whose later lines are indented by at least `indent`. -/
def readPlain (inFlow : Bool) (indent : Nat) : Nat → List Char → Gap → Cursor → Option Scanned
  | 0, text, gap, cursor => some ⟨text, cursor, gap.broken⟩
  | fuel + 1, text, gap, cursor =>
    if cursor.atDocumentMarker || cursor.head? == some '#' then some ⟨text, cursor, gap.broken⟩
    else do
      let word ← plainWord inFlow cursor.rest
      let cursor := cursor.advance word.length
      let (text, gap) := if word.isEmpty then (text, gap) else (text ++ gap.text ++ word, {})
      match cursor.head? with
      | none => some ⟨text, cursor, gap.broken⟩
      | some c =>
        if isSpacing c || isBreak c then
          let (gap, cursor) ← readGap indent (fuel + 1) {} cursor
          if !inFlow && cursor.column < indent then some ⟨text, cursor, gap.broken⟩
          else readPlain inFlow indent fuel text gap cursor
        else some ⟨text, cursor, gap.broken⟩

/-- What a character after a backslash stands for. -/
def escape? : Char → Option Char
  | '0' => some '\x00'
  | 'a' => some '\x07'
  | 'b' => some '\x08'
  | 't' => some '\t'
  | '\t' => some '\t'
  | 'n' => some '\n'
  | 'v' => some '\x0b'
  | 'f' => some '\x0c'
  | 'r' => some '\r'
  | 'e' => some '\x1b'
  | ' ' => some ' '
  | '"' => some '"'
  | '/' => some '/'
  | '\\' => some '\\'
  | 'N' => some '\u0085'
  | '_' => some '\u00a0'
  | 'L' => some '\u2028'
  | 'P' => some '\u2029'
  | _ => none

/-- How many hexadecimal digits follow a character after a backslash. -/
def escapeDigits? : Char → Option Nat
  | 'x' => some 2
  | 'u' => some 4
  | 'U' => some 8
  | _ => none

def hexDigit? (c : Char) : Option Nat :=
  if c.isDigit then some (c.toNat - '0'.toNat)
  else if 'a' ≤ c && c ≤ 'f' then some (c.toNat - 'a'.toNat + 10)
  else if 'A' ≤ c && c ≤ 'F' then some (c.toNat - 'A'.toNat + 10)
  else none

def hexNumber? (digits : List Char) : Option Nat :=
  digits.foldlM (fun total c => (total * 16 + ·) <$> hexDigit? c) 0

/-- The character with a code point, unless it is a surrogate or out of range. -/
def charOfCode? (code : Nat) : Option Char :=
  if code.isValidChar then some (Char.ofNat code) else none

/-- An escape sequence after its backslash: the character and how many were read. -/
def readEscape (cs : List Char) : Option (Char × Nat) :=
  match cs with
  | [] => none
  | c :: rest =>
    match escapeDigits? c with
    | some count =>
      if rest.length < count then none
      else do
        let code ← hexNumber? (rest.take count)
        let value ← charOfCode? code
        some (value, count + 1)
    | none => (fun value => (value, 1)) <$> escape? c

/-- Reads a word of a quoted scalar: up to blanks, the closing quote or an escaped line break,
which is skipped. The flag says whether there was one. -/
def quotedWord (quote : Char) : Nat → List Char → Cursor → Option (List Char × Bool × Cursor)
  | 0, word, cursor => some (word, false, cursor)
  | fuel + 1, word, cursor =>
    match cursor.rest with
    | [] => some (word, false, cursor)
    | c :: rest =>
      if endsWord (some c) then some (word, false, cursor)
      else if c == quote then
        if quote == '\'' && rest.head? == some '\'' then
          quotedWord quote fuel (word ++ ['\'']) (cursor.advance 2)
        else some (word, false, cursor)
      else if c == '\\' && quote == '"' then
        if rest.head?.any isBreak then some (word, true, (cursor.advance 1).nextLine)
        else
          match readEscape rest with
          | some (value, count) =>
            quotedWord quote fuel (word ++ [value]) (cursor.advance (count + 1))
          | none => none
      else quotedWord quote fuel (word ++ [c]) (cursor.advance 1)

/-- Reads a quoted scalar after its opening quote. -/
def readQuoted (quote : Char) : Nat → List Char → Cursor → Option Scanned
  | 0, _, _ => none
  | fuel + 1, text, cursor =>
    if cursor.atDocumentMarker || cursor.rest.isEmpty then none
    else do
      let (word, broken, cursor) ← quotedWord quote (fuel + 1) [] cursor
      if cursor.head? == some quote then some ⟨text ++ word, cursor.advance 1, false⟩
      else
        let (gap, cursor) ← readGap 0 (fuel + 1) { broken := broken } cursor
        readQuoted quote fuel (text ++ word ++ gap.text) cursor

/-- What happens to the line breaks at the end of a block scalar. -/
inductive Chomping where
  | clip
  | strip
  | keep
deriving DecidableEq, Repr

def chomping? : Char → Option Chomping
  | '+' => some .keep
  | '-' => some .strip
  | _ => none

/-- The marks after the indicator of a block scalar, in either order: the chomping and the
indentation, which is not zero. Gives how many characters they are. -/
def blockHeader? (cs : List Char) : Option (Chomping × Option Nat × Nat) :=
  let indentation? (c : Char) : Option Nat :=
    if c == '0' then none else some (c.toNat - '0'.toNat)
  match cs with
  | [] => some (.clip, none, 0)
  | c :: rest =>
    match chomping? c with
    | some chomping =>
      match rest with
      | d :: _ =>
        if d.isDigit then (fun n => (chomping, some n, 2)) <$> indentation? d
        else some (chomping, none, 1)
      | [] => some (chomping, none, 1)
    | none =>
      if c.isDigit then do
        let n ← indentation? c
        match rest.head?.bind chomping? with
        | some chomping => some (chomping, some n, 2)
        | none => some (.clip, some n, 1)
      else some (.clip, none, 0)

/-- Reads blank lines and the indentation of the line after them. An unknown indentation is that
of the deepest of these lines. -/
def readBlankLines (indent : Option Nat) :
    Nat → Nat → List Char → Cursor → Option (Nat × List Char × Cursor)
  | 0, deepest, breaks, cursor => some (deepest, breaks, cursor)
  | fuel + 1, deepest, breaks, cursor =>
    let width := (cursor.rest.takeWhile (· == ' ')).length
    let width :=
      match indent with
      | some n => min width (n - cursor.column)
      | none => width
    let cursor := cursor.advance width
    let deepest := max deepest cursor.column
    let isShort :=
      match indent with
      | some n => cursor.column < n
      | none => true
    match cursor.rest with
    | [] => some (deepest, breaks, cursor)
    | c :: _ =>
      if isShort && c == '\t' then none
      else if isBreak c then
        readBlankLines indent fuel deepest (breaks ++ [breakChar c]) cursor.nextLine
      else some (deepest, breaks, cursor)

/-- The content of a block scalar so far. -/
structure BlockText where
  text : List Char := []
  /-- The break after the last line. -/
  lead : List Char := []
  /-- The blank lines after it. -/
  more : List Char := []
  /-- Whether the last line begins with a blank. -/
  indented : Bool := false

/-- What joins the lines read so far and the next one. A folded scalar turns a single line feed
into a space, unless a line on either side begins with a blank. -/
def BlockText.joint (block : BlockText) (literal nextIndented : Bool) : List Char :=
  if !literal && block.lead == ['\n'] && !block.indented && !nextIndented then
    if block.more.isEmpty then [' '] else block.more
  else block.lead ++ block.more

/-- Reads the lines of a block scalar with the given indentation. -/
def readBlockLines (literal : Bool) (indent : Nat) :
    Nat → BlockText → Cursor → Option (BlockText × Cursor)
  | 0, block, cursor => some (block, cursor)
  | fuel + 1, block, cursor =>
    if cursor.column != indent || cursor.rest.isEmpty then some (block, cursor)
    else do
      let startsBlank := cursor.head?.any isSpacing
      let (line, cursor) := cursor.takeWhile fun c => !isBreak c
      let lead := (cursor.head?.map breakChar).toList
      let (_, more, next) ← readBlankLines (some indent) (fuel + 1) 0 [] cursor.nextLine
      readBlockLines literal indent fuel
        { text := block.text ++ block.joint literal startsBlank ++ line
          lead := lead
          more := more
          indented := startsBlank }
        next

/-- Reads a block scalar after its indicator. `parent` is the indentation of the collection
around it, if there is one. -/
def readBlock (literal : Bool) (parent : Option Nat) (fuel : Nat) (cursor : Cursor) :
    Option Scanned := do
  let (chomping, increment, count) ← blockHeader? cursor.rest
  let cursor ← (cursor.advance count).finishLine?
  let given := increment.map (· + parent.getD 0)
  let (deepest, breaks, cursor) ← readBlankLines given fuel 0 [] cursor
  let least :=
    match parent with
    | some n => n + 1
    | none => 1
  let indent := given.getD (max deepest least)
  let (block, cursor) ← readBlockLines literal indent fuel { more := breaks } cursor
  let tail :=
    match chomping with
    | .strip => []
    | .clip => block.lead
    | .keep => block.lead ++ block.more
  some ⟨block.text ++ tail, cursor, false⟩

end TwigComponent.Yaml
