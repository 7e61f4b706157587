import TwigComponent.Yaml.Token

/-!
# From text to tokens

Indentation opens and closes the collections of the block style. A scalar, a
bracketed collection, an anchor or a tag may turn out to be a key when a colon
follows on the same line, so the place of its token is kept and the key mark put
there later.
-/
namespace TwigComponent.Yaml

/-- A place that a key mark may still be put before. -/
structure PossibleKey where
  /-- Whether the token must be a key, since it stands at the indentation of a mapping. -/
  required : Bool
  /-- The number of tokens before it. -/
  token : Nat
  index : Nat
  line : Nat
  column : Nat

structure Lexer where
  cursor : Cursor
  tokens : Array Token := #[]
  /-- The indentation of the innermost block collection. -/
  indent : Option Nat := none
  /-- The indentations around it. -/
  outer : List (Option Nat) := []
  /-- The possible key of every level of brackets, the innermost first. -/
  keys : List (Option PossibleKey) := [none]
  /-- Whether a key may begin here. -/
  keyAllowed : Bool := true

namespace Lexer

def inFlow (lexer : Lexer) : Bool := 1 < lexer.keys.length

def push (lexer : Lexer) (token : Token) : Lexer :=
  { lexer with tokens := lexer.tokens.push token }

def insertAt (lexer : Lexer) (place : Nat) (token : Token) : Lexer :=
  { lexer with tokens := lexer.tokens.insertIdxIfInBounds place token }

/-- Pushes a mark of one character and moves over it. -/
def mark (lexer : Lexer) (token : Token) (keyAllowed : Bool) : Lexer :=
  { lexer with
    tokens := lexer.tokens.push token
    cursor := lexer.cursor.advance 1
    keyAllowed := keyAllowed }

/-- Closes the block collections that are indented by more than a column. -/
def closeBlocks (limit : Option Nat) (lexer : Lexer) : Lexer :=
  go lexer lexer.outer lexer.indent
where
  deeper : Nat → Bool := fun n =>
    match limit with
    | some column => column < n
    | none => true
  go (lexer : Lexer) : List (Option Nat) → Option Nat → Lexer
    | next :: outer, some n =>
      if deeper n then go (lexer.push .blockEnd) outer next
      else { lexer with indent := some n, outer := next :: outer }
    | outer, indent => { lexer with indent := indent, outer := outer }

/-- Closes the block collections that end before a token in this column. -/
def unroll (lexer : Lexer) (limit : Option Nat) : Lexer :=
  if lexer.inFlow then lexer else closeBlocks limit lexer

/-- Opens a block collection in a column right of the innermost one, before the token at the given
place. -/
def roll (lexer : Lexer) (column : Nat) (place : Nat) (token : Token) : Lexer :=
  let isDeeper :=
    match lexer.indent with
    | some n => n < column
    | none => true
  if lexer.inFlow || !isDeeper then lexer
  else
    { lexer.insertAt place token with
      indent := some column
      outer := lexer.indent :: lexer.outer }

/-- Gives up the possible key of this level, unless it has to be one. -/
def dropKey (lexer : Lexer) : Option Lexer :=
  match lexer.keys with
  | some key :: rest =>
    if key.required then none else some { lexer with keys := none :: rest }
  | _ => some lexer

/-- Keeps this place as that of a possible key. -/
def saveKey (lexer : Lexer) : Option Lexer :=
  if lexer.keyAllowed then do
    let lexer ← lexer.dropKey
    some { lexer with
      keys := some {
        required := !lexer.inFlow && lexer.indent == some lexer.cursor.column
        token := lexer.tokens.size
        index := lexer.cursor.index
        line := lexer.cursor.line
        column := lexer.cursor.column } :: lexer.keys.tail }
  else some lexer

/-- A key lies on one line and has at most 1024 characters. -/
def isStale (cursor : Cursor) (key : PossibleKey) : Bool :=
  key.line < cursor.line || key.index + 1024 < cursor.index

/-- Gives up the possible keys that can no longer be one. -/
def dropStale (lexer : Lexer) : Option Lexer := do
  let keys ← lexer.keys.mapM fun key? =>
    match key? with
    | some key =>
      if isStale lexer.cursor key then
        if key.required then none else some none
      else some (some key)
    | none => some none
  some { lexer with keys := keys }

/-- Moves over blanks, comments and byte order marks. A tab is a blank only where no key may begin. -/
def skipBlanks : Nat → Lexer → Lexer
  | 0, lexer => lexer
  | fuel + 1, lexer =>
    let tabs := lexer.inFlow || !lexer.keyAllowed
    let cursor := lexer.cursor.skipOrderMark.skipWhile fun c => c == ' ' || (tabs && c == '\t')
    let cursor := cursor.skipComment
    if cursor.head?.any isBreak then
      skipBlanks fuel
        { lexer with
          cursor := cursor.nextLine
          keyAllowed := lexer.keyAllowed || !lexer.inFlow }
    else { lexer with cursor := cursor }

/-- Ends all block collections before a directive or a document marker. -/
def leaveDocument (lexer : Lexer) : Option Lexer := do
  let lexer ← (lexer.unroll none).dropKey
  some { lexer with keyAllowed := false }

def documentMarker (lexer : Lexer) (token : Token) : Option Lexer := do
  let lexer ← lexer.leaveDocument
  some { lexer.push token with cursor := lexer.cursor.advance 3 }

def directive (fuel : Nat) (lexer : Lexer) : Option Lexer := do
  let lexer ← lexer.leaveDocument
  let (token, cursor) ← readDirective fuel lexer.cursor
  some { lexer.push token with cursor := cursor }

def openFlow (lexer : Lexer) (token : Token) : Option Lexer := do
  let lexer ← lexer.saveKey
  let lexer := lexer.mark token true
  some { lexer with keys := none :: lexer.keys }

def closeFlow (lexer : Lexer) (token : Token) : Option Lexer := do
  let lexer ← lexer.dropKey
  let lexer := lexer.mark token false
  some (if lexer.inFlow then { lexer with keys := lexer.keys.tail } else lexer)

def flowEntry (lexer : Lexer) : Option Lexer := do
  let lexer ← lexer.dropKey
  some (lexer.mark .flowEntry true)

/-- An entry of a block collection, which opens the collection if it is the first. -/
def openEntry (lexer : Lexer) (start : Token) : Option Lexer :=
  if lexer.inFlow then some lexer
  else if lexer.keyAllowed then
    some (lexer.roll lexer.cursor.column lexer.tokens.size start)
  else none

def blockEntry (lexer : Lexer) : Option Lexer := do
  let lexer ← lexer.openEntry .blockSequenceStart
  let lexer ← lexer.dropKey
  some (lexer.mark .blockEntry true)

def explicitKey (lexer : Lexer) : Option Lexer := do
  let lexer ← lexer.openEntry .blockMappingStart
  let lexer ← lexer.dropKey
  some (lexer.mark .key (!lexer.inFlow))

def value (lexer : Lexer) : Option Lexer :=
  match lexer.keys with
  | some key :: rest =>
    let lexer := { lexer.insertAt key.token .key with keys := none :: rest }
    some ((lexer.roll key.column key.token .blockMappingStart).mark .value false)
  | _ => do
    let lexer ← lexer.openEntry .blockMappingStart
    some (lexer.mark .value (!lexer.inFlow))

/-- A word that may be a key: an anchor, an alias or a tag. -/
def word (lexer : Lexer) (read : Cursor → Option (Token × Cursor)) : Option Lexer := do
  let lexer ← lexer.saveKey
  let (token, cursor) ← read lexer.cursor
  some { lexer.push token with cursor := cursor, keyAllowed := false }

def named (lexer : Lexer) (token : String → Token) : Option Lexer :=
  lexer.word fun cursor => do
    let (name, cursor) ← readName (cursor.advance 1)
    some (token name, cursor)

def blockScalar (fuel : Nat) (lexer : Lexer) (literal : Bool) : Option Lexer := do
  let lexer ← lexer.dropKey
  let scanned ← readBlock literal lexer.indent fuel (lexer.cursor.advance 1)
  some { lexer.push (.scalar (String.ofList scanned.text) false) with
    cursor := scanned.cursor
    keyAllowed := true }

def quotedScalar (fuel : Nat) (lexer : Lexer) (quote : Char) : Option Lexer :=
  lexer.word fun cursor => do
    let scanned ← readQuoted quote fuel [] (cursor.advance 1)
    some (.scalar (String.ofList scanned.text) false, scanned.cursor)

/-- A plain scalar. A key may begin after it if it ends on a later line. -/
def plainScalar (fuel : Nat) (lexer : Lexer) : Option Lexer := do
  let lexer ← lexer.saveKey
  let indent :=
    match lexer.indent with
    | some n => n + 1
    | none => 0
  let scanned ← readPlain lexer.inFlow indent fuel [] {} lexer.cursor
  some { lexer.push (.scalar (String.ofList scanned.text) true) with
    cursor := scanned.cursor
    keyAllowed := scanned.broken }

/-- Characters that no plain scalar begins with. -/
def isIndicator (c : Char) : Bool := "-?:,[]\x7b\x7d#&*!|>'\"%@`".toList.contains c

/-- Whether a plain scalar begins with this character before the next one. -/
def startsPlain (inFlow : Bool) (c : Char) (next : Option Char) : Bool :=
  (!endsWord (some c) && !isIndicator c)
    || (c == '-' && !next.any isSpacing)
    || (!inFlow && (c == '?' || c == ':') && !endsWord next)

/-- Reads the token that begins with a character. -/
def token (fuel : Nat) (lexer : Lexer) (c : Char) : Option Lexer :=
  let next := lexer.cursor.at? 1
  let isMark := lexer.inFlow || endsWord next
  if lexer.cursor.column == 0 && c == '%' then lexer.directive fuel
  else if lexer.cursor.atMarker '-' then lexer.documentMarker .documentStart
  else if lexer.cursor.atMarker '.' then lexer.documentMarker .documentEnd
  else if c == '[' then lexer.openFlow .flowSequenceStart
  else if c == '\x7b' then lexer.openFlow .flowMappingStart
  else if c == ']' then lexer.closeFlow .flowSequenceEnd
  else if c == '\x7d' then lexer.closeFlow .flowMappingEnd
  else if c == ',' then lexer.flowEntry
  else if c == '-' && endsWord next then lexer.blockEntry
  else if c == '?' && isMark then lexer.explicitKey
  else if c == ':' && isMark then lexer.value
  else if c == '*' then lexer.named .alias
  else if c == '&' then lexer.named .anchor
  else if c == '!' then lexer.word (readTag lexer.inFlow fuel)
  else if c == '|' && !lexer.inFlow then lexer.blockScalar fuel true
  else if c == '>' && !lexer.inFlow then lexer.blockScalar fuel false
  else if c == '\'' || c == '"' then lexer.quotedScalar fuel c
  else if startsPlain lexer.inFlow c next then lexer.plainScalar fuel
  else none

/-- Reads the tokens up to the end of the text. -/
def run (bound : Nat) : Nat → Lexer → Option (List Token)
  | 0, _ => none
  | fuel + 1, lexer => do
    let lexer ← (lexer.skipBlanks bound).dropStale
    let lexer := lexer.unroll (some lexer.cursor.column)
    match lexer.cursor.head? with
    | none =>
      let lexer ← lexer.leaveDocument
      some lexer.tokens.toList
    | some c =>
      let lexer ← lexer.token bound c
      run bound fuel lexer

end Lexer

/-- The tokens of a text, if it is made of tokens. -/
def tokens? (text : List Char) : Option (List Token) :=
  Lexer.run (text.length + 1) (text.length + 1) { cursor := { rest := text } }

end TwigComponent.Yaml
