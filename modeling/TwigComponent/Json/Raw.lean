import TwigComponent.Json.Number

/-!
# Reading JSON text

Text is read in three steps: characters to tokens, tokens to a raw value, and
the raw value to a JSON value. Both readers are machines that take one
character, or one token, at a time. A raw value is well formed, but its numbers
may be too large, its strings may hold unpaired surrogates, and nothing bounds
its depth; `Raw.value?` refuses all three.
-/
namespace TwigComponent.Json

inductive Token where
  | openArray
  | closeArray
  | openObject
  | closeObject
  | comma
  | colon
  | null
  | bool (value : Bool)
  | num (value : Option Number)
  | str (value : Option String)
deriving Repr

/-- The text of a string read so far, last character first. A first surrogate waits for its
partner; a string with a surrogate that has none is not `sound`. -/
structure OpenString where
  seen : List Char := []
  waiting : Option Nat := none
  sound : Bool := true
deriving Repr

namespace OpenString

/-- Gives up on a waiting surrogate. -/
def settle (s : OpenString) : OpenString :=
  if s.waiting.isSome then { s with waiting := none, sound := false } else s

def push (s : OpenString) (c : Char) : OpenString :=
  { s.settle with seen := c :: s.settle.seen }

/-- Appends a 16-bit unit. -/
def pushUnit (s : OpenString) (unit : Nat) : OpenString :=
  if 0xDC00 ≤ unit ∧ unit < 0xE000 then
    match s.waiting with
    | some first =>
      { s with
        waiting := none
        seen := Char.ofNat (0x10000 + (first - 0xD800) * 0x400 + (unit - 0xDC00)) :: s.seen }
    | none => { s with sound := false }
  else if 0xD800 ≤ unit ∧ unit < 0xDC00 then { s.settle with waiting := some unit }
  else s.push (Char.ofNat unit)

def text? (s : OpenString) : Option String :=
  if s.settle.sound then some (String.ofList s.seen.reverse) else none

end OpenString

/-- Where the reader of characters stands. -/
inductive LexState where
  | idle
  | word (missing : List Char) (token : Token)
  | number (seen : List Char)
  | string (text : OpenString)
  | escape (text : OpenString)
  | unit (text : OpenString) (missing : Nat) (value : Nat)
deriving Repr

def isSpace (c : Char) : Bool :=
  c == ' ' || c == '\t' || c == '\n' || c == '\r'

def isNumberChar (c : Char) : Bool :=
  c.isDigit || c == '-' || c == '+' || c == '.' || c == 'e' || c == 'E'

def hexValue? (c : Char) : Option Nat :=
  if c.isDigit then some (c.toNat - '0'.toNat)
  else if 'a' ≤ c ∧ c ≤ 'f' then some (c.toNat - 'a'.toNat + 10)
  else if 'A' ≤ c ∧ c ≤ 'F' then some (c.toNat - 'A'.toNat + 10)
  else none

/-- The character that a one-letter escape stands for. -/
def escaped? : Char → Option Char
  | '"' => some '"'
  | '\\' => some '\\'
  | '/' => some '/'
  | 'b' => some '\x08'
  | 'f' => some '\x0c'
  | 'n' => some '\n'
  | 'r' => some '\r'
  | 't' => some '\t'
  | _ => none

/-- One character outside of any token. -/
def lexIdle (c : Char) : Option (LexState × List Token) :=
  match c with
  | '[' => some (.idle, [.openArray])
  | ']' => some (.idle, [.closeArray])
  | '\x7b' => some (.idle, [.openObject])
  | '\x7d' => some (.idle, [.closeObject])
  | ',' => some (.idle, [.comma])
  | ':' => some (.idle, [.colon])
  | '"' => some (.string {}, [])
  | 'n' => some (.word ['u', 'l', 'l'] .null, [])
  | 't' => some (.word ['r', 'u', 'e'] (.bool true), [])
  | 'f' => some (.word ['a', 'l', 's', 'e'] (.bool false), [])
  | c =>
    if isSpace c then some (.idle, [])
    else if c = '-' ∨ c.isDigit then some (.number [c], [])
    else none

def numberToken? (seen : List Char) : Option Token :=
  (NumberParts.ofChars? seen.reverse).map fun parts => .num parts.value?

/-- One character of JSON text. -/
def lexStep (state : LexState) (c : Char) : Option (LexState × List Token) :=
  match state with
  | .idle => lexIdle c
  | .word [] _ => none
  | .word [last] token => if c = last then some (.idle, [token]) else none
  | .word (next :: missing) token => if c = next then some (.word missing token, []) else none
  | .number seen =>
    if isNumberChar c then some (.number (c :: seen), [])
    else do
      let token ← numberToken? seen
      let (state, tokens) ← lexIdle c
      pure (state, token :: tokens)
  | .string text =>
    if c = '"' then some (.idle, [.str text.text?])
    else if c = '\\' then some (.escape text, [])
    else if c.toNat < 0x20 then none
    else some (.string (text.push c), [])
  | .escape text =>
    if c = 'u' then some (.unit text 3 0, [])
    else (escaped? c).map fun e => (.string (text.push e), [])
  | .unit text missing value => do
    let value := value * 16 + (← hexValue? c)
    match missing with
    | 0 => pure (.string (text.pushUnit value), [])
    | missing + 1 => pure (.unit text missing value, [])

/-- One character more, with the tokens found so far, last first. -/
def lexNext (sofar : LexState × List Token) (c : Char) : Option (LexState × List Token) := do
  let (state, tokens) ← lexStep sofar.1 c
  pure (state, tokens.reverse ++ sofar.2)

/-- The tokens of a text, if it has no part that is not a token. -/
def tokens? (text : String) : Option (List Token) := do
  let (state, done) ← text.toList.foldlM lexNext (LexState.idle, [])
  match state with
  | .idle => pure done.reverse
  | .number seen => pure ((← numberToken? seen) :: done).reverse
  | _ => none

/-- Well-formed JSON. A missing number is too large, a missing string is not sound. -/
inductive Raw where
  | null
  | bool (value : Bool)
  | num (value : Option Number)
  | str (value : Option String)
  | arr (items : List Raw)
  | obj (members : List (Option String × Raw))
deriving Inhabited

/-- What is open around the value being read, with the parts that are complete, last first. -/
inductive Frame where
  | array (done : List Raw)
  | object (done : List (Option String × Raw))
  | member (done : List (Option String × Raw)) (key : Option String)

/-- What may come next. -/
inductive Expect where
  | value
  | firstItem
  | firstKey
  | key
  | colon
  | separator
  | nothing (value : Raw)

structure ParseState where
  expect : Expect
  frames : List Frame

namespace ParseState

/-- A value is complete. -/
def complete (value : Raw) : List Frame → Option ParseState
  | [] => some ⟨.nothing value, []⟩
  | .array done :: rest => some ⟨.separator, .array (value :: done) :: rest⟩
  | .member done key :: rest => some ⟨.separator, .object ((key, value) :: done) :: rest⟩
  | .object _ :: _ => none

/-- A token where a value may start. -/
def startValue (frames : List Frame) : Token → Option ParseState
  | .openArray => some ⟨.firstItem, .array [] :: frames⟩
  | .openObject => some ⟨.firstKey, .object [] :: frames⟩
  | .null => complete .null frames
  | .bool value => complete (.bool value) frames
  | .num value => complete (.num value) frames
  | .str value => complete (.str value) frames
  | _ => none

/-- A token where a key may stand. -/
def startMember : List Frame → Token → Option ParseState
  | .object done :: rest, .str key => some ⟨.colon, .member done key :: rest⟩
  | _, _ => none

def closeFrame : List Frame → Token → Option ParseState
  | .array done :: rest, .closeArray => complete (.arr done.reverse) rest
  | .object done :: rest, .closeObject => complete (.obj done.reverse) rest
  | _, _ => none

def step (state : ParseState) (token : Token) : Option ParseState :=
  match state.expect, token with
  | .value, token => startValue state.frames token
  | .firstItem, .closeArray => closeFrame state.frames token
  | .firstItem, token => startValue state.frames token
  | .firstKey, .closeObject => closeFrame state.frames token
  | .firstKey, token => startMember state.frames token
  | .key, token => startMember state.frames token
  | .colon, .colon => some ⟨.value, state.frames⟩
  | .separator, .comma =>
    match state.frames with
    | .array _ :: _ => some ⟨.value, state.frames⟩
    | _ => some ⟨.key, state.frames⟩
  | .separator, token => closeFrame state.frames token
  | _, _ => none

end ParseState

/-- The raw value that a text consists of. -/
def Raw.ofText? (text : String) : Option Raw := do
  let state ← (← tokens? text).foldlM ParseState.step ⟨.value, []⟩
  match state.expect with
  | .nothing value => some value
  | _ => none

mutual

/-- The value, if its numbers and strings can be represented and no more than `depth` arrays
and objects stand inside one another. -/
def Raw.value? : Nat → Raw → Option Json
  | _, .null => some .null
  | _, .bool value => some (.bool value)
  | _, .num value => value.map .num
  | _, .str value => value.map .str
  | 0, .arr _ => none
  | depth + 1, .arr items => (Raw.items? depth items).map .arr
  | 0, .obj _ => none
  | depth + 1, .obj members => (Raw.members? depth members).map .obj

def Raw.items? : Nat → List Raw → Option (List Json)
  | _, [] => some []
  | depth, item :: rest => do
    let item ← Raw.value? depth item
    pure (item :: (← Raw.items? depth rest))

def Raw.members? : Nat → List (Option String × Raw) → Option (List (String × Json))
  | _, [] => some []
  | depth, (key, value) :: rest => do
    let key ← key
    let value ← Raw.value? depth value
    pure ((key, value) :: (← Raw.members? depth rest))

end

/-- At most this many arrays and objects stand inside one another in a text that is read. -/
def maxDepth : Nat := 127

/-- Reads a text that is one JSON value. -/
def ofText? (text : String) : Option Json :=
  (Raw.ofText? text).bind (Raw.value? maxDepth)

end TwigComponent.Json
