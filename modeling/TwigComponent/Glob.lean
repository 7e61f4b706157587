/-!
# Glob patterns

A pattern matches a whole path. A star and a question mark match any bytes,
separators included; `**` between separators, or at an end of the pattern, stands
for whole components; classes and alternatives in braces work as usual, and a
backslash takes the next character as it is. Paths are matched byte by byte.
-/
namespace TwigComponent

namespace Glob

/-- A part of a pattern. -/
inductive Token where
  | literal (c : Char)
  | any
  | star
  /-- `**/` at the start: any number of components. -/
  | leading
  /-- `/**` at the end: one component at least. -/
  | trailing
  /-- `/**/`: a separator, with any number of components after it. -/
  | between
  | oneOf (negated : Bool) (ranges : List (Char × Char))
  | alternatives (branches : List (List Token))

/-- The alternatives that are open while a pattern is read: the finished branches of each, and
the branch it stands in. The tokens of a branch and the branches are in reverse. -/
structure Open where
  branches : List (List Token)
  outer : List Token

structure State where
  /-- The current branch in reverse. -/
  tokens : List Token := []
  stack : List Open := []
  /-- The character before the next one. -/
  previous : Option Char := none

def State.push (state : State) (token : Token) (last : Char) : State :=
  { state with tokens := token :: state.tokens, previous := some last }

/-- A range with its upper end, which must not be below the lower one. -/
def closeRange? (low high : Char) : Option (Char × Char) :=
  if high < low then none else some (low, high)

/-- Reads the members of a class up to its closing bracket. The ranges are in reverse, `first`
says that no member was read yet, and `inRange` that a hyphen awaits the end of a range. -/
def readClass (first inRange : Bool) :
    List (Char × Char) → List Char → Option (List (Char × Char) × List Char)
  | _, [] => none
  | ranges, c :: rest =>
    if c == ']' && !first then
      some (if inRange then ('-', '-') :: ranges else ranges, rest)
    else
      match inRange, ranges with
      | true, (low, _) :: others => do
        let range ← closeRange? low c
        readClass false false (range :: others) rest
      | _, ranges =>
        if c == '-' && !first then readClass false true ranges rest
        else readClass false false ((c, c) :: ranges) rest

/-- What two stars stand for, with the characters after them. The stars are plain ones unless
they are a whole component. Inside alternatives a comma or an opening brace begins a component
too, even one that is taken as it is. -/
def readStars (state : State) (rest : List Char) : State × List Char :=
  let plain := ((state.push .star '*').push .star '*', rest)
  let inBranch := !state.stack.isEmpty
  let endsBranch (c : Char) : Bool := inBranch && (c == ',' || c == '\x7d')
  if state.tokens.isEmpty then
    match rest with
    | [] => (state.push .leading '*', [])
    | '/' :: after => (state.push .leading '/', after)
    | _ => plain
  else if !beginsComponent inBranch then plain
  else
    match rest with
    | [] => (component .trailing '*', [])
    | '/' :: after => (component .between '/', after)
    | c :: _ => if endsBranch c then (component .trailing '*', rest) else plain
where
  beginsComponent (inBranch : Bool) : Bool :=
    match state.previous with
    | some c => c == '/' || (inBranch && (c == ',' || c == '\x7b'))
    | none => false
  /-- The token in place of the separator before the stars. A leading or trailing token before
  them covers them. -/
  component (token : Token) (last : Char) : State :=
    match state.tokens with
    | .leading :: _ => { state with previous := some last }
    | .trailing :: _ => { state with previous := some last }
    | _ :: before => { state with tokens := token :: before, previous := some last }
    | [] => state.push token last

/-- Closes the innermost alternatives. -/
def closeAlternatives (state : State) : Option State :=
  match state.stack with
  | open_ :: stack =>
    let branches := (state.tokens.reverse :: open_.branches).reverse
    some { tokens := .alternatives branches :: open_.outer, stack := stack, previous := some '\x7d' }
  | [] => none

/-- Reads a pattern. The bound is the length of what is left. -/
def read : Nat → State → List Char → Option (List Token)
  | _, state, [] => if state.stack.isEmpty then some state.tokens.reverse else none
  | 0, _, _ => none
  | fuel + 1, state, c :: rest =>
    match c with
    | '?' => read fuel (state.push .any c) rest
    | '*' =>
      match rest with
      | '*' :: after =>
        let (state, after) := readStars state after
        read fuel state after
      | _ => read fuel (state.push .star c) rest
    | '[' => do
      let (negated, members) :=
        match rest with
        | '!' :: members => (true, members)
        | '^' :: members => (true, members)
        | members => (false, members)
      let (ranges, after) ← readClass true false [] members
      read fuel (state.push (.oneOf negated ranges.reverse) ']') after
    | '\x7b' =>
      read fuel { tokens := [], stack := ⟨[], state.tokens⟩ :: state.stack, previous := some c } rest
    | '\x7d' => do
      let state ← closeAlternatives state
      read fuel state rest
    | ',' =>
      match state.stack with
      | open_ :: stack =>
        let open_ := { open_ with branches := state.tokens.reverse :: open_.branches }
        read fuel { tokens := [], stack := open_ :: stack, previous := some c } rest
      | [] => read fuel (state.push (.literal c) c) rest
    | '\\' =>
      match rest with
      | d :: after => read fuel (state.push (.literal d) d) after
      | [] => none
    | c => read fuel (state.push (.literal c) c) rest

/-- A part of a pattern without alternatives, byte by byte. -/
inductive Step where
  | byte (value : UInt8)
  | any
  | star
  | leading
  | trailing
  | between
  | oneOf (negated : Bool) (ranges : List (UInt8 × UInt8))

def utf8 (c : Char) : List UInt8 := (String.singleton c).toUTF8.toList

def single (b : UInt8) : UInt8 × UInt8 := (b, b)

/-- The byte ranges of a range of characters. Only its two inner bytes make a range. -/
def byteRanges? (range : Char × Char) : Option (List (UInt8 × UInt8)) :=
  if range.1 == range.2 then some ((utf8 range.1).map single)
  else
    match (utf8 range.1).reverse, utf8 range.2 with
    | low :: before, high :: after =>
      if high < low then none
      else some (before.reverse.map single ++ (low, high) :: after.map single)
    | _, _ => none

/-- The byte ranges of a class, if they are in order. -/
def classRanges? : List (Char × Char) → Option (List (UInt8 × UInt8))
  | [] => some []
  | range :: rest => do
    let first ← byteRanges? range
    let others ← classRanges? rest
    some (first ++ others)

mutual

/-- Whether the token stands for nothing at all. -/
def isVoid : Token → Bool
  | .alternatives branches => areVoid branches
  | _ => false

def isVoidBranch : List Token → Bool
  | [] => true
  | token :: rest => isVoid token && isVoidBranch rest

def areVoid : List (List Token) → Bool
  | [] => true
  | branch :: rest => isVoidBranch branch && areVoid rest

end

mutual

/-- The ways to write a token without alternatives. Empty branches are left out. -/
def tokenSteps? : Token → Option (List (List Step))
  | .literal c => some [(utf8 c).map .byte]
  | .any => some [[.any]]
  | .star => some [[.star]]
  | .leading => some [[.leading]]
  | .trailing => some [[.trailing]]
  | .between => some [[.between]]
  | .oneOf negated ranges => (fun ranges => [[.oneOf negated ranges]]) <$> classRanges? ranges
  | .alternatives branches =>
    if areVoid branches then some [[]] else branchSteps? branches

def steps? : List Token → Option (List (List Step))
  | [] => some [[]]
  | token :: rest => do
    let firsts ← tokenSteps? token
    let others ← steps? rest
    some (firsts.flatMap fun first => others.map (first ++ ·))

def branchSteps? : List (List Token) → Option (List (List Step))
  | [] => some []
  | branch :: rest => do
    let own ← if isVoidBranch branch then some [] else steps? branch
    let others ← branchSteps? rest
    some (own ++ others)

end

/-- The ends of a text, the longest first. -/
def suffixes : List UInt8 → List (List UInt8)
  | [] => [[]]
  | b :: rest => (b :: rest) :: suffixes rest

def slash : UInt8 := 47

/-- What follows each separator of a text. -/
def afterSlashes : List UInt8 → List (List UInt8)
  | [] => []
  | b :: rest => if b == slash then rest :: afterSlashes rest else afterSlashes rest

def inRanges (ranges : List (UInt8 × UInt8)) (b : UInt8) : Bool :=
  ranges.any fun range => range.1 ≤ b && b ≤ range.2

/-- Whether the steps match a whole text. -/
def stepsMatch : List Step → List UInt8 → Bool
  | [], text => text.isEmpty
  | .byte value :: rest, text =>
    match text with
    | b :: after => b == value && stepsMatch rest after
    | [] => false
  | .any :: rest, text =>
    match text with
    | _ :: after => stepsMatch rest after
    | [] => false
  | .oneOf negated ranges :: rest, text =>
    match text with
    | b :: after => inRanges ranges b != negated && stepsMatch rest after
    | [] => false
  | .star :: rest, text => (suffixes text).any (stepsMatch rest)
  | .leading :: rest, text => stepsMatch rest text || (afterSlashes text).any (stepsMatch rest)
  | .trailing :: rest, text =>
    match text with
    | b :: after => b == slash && (suffixes after).any (stepsMatch rest)
    | [] => false
  | .between :: rest, text =>
    match text with
    | b :: after =>
      b == slash && (stepsMatch rest after || (afterSlashes after).any (stepsMatch rest))
    | [] => false

end Glob

/-- A pattern: the ways to match it. -/
structure Glob where
  ways : List (List Glob.Step)

namespace Glob

/-- The pattern that a text writes, if it is well formed. Two stars alone match everything. -/
def ofText? (text : String) : Option Glob := do
  let tokens ← read text.length {} text.toList
  match tokens with
  | [.leading] => some ⟨[[.star]]⟩
  | tokens => Glob.mk <$> steps? tokens

def isMatch (glob : Glob) (path : String) : Bool :=
  glob.ways.any fun steps => stepsMatch steps path.toUTF8.toList

end Glob

end TwigComponent
