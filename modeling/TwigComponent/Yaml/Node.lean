import TwigComponent.Yaml.Token

/-!
# From tokens to nodes

The grammar of a document over its tokens. Every function takes a bound on the
depth of its calls, for which the number of tokens is enough, and gives the node
with the tokens after it, or nothing if the tokens do not fit the grammar.

A missing node is an empty plain scalar.
-/
namespace TwigComponent.Yaml

/-- A node before its aliases are resolved. `α` is the type of anchors. -/
inductive Node (α : Type) where
  | alias (anchor : α)
  | scalar (anchor : Option α) (tag : Option Tag) (text : String) (plain : Bool)
  | sequence (anchor : Option α) (tag : Option Tag) (items : List (Node α))
  | mapping (anchor : Option α) (tag : Option Tag) (entries : List (Node α × Node α))

instance {α : Type} : Inhabited (Node α) := ⟨.scalar none none "" true⟩

/-- The prefixes of the tag handles that a document may use. -/
abbrev Handles := List (String × Octets)

def defaultHandles : Handles :=
  [("!", Tag.mark.octets), ("!!", "tag:yaml.org,2002:".toList.map octetOf)]

def emptyNode : Node String := .scalar none none "" true

/-- What stands before the content of a node. -/
structure Properties where
  anchor : Option String := none
  tag : Option Tag := none

/-- The full tag for a handle and a suffix. -/
def fullTag? (handles : Handles) (handle : String) (suffix : Octets) : Option Tag :=
  if handle == "" then some ⟨suffix⟩
  else (handles.lookup handle).map fun opening => ⟨opening ++ suffix⟩

/-- An anchor and a tag, in either order. -/
def readProperties (handles : Handles) : List Token → Option (Properties × List Token)
  | .anchor name :: .tag handle suffix :: rest => do
    let tag ← fullTag? handles handle suffix
    some (⟨some name, some tag⟩, rest)
  | .tag handle suffix :: .anchor name :: rest => do
    let tag ← fullTag? handles handle suffix
    some (⟨some name, some tag⟩, rest)
  | .anchor name :: rest => some (⟨some name, none⟩, rest)
  | .tag handle suffix :: rest => do
    let tag ← fullTag? handles handle suffix
    some (⟨none, some tag⟩, rest)
  | tokens => some ({}, tokens)

/-- Whether a token ends an entry of a block mapping before its node. -/
def endsBlockPair : List Token → Bool
  | .key :: _ => true
  | .value :: _ => true
  | .blockEnd :: _ => true
  | _ => false

/-- Whether a token ends an entry of a block sequence before its node. -/
def endsBlockItem : List Token → Bool
  | .blockEntry :: _ => true
  | .blockEnd :: _ => true
  | _ => false

/-- The same for a sequence at the indentation of the mapping around it. -/
def endsInlineItem (tokens : List Token) : Bool :=
  endsBlockPair tokens || endsBlockItem tokens

/-- Whether a token ends a key in brackets before its node. -/
def endsFlowKey (close : Token) : List Token → Bool
  | .value :: _ => true
  | .flowEntry :: _ => true
  | token :: _ => token == close
  | [] => false

/-- Whether a token ends a value in brackets before its node. -/
def endsFlowValue (close : Token) : List Token → Bool
  | .flowEntry :: _ => true
  | token :: _ => token == close
  | [] => false

/-- Where a node stands: in brackets, in a block, or in a block mapping, where a sequence need
not be indented. -/
inductive Setting where
  | flow
  | block
  | pair
deriving DecidableEq, Repr

mutual

def readNode (handles : Handles) (setting : Setting) :
    Nat → List Token → Option (Node String × List Token)
  | 0, _ => none
  | _, .alias name :: rest => some (.alias name, rest)
  | fuel + 1, tokens => do
    let (⟨anchor, tag⟩, tokens) ← readProperties handles tokens
    match tokens with
    | .scalar text plain :: rest => some (.scalar anchor tag text plain, rest)
    | .flowSequenceStart :: rest => do
      let (items, rest) ← readFlowItems handles fuel true rest
      some (.sequence anchor tag items, rest)
    | .flowMappingStart :: rest => do
      let (entries, rest) ← readFlowEntries handles fuel true rest
      some (.mapping anchor tag entries, rest)
    | .blockSequenceStart :: rest =>
      if setting == .flow then orEmpty anchor tag tokens
      else do
        let (items, rest) ← readBlockItems handles fuel rest
        some (.sequence anchor tag items, rest)
    | .blockMappingStart :: rest =>
      if setting == .flow then orEmpty anchor tag tokens
      else do
        let (entries, rest) ← readBlockEntries handles fuel rest
        some (.mapping anchor tag entries, rest)
    | .blockEntry :: _ =>
      if setting == .pair then do
        let (items, rest) ← readInlineItems handles fuel tokens
        some (.sequence anchor tag items, rest)
      else orEmpty anchor tag tokens
    | _ => orEmpty anchor tag tokens
where
  /-- A node of an anchor or a tag alone is empty. -/
  orEmpty (anchor : Option String) (tag : Option Tag) (tokens : List Token) :
      Option (Node String × List Token) :=
    if anchor.isNone && tag.isNone then none
    else some (.scalar anchor tag "" true, tokens)

/-- The items of a block sequence. -/
def readBlockItems (handles : Handles) :
    Nat → List Token → Option (List (Node String) × List Token)
  | 0, _ => none
  | fuel + 1, .blockEntry :: rest => do
    let (item, rest) ←
      if endsBlockItem rest then some (emptyNode, rest) else readNode handles .block fuel rest
    let (items, rest) ← readBlockItems handles fuel rest
    some (item :: items, rest)
  | _, .blockEnd :: rest => some ([], rest)
  | _, _ => none

/-- The items of a sequence at the indentation of the mapping around it. -/
def readInlineItems (handles : Handles) :
    Nat → List Token → Option (List (Node String) × List Token)
  | 0, _ => none
  | fuel + 1, .blockEntry :: rest => do
    let (item, rest) ←
      if endsInlineItem rest then some (emptyNode, rest) else readNode handles .block fuel rest
    let (items, rest) ← readInlineItems handles fuel rest
    some (item :: items, rest)
  | _, tokens => some ([], tokens)

/-- The entries of a block mapping. -/
def readBlockEntries (handles : Handles) :
    Nat → List Token → Option (List (Node String × Node String) × List Token)
  | 0, _ => none
  | fuel + 1, .key :: rest => do
    let (key, rest) ←
      if endsBlockPair rest then some (emptyNode, rest) else readNode handles .pair fuel rest
    let (value, rest) ←
      match rest with
      | .value :: rest =>
        if endsBlockPair rest then some (emptyNode, rest) else readNode handles .pair fuel rest
      | rest => some (emptyNode, rest)
    let (entries, rest) ← readBlockEntries handles fuel rest
    some ((key, value) :: entries, rest)
  | _, .blockEnd :: rest => some ([], rest)
  | _, _ => none

/-- The items of a sequence in brackets. A pair is a mapping of its own. -/
def readFlowItems (handles : Handles) :
    Nat → Bool → List Token → Option (List (Node String) × List Token)
  | 0, _, _ => none
  | _, _, .flowSequenceEnd :: rest => some ([], rest)
  | fuel + 1, first, tokens => do
    let tokens ←
      match first, tokens with
      | true, tokens => some tokens
      | false, .flowEntry :: rest => some rest
      | false, _ => none
    match tokens with
    | .flowSequenceEnd :: rest => some ([], rest)
    | .key :: rest => do
      let (key, rest) ←
        if endsFlowKey .flowSequenceEnd rest then
          -- The token that ends the key goes with it.
          some (emptyNode, rest.tail)
        else readNode handles .flow fuel rest
      let (value, rest) ←
        match rest with
        | .value :: rest =>
          if endsFlowValue .flowSequenceEnd rest then some (emptyNode, rest)
          else readNode handles .flow fuel rest
        | rest => some (emptyNode, rest)
      let (items, rest) ← readFlowItems handles fuel false rest
      some (.mapping none none [(key, value)] :: items, rest)
    | tokens => do
      let (item, rest) ← readNode handles .flow fuel tokens
      let (items, rest) ← readFlowItems handles fuel false rest
      some (item :: items, rest)

/-- The entries of a mapping in brackets. A node without a value is a key. -/
def readFlowEntries (handles : Handles) :
    Nat → Bool → List Token → Option (List (Node String × Node String) × List Token)
  | 0, _, _ => none
  | _, _, .flowMappingEnd :: rest => some ([], rest)
  | fuel + 1, first, tokens => do
    let tokens ←
      match first, tokens with
      | true, tokens => some tokens
      | false, .flowEntry :: rest => some rest
      | false, _ => none
    match tokens with
    | .flowMappingEnd :: rest => some ([], rest)
    | .key :: rest => do
      let (key, rest) ←
        if endsFlowKey .flowMappingEnd rest then some (emptyNode, rest)
        else readNode handles .flow fuel rest
      let (value, rest) ←
        match rest with
        | .value :: rest =>
          if endsFlowValue .flowMappingEnd rest then some (emptyNode, rest)
          else readNode handles .flow fuel rest
        | rest => some (emptyNode, rest)
      let (entries, rest) ← readFlowEntries handles fuel false rest
      some ((key, value) :: entries, rest)
    | tokens => do
      let (key, rest) ← readNode handles .flow fuel tokens
      let (entries, rest) ← readFlowEntries handles fuel false rest
      some ((key, emptyNode) :: entries, rest)

end

/-- The directives before a document: at most one version, which is 1.1 or 1.2, and handles that
are declared once each. -/
def readDirectives : Bool → Handles → List Token → Option (Handles × List Token)
  | versioned, handles, .version major minor :: rest =>
    if versioned || major != 1 || (minor != 1 && minor != 2) then none
    else readDirectives true handles rest
  | versioned, handles, .tagDirective handle uri :: rest =>
    if (handles.lookup handle).isSome then none
    else readDirectives versioned (handles ++ [(handle, uri)]) rest
  | _, handles, tokens => some (handles ++ defaultHandles, tokens)

/-- Whether nothing but document ends is left. -/
def isFinished : List Token → Bool
  | [] => true
  | .documentEnd :: rest => isFinished rest
  | _ => false

/-- The tree of a text with one document. A text without a document has none. -/
def document? (tokens : List Token) : Option (Option (Node String)) := do
  let fuel := 2 * tokens.length + 2
  match tokens with
  | [] => some none
  | .version .. :: _ => explicit fuel tokens
  | .tagDirective .. :: _ => explicit fuel tokens
  | .documentStart :: _ => explicit fuel tokens
  | _ => do
    let (root, rest) ← readNode defaultHandles .block fuel tokens
    if isFinished rest then some (some root) else none
where
  /-- A document after its start marker. -/
  explicit (fuel : Nat) (tokens : List Token) : Option (Option (Node String)) := do
    let (handles, tokens) ← readDirectives false [] tokens
    match tokens with
    | .documentStart :: rest => do
      let (root, rest) ←
        match rest with
        | [] => some (emptyNode, rest)
        | .documentEnd :: _ => some (emptyNode, rest)
        | .documentStart :: _ => none
        | _ => readNode handles .block fuel rest
      if isFinished rest then some (some root) else none
    | _ => none

end TwigComponent.Yaml
