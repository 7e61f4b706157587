import TwigComponent.Ordered
import TwigComponent.Yaml.Lexer
import TwigComponent.Yaml.Node
import TwigComponent.Yaml.Plain

/-!
# Reading documents

The value of a text with one document. Aliases stand for the whole node they
name, keys of a mapping are distinct, and a tag of the application stays on its
value while the tags of the core schema decide how a scalar is read.

An anchor is known by a number, the count of different names before it. Giving a
name anew does not raise the count, so a later anchor may take the same number;
an alias then stands for the last node with its number.
-/
namespace TwigComponent.Yaml

/-- The numbers of the anchors that are known, by name. -/
abbrev Anchors := List (String × Nat)

/-- Numbers an anchor. -/
def numberAnchor (anchor : Option String) (anchors : Anchors) : Option Nat × Anchors :=
  match anchor with
  | some name => (some anchors.length, Ordered.insert name anchors.length anchors)
  | none => (none, anchors)

mutual

/-- Numbers the anchors and aliases of a node, unless an alias is unknown. -/
def link : Node String → Anchors → Option (Node Nat × Anchors)
  | .alias name, anchors => do
    let number ← Ordered.get? name anchors
    some (.alias number, anchors)
  | .scalar anchor tag text plain, anchors =>
    let (number, anchors) := numberAnchor anchor anchors
    some (.scalar number tag text plain, anchors)
  | .sequence anchor tag items, anchors => do
    let (number, anchors) := numberAnchor anchor anchors
    let (items, anchors) ← linkItems items anchors
    some (.sequence number tag items, anchors)
  | .mapping anchor tag entries, anchors => do
    let (number, anchors) := numberAnchor anchor anchors
    let (entries, anchors) ← linkEntries entries anchors
    some (.mapping number tag entries, anchors)

def linkItems : List (Node String) → Anchors → Option (List (Node Nat) × Anchors)
  | [], anchors => some ([], anchors)
  | item :: rest, anchors => do
    let (item, anchors) ← link item anchors
    let (items, anchors) ← linkItems rest anchors
    some (item :: items, anchors)

def linkEntries : List (Node String × Node String) → Anchors →
    Option (List (Node Nat × Node Nat) × Anchors)
  | [], anchors => some ([], anchors)
  | (key, value) :: rest, anchors => do
    let (key, anchors) ← link key anchors
    let (value, anchors) ← link value anchors
    let (entries, anchors) ← linkEntries rest anchors
    some ((key, value) :: entries, anchors)

end

def ownAnchor (anchor : Option Nat) (node : Node Nat) : List (Nat × Node Nat) :=
  match anchor with
  | some number => [(number, node)]
  | none => []

mutual

/-- The nodes with an anchor, in the order of the text. -/
def anchored : Node Nat → List (Nat × Node Nat)
  | .alias _ => []
  | .scalar anchor tag text plain => ownAnchor anchor (.scalar anchor tag text plain)
  | .sequence anchor tag items =>
    ownAnchor anchor (.sequence anchor tag items) ++ anchoredItems items
  | .mapping anchor tag entries =>
    ownAnchor anchor (.mapping anchor tag entries) ++ anchoredEntries entries

def anchoredItems : List (Node Nat) → List (Nat × Node Nat)
  | [] => []
  | item :: rest => anchored item ++ anchoredItems rest

def anchoredEntries : List (Node Nat × Node Nat) → List (Nat × Node Nat)
  | [] => []
  | (key, value) :: rest => anchored key ++ anchored value ++ anchoredEntries rest

end

mutual

/-- The size of a node: one for a scalar or an alias, two for a collection with its contents. -/
def weight {α : Type} : Node α → Nat
  | .alias _ => 1
  | .scalar _ _ _ _ => 1
  | .sequence _ _ items => 2 + weightItems items
  | .mapping _ _ entries => 2 + weightEntries entries

def weightItems {α : Type} : List (Node α) → Nat
  | [] => 0
  | item :: rest => weight item + weightItems rest

def weightEntries {α : Type} : List (Node α × Node α) → Nat
  | [] => 0
  | (key, value) :: rest => weight key + weight value + weightEntries rest

end

/-- The value of a scalar that has no tag. -/
def untaggedScalar? (text : String) (plain : Bool) : Option Yaml :=
  if plain then Plain.value? text else some (.str text)

/-- The value of a scalar under a tag that is no name: those of the core schema say how to read
it, and any other tag that is not of the application makes it a string. -/
def coreScalar? (tag : Tag) (text : String) (plain : Bool) : Option Yaml :=
  match tag.text? with
  | some "tag:yaml.org,2002:bool" => .bool <$> Plain.bool? text
  | some "tag:yaml.org,2002:int" =>
    match Plain.int? text.toList with
    | some value => if Plain.inRange value then some (.num (.int value)) else none
    | none => none
  | some "tag:yaml.org,2002:float" => .num <$> Plain.float? text
  | some "tag:yaml.org,2002:null" => if Plain.isNull text then some .null else none
  | _ => if tag.isLocal then untaggedScalar? text plain else some (.str text)

/-- A value under the tag of its node. -/
def withTag (tag : Option Tag) (value : Yaml) : Yaml :=
  match tag.bind Tag.name? with
  | some name => .tagged name value
  | none => value

/-- The value of a scalar. Under a name it is read as if it had no tag. -/
def scalarValue? (tag : Option Tag) (text : String) (plain : Bool) : Option Yaml :=
  match tag with
  | none => untaggedScalar? text plain
  | some tag =>
    match tag.name? with
    | some name => .tagged name <$> untaggedScalar? text plain
    | none => coreScalar? tag text plain

/-- What aliases stand for, and how often they may be followed in all. -/
structure Expansion where
  targets : List (Nat × Node Nat)
  limit : Nat

/-- Follows an alias. -/
def Expansion.follow? (expansion : Expansion) (node : Node Nat) (jumps : Nat) :
    Option (Node Nat × Nat) :=
  match node with
  | .alias number => do
    let target ← expansion.targets.lookup number
    if expansion.limit ≤ jumps then none else some (target, jumps + 1)
  | node => some (node, jumps)

/-- Reads the members of a list one after the other, with the number of aliases followed. -/
def readEach {α β : Type} (read : α → Nat → Option (β × Nat)) :
    List α → Nat → Option (List β × Nat)
  | [], jumps => some ([], jumps)
  | item :: rest, jumps => do
    let (first, jumps) ← read item jumps
    let (others, jumps) ← readEach read rest jumps
    some (first :: others, jumps)

/-- Whether no two entries have the same key. -/
def distinctKeys : List (Yaml × Yaml) → Bool
  | [] => true
  | (key, _) :: rest => !rest.any (fun entry => entry.1 == key) && distinctKeys rest

/-- The value of a node that is not an alias, in which collections nest at most `depth` deep. -/
def nodeValue? (expansion : Expansion) : Nat → Node Nat → Nat → Option (Yaml × Nat)
  | _, .alias _, _ => none
  | _, .scalar _ tag text plain, jumps => do
    let value ← scalarValue? tag text plain
    some (value, jumps)
  | 0, _, _ => none
  | depth + 1, .sequence _ tag items, jumps => do
    let (values, jumps) ← readEach (followed depth) items jumps
    some (withTag tag (.seq values), jumps)
  | depth + 1, .mapping _ tag entries, jumps => do
    let (values, jumps) ← readEach (fun entry jumps => do
      let (key, jumps) ← followed depth entry.1 jumps
      let (value, jumps) ← followed depth entry.2 jumps
      some ((key, value), jumps)) entries jumps
    if distinctKeys values then some (withTag tag (.map values), jumps) else none
where
  /-- The value of a node or of what it stands for. -/
  followed (depth : Nat) (node : Node Nat) (jumps : Nat) : Option (Yaml × Nat) := do
    let (target, jumps) ← expansion.follow? node jumps
    nodeValue? expansion depth target jumps

/-- Collections nest at most this deep. -/
def maxDepth : Nat := 128

/-- The value of the tree of a document. -/
def rootValue? (root : Node String) : Option Yaml := do
  let (root, _) ← link root []
  let expansion : Expansion := ⟨(anchored root).reverse, 100 * weight root⟩
  let (value, _) ← nodeValue? expansion maxDepth root 0
  some value

/-- The value of a text with one document, or null for a text with none. -/
def ofText? (text : String) : Option Yaml := do
  let cs := text.toList
  if cs.all isAllowed then
    let tokens ← tokens? cs
    match ← document? tokens with
    | some root => rootValue? root
    | none => some .null
  else none

end TwigComponent.Yaml
