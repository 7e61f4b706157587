import TwigComponent.Yaml.Basic

/-!
# Documents as events

A document is written from its events: scalars, and the start and the end of
every collection. A mapping of one entry starts only when its key shows that it
is not a tag. A key that is tagged, or that is a mapping of one entry as well,
does not show it, and the start of the mapping is lost, unless a tag before the
mapping has made it known. A document that lost a start cannot be written, since
its ends no longer match.
-/
namespace TwigComponent.Yaml

inductive Event where
  | scalar
  | sequenceStart
  | sequenceEnd
  | mappingStart
  | mappingEnd
  /-- A tag on a node that has one already. -/
  | secondTag
deriving DecidableEq, Repr

/-- Whether a key hides the start of a mapping that has no other entry. -/
def hidesStart : Yaml → Bool
  | .tagged _ _ => true
  | .map [_] => true
  | _ => false

/-- The start of a mapping, unless it is lost. -/
def startEvents (tagged : Bool) : List (Yaml × Yaml) → List Event
  | [(key, _)] => if hidesStart key && !tagged then [] else [.mappingStart]
  | _ => [.mappingStart]

mutual

/-- The events of a node. The flag says that a tag stands before it. -/
def nodeEvents (tagged : Bool) : Yaml → List Event
  | .tagged _ value => if tagged then [.secondTag] else nodeEvents true value
  | .seq items => .sequenceStart :: itemEvents items ++ [.sequenceEnd]
  | .map entries => startEvents tagged entries ++ entryEvents entries ++ [.mappingEnd]
  | .null => [.scalar]
  | .bool _ => [.scalar]
  | .num _ => [.scalar]
  | .str _ => [.scalar]

def itemEvents : List Yaml → List Event
  | [] => []
  | item :: rest => nodeEvents false item ++ itemEvents rest

def entryEvents : List (Yaml × Yaml) → List Event
  | [] => []
  | (key, value) :: rest => nodeEvents false key ++ nodeEvents false value ++ entryEvents rest

end

/-- Why a document cannot be written. -/
inductive WriteFault where
  /-- An end stands where a node should. -/
  | missingNode
  /-- An end stands after the document. -/
  | missingDocument
  | nestedTag
deriving DecidableEq, Repr

def WriteFault.message : WriteFault → String
  | .missingNode => "expected SCALAR, SEQUENCE-START, MAPPING-START, or ALIAS"
  | .missingDocument => "expected DOCUMENT-START or STREAM-END"
  | .nestedTag => "serializing nested enums in YAML is not supported yet"

/-- What a collection that was started waits for. -/
inductive Level where
  | item
  | key
  | value
deriving DecidableEq, Repr

/-- The levels after a node. Outside all collections a node is a document by itself. -/
def afterNode : List Level → List Level
  | .key :: outer => .value :: outer
  | .value :: outer => .key :: outer
  | levels => levels

/-- The levels after an event, the innermost first. -/
def Event.step (levels : List Level) : Event → Except WriteFault (List Level)
  | .scalar => .ok (afterNode levels)
  | .sequenceStart => .ok (.item :: afterNode levels)
  | .mappingStart => .ok (.key :: afterNode levels)
  | .sequenceEnd =>
    match levels with
    | .item :: outer => .ok outer
    | [] => .error .missingDocument
    | _ => .error .missingNode
  | .mappingEnd =>
    match levels with
    | .key :: outer => .ok outer
    | [] => .error .missingDocument
    | _ => .error .missingNode
  | .secondTag => .error .nestedTag

/-- The first fault that keeps a document from being written. -/
def checkEvents (document : Yaml) : Except WriteFault Unit := do
  let _ ← (nodeEvents false document).foldlM Event.step []

end TwigComponent.Yaml
