import TwigComponent.Json.Basic
import TwigComponent.Text.Span

/-!
# Fields of a JSON object

The tree of a component is read from JSON objects field by field. A field is
read by name, fields that nobody reads are ignored, and a field that is read may
not be written twice. Every value handed out is smaller than the value it was
taken from, which is what lets the readers recurse.
-/
namespace TwigComponent.Source

open Text

/-- Why a JSON value is no component. -/
inductive LoadError where
  | notJson
  | mistyped (expected : String)
  | missing (key : String)
  | repeated (key : String)
  | unknownKind (kind : String)
deriving DecidableEq, Repr

def LoadError.detail : LoadError → String
  | .notJson => "the text is not JSON"
  | .mistyped expected => "expected " ++ expected
  | .missing key => "the field " ++ key ++ " is missing"
  | .repeated key => "the field " ++ key ++ " is repeated"
  | .unknownKind kind => "unknown kind " ++ kind

def LoadError.message (error : LoadError) : String :=
  "invalid AST document: " ++ error.detail

/-- A value that stands inside another one. -/
abbrev Inside (json : Json) := { value : Json // sizeOf value < sizeOf json }

namespace Inside

theorem sizeOf_member {members : List (String × Json)} {member : String × Json}
    (h : member ∈ members) : sizeOf member.2 < sizeOf (Json.obj members) := by
  have h₁ := List.sizeOf_lt_of_mem h
  have h₂ : sizeOf member.2 < sizeOf member := by
    cases member
    simp only [Prod.mk.sizeOf_spec]
    omega
  simp only [Json.obj.sizeOf_spec]
  omega

theorem sizeOf_item {items : List Json} {item : Json}
    (h : item ∈ items) : sizeOf item < sizeOf (Json.arr items) := by
  have := List.sizeOf_lt_of_mem h
  simp only [Json.arr.sizeOf_spec]
  omega

/-- What stands inside a value that stands inside. -/
def trans {json : Json} (outer : Inside json) (inner : Inside outer.1) : Inside json :=
  ⟨inner.1, Nat.lt_trans inner.2 outer.2⟩

end Inside

/-- The values written under a key. -/
def fieldValues (key : String) : (json : Json) → Except LoadError (List (Inside json))
  | .obj members =>
    .ok (members.attach.filterMap fun ⟨member, h⟩ =>
      if member.1 = key then some ⟨member.2, Inside.sizeOf_member h⟩ else none)
  | _ => .error (.mistyped "an object")

/-- The value of a field, if it is there. -/
def field? (json : Json) (key : String) : Except LoadError (Option (Inside json)) := do
  match ← fieldValues key json with
  | [] => .ok none
  | [value] => .ok (some value)
  | _ => .error (.repeated key)

/-- The value of a field that has to be there. -/
def field (json : Json) (key : String) : Except LoadError (Inside json) := do
  match ← field? json key with
  | some value => .ok value
  | none => .error (.missing key)

/-- The value of a field for which null means that it is not there. -/
def nullable (json : Json) (key : String) : Except LoadError (Option (Inside json)) := do
  match ← field? json key with
  | some ⟨.null, _⟩ => .ok none
  | value => .ok value

def itemsOf : (json : Json) → Except LoadError (List (Inside json))
  | .arr items => .ok (items.attach.map fun ⟨item, h⟩ => ⟨item, Inside.sizeOf_item h⟩)
  | _ => .error (.mistyped "a list")

/-- The items of a list field, none if the field is missing. -/
def items (json : Json) (key : String) : Except LoadError (List (Inside json)) := do
  match ← field? json key with
  | some list => return (← itemsOf list.1).map (Inside.trans list)
  | none => .ok []

def textOf : Json → Except LoadError String
  | .str value => .ok value
  | _ => .error (.mistyped "a string")

def text (json : Json) (key : String) : Except LoadError String := do
  textOf (← field json key).1

/-- A text field that is empty if it is missing. -/
def textOrEmpty (json : Json) (key : String) : Except LoadError String := do
  match ← field? json key with
  | some value => textOf value.1
  | none => .ok ""

def nullableText (json : Json) (key : String) : Except LoadError (Option String) := do
  match ← nullable json key with
  | some value => some <$> textOf value.1
  | none => .ok none

/-- A flag that is off if it is missing. -/
def flag (json : Json) (key : String) : Except LoadError Bool := do
  match ← field? json key with
  | some ⟨.bool value, _⟩ => .ok value
  | some _ => .error (.mistyped "a boolean")
  | none => .ok false

def offsetOf : Json → Except LoadError Nat
  | .num (.int value) =>
    if 0 ≤ value ∧ value ≤ Span.limit then .ok value.toNat else .error (.mistyped "an offset")
  | _ => .error (.mistyped "an offset")

/-- A source offset, zero if it is missing. -/
def offset (json : Json) (key : String) : Except LoadError Nat := do
  match ← field? json key with
  | some value => offsetOf value.1
  | none => .ok 0

/-- The place of a node, which stands among its other fields. -/
def readSpan (json : Json) : Except LoadError Span := do
  return { start := ← offset json "start", stop := ← offset json "end" }

/-- A place by itself, which may also be a list of its offsets. -/
def readPlainSpan : Json → Except LoadError Span
  | .arr [] => .ok {}
  | .arr [start] => return { start := ← offsetOf start }
  | .arr [start, stop] => return { start := ← offsetOf start, stop := ← offsetOf stop }
  | json => readSpan json

/-- Where a node stands: by itself or inside another node. -/
inductive Standing where
  | alone
  | inner
deriving DecidableEq, Repr

/-- The name of a kind. Inside another node its number in the list of kinds may stand for it; a
number beyond the list names no kind. -/
def kindName (standing : Standing) (kinds : List String) : Json → Except LoadError String
  | .num (.int (.ofNat index)) =>
    match standing with
    | .alone => .error (.mistyped "a string")
    | .inner => .ok (kinds.getD index (toString index))
  | json => textOf json

/-- The kind of a node. A list that holds nothing but a kind is a node without fields. -/
def kindOf (standing : Standing) (kinds : List String) : Json → Except LoadError String
  | .arr [kind] => kindName standing kinds kind
  | json => do kindName standing kinds (← field json "type").1

end TwigComponent.Source
