import TwigComponent.Proofs.FieldReading

/-!
# Parts of a document

Each value that is read of a document has a role, in which it is read as a part of
that document. A step leads from a value to one inside it, and likewise from a part
to one inside it. Reading carries through a step if the value there was read as the
part there, and another value that can be read in its place changes that part and
nothing else.
-/
namespace TwigComponent.Source

open Json Text

section Parts

/-- The attributes of an element, a component reference or a slot. -/
def Node.attributes : Node → List Attribute
  | .element _ _ attributes _ => attributes
  | .component _ _ attributes _ => attributes
  | .slot _ attributes _ => attributes
  | _ => []

def Node.withAttributes (attributes : List Attribute) : Node → Node
  | .element span name _ children => .element span name attributes children
  | .component span name _ children => .component span name attributes children
  | .slot span _ children => .slot span attributes children
  | node => node

def Node.children : Node → List Node
  | .fragment _ children => children
  | .element _ _ _ children => children
  | .ifBlock _ _ children _ _ => children
  | .eachBlock _ _ _ _ _ children _ => children
  | .component _ _ _ children => children
  | .slot _ _ children => children
  | _ => []

def Node.withChildren (children : List Node) : Node → Node
  | .fragment span _ => .fragment span children
  | .element span name attributes _ => .element span name attributes children
  | .ifBlock span test _ otherwise elseif => .ifBlock span test children otherwise elseif
  | .eachBlock span items context index key _ otherwise =>
    .eachBlock span items context index key children otherwise
  | .component span name attributes _ => .component span name attributes children
  | .slot span attributes _ => .slot span attributes children
  | node => node

/-- The else branch of a block. -/
def Node.otherwise : Node → Option Branch
  | .ifBlock _ _ _ otherwise _ => otherwise
  | .eachBlock _ _ _ _ _ _ otherwise => otherwise
  | _ => none

def Node.withOtherwise (branch : Branch) : Node → Node
  | .ifBlock span test children _ elseif => .ifBlock span test children (some branch) elseif
  | .eachBlock span items context index key children _ =>
    .eachBlock span items context index key children (some branch)
  | node => node

/-- The statement that an export declares. -/
def Statement.declaration : Statement → Option Statement
  | .exportNamed _ declaration => declaration
  | _ => none

def Statement.withDeclaration : Statement → Statement → Statement
  | .exportNamed span _, declaration => .exportNamed span (some declaration)
  | statement, _ => statement

/-- The statement behind a label. -/
def Statement.body : Statement → Option Statement
  | .labeled _ _ body => some body
  | _ => none

def Statement.withBody : Statement → Statement → Statement
  | .labeled span label _, body => .labeled span label body
  | statement, _ => statement

/-- A part of a document: whatever a value in its JSON is read as. -/
inductive Part where
  | document (document : Document)
  | fragment (fragment : Fragment)
  | script (script : Script)
  | program (program : Program)
  | branch (branch : Branch)
  | nodes (nodes : List Node)
  | attributes (attributes : List Attribute)
  | statements (statements : List Statement)
  | node (node : Node)
  | attribute (attr : Attribute)
  | statement (statement : Statement)

/-- The part that a step leads to. The parts of a document stand under their names, or in a list in
their order. -/
def Part.at? : Part → Step → Option Part
  | .document whole, .field "html" => some (.fragment whole.html)
  | .document whole, .field "instance" => whole.instanceScript.map .script
  | .document whole, .field "module" => whole.moduleScript.map .script
  | .document whole, .item 0 => some (.fragment whole.html)
  | .document whole, .item 1 => whole.instanceScript.map .script
  | .document whole, .item 2 => whole.moduleScript.map .script
  | .fragment whole, .field "children" => some (.nodes whole.children)
  | .script whole, .field "content" => some (.program whole.content)
  | .program whole, .field "body" => some (.statements whole.body)
  | .branch whole, .field "children" => some (.nodes whole.children)
  | .nodes list, .item index => list[index]?.map .node
  | .attributes list, .item index => list[index]?.map .attribute
  | .statements list, .item index => list[index]?.map .statement
  | .node whole, .field "attributes" => some (.attributes whole.attributes)
  | .node whole, .field "children" => some (.nodes whole.children)
  | .node whole, .field "else" => whole.otherwise.map .branch
  | .statement whole, .field "declaration" => whole.declaration.map .statement
  | .statement whole, .field "body" => whole.body.map .statement
  | _, _ => none

/-- Puts a part in place of the one that a step leads to. -/
def Part.put : Part → Step → Part → Part
  | .document whole, .field "html", .fragment new => .document { whole with html := new }
  | .document whole, .field "instance", .script new =>
    .document { whole with instanceScript := some new }
  | .document whole, .field "module", .script new => .document { whole with moduleScript := some new }
  | .document whole, .item 0, .fragment new => .document { whole with html := new }
  | .document whole, .item 1, .script new => .document { whole with instanceScript := some new }
  | .document whole, .item 2, .script new => .document { whole with moduleScript := some new }
  | .fragment whole, .field "children", .nodes new => .fragment { whole with children := new }
  | .script whole, .field "content", .program new => .script { whole with content := new }
  | .program whole, .field "body", .statements new => .program { whole with body := new }
  | .branch whole, .field "children", .nodes new => .branch (.mk whole.span new)
  | .nodes list, .item index, .node new => .nodes (list.set index new)
  | .attributes list, .item index, .attribute new => .attributes (list.set index new)
  | .statements list, .item index, .statement new => .statements (list.set index new)
  | .node whole, .field "attributes", .attributes new => .node (whole.withAttributes new)
  | .node whole, .field "children", .nodes new => .node (whole.withChildren new)
  | .node whole, .field "else", .branch new => .node (whole.withOtherwise new)
  | .statement whole, .field "declaration", .statement new => .statement (whole.withDeclaration new)
  | .statement whole, .field "body", .statement new => .statement (whole.withBody new)
  | whole, _, _ => whole

end Parts

/-- A grammar in which an unknown kind is allowed for. -/
inductive Grammar where
  | node
  | attribute
  | statement
deriving DecidableEq, Repr

def Grammar.kinds : Grammar → List String
  | .node => Node.kinds
  | .attribute => Attribute.kinds
  | .statement => Statement.kinds

def Grammar.unknown : Grammar → Part
  | .node => .node .unknown
  | .attribute => .attribute .unknown
  | .statement => .statement .unknown

/-- What a value in the JSON of a document is read as. -/
inductive Role where
  | document
  | fragment
  | script
  | program
  | branch
  | list (grammar : Grammar) (standing : Standing)
  | one (grammar : Grammar) (standing : Standing)
deriving DecidableEq, Repr

/-- The fields of a kind of node that hold nodes or attributes. -/
def Node.fields : String → List (String × Role)
  | "Fragment" => [("children", .list .node .inner)]
  | "Element" => [("attributes", .list .attribute .inner), ("children", .list .node .inner)]
  | "InlineComponent" => [("attributes", .list .attribute .inner), ("children", .list .node .inner)]
  | "Slot" => [("attributes", .list .attribute .inner), ("children", .list .node .inner)]
  | "IfBlock" => [("children", .list .node .inner), ("else", .branch)]
  | "EachBlock" => [("children", .list .node .inner), ("else", .branch)]
  | _ => []

/-- The fields of a kind of statement that hold statements. -/
def Statement.fields : String → List (String × Role)
  | "ExportNamedDeclaration" => [("declaration", .one .statement .inner)]
  | "LabeledStatement" => [("body", .one .statement .inner)]
  | _ => []

def Grammar.fields : Grammar → String → List (String × Role)
  | .node => Node.fields
  | .attribute => fun _ => []
  | .statement => Statement.fields

namespace Role

/-- The fields that are read of a value, with the roles of their values. -/
def fields (json : Json) : Role → List (String × Role)
  | .document => [("html", .fragment), ("instance", .script), ("module", .script)]
  | .fragment => [("children", .list .node .alone)]
  | .script => [("content", .program)]
  | .program => [("body", .list .statement .alone)]
  | .branch => [("children", .list .node .inner)]
  | .list _ _ => []
  | .one grammar standing =>
    match kindOf standing grammar.kinds json with
    | .ok kind => grammar.fields kind
    | .error _ => []

/-- The role of an item. A document may be a list of its three parts. -/
def itemRole? : Role → Nat → Option Role
  | .document, 0 => some .fragment
  | .document, 1 => some .script
  | .document, 2 => some .script
  | .list grammar standing, _ => some (.one grammar standing)
  | _, _ => none

/-- The role of the value that a step leads to. -/
def inner? (role : Role) (json : Json) : Step → Option Role
  | .field key => (role.fields json).lookup key
  | .item index => role.itemRole? index

end Role

def readBranch (json : Json) : Except LoadError Branch := do
  return .mk (← readSpan json) (← readChildren .inner json)

/-- Reads a value in a role. -/
def Role.read : Role → Json → Except LoadError Part
  | .document, json => .document <$> Document.ofJson json
  | .fragment, json => .fragment <$> readFragment json
  | .script, json => .script <$> readScript json
  | .program, json => .program <$> readProgram json
  | .branch, json => .branch <$> readBranch json
  | .list .node standing, json => .nodes <$> readEach (readNode standing) json
  | .list .attribute standing, json => .attributes <$> readEach (readAttribute standing) json
  | .list .statement standing, json => .statements <$> readEach (readStatement standing) json
  | .one .node standing, json => .node <$> readNode standing json
  | .one .attribute standing, json => .attribute <$> readAttribute standing json
  | .one .statement standing, json => .statement <$> readStatement standing json

/-- Reading carries through a step: the value there was read as the part there, and another value
that can be read changes that part. -/
structure Carries (role : Role) (json : Json) (part : Part) (step : Step) (inner : Role)
    (value : Json) : Prop where
  found : ∃ old, inner.read value = .ok old ∧ part.at? step = some old
  replaced : ∀ other new, inner.read other = .ok new →
    role.read (json.put step other) = .ok (part.put step new) ∧
      (part.put step new).at? step = some new

/-- A step between two readers, each of which makes its own kind of part. -/
theorem Carries.of_reads {α β : Type} {outer : Json → Except LoadError α}
    {within : Json → Except LoadError β} {ofWhole : α → Part} {ofInner : β → Part} {role inner : Role}
    {json value : Json} {whole : α} {step : Step}
    (hr : ∀ json, role.read json = ofWhole <$> outer json)
    (hi : ∀ json, inner.read json = ofInner <$> within json)
    (found : ∃ old, within value = .ok old ∧ (ofWhole whole).at? step = some (ofInner old))
    (replaced : ∀ other new, within other = .ok new → ∃ changed,
      outer (json.put step other) = .ok changed ∧
        (ofWhole whole).put step (ofInner new) = ofWhole changed ∧
        (ofWhole changed).at? step = some (ofInner new)) :
    Carries role json (ofWhole whole) step inner value := by
  obtain ⟨old, ho, hp⟩ := found
  refine ⟨⟨ofInner old, (hi value).trans (map_eq_ok_iff.mpr ⟨old, ho, rfl⟩), hp⟩, fun other part h => ?_⟩
  rw [hi] at h
  obtain ⟨new, hn, rfl⟩ := map_eq_ok_iff.mp h
  obtain ⟨changed, hc, hput, hat⟩ := replaced other new hn
  rw [hr, hput]
  exact ⟨map_eq_ok_iff.mpr ⟨changed, hc, rfl⟩, hat⟩

end TwigComponent.Source
