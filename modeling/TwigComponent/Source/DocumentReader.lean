import TwigComponent.Json.Raw
import TwigComponent.Source.MarkupReader
import TwigComponent.Source.Script

/-!
# Reading component documents

A document is an object with the render tree and the scripts, or a list of these
three in that order. In a text, the values of its other fields are skipped: they
have to be well formed, and nothing more is asked of them.
-/
namespace TwigComponent.Source

open Text

def Keyword.ofName : String → Keyword
  | "var" => .var
  | "let" => .let
  | "const" => .const
  | _ => .other

/-- The keyword of a declaration: its name, or an object with that name alone and nothing under
it. -/
def readKeyword : Json → Except LoadError Keyword
  | .obj [(name, .null)] => .ok (.ofName name)
  | .obj [(name, .obj [])] => .ok (.ofName name)
  | json => .ofName <$> textOf json

def readDeclarator (json : Json) : Except LoadError Declarator := do
  let init ← (← nullable json "init").mapM fun value => readExpr .inner value.1
  return ⟨← readSpan json, ← readPattern (← field json "id").1, init⟩

/-- The name of a label, which is an identifier that does not name its kind. -/
def readLabel (json : Json) : Except LoadError String := do
  let _ ← readSpan json
  text json "name"

def readStatement (standing : Standing) (json : Json) : Except LoadError Statement := do
  match ← kindOf standing Statement.kinds json with
  | "VariableDeclaration" =>
    let declarators ← (← items json "declarations").mapM fun item => readDeclarator item.1
    return .variables (← readSpan json) (← readKeyword (← field json "kind").1) declarators
  | "ExportNamedDeclaration" =>
    let declaration ← (← nullable json "declaration").mapM fun ⟨value, _⟩ => readStatement .inner value
    return .exportNamed (← readSpan json) declaration
  | "LabeledStatement" =>
    let ⟨body, _⟩ ← field json "body"
    return .labeled (← readSpan json) (← readLabel (← field json "label").1) (← readStatement .inner body)
  | "ExpressionStatement" =>
    return .expression (← readSpan json) (← readExpression json)
  | _ => return .unknown
termination_by sizeOf json

def readProgram (json : Json) : Except LoadError Program := do
  let body ← (← items json "body").mapM fun item => readStatement .alone item.1
  return ⟨← readSpan json, body⟩

def readScript (json : Json) : Except LoadError Script := do
  let content ← (← field? json "content").mapM fun value => readProgram value.1
  return ⟨← readSpan json, ← textOrEmpty json "context", content.getD {}⟩

def readFragment (json : Json) : Except LoadError Fragment := do
  return ⟨← readSpan json, ← readChildren .alone json⟩

def readNullableScript : Json → Except LoadError (Option Script)
  | .null => .ok none
  | json => some <$> readScript json

def Document.fields : List String := ["html", "instance", "module"]

/-- The document that a JSON value stands for. -/
def Document.ofJson : Json → Except LoadError Document
  | .arr [] => .ok {}
  | .arr [html] => return ⟨← readFragment html, none, none⟩
  | .arr [html, inst] => return ⟨← readFragment html, ← readNullableScript inst, none⟩
  | .arr [html, inst, module] =>
    return ⟨← readFragment html, ← readNullableScript inst, ← readNullableScript module⟩
  | json => do
    let html ← (← field? json "html").mapM fun value => readFragment value.1
    let inst ← (← nullable json "instance").mapM fun value => readScript value.1
    let module ← (← nullable json "module").mapM fun value => readScript value.1
    return ⟨html.getD {}, inst, module⟩

/-- The fields of a raw document that are read. The others are dropped unseen. -/
def documentFields : List (Option String × Json.Raw) → Option (List (String × Json))
  | [] => some []
  | (key, value) :: rest => do
    let key ← key
    if key ∈ Document.fields then
      let value ← value.value? (Json.maxDepth - 1)
      return (key, value) :: (← documentFields rest)
    else
      documentFields rest

/-- The document that a text stands for. -/
def Document.ofText (text : String) : Except LoadError Document :=
  let json := do
    match ← Json.Raw.ofText? text with
    | .obj members => Json.obj <$> documentFields members
    | raw => raw.value? Json.maxDepth
  match json with
  | some json => Document.ofJson json
  | none => .error .notJson

end TwigComponent.Source
