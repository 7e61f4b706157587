import TwigComponent.Options
import TwigComponent.Proofs.Subexpressions
import TwigComponent.Source.Script

/-!
# The strings of a component

Names, texts, literal values and operators: all that can reach the template of a
component as it stands. No template is made from the source text of a literal,
from a regular expression or from the script of the module, so they are left out.
-/
namespace TwigComponent

/-- Both strings of the options reach the template. The namespace of valid options has letters,
digits, `_` and `-` only. -/
def Options.strings (options : Options) : List String := [options.theme, options.defaultSlot]

namespace Source

open Text

/-- The string that stands in a segment. -/
def Segment.strings : Segment → List String
  | .text content => [content]
  | .expression _ => []

def LiteralValue.strings : LiteralValue → List String
  | .string value => [value]
  | _ => []

/-- The strings of an expression without those of the expressions inside it. -/
def Expr.ownStrings : Expr → List String
  | .identifier _ name => [name]
  | .literal _ content => content.value.strings
  | .binary _ operator _ _ => [operator]
  | .logical _ operator _ _ => [operator]
  | .unary _ operator _ => [operator]
  | .assignment _ operator _ _ => [operator]
  | .template _ segments => segments.flatMap Segment.strings
  | _ => []

@[simp] theorem ownStrings_identifier (span : Span) (name : String) :
    (Expr.identifier span name).ownStrings = [name] := rfl

def Expr.strings (e : Expr) : List String := e.subexpressions.flatMap Expr.ownStrings

def Pattern.strings (pattern : Pattern) : List String :=
  pattern.subexpressions.flatMap Expr.ownStrings

def TextContent.strings (text : TextContent) : List String := text.data :: text.raw.toList

def AttributePart.strings : AttributePart → List String
  | .text content => content.strings
  | .mustache _ expression => expression.strings
  | .shorthand _ expression => expression.strings

def AttributeValue.strings : AttributeValue → List String
  | .bool _ => []
  | .parts list => list.flatMap AttributePart.strings

def Attribute.strings : Attribute → List String
  | .normal _ name value => name :: value.strings
  | .spread _ expression => expression.strings
  | .unknown => []

mutual

/-- The strings of a node and of all that is inside it. -/
def Node.strings : Node → List String
  | .fragment _ children => nodeStrings children
  | .element _ name attributes children =>
    name :: (attributes.flatMap Attribute.strings ++ nodeStrings children)
  | .text content => content.strings
  | .comment _ data => [data]
  | .mustache _ expression => expression.strings
  | .rawMustache _ expression => expression.strings
  | .ifBlock _ test children otherwise _ =>
    test.strings ++ (nodeStrings children ++ branchStrings otherwise)
  | .eachBlock _ items context index key children otherwise =>
    items.strings ++ (context.toList.flatMap Pattern.strings ++ (index.toList
      ++ (key.toList.flatMap Expr.strings ++ (nodeStrings children ++ branchStrings otherwise))))
  | .component _ name attributes children =>
    name :: (attributes.flatMap Attribute.strings ++ nodeStrings children)
  | .slot _ attributes children => attributes.flatMap Attribute.strings ++ nodeStrings children
  | .unknown => []

def nodeStrings : List Node → List String
  | [] => []
  | first :: rest => first.strings ++ nodeStrings rest

def branchStrings : Option Branch → List String
  | none => []
  | some (.mk _ children) => nodeStrings children

end

theorem nodeStrings_eq (nodes : List Node) : nodeStrings nodes = nodes.flatMap Node.strings := by
  induction nodes with
  | nil => rfl
  | cons first rest ih => rw [nodeStrings, ih, List.flatMap_cons]

theorem forall_branchStrings {Q : String → Prop} {otherwise : Option Branch} :
    (∀ text ∈ branchStrings otherwise, Q text) ↔
      ∀ branch ∈ otherwise, ∀ child ∈ branch.children, ∀ text ∈ child.strings, Q text := by
  match otherwise with
  | none => simp [branchStrings]
  | some (.mk _ children) =>
    simp only [branchStrings, nodeStrings_eq, List.forall_mem_flatMap, Option.mem_some_iff,
      forall_eq', Branch.children]

def Declarator.strings (declarator : Declarator) : List String :=
  declarator.target.strings ++ declarator.init.toList.flatMap Expr.strings

def Statement.strings : Statement → List String
  | .variables _ _ declarators => declarators.flatMap Declarator.strings
  | .exportNamed _ none => []
  | .exportNamed _ (some declaration) => declaration.strings
  | .labeled _ label body => label :: body.strings
  | .expression _ value => value.strings
  | .unknown => []

def Document.strings (document : Document) : List String :=
  nodeStrings document.html.children ++ document.instanceBody.flatMap Statement.strings

end Source

end TwigComponent
