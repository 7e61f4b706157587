import TwigComponent.Source.Expression
import TwigComponent.Source.Markup

/-!
# Component scripts and documents

A component is a render tree with up to two scripts, of which the instance
script declares the component's interface.
-/
namespace TwigComponent.Source

open Text

inductive Keyword where
  | var
  | let
  | const
  | other
deriving DecidableEq, Repr

structure Declarator where
  span : Span
  target : Pattern
  init : Option Expr

inductive Statement where
  | variables (span : Span) (keyword : Keyword) (declarators : List Declarator)
  | exportNamed (span : Span) (declaration : Option Statement)
  | labeled (span : Span) (label : String) (body : Statement)
  | expression (span : Span) (expression : Expr)
  | unknown

def Statement.kinds : List String :=
  ["VariableDeclaration", "ExportNamedDeclaration", "LabeledStatement", "ExpressionStatement"]

structure Program where
  span : Span := {}
  body : List Statement := []

structure Script where
  span : Span
  context : String
  content : Program

/-- The render tree of a document. -/
structure Fragment where
  span : Span := {}
  children : List Node := []

structure Document where
  html : Fragment := {}
  instanceScript : Option Script := none
  moduleScript : Option Script := none

/-- The top-level statements of the instance script. -/
def Document.instanceBody (document : Document) : List Statement :=
  match document.instanceScript with
  | some script => script.content.body
  | none => []

end TwigComponent.Source
