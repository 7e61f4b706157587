import TwigComponent.Source.Markup
import TwigComponent.Twig.Expression

/-!
# Arguments of a component

The attributes of a component reference become one Twig hash. Every attribute is
an entry, a spread attribute is merged in at its place, and directives have no
part in it.
-/
namespace TwigComponent.Twig

open Source

/-- A part of a value made of several parts, none if it is empty. -/
def partTexts : AttributePart → Report (List String)
  | .text content => pure (if content.data = "" then [] else [quote content.data])
  | .mustache _ expr => keepText <$> operand .value expr
  | .shorthand _ expr => keepText <$> operand .value expr

def partsTexts : List AttributePart → Report (List String)
  | [] => pure []
  | part :: rest => do
    let texts ← partTexts part
    let others ← partsTexts rest
    pure (texts ++ others)

/-- The value of an attribute as one Twig value. A single expression stands for itself, and
several parts are concatenated. -/
def attributeValue : AttributeValue → Report String
  | .bool value => pure (booleanText value)
  | .parts [.mustache _ expr] => expression .value expr
  | .parts [.shorthand _ expr] => expression .value expr
  | .parts list => concatenation <$> partsTexts list

/-- What an attribute adds to the arguments. -/
def attributePieces : Attribute → Report (List Piece)
  | .normal _ name value => do
    let text ← attributeValue value
    pure (if text = "" then [] else [.entry (hashKey name ++ ": " ++ text)])
  | .spread _ expr => keepSpread <$> filterOperand .value expr
  | .unknown => pure []

def argumentPieces : List Attribute → Report (List Piece)
  | [] => pure []
  | first :: rest => do
    let pieces ← attributePieces first
    let others ← argumentPieces rest
    pure (pieces ++ others)

/-- The argument hash of a component reference, if there is an argument. -/
def componentArguments (attributes : List Attribute) : Report (Option String) := do
  let pieces ← argumentPieces attributes
  pure (if pieces.isEmpty then none else some (mergeChain hashLiteral (groups pieces)))

end TwigComponent.Twig
