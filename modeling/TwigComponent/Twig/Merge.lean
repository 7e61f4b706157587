/-!
# Literals with spreads

Twig has no spread. A literal that holds spreads is cut into groups, each a run
of plain entries or one spread source, and the groups are merged from left to
right, so that later entries win as they do with a spread.
-/
namespace TwigComponent.Twig

/-- A member of a literal that left a text. -/
inductive Piece where
  | entry (text : String)
  | spread (source : String)
deriving DecidableEq, Repr

inductive Group where
  | entries (texts : List String)
  | spread (source : String)
deriving DecidableEq, Repr

/-- Puts an entry in front: it joins a run that stands first. -/
def consEntry (text : String) : List Group → List Group
  | .entries texts :: rest => .entries (text :: texts) :: rest
  | groups => .entries [text] :: groups

/-- Cuts the members into maximal runs of entries, with every spread alone. -/
def groups : List Piece → List Group
  | [] => []
  | .entry text :: rest => consEntry text (groups rest)
  | .spread source :: rest => .spread source :: groups rest

/-- A group by itself; `literal` writes a run of entries. -/
def Group.write (literal : List String → String) : Group → String
  | .entries texts => literal texts
  | .spread source => source

/-- The first group, and a merge filter for every later one. -/
def mergeChain (literal : List String → String) : List Group → String
  | [] => ""
  | first :: rest =>
    first.write literal ++ String.join (rest.map fun group => "|merge(" ++ group.write literal ++ ")")

def arrayLiteral (texts : List String) : String :=
  "[" ++ ", ".intercalate texts ++ "]"

def hashLiteral (texts : List String) : String :=
  "\x7b " ++ ", ".intercalate texts ++ " \x7d"

/-- The members of an array literal. -/
def writeArray (pieces : List Piece) : String :=
  if pieces.isEmpty then "[]" else mergeChain arrayLiteral (groups pieces)

/-- The members of a hash literal. -/
def writeHash (pieces : List Piece) : String :=
  if pieces.isEmpty then "\x7b\x7d" else mergeChain hashLiteral (groups pieces)

end TwigComponent.Twig
