/-!
# Twig literals

Strings in single quotes, and the keys of hash literals, which need no quotes if
they are plain names.
-/
namespace TwigComponent.Twig

/-- A backslash stands before a backslash and before a quote. -/
def escapeChar (c : Char) : List Char :=
  if c = '\\' ∨ c = '\'' then ['\\', c] else [c]

/-- A string literal. -/
def quote (text : String) : String :=
  "'" ++ String.ofList (text.toList.flatMap escapeChar) ++ "'"

/-- A name of ASCII letters, digits and underscores that does not start with a digit. -/
def isPlainKey (name : String) : Bool :=
  match name.toList with
  | [] => false
  | c :: cs => (c.isAlpha || c == '_') && cs.all fun c => c.isAlphanum || c == '_'

/-- A key of a hash literal. -/
def hashKey (name : String) : String :=
  if isPlainKey name then name else quote name

end TwigComponent.Twig
