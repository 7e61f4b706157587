/-!
# Paths

Paths are texts with a slash between components. Components that are empty or a
single dot count for nothing when paths are compared.
-/
namespace TwigComponent.Path

def isAbsolute (path : String) : Bool := path.toList.head? == some '/'

/-- The pieces between slashes. -/
def pieces (path : String) : List String := (path.toList.splitOn '/').map String.ofList

def isName (piece : String) : Bool := piece != "" && piece != "."

/-- The components of a path. That of the root is a slash. -/
def components (path : String) : List String :=
  (if isAbsolute path then ["/"] else []) ++ (pieces path).filter isName

/-- A path below another one; an absolute path stands for itself. -/
def join (base path : String) : String :=
  if isAbsolute path || base = "" then path
  else if base.toList.getLast? == some '/' then base ++ path
  else base ++ "/" ++ path

def joinAll (base : String) (names : List String) : String := names.foldl join base

/-- The path as seen from a working directory. -/
def absolute (workingDirectory path : String) : String :=
  if isAbsolute path then path else join workingDirectory path

/-- The path without dots and slashes at its end. -/
def trimEnd (path : String) : String :=
  match (pieces path).reverse.dropWhile fun piece => !isName piece with
  | [] => if isAbsolute path then "/" else ""
  | kept => "/".intercalate kept.reverse

/-- Whether a path lies at or below another one. -/
def isBelow (path base : List String) : Bool := base.isPrefixOf path

/-- Compares component by component, each by its bytes. -/
def componentsLe : List String → List String → Bool
  | [], _ => true
  | _ :: _, [] => false
  | a :: as, b :: bs => if a = b then componentsLe as bs else a < b

end TwigComponent.Path
