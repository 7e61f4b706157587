import TwigComponent.Twig.Expression

/-!
# Loop bindings

A Twig loop binds one or two plain names. An array pattern of one or two names
becomes these names. Any other pattern is bound from a loop variable of its own,
named after the iterated expression, by `set` tags at the head of the body. A
pattern that goes deeper than one level has no Twig form.
-/
namespace TwigComponent.Twig

open Source

/-- A tag that holds a statement. -/
def tag (body : String) : String := "\x7b% " ++ body ++ " %\x7d"

def setTag (name value : String) : String := tag ("set " ++ name ++ " = " ++ value)

/-- What a loop binds: the names after `for`, and the tags that bind the rest. -/
structure LoopHead where
  targets : String
  bindings : String
deriving DecidableEq, Repr

def loopFault (message : String) : Fault := .unwritable "EachBlock" message

def nestedPattern : Fault :=
  loopFault "nested destructuring in a loop binding is not supported"

/-- The names of an array pattern. -/
def targetNames : List (Option Pattern) → Except Fault (List String)
  | [] => .ok []
  | some (.identifier _ name) :: rest => (name :: ·) <$> targetNames rest
  | _ :: _ => .error nestedPattern

def loopTargets (elements : List (Option Pattern)) : Except Fault String :=
  if elements.length = 1 || elements.length = 2 then
    ", ".intercalate <$> targetNames elements
  else .error (loopFault "array bindings must name one or two loop variables")

/-- The loop variable for an iterated expression. Letters and digits are those of ASCII. -/
def loopVariable (iterable : String) : String :=
  String.ofList (iterable.toList.map fun c => if c.isAlphanum then c else '_') ++ "_item"

/-- Binds one member of an object pattern. -/
def bindMember (item : String) : PatternMember → Report (Except Fault String)
  | .property _ (.identifier _ key) value false =>
    match value with
    | .identifier _ name => pure (.ok (setTag name (item ++ "." ++ key)))
    | .assignment _ (.identifier _ name) right => do
      let fallback ← expression .value right
      pure (.ok (setTag name (item ++ "." ++ key ++ "|default(" ++ fallback ++ ")")))
    | _ => pure (.error nestedPattern)
  | .property .. => pure (.error (loopFault "only identifier keys can be destructured"))
  | .rest .. => pure (.error (loopFault "rest elements cannot be bound in a loop"))

/-- Binds the members of an object pattern up to the first that has no form. -/
def bindMembers (item : String) : List PatternMember → Report (Except Fault String)
  | [] => pure (.ok "")
  | member :: rest => do
    match ← bindMember item member with
    | .error fault => pure (.error fault)
    | .ok text => do
      match ← bindMembers item rest with
      | .error fault => pure (.error fault)
      | .ok texts => pure (.ok (text ++ texts))

/-- Binds a pattern to the loop variable. -/
def bindPattern (item : String) : Pattern → Report (Except Fault String)
  | .identifier _ name => pure (.ok (setTag name item))
  | .object _ members => bindMembers item members
  | other => pure (.error (loopFault s!"{other.kind} cannot bind a loop item"))

/-- The head of a loop over the text of the iterated expression. -/
def loopHead (iterable : String) : Option Pattern → Report (Except Fault LoopHead)
  | some (.array _ elements) => pure ((LoopHead.mk · "") <$> loopTargets elements)
  | some pattern => do
    let bindings ← bindPattern (loopVariable iterable) pattern
    pure (LoopHead.mk (loopVariable iterable) <$> bindings)
  | none => pure (.ok ⟨loopVariable iterable, ""⟩)

end TwigComponent.Twig
