/-!
# Spans of a source text

A span is a pair of byte offsets into a text. Offsets count the bytes of the
UTF-8 form, so a span need not fall between two characters; `Span.slice` gives
the covered text only if it does.
-/
namespace TwigComponent.Text

/-- The half-open range of bytes from `start` to `stop`. -/
structure Span where
  start : Nat := 0
  stop : Nat := 0
deriving DecidableEq, Repr, Inhabited

/-- Offsets are words of 32 bits. -/
def Span.limit : Nat := 4294967295

def Span.isEmpty (span : Span) : Bool :=
  span.start == span.stop

/-- The two offsets with two dots between them. -/
def Span.display (span : Span) : String :=
  toString span.start ++ ".." ++ toString span.stop

/-- Drops exactly `n` bytes; nothing if they end inside a character or past the end. -/
def dropBytes : Nat → List Char → Option (List Char)
  | 0, cs => some cs
  | _ + 1, [] => none
  | n + 1, c :: cs => if c.utf8Size ≤ n + 1 then dropBytes (n + 1 - c.utf8Size) cs else none

/-- Takes exactly `n` bytes; nothing if they end inside a character or past the end. -/
def takeBytes : Nat → List Char → Option (List Char)
  | 0, _ => some []
  | _ + 1, [] => none
  | n + 1, c :: cs =>
    if c.utf8Size ≤ n + 1 then (takeBytes (n + 1 - c.utf8Size) cs).map (c :: ·) else none

/-- The text that a non-empty span covers, if it lies in the source and both of its
ends stand between two characters. -/
def Span.slice (span : Span) (source : String) : Option String :=
  if span.start < span.stop then do
    let rest ← dropBytes span.start source.toList
    let covered ← takeBytes (span.stop - span.start) rest
    pure (String.ofList covered)
  else
    none

end TwigComponent.Text
