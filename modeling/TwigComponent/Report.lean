import TwigComponent.Text.Span

/-!
# Diagnostics and reports

Writing a template never stops at a node that has no Twig form: the node leaves
no text and a diagnostic says so. A `Report` is a result with the diagnostics
given on the way to it, in the order given.
-/
namespace TwigComponent

open Text

inductive Severity where
  | hint
  | warning
  | error
deriving DecidableEq, Repr

namespace Severity

def name : Severity → String
  | .hint => "Hint"
  | .warning => "Warning"
  | .error => "Error"

def rank : Severity → Nat
  | .hint => 0
  | .warning => 1
  | .error => 2

end Severity

inductive Code where
  /-- A node could not be written and was dropped. -/
  | droppedNode
  /-- A slot without a static name took the default name. -/
  | slotNameFallback
  /-- The initializer of a prop says nothing about its type. -/
  | unrecognizedInitializer
  /-- A component document could not be read. -/
  | loadError
  /-- A metadata document could not be made. -/
  | metadataError
  /-- The results of a component could not be stored. -/
  | writeError
deriving DecidableEq, Repr

namespace Code

def all : List Code :=
  [.droppedNode, .slotNameFallback, .unrecognizedInitializer, .loadError, .metadataError,
    .writeError]

def name : Code → String
  | .droppedNode => "node-translation"
  | .slotNameFallback => "slot-name-fallback"
  | .unrecognizedInitializer => "unrecognized-initializer"
  | .loadError => "load-error"
  | .metadataError => "metadata-error"
  | .writeError => "write-error"

def severity : Code → Severity
  | .droppedNode => .warning
  | .slotNameFallback => .warning
  | .unrecognizedInitializer => .hint
  | .loadError => .error
  | .metadataError => .error
  | .writeError => .error

end Code

structure Diagnostic where
  code : Code
  message : String
  span : Span
deriving DecidableEq, Repr

def Diagnostic.severity (diagnostic : Diagnostic) : Severity := diagnostic.code.severity

/-- A value and the diagnostics given while it was made. -/
structure Report (α : Type) where
  value : α
  diagnostics : List Diagnostic := []
deriving Repr

namespace Report

variable {α β : Type}

/-- A second step adds its diagnostics after those of the first. -/
def andThen (report : Report α) (next : α → Report β) : Report β :=
  let after := next report.value
  ⟨after.value, report.diagnostics ++ after.diagnostics⟩

instance : Monad Report where
  pure value := ⟨value, []⟩
  bind := andThen

/-- Gives one diagnostic. -/
def tell (diagnostic : Diagnostic) : Report Unit := ⟨(), [diagnostic]⟩

/-- The texts of the members one after the other, made from left to right. -/
def concat (write : α → Report String) : List α → Report String
  | [] => pure ""
  | item :: rest => do
    let text ← write item
    let texts ← concat write rest
    pure (text ++ texts)

theorem ext {a b : Report α} (hv : a.value = b.value)
    (hd : a.diagnostics = b.diagnostics) : a = b := by
  cases a
  cases b
  cases hv
  cases hd
  rfl

@[simp] theorem value_pure (value : α) : (pure value : Report α).value = value := rfl

@[simp] theorem diagnostics_pure (value : α) : (pure value : Report α).diagnostics = [] := rfl

@[simp] theorem value_bind (report : Report α) (next : α → Report β) :
    (report >>= next).value = (next report.value).value := rfl

@[simp] theorem diagnostics_bind (report : Report α) (next : α → Report β) :
    (report >>= next).diagnostics = report.diagnostics ++ (next report.value).diagnostics := rfl

@[simp] theorem value_map (f : α → β) (report : Report α) :
    (f <$> report).value = f report.value := rfl

@[simp] theorem diagnostics_map (f : α → β) (report : Report α) :
    (f <$> report).diagnostics = report.diagnostics := List.append_nil _

@[simp] theorem value_concat (write : α → Report String) (items : List α) :
    (concat write items).value = String.join (items.map fun item => (write item).value) := by
  induction items with
  | nil => rfl
  | cons item rest ih => simp [concat, ih, String.join_cons]

@[simp] theorem diagnostics_concat (write : α → Report String) (items : List α) :
    (concat write items).diagnostics = items.flatMap fun item => (write item).diagnostics := by
  induction items with
  | nil => rfl
  | cons item rest ih => simp [concat, ih]

end Report

/-- Why a node leaves no text. -/
inductive Fault where
  /-- A node of a known kind that cannot be written in Twig. -/
  | unwritable (kind message : String)
  /-- A construct that is dropped without a word. -/
  | unsupported
deriving DecidableEq, Repr

/-- The text of a node, or the empty text if it has a fault. A fault of a known kind is reported
with the place of the node. -/
def settle (span : Span) (attempt : Report (Except Fault String)) : Report String := do
  match ← attempt with
  | .ok text => pure text
  | .error .unsupported => pure ""
  | .error (.unwritable kind message) =>
    Report.tell {
      code := .droppedNode
      message := s!"cannot translate {kind}: {message} (node at {span.display} dropped)"
      span := span
    }
    pure ""

end TwigComponent
