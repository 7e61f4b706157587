import TwigComponent.Proofs.Writing

/-!
# Core expressions

The expressions that have a Twig form of their own: names, plain literals,
operators, members, calls and arrays. A core expression never loses its text,
and its text knows nothing of spans, of the source text of literals, of optional
chaining and of the difference between strict and loose comparison. `canonical`
drops just that.
-/
namespace TwigComponent

namespace Source

open Text

/-- Strict comparison turned into loose comparison, other operators kept. -/
def looseOperator : String → String
  | "===" => "=="
  | "!==" => "!="
  | operator => operator

mutual

/-- An expression without spans, source texts of literals and optional flags, and with loose
comparison in place of strict comparison. Kinds outside the core stay as they are. -/
def Expr.canonical : Expr → Expr
  | .identifier _ name => .identifier {} name
  | .literal _ content => .literal {} { content with raw := none }
  | .binary _ operator left right =>
    .binary {} (looseOperator operator) left.canonical right.canonical
  | .logical _ operator left right => .logical {} operator left.canonical right.canonical
  | .conditional _ test consequent alternate =>
    .conditional {} test.canonical consequent.canonical alternate.canonical
  | .unary _ operator argument => .unary {} operator argument.canonical
  | .call _ callee arguments _ => .call {} callee.canonical (canonicalArguments arguments) false
  | .member _ object property computed _ =>
    .member {} object.canonical property.canonical computed false
  | .array _ elements => .array {} (canonicalElements elements)
  | other => other

def canonicalArguments : List Expr → List Expr
  | [] => []
  | argument :: rest => argument.canonical :: canonicalArguments rest

def canonicalElements : List (Option Expr) → List (Option Expr)
  | [] => []
  | none :: rest => none :: canonicalElements rest
  | some element :: rest => some element.canonical :: canonicalElements rest

end

theorem canonicalArguments_eq (arguments : List Expr) :
    canonicalArguments arguments = arguments.map Expr.canonical := by
  induction arguments with
  | nil => rfl
  | cons argument rest ih => rw [canonicalArguments, ih, List.map_cons]

theorem canonicalElements_eq (elements : List Expr) :
    canonicalElements (elements.map some) = (elements.map Expr.canonical).map some := by
  induction elements with
  | nil => rfl
  | cons element rest ih => simp [canonicalElements, ih]

end Source

namespace Twig

open Source Text

/-- The words that a name in the core must not be. -/
def reservedWords : List String :=
  ["true", "false", "null", "not", "and", "or", "in", "instanceof"]

def coreBinaryOperators : List String :=
  ["==", "!=", "===", "!==", "<", "<=", ">", ">=", "<<", ">>", ">>>", "+", "-", "*", "/", "%",
    "**", "|", "^", "&", "in", "instanceof"]

def coreLogicalOperators : List String := ["&&", "||", "??"]

def coreUnaryOperators : List String := ["!", "-", "+"]

/-- A string, a truth value, null or a natural number. -/
def IsPlainValue : LiteralValue → Prop
  | .string _ => True
  | .number (.int value) => 0 ≤ value
  | .number (.float _) => False
  | .boolean _ => True
  | .null => True

structure IsPlain (literal : Literal) : Prop where
  regex : literal.regex = none
  bigint : literal.bigint = none
  value : IsPlainValue literal.value

/-- The core expressions. The name of a property may also be a reserved word. -/
inductive Core : Expr → Prop
  | identifier (span : Span) {name : String} :
      isPlainKey name = true → name ∉ reservedWords → Core (.identifier span name)
  | literal (span : Span) {content : Literal} : IsPlain content → Core (.literal span content)
  | binary (span : Span) {operator : String} {left right : Expr} :
      operator ∈ coreBinaryOperators → Core left → Core right →
      Core (.binary span operator left right)
  | logical (span : Span) {operator : String} {left right : Expr} :
      operator ∈ coreLogicalOperators → Core left → Core right →
      Core (.logical span operator left right)
  | conditional (span : Span) {test consequent alternate : Expr} :
      Core test → Core consequent → Core alternate →
      Core (.conditional span test consequent alternate)
  | unary (span : Span) {operator : String} {argument : Expr} :
      operator ∈ coreUnaryOperators → Core argument → Core (.unary span operator argument)
  | index (span : Span) (optional : Bool) {object property : Expr} :
      Core object → isUnary object = false → Core property →
      Core (.member span object property true optional)
  | property (span place : Span) (optional : Bool) {object : Expr} {name : String} :
      Core object → isUnary object = false → isPlainKey name = true →
      Core (.member span object (.identifier place name) false optional)
  | call (span : Span) (optional : Bool) {callee : Expr} {arguments : List Expr} :
      Core callee → isUnary callee = false → callee.isObjectEntries = false →
      (∀ argument ∈ arguments, Core argument) →
      Core (.call span callee arguments optional)
  | array (span : Span) {elements : List Expr} : (∀ element ∈ elements, Core element) →
      Core (.array span (elements.map some))

theorem groups_entries (text : String) (texts : List String) :
    groups ((text :: texts).map Piece.entry) = [.entries (text :: texts)] := by
  induction texts generalizing text with
  | nil => rfl
  | cons next rest ih =>
    rw [List.map_cons, groups, ih]
    rfl

theorem writeArray_entries (texts : List String) :
    writeArray (texts.map Piece.entry) = arrayLiteral texts := by
  cases texts with
  | nil => decide
  | cons text rest =>
    rw [writeArray, if_neg (by simp), groups_entries]
    simp [mergeChain, Group.write]

/-- Without holes, spreads and dropped elements an array is the list of its elements. -/
theorem value_array_entries (mode : Mode) (span : Span) {elements : List Expr}
    (h : ∀ element ∈ elements, Core element)
    (hne : ∀ element ∈ elements, (expression .value element).value ≠ "") :
    (expression mode (.array span (elements.map some))).value =
      arrayLiteral (elements.map fun element => (expression .value element).value) := by
  have pieces : (elements.map some).flatMap (fun element => (elementPiece element).value) =
      (elements.map fun element => (expression .value element).value).map Piece.entry := by
    induction elements with
    | nil => rfl
    | cons element rest ih =>
      rw [List.forall_mem_cons] at h hne
      have single : (elementPiece (some element)).value =
          [.entry (expression .value element).value] := by
        have kept : (elementPiece (some element)).value =
            keepEntry (expression .value element).value := by
          cases h.1 <;> rfl
        rw [kept, keepEntry, if_neg hne.1]
      rw [List.map_cons, List.flatMap_cons, single, ih h.2 hne.2]
      rfl
  rw [value_array, pieces, writeArray_entries]

/-- The text of a literal that is neither a regular expression nor a big integer. -/
def plainText : LiteralValue → String
  | .string value => quote value
  | .number value => value.text
  | .boolean value => booleanText value
  | .null => "null"

theorem IsPlain.text {literal : Literal} (h : IsPlain literal) :
    settledText (literalText literal) = plainText literal.value := by
  obtain ⟨value, raw, regex, bigint⟩ := literal
  obtain ⟨rfl, rfl, -⟩ := h
  cases value <;> rfl

theorem plainText_ne_empty {value : LiteralValue} (h : IsPlainValue value) :
    plainText value ≠ "" := by
  match value, h with
  | .string value, _ => simp [plainText, quote]
  | .number (.int (.ofNat n)), _ => exact Nat.repr_ne_empty
  | .boolean true, _ => decide
  | .boolean false, _ => decide
  | .null, _ => decide

/-- A core expression leaves a text. -/
theorem Core.value_ne_empty {e : Expr} (h : Core e) (mode : Mode) :
    (expression mode e).value ≠ "" := by
  induction h generalizing mode with
  | identifier span hk hr =>
    rw [value_identifier]
    rintro rfl
    exact absurd hk (by decide)
  | literal span hp =>
    rw [value_literal, hp.text]
    exact plainText_ne_empty hp.value
  | binary span ho _ _ _ _ => simp
  | logical span ho _ _ _ _ =>
    simp only [coreLogicalOperators, List.mem_cons, List.not_mem_nil, or_false] at ho
    rw [value_logical]
    rcases ho with rfl | rfl | rfl <;> exact LogicalOperator.write_ne_empty _ _ _ _ _ _
  | conditional span _ _ _ _ _ _ => simp
  | unary span ho _ _ =>
    simp only [coreUnaryOperators, List.mem_cons, List.not_mem_nil, or_false] at ho
    rw [value_unary]
    rcases ho with rfl | rfl | rfl <;> simp [unaryOperator?]
  | index span optional _ _ _ ho _ =>
    rw [value_member, if_neg (by simpa using ho mode), if_pos rfl]
    simp
  | property span place optional _ _ _ ho =>
    rw [value_member, if_neg (by simpa using ho mode), if_neg (by decide)]
    simp [Expr.identifier?]
  | call span optional _ _ hn _ hc _ =>
    rw [value_call, if_neg (by simp [hn]), if_neg (by simpa using hc mode)]
    simp
  | array span hc ih =>
    rw [value_array_entries mode span hc fun element hin => ih element hin .value]
    simp [arrayLiteral]

section Canonical

attribute [local simp] Expr.canonical

variable (e : Expr)

@[simp] theorem needsGrouping_canonical : needsGrouping e.canonical = needsGrouping e := by
  cases e <;> simp [needsGrouping]

@[simp] theorem isUnary_canonical : isUnary e.canonical = isUnary e := by
  cases e <;> simp [isUnary]

theorem identifier?_canonical : e.canonical.identifier? = e.identifier? := by
  cases e <;> simp [Expr.identifier?]

theorem isObjectEntries_canonical : e.canonical.isObjectEntries = e.isObjectEntries := by
  cases e <;> simp [Expr.isObjectEntries, identifier?_canonical]

theorem groupOperand_canonical (text : String) :
    groupOperand e.canonical text = groupOperand e text := by
  simp [groupOperand]

theorem groupFiltered_canonical (text : String) :
    groupFiltered e.canonical text = groupFiltered e text := by
  simp [groupFiltered, groupOperand]

theorem binaryOperator_looseOperator : ∀ operator ∈ coreBinaryOperators,
    looseOperator operator ∈ coreBinaryOperators ∧
    binaryOperator (looseOperator operator) = binaryOperator operator := by
  decide

variable {e}

theorem Core.canonical (h : Core e) : Core e.canonical := by
  induction h with
  | identifier span hk hr =>
    rw [Expr.canonical]
    exact .identifier {} hk hr
  | literal span hp =>
    rw [Expr.canonical]
    exact .literal {} ⟨hp.regex, hp.bigint, hp.value⟩
  | binary span ho _ _ ihl ihr =>
    rw [Expr.canonical]
    exact .binary {} (binaryOperator_looseOperator _ ho).1 ihl ihr
  | logical span ho _ _ ihl ihr =>
    rw [Expr.canonical]
    exact .logical {} ho ihl ihr
  | conditional span _ _ _ iht ihc iha =>
    rw [Expr.canonical]
    exact .conditional {} iht ihc iha
  | unary span ho _ iha =>
    rw [Expr.canonical]
    exact .unary {} ho iha
  | index span optional _ hu _ iho ihp =>
    rw [Expr.canonical]
    exact .index {} false iho (by simpa using hu) ihp
  | property span place optional _ hu hn iho =>
    rw [Expr.canonical, Expr.canonical]
    exact .property {} {} false iho (by simpa using hu) hn
  | @call span optional callee arguments _ hu hn _ ihc iha =>
    rw [Expr.canonical, canonicalArguments_eq]
    refine .call {} false ihc (by simpa using hu) (by rwa [isObjectEntries_canonical]) ?_
    simpa using iha
  | array span _ ihe =>
    rw [Expr.canonical, canonicalElements_eq]
    exact .array {} (by simpa using ihe)

/-- What `canonical` drops leaves no trace in the text. -/
theorem Core.value_canonical (h : Core e) (mode : Mode) :
    (expression mode e.canonical).value = (expression mode e).value := by
  induction h generalizing mode with
  | identifier span hk hr => simp
  | literal span hp =>
    rw [Expr.canonical, value_literal, value_literal]
    rfl
  | binary span ho _ _ ihl ihr =>
    rw [Expr.canonical]
    simp [groupOperand_canonical, ihl, ihr, (binaryOperator_looseOperator _ ho).2]
  | logical span ho _ _ ihl ihr =>
    rw [Expr.canonical, value_logical, value_logical, ihl, ihr]
    cases LogicalOperator.ofText? _ with
    | none => rfl
    | some known =>
      cases mode <;> cases known <;>
        simp [LogicalOperator.write, groupOperand_canonical, groupFiltered_canonical]
  | conditional span _ _ _ iht ihc iha =>
    rw [Expr.canonical]
    simp [groupOperand_canonical, iht, ihc, iha]
  | unary span ho _ iha =>
    rw [Expr.canonical, value_unary, value_unary]
    simp [groupOperand_canonical, iha]
  | index span optional _ hu _ iho ihp =>
    rw [Expr.canonical, value_member, value_member]
    simp [groupOperand_canonical, iho, ihp]
  | property span place optional _ hu hn iho =>
    rw [Expr.canonical, Expr.canonical, value_member, value_member]
    simp [groupOperand_canonical, iho, Expr.identifier?]
  | @call span optional callee arguments _ hu hn _ ihc iha =>
    have texts : (arguments.map Expr.canonical).map (fun argument => (expression mode argument).value) =
        arguments.map fun argument => (expression mode argument).value := by
      rw [List.map_map]
      exact List.map_congr_left fun argument hin => iha argument hin mode
    rw [Expr.canonical, canonicalArguments_eq, value_call, value_call, isObjectEntries_canonical, texts]
    simp [groupOperand_canonical, ihc]
  | @array span elements he ihe =>
    have texts : (elements.map Expr.canonical).map (fun element => (expression .value element).value) =
        elements.map fun element => (expression .value element).value := by
      rw [List.map_map]
      exact List.map_congr_left fun element hin => ihe element hin .value
    have core : ∀ element ∈ elements.map Expr.canonical, Core element := by
      simpa using fun element hin => (he element hin).canonical
    rw [Expr.canonical, canonicalElements_eq,
      value_array_entries mode _ core fun element hin => (core element hin).value_ne_empty _,
      value_array_entries mode _ he fun element hin => (he element hin).value_ne_empty _, texts]

end Canonical

end Twig

end TwigComponent
