import TwigComponent.Proofs.DroppedOperands
import TwigComponent.Proofs.MarkupWriting

/-!
# Nothing is lost without a word

The empty text is how one writer tells the next that an expression was dropped,
and several writers pass over an empty text without looking further. Still no
loss goes unreported: if no diagnostic speaks of a dropped node, every expression
that was to be written has left a text.

Three kinds of expression leave no text and say nothing: one of an unknown kind,
an identifier without a name and `Object.entries` without an argument. The
statements below are about trees in which none of these is to be written.
-/
namespace TwigComponent

open Text

/-- No diagnostic says that a node was dropped. -/
def Clean (diagnostics : List Diagnostic) : Prop :=
  ∀ diagnostic ∈ diagnostics, diagnostic.code ≠ .droppedNode

instance (diagnostics : List Diagnostic) : Decidable (Clean diagnostics) :=
  inferInstanceAs (Decidable (∀ _ ∈ _, _))

@[simp] theorem clean_append (first second : List Diagnostic) :
    Clean (first ++ second) ↔ Clean first ∧ Clean second := List.forall_mem_append

@[simp] theorem clean_flatMap {α : Type} (items : List α) (diagnostics : α → List Diagnostic) :
    Clean (items.flatMap diagnostics) ↔ ∀ item ∈ items, Clean (diagnostics item) :=
  List.forall_mem_flatMap

@[simp] theorem not_clean_unwritable (span : Span) (kind message : String) :
    ¬ Clean (faultDiagnostics span (.error (.unwritable kind message))) := by
  intro h
  exact h _ (List.mem_singleton.mpr rfl) rfl

/-- A fault that is reported leaves a diagnostic. -/
theorem ok_of_clean {span : Span} {attempt : Except Fault String}
    (hf : attempt ≠ .error .unsupported) (h : Clean (faultDiagnostics span attempt)) :
    ∃ text, attempt = .ok text := by
  match attempt with
  | .ok text => exact ⟨text, rfl⟩
  | .error .unsupported => exact absurd rfl hf
  | .error (.unwritable kind message) => exact absurd h (not_clean_unwritable span kind message)

namespace Source

/-- The expressions that stand directly in a part of an attribute value. -/
def AttributePart.expressions : AttributePart → List Expr
  | .text _ => []
  | .mustache _ expression => [expression]
  | .shorthand _ expression => [expression]

def AttributeValue.expressions : AttributeValue → List Expr
  | .bool _ => []
  | .parts list => list.flatMap AttributePart.expressions

/-- The default values that a loop writes. A pattern of any other form has none or is refused. -/
def PatternMember.defaults : PatternMember → List Expr
  | .property _ (.identifier _ _) (.assignment _ (.identifier _ _) default) false => [default]
  | _ => []

def Pattern.defaults : Pattern → List Expr
  | .object _ members => members.flatMap PatternMember.defaults
  | _ => []

end Source

namespace Twig

open Source

/-- An expression that may leave no text and say nothing about it. -/
def isSilent : Expr → Bool
  | .unknown => true
  | .identifier _ name => name == ""
  | .call _ callee arguments _ => callee.isObjectEntries && arguments.isEmpty
  | _ => false

mutual

/-- The expressions that are to be written for an expression, itself first, each with its mode. A
key or a property name that is not computed is no expression of its own, and a spread in an array
literal stands for its argument. -/
def visits (mode : Mode) : Expr → List (Mode × Expr)
  | .identifier span name => [(mode, .identifier span name)]
  | .literal span literal => [(mode, .literal span literal)]
  | .binary span operator left right =>
    (mode, .binary span operator left right) :: (visits mode left ++ visits mode right)
  | .logical span operator left right =>
    (mode, .logical span operator left right) :: (visits mode left ++ visits mode right)
  | .conditional span test consequent alternate =>
    (mode, .conditional span test consequent alternate) ::
      (visits .template test ++ visits mode consequent ++ visits mode alternate)
  | .unary span operator argument =>
    (mode, .unary span operator argument) :: visits mode argument
  | .call span callee arguments optional =>
    (mode, .call span callee arguments optional) ::
      (argumentVisits mode arguments ++ if callee.isObjectEntries then [] else visits mode callee)
  | .member span receiver property computed optional =>
    (mode, .member span receiver property computed optional) ::
      (visits mode receiver ++ if computed then visits mode property else [])
  | .chain span inner => (mode, .chain span inner) :: visits mode inner
  | .array span elements => (mode, .array span elements) :: elementVisits elements
  | .object span members => (mode, .object span members) :: memberVisits members
  | .spread span argument => (mode, .spread span argument) :: visits mode argument
  | .template span segments => (mode, .template span segments) :: segmentVisits mode segments
  | .assignment span operator target value => [(mode, .assignment span operator target value)]
  | .unknown => [(mode, .unknown)]

def argumentVisits (mode : Mode) : List Expr → List (Mode × Expr)
  | [] => []
  | argument :: rest => visits mode argument ++ argumentVisits mode rest

def elementVisits : List (Option Expr) → List (Mode × Expr)
  | [] => []
  | none :: rest => elementVisits rest
  | some (.spread _ argument) :: rest => visits .value argument ++ elementVisits rest
  | some element :: rest => visits .value element ++ elementVisits rest

def memberVisits : List Member → List (Mode × Expr)
  | [] => []
  | .property _ key value computed _ _ :: rest =>
    (if computed then visits .value key else []) ++ visits .value value ++ memberVisits rest
  | .spread _ argument :: rest => visits .value argument ++ memberVisits rest

def segmentVisits (mode : Mode) : List Segment → List (Mode × Expr)
  | [] => []
  | .text _ :: rest => segmentVisits mode rest
  | .expression inner :: rest => visits mode inner ++ segmentVisits mode rest

end

/-- What an element writes for an attribute. -/
def attributeVisits : Attribute → List (Mode × Expr)
  | .normal _ _ value => value.expressions.flatMap (visits .template)
  | _ => []

/-- What a component reference writes for an attribute. -/
def argumentHashVisits : Attribute → List (Mode × Expr)
  | .normal _ _ value => value.expressions.flatMap (visits .value)
  | .spread _ expression => visits .value expression
  | .unknown => []

mutual

/-- The expressions that are to be written for a node. The children of a void element and the else
branch of a condition are not. -/
def nodeVisits : Node → List (Mode × Expr)
  | .fragment _ children => fragmentVisits children
  | .element _ name attributes children =>
    attributes.flatMap attributeVisits ++ if isVoidElement name then [] else fragmentVisits children
  | .mustache _ expression => visits .template expression
  | .rawMustache _ expression => visits .template expression
  | .ifBlock _ test children _ _ => visits .template test ++ fragmentVisits children
  | .eachBlock _ items context _ _ children otherwise =>
    visits .template items ++ context.toList.flatMap (·.defaults.flatMap (visits .value))
      ++ fragmentVisits children ++ branchVisits otherwise
  | .component _ _ attributes children =>
    attributes.flatMap argumentHashVisits ++ fragmentVisits children
  | .slot _ _ children => fragmentVisits children
  | .text _ => []
  | .comment _ _ => []
  | .unknown => []

def fragmentVisits : List Node → List (Mode × Expr)
  | [] => []
  | first :: rest => nodeVisits first ++ fragmentVisits rest

def branchVisits : Option Branch → List (Mode × Expr)
  | none => []
  | some (.mk _ children) => fragmentVisits children

end

section Visits

attribute [local simp] visits argumentVisits elementVisits memberVisits segmentVisits fragmentVisits
  branchVisits

theorem mem_visits_self (mode : Mode) (e : Expr) : (mode, e) ∈ visits mode e := by
  cases e <;> simp

theorem argumentVisits_eq (mode : Mode) (arguments : List Expr) :
    argumentVisits mode arguments = arguments.flatMap (visits mode) := by
  induction arguments with
  | nil => rfl
  | cons argument rest ih => rw [argumentVisits, ih, List.flatMap_cons]

/-- What one element of an array literal writes. -/
def elementVisit : Option Expr → List (Mode × Expr)
  | none => []
  | some (.spread _ argument) => visits .value argument
  | some element => visits .value element

theorem elementVisits_eq (elements : List (Option Expr)) :
    elementVisits elements = elements.flatMap elementVisit := by
  induction elements with
  | nil => rfl
  | cons element rest ih =>
    rcases element with _ | element
    · simp [elementVisit, ih]
    · cases element <;> simp [elementVisit, ih]

/-- What one member of an object literal writes. -/
def memberVisit : Member → List (Mode × Expr)
  | .property _ key value computed _ _ =>
    (if computed then visits .value key else []) ++ visits .value value
  | .spread _ argument => visits .value argument

theorem memberVisits_eq (members : List Member) :
    memberVisits members = members.flatMap memberVisit := by
  induction members with
  | nil => rfl
  | cons member rest ih => cases member <;> simp [memberVisit, ih]

theorem segmentVisits_eq (mode : Mode) (segments : List Segment) :
    segmentVisits mode segments =
      segments.flatMap fun segment => segment.expressions.flatMap (visits mode) := by
  induction segments with
  | nil => rfl
  | cons segment rest ih => cases segment <;> simp [Segment.expressions, ih]

theorem fragmentVisits_eq (nodes : List Node) :
    fragmentVisits nodes = nodes.flatMap nodeVisits := by
  induction nodes with
  | nil => rfl
  | cons first rest ih => rw [fragmentVisits, ih, List.flatMap_cons]

theorem branchVisits_eq (otherwise : Option Branch) :
    branchVisits otherwise =
      otherwise.toList.flatMap fun branch => branch.children.flatMap nodeVisits := by
  match otherwise with
  | none => rfl
  | some (.mk _ children) => simp [Branch.children, fragmentVisits_eq]

end Visits

/-- If none of the expressions is silent and no diagnostic speaks of a dropped node, none of the
expressions was dropped. -/
def Accounted (parts : List (Mode × Expr)) (diagnostics : List Diagnostic) : Prop :=
  (∀ part ∈ parts, isSilent part.2 = false) → Clean diagnostics → ∀ part ∈ parts, ¬ IsDropped part

namespace Accounted

variable {parts others : List (Mode × Expr)} {diagnostics more : List Diagnostic}

theorem nil : Accounted [] diagnostics := by
  intro _ _ part hp
  cases hp

theorem mono (h : Accounted parts diagnostics) (hc : Clean more → Clean diagnostics) :
    Accounted parts more :=
  fun loud clean => h loud (hc clean)

theorem append (h : Accounted parts diagnostics) (k : Accounted others more) :
    Accounted (parts ++ others) (diagnostics ++ more) := by
  intro loud clean
  rw [List.forall_mem_append] at loud ⊢
  rw [clean_append] at clean
  exact ⟨h loud.1 clean.1, k loud.2 clean.2⟩

theorem flatMap {α : Type} {items : List α} {parts : α → List (Mode × Expr)}
    {diagnostics : α → List Diagnostic} (h : ∀ item ∈ items, Accounted (parts item) (diagnostics item)) :
    Accounted (items.flatMap parts) (items.flatMap diagnostics) := by
  intro loud clean
  rw [List.forall_mem_flatMap] at loud ⊢
  rw [clean_flatMap] at clean
  intro item hi
  exact h item hi (loud item hi) (clean item hi)

/-- An expression with its parts. That the expression leaves a text may rest on its parts. -/
theorem whole {mode : Mode} {e : Expr} (h : Accounted parts diagnostics)
    (hc : Clean more → Clean diagnostics)
    (hk : isSilent e = false → Clean more → (∀ part ∈ parts, ¬ IsDropped part) →
      (expression mode e).value ≠ "") :
    Accounted ((mode, e) :: parts) more := by
  intro loud clean
  rw [List.forall_mem_cons] at loud ⊢
  have kept := h loud.2 (hc clean)
  exact ⟨hk loud.1 clean kept, kept⟩

end Accounted

section Texts

theorem quote_ne_empty (text : String) : quote text ≠ "" := by
  simp [quote]

theorem repr_ne_empty (n : Nat) : n.repr ≠ "" := by
  intro h
  have digits : n.toDigits 10 = [] := by
    simpa [Nat.repr] using congrArg String.toList h
  exact Nat.toDigits_ne_nil digits

theorem write_ne_empty (layout : Decimal.Layout) (d : Decimal.Scientific) : layout.write d ≠ "" := by
  unfold Decimal.Layout.write
  dsimp only
  split
  · split
    · simp
    · split <;> simp
  · split <;> simp

theorem numberText_ne_empty (value : Json.Number) : value.text ≠ "" := by
  cases value with
  | int value =>
    cases value with
    | ofNat n => exact repr_ne_empty n
    | negSucc n =>
      change "-" ++ _ ≠ ""
      simp
  | float value =>
    have digits : (if value.isZero then "0.0" else Json.numberLayout.write value.shortest) ≠ "" := by
      split
      · decide
      · exact write_ne_empty _ _
    change (if value.negative then "-" else "") ++ _ ≠ ""
    simp [digits]

theorem literalText_spoken (literal : Literal) : literalText literal ≠ .error .unsupported := by
  unfold literalText
  split <;> simp

theorem literalText_ne_empty {literal : Literal} {text : String}
    (h : literalText literal = .ok text) : text ≠ "" := by
  unfold literalText at h
  split at h <;> cases h
  · exact quote_ne_empty _
  · exact numberText_ne_empty _
  · unfold booleanText
    split <;> decide
  · decide

theorem keyText_spoken (key : Expr) : keyText key ≠ .error .unsupported := by
  unfold keyText
  split
  · simp
  · split
    · simp
    · simp
    · exact literalText_spoken _
  · simp

/-- A chain of groups begins with its first group, which is a literal or the source of a spread. -/
theorem mergeChain_ne_empty {literal : List String → String} (hl : ∀ texts, literal texts ≠ "")
    {pieces : List Piece} (hp : pieces ≠ []) (hs : ∀ source, .spread source ∈ pieces → source ≠ "") :
    mergeChain literal (groups pieces) ≠ "" := by
  cases pieces with
  | nil => exact absurd rfl hp
  | cons piece rest =>
    cases piece with
    | entry text =>
      rw [groups]
      unfold consEntry
      split <;> simp [mergeChain, Group.write, hl]
    | spread source =>
      have kept : source ≠ "" := hs source List.mem_cons_self
      simp [groups, mergeChain, Group.write, kept]

theorem writeArray_ne_empty {pieces : List Piece}
    (hs : ∀ source, .spread source ∈ pieces → source ≠ "") : writeArray pieces ≠ "" := by
  unfold writeArray
  split
  · decide
  · rename_i hp
    exact mergeChain_ne_empty (by simp [arrayLiteral]) (by simpa using hp) hs

theorem writeHash_ne_empty {pieces : List Piece}
    (hs : ∀ source, .spread source ∈ pieces → source ≠ "") : writeHash pieces ≠ "" := by
  unfold writeHash
  split
  · decide
  · rename_i hp
    exact mergeChain_ne_empty (by simp [hashLiteral]) (by simpa using hp) hs

theorem keepSpread_ne_empty {text source : String} (h : .spread source ∈ keepSpread text) :
    source ≠ "" := by
  unfold keepSpread at h
  split at h
  · cases h
  · rename_i hne
    rw [List.mem_singleton, Piece.spread.injEq] at h
    rwa [h]

theorem spread_not_mem_keepEntry (text source : String) : .spread source ∉ keepEntry text := by
  unfold keepEntry
  split <;> simp

theorem elementPiece_spread {element : Option Expr} {source : String}
    (h : .spread source ∈ (elementPiece element).value) : source ≠ "" := by
  unfold elementPiece at h
  split at h
  · simp at h
  · exact keepSpread_ne_empty h
  · exact absurd h (spread_not_mem_keepEntry _ _)

theorem memberPiece_spread {member : Member} {source : String}
    (h : .spread source ∈ (memberPiece member).value) : source ≠ "" := by
  cases member with
  | property span key value computed shorthand method =>
    exact absurd h (spread_not_mem_keepEntry _ _)
  | spread span argument => exact keepSpread_ne_empty h

theorem value_array_ne_empty (mode : Mode) (span : Span) (elements : List (Option Expr)) :
    (expression mode (.array span elements)).value ≠ "" := by
  rw [value_array]
  refine writeArray_ne_empty fun source hin => ?_
  obtain ⟨element, -, hp⟩ := List.mem_flatMap.mp hin
  exact elementPiece_spread hp

theorem value_object_ne_empty (mode : Mode) (span : Span) (members : List Member) :
    (expression mode (.object span members)).value ≠ "" := by
  rw [value_object]
  refine writeHash_ne_empty fun source hin => ?_
  obtain ⟨member, -, hp⟩ := List.mem_flatMap.mp hin
  exact memberPiece_spread hp

end Texts

section Expressions

variable (mode : Mode) (span : Span)

theorem accounted_literal (literal : Literal) :
    Accounted (visits mode (.literal span literal))
      (expression mode (.literal span literal)).diagnostics := by
  rw [visits]
  refine .whole .nil id fun _ clean _ => ?_
  rw [diagnostics_literal] at clean
  obtain ⟨text, written⟩ := ok_of_clean (literalText_spoken literal) clean
  rw [value_literal, written]
  exact literalText_ne_empty written

theorem accounted_logical {left right : Expr} (operator : String)
    (hl : Accounted (visits mode left) (expression mode left).diagnostics)
    (hr : Accounted (visits mode right) (expression mode right).diagnostics) :
    Accounted (visits mode (.logical span operator left right))
      (expression mode (.logical span operator left right)).diagnostics := by
  rw [visits, diagnostics_logical]
  refine .whole (hl.append hr) ?_ ?_
  · intro clean
    cases hk : LogicalOperator.ofText? operator with
    | none => simp [hk] at clean
    | some known => simpa [hk] using clean
  · intro _ clean _
    rw [ne_eq, dropped_logical_iff]
    intro hk
    simp [hk] at clean

theorem accounted_unary {argument : Expr} (operator : String)
    (ha : Accounted (visits mode argument) (expression mode argument).diagnostics) :
    Accounted (visits mode (.unary span operator argument))
      (expression mode (.unary span operator argument)).diagnostics := by
  rw [visits, diagnostics_unary]
  refine .whole ha ?_ ?_
  · intro clean
    cases hk : unaryOperator? operator with
    | none => simp [hk] at clean
    | some mark => simpa [hk] using clean
  · intro _ clean _
    rw [ne_eq, dropped_unary_iff]
    intro hk
    simp [hk] at clean

/-- A call stands with its callee. `Object.entries` stands with its arguments, of which there is
one at least. -/
theorem accounted_call {callee : Expr} {arguments : List Expr} (optional : Bool)
    (hc : Accounted (visits mode callee) (expression mode callee).diagnostics)
    (ha : ∀ argument ∈ arguments,
      Accounted (visits mode argument) (expression mode argument).diagnostics) :
    Accounted (visits mode (.call span callee arguments optional))
      (expression mode (.call span callee arguments optional)).diagnostics := by
  rw [visits, argumentVisits_eq, diagnostics_call]
  cases he : callee.isObjectEntries with
  | true =>
    have inner := (Accounted.flatMap ha).append (Accounted.nil : Accounted [] [])
    refine .whole inner id ?_
    intro loud _ kept
    rw [value_call, he, if_pos rfl, ne_eq, intercalate_eq_empty _ (by decide)]
    match arguments, loud, kept with
    | [], loud, _ => simp [isSilent, he] at loud
    | [argument], _, kept =>
      have written := kept (mode, argument) (by simp [mem_visits_self])
      simpa [IsDropped] using written
    | _ :: _ :: _, _, _ => simp
  | false =>
    refine .whole ((Accounted.flatMap ha).append hc) ?_ ?_
    · intro clean
      simp only [Bool.false_eq_true, if_false, clean_append] at clean ⊢
      exact ⟨clean.1, clean.2.1⟩
    · intro _ _ kept
      rw [ne_eq, dropped_call_iff mode span arguments optional he]
      exact kept (mode, callee) (by simp [mem_visits_self])

/-- A member stands with its receiver, unless it has no property name. -/
theorem accounted_member {receiver property : Expr} (computed optional : Bool)
    (hr : Accounted (visits mode receiver) (expression mode receiver).diagnostics)
    (hp : Accounted (visits mode property) (expression mode property).diagnostics) :
    Accounted (visits mode (.member span receiver property computed optional))
      (expression mode (.member span receiver property computed optional)).diagnostics := by
  have inner : Accounted (visits mode receiver ++ if computed then visits mode property else [])
      ((expression mode receiver).diagnostics ++
        if computed then (expression mode property).diagnostics else []) := by
    cases computed with
    | true => exact hr.append hp
    | false => exact hr.append .nil
  rw [visits, diagnostics_member]
  by_cases hd : (expression mode receiver).value = ""
  · refine .whole inner ?_ ?_
    · intro clean
      simp [hd] at clean
    · intro _ clean _
      simp [hd] at clean
  · refine .whole inner ?_ ?_
    · intro clean
      cases computed <;> simp_all
    · intro _ clean _
      rw [ne_eq, dropped_member_iff]
      rintro (dropped | ⟨rfl, unnamed⟩)
      · exact hd dropped
      · simp [hd, unnamed] at clean

theorem accounted_element {element : Option Expr}
    (he : ∀ e, element = some e → Accounted (visits .value e) (expression .value e).diagnostics)
    (hs : ∀ place argument, element = some (.spread place argument) →
      Accounted (visits .value argument) (expression .value argument).diagnostics) :
    Accounted (elementVisit element) (elementPiece element).diagnostics := by
  unfold elementVisit elementPiece
  split
  · exact .nil
  · rename_i place argument
    simpa using hs place argument rfl
  · rename_i e _
    simpa using he e rfl

theorem accounted_array {elements : List (Option Expr)}
    (h : ∀ element ∈ elements, Accounted (elementVisit element) (elementPiece element).diagnostics) :
    Accounted (visits mode (.array span elements))
      (expression mode (.array span elements)).diagnostics := by
  rw [visits, elementVisits_eq, expression_array, Report.diagnostics_map, diagnostics_elementPieces]
  exact .whole (.flatMap h) id fun _ _ _ => value_array_ne_empty mode span elements

/-- In a clean report a property has a key and is no method, and both of its expressions were
written. -/
theorem clean_property {key value : Expr} {computed shorthand method : Bool}
    (h : Clean (memberPiece (.property span key value computed shorthand method)).diagnostics) :
    Clean ((if computed then (expression .value key).diagnostics else []) ++
      (expression .value value).diagnostics) := by
  rw [memberPiece, Report.diagnostics_map, diagnostics_settle] at h
  cases method with
  | true => simp [propertyEntry] at h
  | false =>
    have keys : (propertyKey key computed).diagnostics =
        if computed then (expression .value key).diagnostics else [] := by
      cases computed <;> simp [propertyKey]
    have spoken : (propertyKey key computed).value ≠ .error .unsupported := by
      cases computed with
      | true =>
        rw [propertyKey, if_pos rfl, Report.value_map]
        split <;> simp
      | false => exact keyText_spoken key
    rw [propertyEntry, if_neg Bool.false_ne_true, Report.diagnostics_bind, Report.value_bind,
      keys] at h
    cases hk : (propertyKey key computed).value with
    | error fault =>
      -- A property without a key leaves a diagnostic.
      rw [hk] at h spoken
      simp only [clean_append] at h
      obtain ⟨text, written⟩ := ok_of_clean spoken h.2
      cases written
    | ok name =>
      rw [hk] at h
      simp only [Report.diagnostics_bind, clean_append] at h ⊢
      exact ⟨h.1.1, h.1.2.1⟩

theorem accounted_memberPiece {member : Member}
    (h : ∀ e ∈ member.expressions, Accounted (visits .value e) (expression .value e).diagnostics) :
    Accounted (memberVisit member) (memberPiece member).diagnostics := by
  cases member with
  | property span key value computed shorthand method =>
    have hk := h key (by simp [Member.expressions])
    have hv := h value (by simp [Member.expressions])
    refine .mono ?_ (clean_property span)
    cases computed with
    | true => exact hk.append hv
    | false => exact Accounted.nil.append hv
  | spread span argument =>
    simpa [memberVisit, memberPiece] using h argument (by simp [Member.expressions])

theorem accounted_object {members : List Member}
    (h : ∀ member ∈ members, Accounted (memberVisit member) (memberPiece member).diagnostics) :
    Accounted (visits mode (.object span members))
      (expression mode (.object span members)).diagnostics := by
  rw [visits, memberVisits_eq, expression_object, Report.diagnostics_map, diagnostics_memberPieces]
  exact .whole (.flatMap h) id fun _ _ _ => value_object_ne_empty mode span members

theorem diagnostics_segmentText (segment : Segment) :
    (segmentText mode segment).diagnostics =
      segment.expressions.flatMap fun e => (expression mode e).diagnostics := by
  cases segment <;> simp [segmentText, Segment.expressions]

theorem accounted_segments {segments : List Segment}
    (h : ∀ segment ∈ segments, ∀ e ∈ segment.expressions,
      Accounted (visits mode e) (expression mode e).diagnostics) :
    Accounted (segmentVisits mode segments)
      (segments.flatMap fun segment => (segmentText mode segment).diagnostics) := by
  rw [segmentVisits_eq]
  refine .flatMap fun segment hs => ?_
  rw [diagnostics_segmentText]
  exact .flatMap (h segment hs)

end Expressions

/-- Every expression that is dropped while an expression is written leaves a diagnostic. -/
theorem accounted_expression (e : Expr) (mode : Mode) :
    Accounted (visits mode e) (expression mode e).diagnostics := by
  induction e using Expr.induction generalizing mode with
  | identifier span name =>
    rw [visits]
    refine .whole .nil id fun loud _ _ => ?_
    simpa [isSilent] using loud
  | literal span literal => exact accounted_literal mode span literal
  | binary span operator left right hl hr =>
    rw [visits, diagnostics_binary]
    exact .whole ((hl mode).append (hr mode)) id (by simp)
  | logical span operator left right hl hr =>
    exact accounted_logical mode span operator (hl mode) (hr mode)
  | conditional span test consequent alternate ht hc ha =>
    rw [visits, diagnostics_conditional]
    exact .whole (((ht .template).append (hc mode)).append (ha mode)) id (by simp)
  | unary span operator argument ih => exact accounted_unary mode span operator (ih mode)
  | call span callee arguments optional hc ha =>
    exact accounted_call mode span optional (hc mode) fun argument hin => ha argument hin mode
  | member span receiver property computed optional hr hp =>
    exact accounted_member mode span computed optional (hr mode) (hp mode)
  | chain span inner ih =>
    rw [visits, expression]
    refine .whole (ih mode) id fun _ _ kept => ?_
    rw [value_chain]
    exact kept _ (mem_visits_self mode inner)
  | array span elements he hs =>
    refine accounted_array mode span fun element hin => ?_
    refine accounted_element (fun e h => ?_) fun place argument h => ?_
    · exact he e (h ▸ hin) .value
    · exact hs place argument (h ▸ hin) .value
  | object span members ih =>
    refine accounted_object mode span fun member hm => ?_
    exact accounted_memberPiece fun e he => ih member hm e he .value
  | spread span argument ih =>
    rw [visits, diagnostics_spread]
    exact .whole (ih mode) id (by simp)
  | template span segments ih =>
    rw [visits, diagnostics_template]
    refine .whole (accounted_segments mode fun segment hs e he => ih segment hs e he mode) id ?_
    intro _ _ _
    exact value_template_ne_empty mode span segments
  | assignment span operator target value ih =>
    rw [visits]
    refine .whole .nil id fun _ clean _ => ?_
    simp [expression] at clean
  | unknown =>
    rw [visits]
    refine .whole .nil id fun loud _ _ => ?_
    cases loud

section Attributes

theorem diagnostics_outputExpression (e : Expr) :
    (outputExpression e).diagnostics = (expression .template e).diagnostics := by
  simp [outputExpression]

theorem diagnostics_rawExpression (e : Expr) :
    (rawExpression e).diagnostics = (expression .template e).diagnostics := by
  simp [rawExpression]

/-- A template literal in markup is written segment by segment, with the same diagnostics as in an
expression. -/
theorem diagnostics_interpolate (e : Expr) :
    (interpolate e).diagnostics = (expression .template e).diagnostics := by
  cases e with
  | template span segments =>
    rw [interpolate, Report.diagnostics_concat, diagnostics_template]
    refine List.flatMap_congr fun segment _ => ?_
    cases segment with
    | text text => rfl
    | expression inner => simp [segmentMarkup, segmentText, diagnostics_outputExpression]
  | _ => exact diagnostics_outputExpression _

theorem diagnostics_attributePartMarkup (part : AttributePart) :
    (attributePartMarkup part).diagnostics =
      part.expressions.flatMap fun e => (expression .template e).diagnostics := by
  cases part <;> simp [attributePartMarkup, AttributePart.expressions, diagnostics_interpolate]

theorem diagnostics_partTexts (part : AttributePart) :
    (partTexts part).diagnostics =
      part.expressions.flatMap fun e => (expression .value e).diagnostics := by
  cases part <;> simp [partTexts, AttributePart.expressions]

theorem diagnostics_attributeValue (value : AttributeValue) :
    (attributeValue value).diagnostics =
      value.expressions.flatMap fun e => (expression .value e).diagnostics := by
  unfold attributeValue
  split
  · rfl
  · simp [AttributeValue.expressions, AttributePart.expressions]
  · simp [AttributeValue.expressions, AttributePart.expressions]
  · simp [AttributeValue.expressions, List.flatMap_assoc, diagnostics_partTexts]

theorem accounted_attribute (item : Attribute) :
    Accounted (attributeVisits item) (attributeMarkup item).diagnostics := by
  cases item with
  | normal span name value =>
    cases value with
    | bool value => exact .nil
    | parts list =>
      rw [attributeVisits, attributeMarkup, AttributeValue.expressions, List.flatMap_assoc,
        Report.diagnostics_bind, Report.diagnostics_concat]
      refine .mono (.flatMap fun part _ => ?_) fun clean => (clean_append _ _).mp clean |>.1
      rw [diagnostics_attributePartMarkup]
      exact .flatMap fun e _ => accounted_expression e .template
  | spread span e => exact .nil
  | unknown => exact .nil

theorem accounted_argument (item : Attribute) :
    Accounted (argumentHashVisits item) (attributePieces item).diagnostics := by
  cases item with
  | normal span name value =>
    rw [argumentHashVisits, attributePieces, Report.diagnostics_bind, diagnostics_attributeValue,
      Report.diagnostics_pure, List.append_nil]
    exact .flatMap fun e _ => accounted_expression e .value
  | spread span e =>
    rw [argumentHashVisits, attributePieces, Report.diagnostics_map, diagnostics_filterOperand]
    exact accounted_expression e .value
  | unknown => exact .nil

end Attributes

section Loops

theorem diagnostics_bindMember (item : String) (member : PatternMember) :
    (bindMember item member).diagnostics =
      member.defaults.flatMap fun e => (expression .value e).diagnostics := by
  cases member with
  | rest span argument => rfl
  | property span key value computed =>
    cases computed with
    | true => cases key <;> simp [bindMember, PatternMember.defaults]
    | false =>
      cases key with
      | identifier place name =>
        cases value with
        | assignment span target default =>
          cases target <;> simp [bindMember, PatternMember.defaults]
        | _ => rfl
      | _ => rfl

/-- Members that are all bound have all been written. -/
theorem diagnostics_bindMembers {item texts : String} {members : List PatternMember}
    (h : (bindMembers item members).value = .ok texts) :
    (bindMembers item members).diagnostics =
      members.flatMap fun member => (bindMember item member).diagnostics := by
  induction members generalizing texts with
  | nil => rfl
  | cons member rest ih =>
    rw [bindMembers, Report.value_bind] at h
    rw [bindMembers, Report.diagnostics_bind, List.flatMap_cons]
    congr 1
    cases hm : (bindMember item member).value with
    | error fault =>
      rw [hm] at h
      cases h
    | ok text =>
      rw [hm] at h
      cases hr : (bindMembers item rest).value with
      | error fault =>
        simp only [Report.value_bind, hr] at h
        cases h
      | ok others =>
        simp only [Report.diagnostics_bind, hr, ih hr, Report.diagnostics_pure, List.append_nil]

theorem bindMember_spoken (item : String) (member : PatternMember) :
    (bindMember item member).value ≠ .error .unsupported := by
  unfold bindMember
  split
  · split <;> simp [nestedPattern, loopFault]
  · simp [loopFault]
  · simp [loopFault]

theorem bindMembers_spoken (item : String) (members : List PatternMember) :
    (bindMembers item members).value ≠ .error .unsupported := by
  induction members with
  | nil => simp [bindMembers]
  | cons member rest ih =>
    rw [bindMembers, Report.value_bind]
    cases hm : (bindMember item member).value with
    | error fault =>
      have spoken := bindMember_spoken item member
      rw [hm] at spoken
      simpa using spoken
    | ok text =>
      simp only [Report.value_bind]
      cases hr : (bindMembers item rest).value with
      | error fault =>
        rw [hr] at ih
        simpa using ih
      | ok others => simp

theorem targetNames_spoken (elements : List (Option Pattern)) :
    targetNames elements ≠ .error .unsupported := by
  induction elements with
  | nil => simp [targetNames]
  | cons element rest ih =>
    unfold targetNames
    split
    · simp
    · rename_i heq
      cases heq
      cases hr : targetNames rest with
      | error fault =>
        rw [hr] at ih
        simpa [Functor.map, Except.map] using ih
      | ok names => simp [Functor.map, Except.map]
    · simp [nestedPattern, loopFault]

/-- No loop is dropped without a word. -/
theorem loopHead_spoken (iterable : String) (context : Option Pattern) :
    (loopHead iterable context).value ≠ .error .unsupported := by
  unfold loopHead
  split
  · rename_i elements
    rw [Report.value_pure]
    unfold loopTargets
    split
    · cases hn : targetNames elements with
      | error fault =>
        have spoken := targetNames_spoken elements
        rw [hn] at spoken
        simpa [Functor.map, Except.map] using spoken
      | ok names => simp [Functor.map, Except.map]
    · simp [Functor.map, Except.map, loopFault]
  · rename_i pattern _
    have spoken : (bindPattern (loopVariable iterable) pattern).value ≠ .error .unsupported := by
      unfold bindPattern
      split
      · simp
      · exact bindMembers_spoken _ _
      · simp [loopFault]
    rw [Report.value_bind, Report.value_pure]
    cases hb : (bindPattern (loopVariable iterable) pattern).value with
    | error fault =>
      rw [hb] at spoken
      simpa [Functor.map, Except.map] using spoken
    | ok text => simp [Functor.map, Except.map]
  · simp

/-- A loop that can be opened has written all default values of its pattern. -/
theorem accounted_loopHead {iterable : String} {context : Option Pattern} {head : LoopHead}
    (h : (loopHead iterable context).value = .ok head) :
    Accounted (context.toList.flatMap (·.defaults.flatMap (visits .value)))
      (loopHead iterable context).diagnostics := by
  match context with
  | none => exact .nil
  | some (.object span members) =>
    have bound : ∃ texts, (bindMembers (loopVariable iterable) members).value = .ok texts := by
      simp only [loopHead, bindPattern, Report.value_bind, Report.value_pure] at h
      cases hb : (bindMembers (loopVariable iterable) members).value with
      | error fault =>
        rw [hb] at h
        cases h
      | ok texts => exact ⟨texts, rfl⟩
    obtain ⟨texts, bound⟩ := bound
    simp only [loopHead, bindPattern, Report.diagnostics_bind, diagnostics_bindMembers bound,
      Report.diagnostics_pure, List.append_nil, Option.toList_some, List.flatMap_singleton,
      Pattern.defaults, List.flatMap_assoc]
    refine .flatMap fun member _ => ?_
    rw [diagnostics_bindMember]
    exact .flatMap fun e _ => accounted_expression e .value
  | some (.identifier span name) => exact .nil
  | some (.array span elements) => exact .nil
  | some (.assignment span target default) => exact .nil
  | some (.rest span argument) => exact .nil
  | some .unknown => exact .nil

end Loops

section Nodes

variable (options : Options)

theorem accounted_fragment {nodes : List Node}
    (h : ∀ child ∈ nodes, Accounted (nodeVisits child) (node options child).diagnostics) :
    Accounted (fragmentVisits nodes) (fragment options nodes).diagnostics := by
  rw [fragmentVisits_eq, diagnostics_fragment]
  exact .flatMap h

/-- Blank text has no expressions. -/
theorem fragmentVisits_blank {children : List Node} (h : hasContent children = false) :
    fragmentVisits children = [] := by
  rw [fragmentVisits_eq, List.flatMap_eq_nil_iff]
  intro child hc
  have blank : isContent child = false := by
    simpa using List.any_eq_false.mp h child hc
  cases child with
  | text content => rfl
  | _ => cases blank

theorem accounted_ifBlock {children : List Node} (span : Span) (test : Expr)
    (otherwise : Option Branch) (elseif : Bool)
    (h : ∀ child ∈ children, Accounted (nodeVisits child) (node options child).diagnostics) :
    Accounted (nodeVisits (.ifBlock span test children otherwise elseif))
      (node options (.ifBlock span test children otherwise elseif)).diagnostics := by
  rw [nodeVisits, diagnostics_ifBlock]
  refine .mono ((accounted_expression test .template).append (accounted_fragment options h)) ?_
  intro clean
  by_cases hd : (expression .template test).value = ""
  · simp [hd] at clean
  · rwa [if_neg hd] at clean

/-- A loop without a diagnostic about a dropped node is written. -/
theorem clean_eachBlock {span : Span} {items : Expr} {context : Option Pattern}
    {index : Option String} {key : Option Expr} {children : List Node} {otherwise : Option Branch}
    (h : Clean (node options (.eachBlock span items context index key children otherwise)).diagnostics) :
    ∃ head, (expression .template items).value ≠ "" ∧
      (loopHead (expression .template items).value context).value = .ok head ∧
      Clean ((expression .template items).diagnostics ++
        (loopHead (expression .template items).value context).diagnostics ++
        (fragment options children).diagnostics ++ (elseBranch options otherwise).diagnostics) := by
  rw [diagnostics_eachBlock] at h
  by_cases hd : (expression .template items).value = ""
  · simp [hd, loopFault] at h
  · rw [if_neg hd] at h
    cases hl : (loopHead (expression .template items).value context).value with
    | error fault =>
      rw [hl, clean_append, clean_append] at h
      have spoken := loopHead_spoken (expression .template items).value context
      rw [hl] at spoken
      have attempt : (Except.error fault : Except Fault String) ≠ .error .unsupported := by
        simpa using spoken
      obtain ⟨text, written⟩ := ok_of_clean attempt h.2.2
      cases written
    | ok head =>
      rw [hl] at h
      refine ⟨head, hd, rfl, ?_⟩
      simpa only [clean_append, and_assoc] using h

theorem accounted_eachBlock {children : List Node} {otherwise : Option Branch} (span : Span)
    (items : Expr) (context : Option Pattern) (index : Option String) (key : Option Expr)
    (hc : ∀ child ∈ children, Accounted (nodeVisits child) (node options child).diagnostics)
    (ho : ∀ branch ∈ otherwise, ∀ child ∈ branch.children,
      Accounted (nodeVisits child) (node options child).diagnostics) :
    Accounted (nodeVisits (.eachBlock span items context index key children otherwise))
      (node options (.eachBlock span items context index key children otherwise)).diagnostics := by
  have fallback : Accounted (branchVisits otherwise) (elseBranch options otherwise).diagnostics := by
    rw [branchVisits_eq, diagnostics_elseBranch]
    refine .flatMap fun branch hb => ?_
    rw [← fragmentVisits_eq]
    exact accounted_fragment options (ho branch (by simpa using hb))
  rw [nodeVisits]
  intro loud clean
  obtain ⟨head, -, hl, clean⟩ := clean_eachBlock options clean
  have inner := (((accounted_expression items .template).append (accounted_loopHead hl)).append
    (accounted_fragment options hc)).append fallback
  exact inner loud clean

/-- Every expression that is dropped while a node is written leaves a diagnostic. -/
theorem accounted_node (tree : Node) :
    Accounted (nodeVisits tree) (node options tree).diagnostics := by
  induction tree using Node.induction with
  | fragment span children ih =>
    rw [nodeVisits, diagnostics_node_fragment]
    exact accounted_fragment options ih
  | element span name attributes children ih =>
    rw [nodeVisits, diagnostics_element]
    refine .append (.flatMap fun item _ => accounted_attribute item) ?_
    split
    · exact .nil
    · exact accounted_fragment options ih
  | text content => exact .nil
  | comment span data => exact .nil
  | mustache span e =>
    rw [nodeVisits, node, diagnostics_interpolate]
    exact accounted_expression e .template
  | rawMustache span e =>
    rw [nodeVisits, node, diagnostics_rawExpression]
    exact accounted_expression e .template
  | ifBlock span test children otherwise elseif hc _ =>
    exact accounted_ifBlock options span test otherwise elseif hc
  | eachBlock span items context index key children otherwise hc ho =>
    exact accounted_eachBlock options span items context index key hc ho
  | component span name attributes children ih =>
    rw [nodeVisits, diagnostics_component, diagnostics_componentArguments]
    refine .append (.flatMap fun item _ => accounted_argument item) ?_
    split
    · exact accounted_fragment options ih
    · rename_i blank
      rw [fragmentVisits_blank (by simpa using blank)]
      exact .nil
  | slot span attributes children ih =>
    rw [nodeVisits, diagnostics_slot]
    exact .mono (accounted_fragment options ih) fun clean => ((clean_append _ _).mp clean).2
  | unknown => exact .nil

end Nodes

/-- If no expression that is to be written is silent, a run over sibling nodes without a diagnostic
about a dropped node has written every expression it came to, in the mode in which it came to it. In
other words, if any of these expressions is dropped, a diagnostic says that a node was. -/
theorem visited_written_of_clean (options : Options) (nodes : List Node)
    (loud : ∀ part ∈ fragmentVisits nodes, isSilent part.2 = false) :
    ((∀ diagnostic ∈ (fragment options nodes).diagnostics, diagnostic.code ≠ .droppedNode) →
      ∀ part ∈ fragmentVisits nodes, (expression part.1 part.2).value ≠ "") ∧
    ((∃ part ∈ fragmentVisits nodes, (expression part.1 part.2).value = "") →
      ∃ diagnostic ∈ (fragment options nodes).diagnostics, diagnostic.code = .droppedNode) := by
  have accounted : Accounted (fragmentVisits nodes) (fragment options nodes).diagnostics :=
    accounted_fragment options fun child _ => accounted_node options child
  refine ⟨accounted loud, ?_⟩
  rintro ⟨part, visited, dropped⟩
  by_contra silent
  push Not at silent
  exact accounted loud silent part visited dropped

/-- A loop over `Object.entries(rows)` with a default value in its pattern, and in it a component
whose argument is a hash with a computed key and a spread. -/
def cleanListing (fallback : Expr) : List Node :=
  [.eachBlock {} (.call {} (.member {} (.identifier {} "Object") (.identifier {} "entries") false false)
      [.identifier {} "rows"] false)
    (some (.object {} [.property {} (.identifier {} "id")
      (.assignment {} (.identifier {} "id") fallback) false])) none none
    [.component {} "Card" [.normal {} "style" (.parts [.mustache {}
      (.object {} [.property {} (.identifier {} "side") (.array {} [none]) true false false,
        .spread {} (.chain {} (.member {} (.identifier {} "a") (.identifier {} "b") false true))])])] []]
    none]

/-- With `-n` for the default value all ten expressions are written; with `/x/` the loss of that
one is reported. -/
theorem visited_written_of_clean_cleanListing :
    (fragmentVisits (cleanListing (.unary {} "-" (.identifier {} "n")))).length = 10 ∧
    (∀ part ∈ fragmentVisits (cleanListing (.unary {} "-" (.identifier {} "n"))),
      (expression part.1 part.2).value ≠ "") ∧
    ∃ diagnostic ∈ (fragment { theme := "site" } (cleanListing (.literal ⟨3, 6⟩
        { value := .null, raw := none, regex := some ⟨"x", ""⟩, bigint := none }))).diagnostics,
      diagnostic.code = .droppedNode := by
  refine ⟨by decide, ?_, ?_⟩
  · exact (visited_written_of_clean { theme := "site" } _ (by decide)).1 (by decide)
  · exact (visited_written_of_clean { theme := "site" } _ (by decide)).2 (by decide)

end Twig

end TwigComponent
