import TwigComponent.Proofs.Subexpressions
import TwigComponent.Twig.Expression

/-!
# Equations of the expression writer

The text and the diagnostics of a compound expression in terms of those of its
parts. The writers of lists go from left to right and keep nothing from one
member to the next, so their results are those of the single members, one after
the other.
-/
namespace TwigComponent

open Text

/-- The text that is left of an attempt. -/
def settledText : Except Fault String → String
  | .ok text => text
  | .error _ => ""

/-- The diagnostic that a fault leaves, if it leaves one. -/
def faultDiagnostics (span : Span) : Except Fault String → List Diagnostic
  | .ok _ => []
  | .error .unsupported => []
  | .error (.unwritable kind message) =>
    [{ code := .droppedNode
       message := s!"cannot translate {kind}: {message} (node at {span.display} dropped)"
       span := span }]

@[simp] theorem value_settle (span : Span) (attempt : Report (Except Fault String)) :
    (settle span attempt).value = settledText attempt.value := by
  simp only [settle, Report.value_bind]
  split <;> rename_i h <;> rw [h] <;> rfl

@[simp] theorem diagnostics_settle (span : Span) (attempt : Report (Except Fault String)) :
    (settle span attempt).diagnostics =
      attempt.diagnostics ++ faultDiagnostics span attempt.value := by
  simp only [settle, Report.diagnostics_bind]
  split <;> rename_i h <;> rw [h] <;> rfl

namespace Twig

open Source

@[simp] theorem parenthesize_eq_empty (text : String) : parenthesize text = "" ↔ text = "" := by
  unfold parenthesize
  split <;> simp [*]

@[simp] theorem groupOperand_eq_empty (e : Expr) (text : String) :
    groupOperand e text = "" ↔ text = "" := by
  unfold groupOperand
  split <;> simp

@[simp] theorem groupFiltered_eq_empty (e : Expr) (text : String) :
    groupFiltered e text = "" ↔ text = "" := by
  unfold groupFiltered
  split <;> simp

theorem LogicalOperator.write_ne_empty (mode : Mode) (operator : LogicalOperator)
    (left right : Expr) (leftText rightText : String) :
    operator.write mode left leftText right rightText ≠ "" := by
  cases mode <;> cases operator <;> simp [LogicalOperator.write]

@[simp] theorem value_operand (mode : Mode) (e : Expr) :
    (operand mode e).value = groupOperand e (expression mode e).value := rfl

@[simp] theorem diagnostics_operand (mode : Mode) (e : Expr) :
    (operand mode e).diagnostics = (expression mode e).diagnostics := Report.diagnostics_map _ _

@[simp] theorem value_filterOperand (mode : Mode) (e : Expr) :
    (filterOperand mode e).value = groupFiltered e (expression mode e).value := rfl

@[simp] theorem diagnostics_filterOperand (mode : Mode) (e : Expr) :
    (filterOperand mode e).diagnostics = (expression mode e).diagnostics :=
  Report.diagnostics_map _ _

section Equations

attribute [local simp] expression argumentTexts elementPieces memberPieces segmentTexts

@[simp] theorem value_argumentTexts (mode : Mode) (arguments : List Expr) :
    (argumentTexts mode arguments).value =
      arguments.map fun argument => (expression mode argument).value := by
  induction arguments with
  | nil => rfl
  | cons argument rest ih => simp [ih]

@[simp] theorem diagnostics_argumentTexts (mode : Mode) (arguments : List Expr) :
    (argumentTexts mode arguments).diagnostics =
      arguments.flatMap fun argument => (expression mode argument).diagnostics := by
  induction arguments with
  | nil => rfl
  | cons argument rest ih => simp [ih]

/-- What one element adds to an array literal. -/
def elementPiece : Option Expr → Report (List Piece)
  | none => pure [.entry "null"]
  | some (.spread _ argument) => keepSpread <$> filterOperand .value argument
  | some element => keepEntry <$> expression .value element

@[simp] theorem value_elementPieces (elements : List (Option Expr)) :
    (elementPieces elements).value =
      elements.flatMap fun element => (elementPiece element).value := by
  induction elements with
  | nil => rfl
  | cons element rest ih =>
    rcases element with _ | element
    · simp [elementPiece, ih]
    · cases element <;> simp [elementPiece, ih]

@[simp] theorem diagnostics_elementPieces (elements : List (Option Expr)) :
    (elementPieces elements).diagnostics =
      elements.flatMap fun element => (elementPiece element).diagnostics := by
  induction elements with
  | nil => rfl
  | cons element rest ih =>
    rcases element with _ | element
    · simp [elementPiece, ih]
    · cases element <;> simp [elementPiece, ih]

/-- The key of a property. -/
def propertyKey (key : Expr) (computed : Bool) : Report (Except Fault String) :=
  if computed then
    (fun text =>
      if text = "" then
        .error (.unwritable "Property" "the computed key could not be translated")
      else .ok (parenthesize text)) <$> expression .value key
  else pure (keyText key)

/-- The entry that a property leaves in a hash literal. -/
def propertyEntry (key value : Expr) (computed method : Bool) : Report (Except Fault String) :=
  if method then
    pure (.error (.unwritable "Property" "object methods have no Twig form"))
  else do
    match ← propertyKey key computed with
    | .error fault => pure (.error fault)
    | .ok key =>
      let text ← expression .value value
      if text = "" then
        pure (.error (.unwritable "Property" s!"the value of `{key}` could not be translated"))
      else
        pure (.ok (key ++ ": " ++ text))

/-- What one member adds to a hash literal. -/
def memberPiece : Member → Report (List Piece)
  | .property span key value computed _ method =>
    keepEntry <$> settle span (propertyEntry key value computed method)
  | .spread _ argument => keepSpread <$> filterOperand .value argument

theorem memberPieces_property (span : Span) (key value : Expr) (computed shorthand method : Bool)
    (rest : List Member) :
    memberPieces (.property span key value computed shorthand method :: rest) = (do
      let text ← settle span (propertyEntry key value computed method)
      let pieces ← memberPieces rest
      pure (keepEntry text ++ pieces)) := by
  rw [memberPieces]
  cases computed <;> rfl

theorem value_memberPieces_cons (member : Member) (rest : List Member) :
    (memberPieces (member :: rest)).value = (memberPiece member).value ++ (memberPieces rest).value := by
  cases member with
  | property span key value computed shorthand method =>
    rw [memberPieces_property]
    simp [memberPiece]
  | spread span argument => simp [memberPiece]

theorem diagnostics_memberPieces_cons (member : Member) (rest : List Member) :
    (memberPieces (member :: rest)).diagnostics =
      (memberPiece member).diagnostics ++ (memberPieces rest).diagnostics := by
  cases member with
  | property span key value computed shorthand method =>
    rw [memberPieces_property]
    simp [memberPiece]
  | spread span argument => simp [memberPiece]

@[simp] theorem value_memberPieces (members : List Member) :
    (memberPieces members).value = members.flatMap fun member => (memberPiece member).value := by
  induction members with
  | nil => rfl
  | cons member rest ih => rw [value_memberPieces_cons, ih, List.flatMap_cons]

@[simp] theorem diagnostics_memberPieces (members : List Member) :
    (memberPieces members).diagnostics =
      members.flatMap fun member => (memberPiece member).diagnostics := by
  induction members with
  | nil => rfl
  | cons member rest ih => rw [diagnostics_memberPieces_cons, ih, List.flatMap_cons]

/-- The text of one segment of a template literal, none if it is empty. -/
def segmentText (mode : Mode) : Segment → Report (List String)
  | .text text => pure [quote text]
  | .expression inner => keepText <$> operand mode inner

@[simp] theorem value_segmentTexts (mode : Mode) (segments : List Segment) :
    (segmentTexts mode segments).value =
      segments.flatMap fun segment => (segmentText mode segment).value := by
  induction segments with
  | nil => rfl
  | cons segment rest ih => cases segment <;> simp [segmentText, ih]

@[simp] theorem diagnostics_segmentTexts (mode : Mode) (segments : List Segment) :
    (segmentTexts mode segments).diagnostics =
      segments.flatMap fun segment => (segmentText mode segment).diagnostics := by
  induction segments with
  | nil => rfl
  | cons segment rest ih => cases segment <;> simp [segmentText, ih]

variable (mode : Mode) (span : Span)

@[simp] theorem value_identifier (name : String) :
    (expression mode (.identifier span name)).value = name := by simp

@[simp] theorem value_literal (literal : Literal) :
    (expression mode (.literal span literal)).value = settledText (literalText literal) := by
  simp

@[simp] theorem value_binary (operator : String) (left right : Expr) :
    (expression mode (.binary span operator left right)).value =
      (operand mode left).value ++ " " ++ binaryOperator operator ++ " "
        ++ (operand mode right).value := by
  simp

theorem value_logical (operator : String) (left right : Expr) :
    (expression mode (.logical span operator left right)).value =
      match LogicalOperator.ofText? operator with
      | some known =>
        known.write mode left (expression mode left).value right (expression mode right).value
      | none => "" := by
  rw [expression]
  split <;> simp_all [settledText]

@[simp] theorem value_conditional (test consequent alternate : Expr) :
    (expression mode (.conditional span test consequent alternate)).value =
      (operand .template test).value ++ " ? " ++ (operand mode consequent).value ++ " : "
        ++ (operand mode alternate).value := by
  simp

theorem value_unary (operator : String) (argument : Expr) :
    (expression mode (.unary span operator argument)).value =
      match unaryOperator? operator with
      | some mark => mark ++ (operand mode argument).value
      | none => "" := by
  rw [expression]
  split <;> simp_all [settledText]

theorem value_call (callee : Expr) (arguments : List Expr) (optional : Bool) :
    (expression mode (.call span callee arguments optional)).value =
      if callee.isObjectEntries then
        ", ".intercalate (arguments.map fun argument => (expression mode argument).value)
      else if (operand mode callee).value = "" then ""
      else (operand mode callee).value ++ "("
        ++ ", ".intercalate (arguments.map fun argument => (expression mode argument).value)
        ++ ")" := by
  rw [expression]
  rw [value_settle, Report.value_bind, value_argumentTexts]
  split
  · rfl
  · rw [Report.value_bind]
    change settledText (if (operand mode callee).value = "" then _ else _ : Report _).value = _
    split <;> rfl

theorem value_member (receiver property : Expr) (computed optional : Bool) :
    (expression mode (.member span receiver property computed optional)).value =
      if (operand mode receiver).value = "" then ""
      else if computed then
        (operand mode receiver).value ++ "[" ++ (expression mode property).value ++ "]"
      else
        match property.identifier? with
        | some name => (operand mode receiver).value ++ "." ++ name
        | none => "" := by
  rw [expression]
  rw [value_settle, Report.value_bind]
  change settledText (if (operand mode receiver).value = "" then _ else _ : Report _).value = _
  split
  · rfl
  · cases computed with
    | true => rfl
    | false => cases property.identifier? <;> rfl

@[simp] theorem value_chain (inner : Expr) :
    (expression mode (.chain span inner)).value = (expression mode inner).value := by
  rw [expression]

@[simp] theorem value_array (elements : List (Option Expr)) :
    (expression mode (.array span elements)).value =
      writeArray (elements.flatMap fun element => (elementPiece element).value) := by
  simp

@[simp] theorem value_object (members : List Member) :
    (expression mode (.object span members)).value =
      writeHash (members.flatMap fun member => (memberPiece member).value) := by
  simp

@[simp] theorem value_spread (argument : Expr) :
    (expression mode (.spread span argument)).value = "..." ++ (operand mode argument).value := by
  simp

@[simp] theorem value_template (segments : List Segment) :
    (expression mode (.template span segments)).value =
      concatenation (segments.flatMap fun segment => (segmentText mode segment).value) := by
  simp

@[simp] theorem value_assignment (operator : String) (target : Pattern) (value : Expr) :
    (expression mode (.assignment span operator target value)).value = "" := by
  simp [settledText]

@[simp] theorem value_unknown : (expression mode .unknown).value = "" := by simp

@[simp] theorem diagnostics_literal (literal : Literal) :
    (expression mode (.literal span literal)).diagnostics =
      faultDiagnostics span (literalText literal) := by
  simp

@[simp] theorem diagnostics_binary (operator : String) (left right : Expr) :
    (expression mode (.binary span operator left right)).diagnostics =
      (expression mode left).diagnostics ++ (expression mode right).diagnostics := by
  simp

theorem diagnostics_logical (operator : String) (left right : Expr) :
    (expression mode (.logical span operator left right)).diagnostics =
      match LogicalOperator.ofText? operator with
      | some _ => (expression mode left).diagnostics ++ (expression mode right).diagnostics
      | none =>
        faultDiagnostics span
          (.error (.unwritable "LogicalExpression" s!"unknown operator `{operator}`")) := by
  rw [expression]
  split <;> simp_all

@[simp] theorem diagnostics_conditional (test consequent alternate : Expr) :
    (expression mode (.conditional span test consequent alternate)).diagnostics =
      (expression .template test).diagnostics ++ (expression mode consequent).diagnostics
        ++ (expression mode alternate).diagnostics := by
  simp

theorem diagnostics_unary (operator : String) (argument : Expr) :
    (expression mode (.unary span operator argument)).diagnostics =
      match unaryOperator? operator with
      | some _ => (expression mode argument).diagnostics
      | none =>
        faultDiagnostics span (.error
          (.unwritable "UnaryExpression" s!"operator `{operator}` has no Twig equivalent")) := by
  rw [expression]
  split <;> simp_all

/-- The arguments of a call are written before its callee. -/
theorem diagnostics_call (callee : Expr) (arguments : List Expr) (optional : Bool) :
    (expression mode (.call span callee arguments optional)).diagnostics =
      (arguments.flatMap fun argument => (expression mode argument).diagnostics) ++
        if callee.isObjectEntries then []
        else (expression mode callee).diagnostics ++
          if (operand mode callee).value = "" then
            faultDiagnostics span
              (.error (.unwritable "CallExpression" "the callee could not be translated"))
          else [] := by
  rw [expression, diagnostics_settle, Report.diagnostics_bind, Report.value_bind,
    diagnostics_argumentTexts, List.append_assoc]
  congr 1
  split
  · rfl
  · rw [Report.diagnostics_bind, Report.value_bind, Report.diagnostics_map, List.append_assoc]
    congr 1
    change (if (operand mode callee).value = "" then _ else _ : Report _).diagnostics ++
      faultDiagnostics span (if (operand mode callee).value = "" then _ else _ : Report _).value = _
    split <;> rfl

/-- The property of a member is written if the receiver left a text and the property is
computed. -/
theorem diagnostics_member (receiver property : Expr) (computed optional : Bool) :
    (expression mode (.member span receiver property computed optional)).diagnostics =
      (expression mode receiver).diagnostics ++
        if (operand mode receiver).value = "" then
          faultDiagnostics span
            (.error (.unwritable "MemberExpression" "the object could not be translated"))
        else if computed then (expression mode property).diagnostics
        else if property.identifier?.isSome then []
        else
          faultDiagnostics span (.error
            (.unwritable "MemberExpression" s!"unexpected {property.kind} as a property name")) := by
  rw [expression, diagnostics_settle, Report.diagnostics_bind, Report.value_bind,
    Report.diagnostics_map, List.append_assoc]
  congr 1
  change (if (operand mode receiver).value = "" then _ else _ : Report _).diagnostics ++
    faultDiagnostics span (if (operand mode receiver).value = "" then _ else _ : Report _).value = _
  split
  · rfl
  · cases computed with
    | true => simp [faultDiagnostics]
    | false => cases property.identifier? <;> simp [faultDiagnostics]

@[simp] theorem diagnostics_template (segments : List Segment) :
    (expression mode (.template span segments)).diagnostics =
      segments.flatMap fun segment => (segmentText mode segment).diagnostics := by
  simp

@[simp] theorem diagnostics_spread (argument : Expr) :
    (expression mode (.spread span argument)).diagnostics = (expression mode argument).diagnostics := by
  simp

/-- The elements of an array literal are values in either mode. -/
theorem expression_array (elements : List (Option Expr)) :
    expression mode (.array span elements) = writeArray <$> elementPieces elements := by
  rw [expression]

/-- The members of an object literal are values in either mode. -/
theorem expression_object (members : List Member) :
    expression mode (.object span members) = writeHash <$> memberPieces members := by
  rw [expression]

end Equations

end Twig

end TwigComponent
