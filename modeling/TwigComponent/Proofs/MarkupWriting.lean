import TwigComponent.Proofs.Writing
import TwigComponent.Twig.Markup

/-!
# Equations of the markup writer

Induction over nodes, and the text and the diagnostics of a node in terms of
those of its parts. As for expressions, the hypotheses about children come as
statements about each child, and the writers of lists write one member after the
other.
-/
namespace TwigComponent

namespace Source

open Text

theorem Branch.sizeOf_children (branch : Branch) {child : Node} (hc : child ∈ branch.children) :
    sizeOf child < sizeOf branch := by
  obtain ⟨span, children⟩ := branch
  have := List.sizeOf_lt_of_mem hc
  rw [Branch.mk.sizeOf_spec]
  exact Nat.lt_of_lt_of_le this (by simp [Branch.children])

/-- Induction over nodes. -/
theorem Node.induction {motive : Node → Prop}
    (fragment : ∀ span children, (∀ child ∈ children, motive child) →
      motive (.fragment span children))
    (element : ∀ span name attributes children, (∀ child ∈ children, motive child) →
      motive (.element span name attributes children))
    (text : ∀ content, motive (.text content))
    (comment : ∀ span data, motive (.comment span data))
    (mustache : ∀ span expression, motive (.mustache span expression))
    (rawMustache : ∀ span expression, motive (.rawMustache span expression))
    (ifBlock : ∀ span test children otherwise elseif, (∀ child ∈ children, motive child) →
      (∀ branch ∈ otherwise, ∀ child ∈ branch.children, motive child) →
      motive (.ifBlock span test children otherwise elseif))
    (eachBlock : ∀ span items context index key children otherwise,
      (∀ child ∈ children, motive child) →
      (∀ branch ∈ otherwise, ∀ child ∈ branch.children, motive child) →
      motive (.eachBlock span items context index key children otherwise))
    (component : ∀ span name attributes children, (∀ child ∈ children, motive child) →
      motive (.component span name attributes children))
    (slot : ∀ span attributes children, (∀ child ∈ children, motive child) →
      motive (.slot span attributes children))
    (unknown : motive .unknown) (node : Node) : motive node := by
  suffices bounded : ∀ n (node : Node), sizeOf node < n → motive node from
    bounded _ node (Nat.lt_succ_self _)
  intro n
  induction n with
  | zero => intro node hn; omega
  | succ n ih =>
    have inside : ∀ (children : List Node), sizeOf children < n → ∀ child ∈ children, motive child :=
      fun children hs child hc => ih child (Nat.lt_trans (List.sizeOf_lt_of_mem hc) hs)
    have inBranch : ∀ (otherwise : Option Branch), sizeOf otherwise < n →
        ∀ branch ∈ otherwise, ∀ child ∈ branch.children, motive child := by
      intro otherwise hs branch hb child hc
      have := branch.sizeOf_children hc
      rw [Option.mem_def.mp hb, Option.some.sizeOf_spec] at hs
      exact ih child (by omega)
    intro node hn
    cases node with
    | fragment span children =>
      rw [Node.fragment.sizeOf_spec] at hn
      exact fragment span children (inside children (by omega))
    | element span name attributes children =>
      rw [Node.element.sizeOf_spec] at hn
      exact element span name attributes children (inside children (by omega))
    | text content => exact text content
    | comment span data => exact comment span data
    | mustache span expression => exact mustache span expression
    | rawMustache span expression => exact rawMustache span expression
    | ifBlock span test children otherwise elseif =>
      rw [Node.ifBlock.sizeOf_spec] at hn
      exact ifBlock span test children otherwise elseif (inside children (by omega))
        (inBranch otherwise (by omega))
    | eachBlock span items context index key children otherwise =>
      rw [Node.eachBlock.sizeOf_spec] at hn
      exact eachBlock span items context index key children otherwise
        (inside children (by omega)) (inBranch otherwise (by omega))
    | component span name attributes children =>
      rw [Node.component.sizeOf_spec] at hn
      exact component span name attributes children (inside children (by omega))
    | slot span attributes children =>
      rw [Node.slot.sizeOf_spec] at hn
      exact slot span attributes children (inside children (by omega))
    | unknown => exact unknown

end Source

namespace Twig

open Source Text

@[simp] theorem value_partsTexts (parts : List AttributePart) :
    (partsTexts parts).value = parts.flatMap fun part => (partTexts part).value := by
  induction parts with
  | nil => rfl
  | cons part rest ih => simp [partsTexts, ih]

@[simp] theorem value_argumentPieces (attributes : List Attribute) :
    (argumentPieces attributes).value =
      attributes.flatMap fun item => (attributePieces item).value := by
  induction attributes with
  | nil => rfl
  | cons item rest ih => simp [argumentPieces, ih]

@[simp] theorem diagnostics_partsTexts (parts : List AttributePart) :
    (partsTexts parts).diagnostics = parts.flatMap fun part => (partTexts part).diagnostics := by
  induction parts with
  | nil => rfl
  | cons part rest ih => simp [partsTexts, ih]

@[simp] theorem diagnostics_argumentPieces (attributes : List Attribute) :
    (argumentPieces attributes).diagnostics =
      attributes.flatMap fun item => (attributePieces item).diagnostics := by
  induction attributes with
  | nil => rfl
  | cons item rest ih => simp [argumentPieces, ih]

@[simp] theorem diagnostics_componentArguments (attributes : List Attribute) :
    (componentArguments attributes).diagnostics =
      attributes.flatMap fun item => (attributePieces item).diagnostics := by
  simp [componentArguments]

section Equations

attribute [local simp] node fragment elseBranch

variable (options : Options) (span : Span)

@[simp] theorem value_fragment (nodes : List Node) :
    (fragment options nodes).value = String.join (nodes.map fun child => (node options child).value) := by
  induction nodes with
  | nil => rfl
  | cons first rest ih => simp [ih, String.join_cons]

@[simp] theorem value_node_fragment (children : List Node) :
    (node options (.fragment span children)).value = (fragment options children).value := by
  rw [node]

theorem value_element (name : String) (attributes : List Attribute) (children : List Node) :
    (node options (.element span name attributes children)).value =
      "<" ++ name ++ String.join (attributes.map fun item => (attributeMarkup item).value) ++
        if isVoidElement name then " />"
        else ">" ++ (fragment options children).value ++ "</" ++ name ++ ">" := by
  rw [node]
  split <;> simp [String.append_assoc]

theorem value_ifBlock (test : Expr) (children : List Node) (otherwise : Option Branch)
    (elseif : Bool) :
    (node options (.ifBlock span test children otherwise elseif)).value =
      if (expression .template test).value = "" then ""
      else tag ("if " ++ (expression .template test).value) ++ (fragment options children).value
        ++ tag "endif" := by
  rw [node, value_settle, Report.value_bind]
  split <;> simp [settledText]

/-- The tag that binds the index of a loop. -/
def indexTag : Option String → String
  | some name => setTag name "loop.index0"
  | none => ""

theorem value_eachBlock (items : Expr) (context : Option Pattern) (index : Option String)
    (key : Option Expr) (children : List Node) (otherwise : Option Branch) :
    (node options (.eachBlock span items context index key children otherwise)).value =
      if (expression .template items).value = "" then ""
      else
        match (loopHead (expression .template items).value context).value with
        | .error _ => ""
        | .ok head =>
          tag ("for " ++ head.targets ++ " in " ++ (expression .template items).value)
            ++ head.bindings ++ indexTag index ++ (fragment options children).value
            ++ (elseBranch options otherwise).value ++ tag "endfor" := by
  rw [node.eq_def]
  dsimp only
  rw [value_settle, Report.value_bind]
  split
  · rfl
  · rw [Report.value_bind]
    cases (loopHead (expression .template items).value context).value with
    | error fault => rfl
    | ok head => cases index <;> rfl

theorem value_elseBranch (otherwise : Option Branch) :
    (elseBranch options otherwise).value =
      match otherwise with
      | none => ""
      | some branch => tag "else" ++ (fragment options branch.children).value := by
  match otherwise with
  | none => rfl
  | some (.mk _ children) => rfl

theorem value_component (name : String) (attributes : List Attribute) (children : List Node) :
    (node options (.component span name attributes children)).value =
      if hasContent children then
        tag ("embed " ++ componentCall options name (componentArguments attributes).value)
          ++ block options.defaultSlot (fragment options children).value ++ tag "endembed"
      else
        tag ("include " ++ componentCall options name (componentArguments attributes).value) := by
  rw [node, Report.value_bind]
  split <;> rfl

theorem value_slot (attributes : List Attribute) (children : List Node) :
    (node options (.slot span attributes children)).value =
      block (slotBlock options.defaultSlot attributes).1 (fragment options children).value := by
  rw [node]
  obtain ⟨name, isDefault⟩ := slotBlock options.defaultSlot attributes
  cases isDefault <;> rfl

@[simp] theorem diagnostics_fragment (nodes : List Node) :
    (fragment options nodes).diagnostics =
      nodes.flatMap fun child => (node options child).diagnostics := by
  induction nodes with
  | nil => rfl
  | cons first rest ih => simp [ih]

@[simp] theorem diagnostics_node_fragment (children : List Node) :
    (node options (.fragment span children)).diagnostics =
      (fragment options children).diagnostics := by
  rw [node]

/-- Nothing is said about the children of a void element. -/
theorem diagnostics_element (name : String) (attributes : List Attribute) (children : List Node) :
    (node options (.element span name attributes children)).diagnostics =
      (attributes.flatMap fun item => (attributeMarkup item).diagnostics) ++
        if isVoidElement name then [] else (fragment options children).diagnostics := by
  rw [node, Report.diagnostics_bind, Report.diagnostics_concat]
  congr 1
  split
  · rfl
  · exact List.append_nil _

theorem diagnostics_ifBlock (test : Expr) (children : List Node) (otherwise : Option Branch)
    (elseif : Bool) :
    (node options (.ifBlock span test children otherwise elseif)).diagnostics =
      (expression .template test).diagnostics ++
        if (expression .template test).value = "" then
          faultDiagnostics span
            (.error (.unwritable "IfBlock" "the condition could not be translated"))
        else (fragment options children).diagnostics := by
  rw [node, diagnostics_settle, Report.diagnostics_bind, Report.value_bind, List.append_assoc]
  congr 1
  split
  · rfl
  · simp [faultDiagnostics]

/-- A loop that cannot be written says nothing about its children. -/
theorem diagnostics_eachBlock (items : Expr) (context : Option Pattern) (index : Option String)
    (key : Option Expr) (children : List Node) (otherwise : Option Branch) :
    (node options (.eachBlock span items context index key children otherwise)).diagnostics =
      (expression .template items).diagnostics ++
        if (expression .template items).value = "" then
          faultDiagnostics span
            (.error (loopFault "the iterated expression could not be translated"))
        else
          (loopHead (expression .template items).value context).diagnostics ++
            match (loopHead (expression .template items).value context).value with
            | .error fault => faultDiagnostics span (.error fault)
            | .ok _ => (fragment options children).diagnostics
                ++ (elseBranch options otherwise).diagnostics := by
  rw [node.eq_def]
  dsimp only
  rw [diagnostics_settle, Report.diagnostics_bind, Report.value_bind, List.append_assoc]
  congr 1
  split
  · rfl
  · rw [Report.diagnostics_bind, Report.value_bind, List.append_assoc]
    congr 1
    cases (loopHead (expression .template items).value context).value with
    | error fault => rfl
    | ok head => cases index <;> simp [faultDiagnostics]

theorem diagnostics_elseBranch (otherwise : Option Branch) :
    (elseBranch options otherwise).diagnostics =
      otherwise.toList.flatMap fun branch => (fragment options branch.children).diagnostics := by
  match otherwise with
  | none => rfl
  | some (.mk _ children) => simp [Branch.children]

/-- Nothing is said about children that are blank text. -/
theorem diagnostics_component (name : String) (attributes : List Attribute)
    (children : List Node) :
    (node options (.component span name attributes children)).diagnostics =
      (componentArguments attributes).diagnostics ++
        if hasContent children then (fragment options children).diagnostics else [] := by
  rw [node, Report.diagnostics_bind]
  congr 1
  split
  · exact List.append_nil _
  · rfl

theorem diagnostics_slot (attributes : List Attribute) (children : List Node) :
    (node options (.slot span attributes children)).diagnostics =
      (if (slotBlock options.defaultSlot attributes).2 then
        (tellFallback (slotBlock options.defaultSlot attributes).1 span).diagnostics else []) ++
        (fragment options children).diagnostics := by
  rw [node]
  obtain ⟨name, isDefault⟩ := slotBlock options.defaultSlot attributes
  cases isDefault <;> simp

end Equations

end Twig

end TwigComponent
