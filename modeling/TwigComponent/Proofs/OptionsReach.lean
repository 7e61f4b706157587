import Mathlib.Data.List.Basic
import TwigComponent.Proofs.Locality
import TwigComponent.Proofs.Subnodes
import TwigComponent.Transform

/-!
# What the options reach

The namespace is part of the reference to a component and of nothing else. The
name of the default slot is that of the block of a slot without a static name,
and of the block around the content of a component, and it stands in the
diagnostic about such a slot. Everything else is the same under all options:
expressions and arguments are written without them.
-/
namespace TwigComponent

open Source Twig

/-- Whether a node refers to a component. -/
def isComponent : Node → Bool
  | .component .. => true
  | _ => false

/-- Whether a node refers to a component and has content for it. -/
def isFilled : Node → Bool
  | .component _ _ _ children => hasContent children
  | _ => false

/-- Whether a node is a slot without a static name. -/
def isUnnamedSlot : Node → Bool
  | .slot _ attributes _ => (slotName? attributes).isNone
  | _ => false

/-- Two options give a node the same names: those that the node takes from the options agree. -/
structure NamesAgree (first second : Options) (tree : Node) : Prop where
  slot : isUnnamedSlot tree = true → first.defaultSlot = second.defaultSlot
  content : isFilled tree = true → first.defaultSlot = second.defaultSlot
  reference : isComponent tree = true → first.theme = second.theme

variable {first second : Options}

theorem slotBlock_eq {attributes : List Attribute}
    (h : (slotName? attributes).isNone = true → first.defaultSlot = second.defaultSlot) :
    slotBlock first.defaultSlot attributes = slotBlock second.defaultSlot attributes := by
  unfold slotBlock
  cases hn : slotName? attributes with
  | some name => rfl
  | none =>
    have same := h (by simp [hn])
    simp [same]

theorem componentCall_eq (h : first.theme = second.theme) (name : String)
    (arguments : Option String) :
    componentCall first name arguments = componentCall second name arguments := by
  simp [componentCall, Options.componentId, h]

section Fragments

variable {nodes : List Node}

theorem value_fragment_eq (h : ∀ child ∈ nodes, (node first child).value = (node second child).value) :
    (fragment first nodes).value = (fragment second nodes).value := by
  rw [value_fragment, value_fragment]
  exact congrArg String.join (List.map_congr_left h)

theorem diagnostics_fragment_eq
    (h : ∀ child ∈ nodes, (node first child).diagnostics = (node second child).diagnostics) :
    (fragment first nodes).diagnostics = (fragment second nodes).diagnostics := by
  rw [diagnostics_fragment, diagnostics_fragment]
  exact List.flatMap_congr h

theorem slots_eq_of_children {slot other : String}
    (h : ∀ child ∈ nodes, nodeSlots slot child = nodeSlots other child) :
    slots slot nodes = slots other nodes := by
  rw [slots_eq, slots_eq]
  exact List.flatMap_congr h

end Fragments

/-- The diagnostics of a tree depend on the default slot alone, and only through slots without a
name. -/
theorem diagnostics_node_eq (tree : Node)
    (h : ∀ inner ∈ tree.subnodes, isUnnamedSlot inner = true →
      first.defaultSlot = second.defaultSlot) :
    (node first tree).diagnostics = (node second tree).diagnostics := by
  induction tree using Node.induction with
  | fragment span children ih =>
    rw [Node.subnodes, List.forall_mem_cons, forall_childNodes] at h
    rw [diagnostics_node_fragment, diagnostics_node_fragment]
    exact diagnostics_fragment_eq fun child hc => ih child hc (h.2 child hc)
  | element span name attributes children ih =>
    rw [Node.subnodes, List.forall_mem_cons, forall_childNodes] at h
    have inner := diagnostics_fragment_eq fun child hc => ih child hc (h.2 child hc)
    rw [diagnostics_element, diagnostics_element, inner]
  | text content => rfl
  | comment span data => rfl
  | mustache span expression => rfl
  | rawMustache span expression => rfl
  | ifBlock span test children otherwise elseif ih _ =>
    rw [Node.subnodes, List.forall_mem_cons, List.forall_mem_append, forall_childNodes] at h
    have inner := diagnostics_fragment_eq fun child hc => ih child hc (h.2.1 child hc)
    rw [diagnostics_ifBlock, diagnostics_ifBlock, inner]
  | eachBlock span items context index key children otherwise ih ihe =>
    rw [Node.subnodes, List.forall_mem_cons, List.forall_mem_append, forall_childNodes,
      forall_branchNodes] at h
    have inner := diagnostics_fragment_eq fun child hc => ih child hc (h.2.1 child hc)
    have fallback : (elseBranch first otherwise).diagnostics =
        (elseBranch second otherwise).diagnostics := by
      rw [diagnostics_elseBranch, diagnostics_elseBranch]
      refine List.flatMap_congr fun branch hb => diagnostics_fragment_eq fun child hc => ?_
      have listed : branch ∈ otherwise := by simpa using hb
      exact ihe branch listed child hc (h.2.2 branch listed child hc)
    rw [diagnostics_eachBlock, diagnostics_eachBlock, inner, fallback]
  | component span name attributes children ih =>
    rw [Node.subnodes, List.forall_mem_cons, forall_childNodes] at h
    have inner := diagnostics_fragment_eq fun child hc => ih child hc (h.2 child hc)
    rw [diagnostics_component, diagnostics_component, inner]
  | slot span attributes children ih =>
    rw [Node.subnodes, List.forall_mem_cons, forall_childNodes] at h
    have inner := diagnostics_fragment_eq fun child hc => ih child hc (h.2 child hc)
    rw [diagnostics_slot, diagnostics_slot, slotBlock_eq h.1, inner]
  | unknown => rfl

/-- The text of a tree depends on the options only through the names that its nodes take from
them. -/
theorem value_node_eq (tree : Node) (h : ∀ inner ∈ tree.subnodes, NamesAgree first second inner) :
    (node first tree).value = (node second tree).value := by
  induction tree using Node.induction with
  | fragment span children ih =>
    rw [Node.subnodes, List.forall_mem_cons, forall_childNodes] at h
    rw [value_node_fragment, value_node_fragment]
    exact value_fragment_eq fun child hc => ih child hc (h.2 child hc)
  | element span name attributes children ih =>
    rw [Node.subnodes, List.forall_mem_cons, forall_childNodes] at h
    have inner := value_fragment_eq fun child hc => ih child hc (h.2 child hc)
    rw [value_element, value_element, inner]
  | text content => rfl
  | comment span data => rfl
  | mustache span expression => rfl
  | rawMustache span expression => rfl
  | ifBlock span test children otherwise elseif ih _ =>
    rw [Node.subnodes, List.forall_mem_cons, List.forall_mem_append, forall_childNodes] at h
    have inner := value_fragment_eq fun child hc => ih child hc (h.2.1 child hc)
    rw [value_ifBlock, value_ifBlock, inner]
  | eachBlock span items context index key children otherwise ih ihe =>
    rw [Node.subnodes, List.forall_mem_cons, List.forall_mem_append, forall_childNodes,
      forall_branchNodes] at h
    have inner := value_fragment_eq fun child hc => ih child hc (h.2.1 child hc)
    have fallback : (elseBranch first otherwise).value = (elseBranch second otherwise).value := by
      rw [value_elseBranch, value_elseBranch]
      cases otherwise with
      | none => rfl
      | some branch =>
        have content := value_fragment_eq fun child hc =>
          ihe branch rfl child hc (h.2.2 branch rfl child hc)
        simp only [content]
    rw [value_eachBlock, value_eachBlock, inner, fallback]
  | component span name attributes children ih =>
    rw [Node.subnodes, List.forall_mem_cons, forall_childNodes] at h
    have inner := value_fragment_eq fun child hc => ih child hc (h.2 child hc)
    have call := componentCall_eq (h.1.reference rfl) name (componentArguments attributes).value
    rw [value_component, value_component, call]
    split
    · rename_i filled
      rw [h.1.content filled, inner]
    · rfl
  | slot span attributes children ih =>
    rw [Node.subnodes, List.forall_mem_cons, forall_childNodes] at h
    have inner := value_fragment_eq fun child hc => ih child hc (h.2 child hc)
    rw [value_slot, value_slot, slotBlock_eq h.1.slot, inner]
  | unknown => rfl

/-- The slots of a tree depend on the default slot only through slots without a name. -/
theorem nodeSlots_eq (tree : Node)
    (h : ∀ inner ∈ tree.subnodes, isUnnamedSlot inner = true →
      first.defaultSlot = second.defaultSlot) :
    nodeSlots first.defaultSlot tree = nodeSlots second.defaultSlot tree := by
  have branch : ∀ otherwise : Option Branch,
      (∀ branch ∈ otherwise, ∀ child ∈ branch.children,
        nodeSlots first.defaultSlot child = nodeSlots second.defaultSlot child) →
      branchSlots first.defaultSlot otherwise = branchSlots second.defaultSlot otherwise := by
    intro otherwise hb
    rw [branchSlots_eq, branchSlots_eq]
    refine List.flatMap_congr fun branch hin => slots_eq_of_children ?_
    exact hb branch (by simpa using hin)
  induction tree using Node.induction with
  | fragment span children ih =>
    rw [Node.subnodes, List.forall_mem_cons, forall_childNodes] at h
    rw [nodeSlots, nodeSlots]
    exact slots_eq_of_children fun child hc => ih child hc (h.2 child hc)
  | element span name attributes children ih =>
    rw [Node.subnodes, List.forall_mem_cons, forall_childNodes] at h
    rw [nodeSlots, nodeSlots]
    exact slots_eq_of_children fun child hc => ih child hc (h.2 child hc)
  | ifBlock span test children otherwise elseif ih ihe =>
    rw [Node.subnodes, List.forall_mem_cons, List.forall_mem_append, forall_childNodes,
      forall_branchNodes] at h
    have inner := slots_eq_of_children fun child hc => ih child hc (h.2.1 child hc)
    have fallback := branch otherwise fun branch hb child hc =>
      ihe branch hb child hc (h.2.2 branch hb child hc)
    rw [nodeSlots, nodeSlots, inner, fallback]
  | eachBlock span items context index key children otherwise ih ihe =>
    rw [Node.subnodes, List.forall_mem_cons, List.forall_mem_append, forall_childNodes,
      forall_branchNodes] at h
    have inner := slots_eq_of_children fun child hc => ih child hc (h.2.1 child hc)
    have fallback := branch otherwise fun branch hb child hc =>
      ihe branch hb child hc (h.2.2 branch hb child hc)
    rw [nodeSlots, nodeSlots, inner, fallback]
  | component span name attributes children ih =>
    rw [Node.subnodes, List.forall_mem_cons, forall_childNodes] at h
    rw [nodeSlots, nodeSlots]
    exact slots_eq_of_children fun child hc => ih child hc (h.2 child hc)
  | slot span attributes children ih =>
    rw [Node.subnodes, List.forall_mem_cons, forall_childNodes] at h
    have inner := slots_eq_of_children fun child hc => ih child hc (h.2 child hc)
    rw [nodeSlots, nodeSlots, slotBlock_eq h.1, inner]
  | _ => rfl

/-- Equal names from the options, equal reports. -/
theorem fragment_congr {nodes : List Node}
    (h : ∀ inner ∈ childNodes nodes, NamesAgree first second inner) :
    fragment first nodes = fragment second nodes := by
  rw [forall_childNodes] at h
  apply Report.ext
  · exact value_fragment_eq fun child hc => value_node_eq child (h child hc)
  · exact diagnostics_fragment_eq fun child hc =>
      diagnostics_node_eq child fun inner hi => (h child hc inner hi).slot

theorem slots_congr {nodes : List Node}
    (h : ∀ inner ∈ childNodes nodes, isUnnamedSlot inner = true →
      first.defaultSlot = second.defaultSlot) :
    slots first.defaultSlot nodes = slots second.defaultSlot nodes := by
  rw [forall_childNodes] at h
  exact slots_eq_of_children fun child hc => nodeSlots_eq child (h child hc)

/-- A component without content is its reference, and arguments that no option reaches. -/
theorem include_eq (options : Options) (span : Text.Span) (name : String)
    (attributes : List Attribute) :
    node options (.component span name attributes []) =
      ⟨tag ("include " ++ quote (options.componentId name) ++
        (((componentArguments attributes).value.map (" with " ++ ·)).getD "" ++ " only")),
        (componentArguments attributes).diagnostics⟩ := by
  apply Report.ext
  · rw [value_component]
    cases (componentArguments attributes).value <;>
      simp [componentCall, hasContent, String.append_assoc]
  · rw [diagnostics_component]
    simp [hasContent]

/-- An expression that is the only argument of a component is written as a value. -/
theorem includeValue_eq (options : Options) (span place inner : Text.Span) (name key : String)
    (expr : Expr) :
    node options (.component span name [.normal place key (.parts [.mustache inner expr])] []) =
      ⟨tag ("include " ++ quote (options.componentId name) ++
        ((if (expression .value expr).value = "" then ""
          else " with " ++
            ("\x7b " ++ hashKey key ++ ": " ++ (expression .value expr).value ++ " \x7d"))
          ++ " only")),
        (expression .value expr).diagnostics⟩ := by
  have pieces : (argumentPieces [.normal place key (.parts [.mustache inner expr])]).value =
      if (expression .value expr).value = "" then []
      else [.entry (hashKey key ++ ": " ++ (expression .value expr).value)] :=
    List.append_nil _
  have diagnostics : (componentArguments
      [.normal place key (.parts [.mustache inner expr])]).diagnostics =
        (expression .value expr).diagnostics := by
    rw [diagnostics_componentArguments, List.flatMap_singleton]
    exact List.append_nil _
  have arguments : (componentArguments [.normal place key (.parts [.mustache inner expr])]).value =
      if (expression .value expr).value = "" then none
      else some ("\x7b " ++ hashKey key ++ ": " ++ (expression .value expr).value ++ " \x7d") := by
    have single (text : String) :
        mergeChain hashLiteral (groups [.entry text]) = "\x7b " ++ text ++ " \x7d" :=
      String.append_empty
    rw [componentArguments, Report.value_bind, Report.value_pure, pieces]
    split
    · rfl
    · rw [single, ← String.append_assoc, ← String.append_assoc]
      rfl
  rw [include_eq, diagnostics, arguments]
  split
  · rw [Option.map_none, Option.getD_none]
  · rw [Option.map_some, Option.getD_some]

section Interface

variable (component : Component) (name : String) (overrides : Option Yaml) (options : Options)

@[simp] theorem diagnostics_context :
    (component.context name overrides options).diagnostics =
      (Component.collectFacts component.statementFacts
        component.document.instanceBody).diagnostics := by
  simp [Component.context]

@[simp] theorem slots_context :
    (component.context name overrides options).value.slots =
      slots options.defaultSlot component.document.html.children := rfl

end Interface

/-- Options reach only what they name. The tags of an expression are the same under all options, and
as an argument of a component it is written as a value under all of them. The arguments of a
component and what the script says about the interface do not depend on the options either. -/
theorem options_reach (first second : Options) :
    (∀ span expr, node first (.mustache span expr) = node second (.mustache span expr) ∧
      node first (.rawMustache span expr) = node second (.rawMustache span expr) ∧
      ∀ options ∈ [first, second], ∀ place inner name key,
        node options (.component span name [.normal place key (.parts [.mustache inner expr])] []) =
          ⟨tag ("include " ++ quote (options.componentId name) ++
            ((if (expression .value expr).value = "" then ""
              else " with " ++
                ("\x7b " ++ hashKey key ++ ": " ++ (expression .value expr).value ++ " \x7d"))
              ++ " only")),
            (expression .value expr).diagnostics⟩) ∧
    (∀ span name attributes, ∃ arguments diagnostics, ∀ options ∈ [first, second],
      node options (.component span name attributes []) =
        ⟨tag ("include " ++ quote (options.componentId name) ++ arguments), diagnostics⟩) ∧
    (∀ (component : Component) name overrides,
      (component.context name overrides first).value.props =
        (component.context name overrides second).value.props ∧
      (component.context name overrides first).value.setStatements =
        (component.context name overrides second).value.setStatements ∧
      (component.context name overrides first).diagnostics =
        (component.context name overrides second).diagnostics) ∧
    (first.defaultSlot = second.defaultSlot →
      (∀ (component : Component) name overrides,
        (component.context name overrides first).value.slots =
          (component.context name overrides second).value.slots) ∧
      ∀ nodes, (fragment first nodes).diagnostics = (fragment second nodes).diagnostics ∧
        ((∀ inner ∈ childNodes nodes, isComponent inner = false) →
          (fragment first nodes).value = (fragment second nodes).value)) ∧
    (first.theme = second.theme → ∀ nodes,
      (∀ inner ∈ childNodes nodes, isUnnamedSlot inner = false ∧ isFilled inner = false) →
        fragment first nodes = fragment second nodes ∧
        ∀ (component : Component) name overrides, component.document.html.children = nodes →
          component.context name overrides first = component.context name overrides second) := by
  refine ⟨fun span expr => ⟨rfl, rfl, fun options _ place inner name key => ?_⟩, ?_,
    fun component name overrides => ⟨rfl, rfl, ?_⟩, ?_, ?_⟩
  · exact includeValue_eq options span place inner name key expr
  · intro span name attributes
    exact ⟨_, _, fun options _ => include_eq options span name attributes⟩
  · simp
  · intro slot
    constructor
    · intro component name overrides
      simp [slot]
    · intro nodes
      constructor
      · exact diagnostics_fragment_eq fun child _ => diagnostics_node_eq child fun _ _ _ => slot
      · intro plain
        have agree : ∀ inner ∈ childNodes nodes, NamesAgree first second inner := fun inner hi =>
          ⟨fun _ => slot, fun _ => slot, fun hc => by simp [plain inner hi] at hc⟩
        rw [fragment_congr agree]
  · intro theme nodes named
    have agree : ∀ inner ∈ childNodes nodes, NamesAgree first second inner := fun inner hi =>
      ⟨fun hs => by simp [(named inner hi).1] at hs, fun hf => by simp [(named inner hi).2] at hf,
        fun _ => theme⟩
    refine ⟨fragment_congr agree, ?_⟩
    rintro component name overrides rfl
    have same := slots_congr fun inner hi => (agree inner hi).slot
    simp [Component.context, same]

/-- A component without content inside a slot with a name. -/
def iconInSlot : List Node :=
  [.slot {} [.normal {} "name" (.parts [.text ⟨{}, "header", none⟩])]
    [.mustache {} (.identifier {} "title"),
      .component {} "Icon" [] [.text ⟨{}, " ", none⟩]]]

/-- A slot without a name and no component. -/
def unnamedSlot : List Node :=
  [.slot {} [] [.element {} "p" [] [.mustache {} (.identifier {} "title")]]]

theorem options_reach_slots :
    ((∀ inner ∈ childNodes unnamedSlot, isComponent inner = false) ∧
      (fragment { theme := "one" } unnamedSlot).value =
        (fragment { theme := "two" } unnamedSlot).value) ∧
    ((∀ inner ∈ childNodes iconInSlot, isUnnamedSlot inner = false ∧ isFilled inner = false) ∧
      fragment { theme := "one", defaultSlot := "main" } iconInSlot =
        fragment { theme := "one", defaultSlot := "body" } iconInSlot) := by
  have plain : ∀ inner ∈ childNodes unnamedSlot, isComponent inner = false := by
    simp [unnamedSlot, childNodes, Node.subnodes, isComponent]
  have named : ∀ inner ∈ childNodes iconInSlot,
      isUnnamedSlot inner = false ∧ isFilled inner = false := by
    have blank : hasContent [.text ⟨{}, " ", none⟩] = false := by decide
    have name : slotName? [.normal {} "name" (.parts [.text ⟨{}, "header", none⟩])] =
        some "header" := by decide
    simp [iconInSlot, childNodes, Node.subnodes, isUnnamedSlot, isFilled, blank, name]
  obtain ⟨-, -, -, sameSlot, -⟩ := options_reach { theme := "one" } { theme := "two" }
  obtain ⟨-, -, -, -, sameTheme⟩ := options_reach { theme := "one", defaultSlot := "main" }
    { theme := "one", defaultSlot := "body" }
  exact ⟨⟨plain, ((sameSlot rfl).2 unnamedSlot).2 plain⟩, named, (sameTheme rfl iconInSlot named).1⟩

end TwigComponent
