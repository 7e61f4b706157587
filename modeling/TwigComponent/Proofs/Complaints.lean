import TwigComponent.Proofs.Interface
import TwigComponent.Proofs.LoopPatterns
import TwigComponent.Transform

/-!
# All that can be said

A diagnostic is about one expression that was to be written, about one node, or
about one declaration of the script. What can be said about each of these by itself
is a short list, and what is said about a component is taken from these lists. So a
property of all diagnostics is one to be looked up there. One of them is that none
is an error: errors are about files, and a component that is transformed at all is
transformed without one.
-/
namespace TwigComponent

open Text

namespace Twig

open Source

/-- What can be said about a member of an object literal by itself. -/
def memberComplaints : Member → List Diagnostic
  | .property span key value computed _ method =>
    faultDiagnostics span (propertyEntry key value computed method).value
  | .spread _ _ => []

/-- What can be said about an expression by itself. -/
def complaints : Expr → List Diagnostic
  | .literal span literal => faultDiagnostics span (literalText literal)
  | .logical span operator _ _ =>
    faultDiagnostics span
      (.error (.unwritable "LogicalExpression" s!"unknown operator `{operator}`"))
  | .unary span operator _ =>
    faultDiagnostics span
      (.error (.unwritable "UnaryExpression" s!"operator `{operator}` has no Twig equivalent"))
  | .call span _ _ _ =>
    faultDiagnostics span
      (.error (.unwritable "CallExpression" "the callee could not be translated"))
  | .member span _ property _ _ =>
    faultDiagnostics span
        (.error (.unwritable "MemberExpression" "the object could not be translated"))
      ++ faultDiagnostics span
        (.error (.unwritable "MemberExpression" s!"unexpected {property.kind} as a property name"))
  | .object _ members => members.flatMap memberComplaints
  | .assignment span _ _ _ =>
    faultDiagnostics span (.error
      (.unwritable "AssignmentExpression" "assignments cannot appear inside a Twig expression"))
  | _ => []

/-- What can be said about a node by itself. -/
def nodeComplaints (options : Options) : Node → List Diagnostic
  | .ifBlock span _ _ _ _ =>
    faultDiagnostics span (.error (.unwritable "IfBlock" "the condition could not be translated"))
  | .eachBlock span items context _ _ _ _ =>
    faultDiagnostics span (.error (loopFault "the iterated expression could not be translated"))
      ++ faultDiagnostics span ((·.targets) <$>
        (loopHead (expression .template items).value context).value)
  | .slot span _ _ => (tellFallback options.defaultSlot span).diagnostics
  | _ => []

/-- The property holds of all that can be said about these expressions. -/
def Throughout (P : Diagnostic → Prop) (parts : List (Mode × Expr)) : Prop :=
  ∀ part ∈ parts, ∀ diagnostic ∈ complaints part.2, P diagnostic

variable {P : Diagnostic → Prop}

theorem throughout_cons {part : Mode × Expr} {parts : List (Mode × Expr)} :
    Throughout P (part :: parts) ↔
      (∀ diagnostic ∈ complaints part.2, P diagnostic) ∧ Throughout P parts :=
  List.forall_mem_cons

theorem throughout_append {parts others : List (Mode × Expr)} :
    Throughout P (parts ++ others) ↔ Throughout P parts ∧ Throughout P others :=
  List.forall_mem_append

theorem throughout_flatMap {α : Type} {items : List α} {parts : α → List (Mode × Expr)} :
    Throughout P (items.flatMap parts) ↔ ∀ item ∈ items, Throughout P (parts item) :=
  List.forall_mem_flatMap

/-- A spread in an array literal is no expression of its own, and nothing can be said about it. -/
theorem throughout_element {e : Expr} (h : Throughout P (elementVisit (some e))) :
    Throughout P (visits .value e) := by
  cases e with
  | spread span argument =>
    rw [visits, throughout_cons]
    exact ⟨List.forall_mem_nil _, h⟩
  | _ => exact h

section Expressions

theorem forall_memberPiece {member : Member}
    (own : ∀ diagnostic ∈ memberComplaints member, P diagnostic)
    (h : Throughout P (memberVisit member))
    (ih : ∀ e ∈ member.expressions, Throughout P (visits .value e) →
      ∀ diagnostic ∈ (expression .value e).diagnostics, P diagnostic) :
    ∀ diagnostic ∈ (memberPiece member).diagnostics, P diagnostic := by
  cases member with
  | property span key value computed shorthand method =>
    rw [memberVisit, throughout_append] at h
    have keys : ∀ diagnostic ∈ (propertyKey key computed).diagnostics, P diagnostic := by
      cases computed with
      | true => simpa [propertyKey] using ih key (by simp [Member.expressions]) h.1
      | false => exact List.forall_mem_nil _
    have values := ih value (by simp [Member.expressions]) h.2
    rw [memberPiece, Report.diagnostics_map, diagnostics_settle]
    refine List.forall_mem_append.mpr ⟨?_, own⟩
    unfold propertyEntry
    split
    · exact List.forall_mem_nil _
    · rw [Report.diagnostics_bind]
      refine List.forall_mem_append.mpr ⟨keys, ?_⟩
      split
      · exact List.forall_mem_nil _
      · rw [Report.diagnostics_bind]
        refine List.forall_mem_append.mpr ⟨values, ?_⟩
        split <;> exact List.forall_mem_nil _
  | spread span argument =>
    rw [memberPiece, Report.diagnostics_map, diagnostics_filterOperand]
    exact ih argument (by simp [Member.expressions]) h

theorem forall_elementPiece {element : Option Expr} (h : Throughout P (elementVisit element))
    (he : ∀ e, element = some e → Throughout P (visits .value e) →
      ∀ diagnostic ∈ (expression .value e).diagnostics, P diagnostic)
    (hs : ∀ place argument, element = some (.spread place argument) →
      Throughout P (visits .value argument) →
      ∀ diagnostic ∈ (expression .value argument).diagnostics, P diagnostic) :
    ∀ diagnostic ∈ (elementPiece element).diagnostics, P diagnostic := by
  unfold elementPiece
  split
  · exact List.forall_mem_nil _
  · rename_i place argument
    simpa using hs place argument rfl h
  · rename_i e _
    simpa using he e rfl (throughout_element h)

/-- What is said about an expression can be said about one that was to be written for it. -/
theorem forall_expression (e : Expr) (mode : Mode) (h : Throughout P (visits mode e)) :
    ∀ diagnostic ∈ (expression mode e).diagnostics, P diagnostic := by
  -- Each case hands the hypothesis on to the parts and takes what is its own from the head.
  induction e using Expr.induction generalizing mode with
  | identifier span name =>
    rw [expression]
    exact List.forall_mem_nil _
  | literal span literal =>
    rw [diagnostics_literal]
    exact h _ (mem_visits_self mode _)
  | binary span operator left right hl hr =>
    rw [visits, throughout_cons, throughout_append] at h
    rw [diagnostics_binary]
    exact List.forall_mem_append.mpr ⟨hl mode h.2.1, hr mode h.2.2⟩
  | logical span operator left right hl hr =>
    rw [visits, throughout_cons, throughout_append] at h
    rw [diagnostics_logical]
    split
    · exact List.forall_mem_append.mpr ⟨hl mode h.2.1, hr mode h.2.2⟩
    · exact h.1
  | conditional span test consequent alternate ht hc ha =>
    rw [visits, throughout_cons, throughout_append, throughout_append] at h
    obtain ⟨-, ⟨inTest, inConsequent⟩, inAlternate⟩ := h
    rw [diagnostics_conditional, List.forall_mem_append, List.forall_mem_append]
    exact ⟨⟨ht .template inTest, hc mode inConsequent⟩, ha mode inAlternate⟩
  | unary span operator argument ih =>
    rw [visits, throughout_cons] at h
    rw [diagnostics_unary]
    split
    · exact ih mode h.2
    · exact h.1
  | call span callee arguments optional hc ha =>
    rw [visits, argumentVisits_eq, throughout_cons, throughout_append, throughout_flatMap] at h
    obtain ⟨own, inArguments, inCallee⟩ := h
    rw [diagnostics_call, List.forall_mem_append, List.forall_mem_flatMap]
    refine ⟨fun argument hin => ha argument hin mode (inArguments argument hin), ?_⟩
    split
    · exact List.forall_mem_nil _
    · rename_i ordinary
      rw [if_neg ordinary] at inCallee
      refine List.forall_mem_append.mpr ⟨hc mode inCallee, ?_⟩
      split
      · exact own
      · exact List.forall_mem_nil _
  | member span receiver property computed optional hr hp =>
    rw [visits, throughout_cons, throughout_append] at h
    obtain ⟨own, inReceiver, inProperty⟩ := h
    rw [complaints, List.forall_mem_append] at own
    rw [diagnostics_member]
    refine List.forall_mem_append.mpr ⟨hr mode inReceiver, ?_⟩
    split
    · exact own.1
    · split
      · rename_i dynamic
        rw [if_pos dynamic] at inProperty
        exact hp mode inProperty
      · split
        · exact List.forall_mem_nil _
        · exact own.2
  | chain span inner ih =>
    rw [visits, throughout_cons] at h
    rw [expression]
    exact ih mode h.2
  | array span elements he hs =>
    rw [visits, elementVisits_eq, throughout_cons, throughout_flatMap] at h
    rw [expression_array, Report.diagnostics_map, diagnostics_elementPieces]
    refine List.forall_mem_flatMap.mpr fun element hin => ?_
    refine forall_elementPiece (h.2 element hin) ?_ ?_
    · intro e found
      exact he e (found ▸ hin) .value
    · intro place argument found
      exact hs place argument (found ▸ hin) .value
  | object span members ih =>
    rw [visits, memberVisits_eq, throughout_cons, throughout_flatMap] at h
    obtain ⟨own, inMembers⟩ := h
    rw [complaints, List.forall_mem_flatMap] at own
    rw [expression_object, Report.diagnostics_map, diagnostics_memberPieces]
    refine List.forall_mem_flatMap.mpr fun member hm => ?_
    exact forall_memberPiece (own member hm) (inMembers member hm) fun e he =>
      ih member hm e he .value
  | spread span argument ih =>
    rw [visits, throughout_cons] at h
    rw [diagnostics_spread]
    exact ih mode h.2
  | template span segments ih =>
    rw [visits, segmentVisits_eq, throughout_cons, throughout_flatMap] at h
    rw [diagnostics_template]
    refine List.forall_mem_flatMap.mpr fun segment hs => ?_
    have inSegment := throughout_flatMap.mp (h.2 segment hs)
    rw [diagnostics_segmentText]
    exact List.forall_mem_flatMap.mpr fun e he => ih segment hs e he mode (inSegment e he)
  | assignment span operator target value ih =>
    rw [expression, diagnostics_settle]
    exact h _ (mem_visits_self mode _)
  | unknown =>
    rw [expression]
    exact List.forall_mem_nil _

end Expressions

section Markup

theorem forall_attributeMarkup {item : Attribute} (h : Throughout P (attributeVisits item)) :
    ∀ diagnostic ∈ (attributeMarkup item).diagnostics, P diagnostic := by
  cases item with
  | normal span name value =>
    cases value with
    | bool value => cases value <;> exact List.forall_mem_nil _
    | parts list =>
      rw [attributeVisits, AttributeValue.expressions, List.flatMap_assoc, throughout_flatMap] at h
      rw [attributeMarkup, Report.diagnostics_bind, Report.diagnostics_concat,
        List.forall_mem_append, List.forall_mem_flatMap]
      refine ⟨fun part hp => ?_, List.forall_mem_nil _⟩
      have inPart := throughout_flatMap.mp (h part hp)
      rw [diagnostics_attributePartMarkup]
      exact List.forall_mem_flatMap.mpr fun e he => forall_expression e .template (inPart e he)
  | spread span e => exact List.forall_mem_nil _
  | unknown => exact List.forall_mem_nil _

theorem forall_attributePieces {item : Attribute} (h : Throughout P (argumentHashVisits item)) :
    ∀ diagnostic ∈ (attributePieces item).diagnostics, P diagnostic := by
  cases item with
  | normal span name value =>
    rw [argumentHashVisits, throughout_flatMap] at h
    rw [attributePieces, Report.diagnostics_bind, diagnostics_attributeValue,
      Report.diagnostics_pure, List.append_nil]
    exact List.forall_mem_flatMap.mpr fun e he => forall_expression e .value (h e he)
  | spread span e =>
    rw [attributePieces, Report.diagnostics_map, diagnostics_filterOperand]
    exact forall_expression e .value h
  | unknown => exact List.forall_mem_nil _

/-- The default values that a loop reaches are among those of its pattern. -/
theorem forall_loopHead {context : Option Pattern} (iterable : String)
    (h : Throughout P (context.toList.flatMap (·.defaults.flatMap (visits .value)))) :
    ∀ diagnostic ∈ (loopHead iterable context).diagnostics, P diagnostic := by
  rw [diagnostics_loopHead, List.flatMap_assoc]
  refine List.forall_mem_flatMap.mpr fun pattern hp => List.forall_mem_flatMap.mpr fun e he => ?_
  have inPattern := throughout_flatMap.mp (throughout_flatMap.mp h pattern hp)
  refine forall_expression e .value (inPattern e ?_)
  cases pattern with
  | object span members =>
    obtain ⟨member, hm, hd⟩ := List.mem_flatMap.mp he
    exact List.mem_flatMap.mpr ⟨member, (List.takeWhile_sublist _).mem hm, hd⟩
  | _ => cases he

variable {options : Options}

theorem forall_fragment {nodes : List Node} (h : Throughout P (fragmentVisits nodes))
    (ih : ∀ child ∈ nodes, Throughout P (nodeVisits child) →
      ∀ diagnostic ∈ (node options child).diagnostics, P diagnostic) :
    ∀ diagnostic ∈ (fragment options nodes).diagnostics, P diagnostic := by
  rw [fragmentVisits_eq, throughout_flatMap] at h
  rw [diagnostics_fragment]
  exact List.forall_mem_flatMap.mpr fun child hc => ih child hc (h child hc)

/-- What is said about a node can be said about an expression that was to be written for it or about
a node inside it. -/
theorem forall_node (tree : Node) (h : Throughout P (nodeVisits tree))
    (own : ∀ inner ∈ tree.subnodes, ∀ diagnostic ∈ nodeComplaints options inner, P diagnostic) :
    ∀ diagnostic ∈ (node options tree).diagnostics, P diagnostic := by
  induction tree using Node.induction with
  | fragment span children ih =>
    rw [Node.subnodes, List.forall_mem_cons, forall_childNodes] at own
    rw [nodeVisits] at h
    rw [diagnostics_node_fragment]
    exact forall_fragment h fun child hc hv => ih child hc hv (own.2 child hc)
  | element span name attributes children ih =>
    rw [Node.subnodes, List.forall_mem_cons, forall_childNodes] at own
    rw [nodeVisits, throughout_append, throughout_flatMap] at h
    rw [diagnostics_element, List.forall_mem_append, List.forall_mem_flatMap]
    refine ⟨fun item hi => forall_attributeMarkup (h.1 item hi), ?_⟩
    split
    · exact List.forall_mem_nil _
    · rename_i paired
      rw [if_neg paired] at h
      exact forall_fragment h.2 fun child hc hv => ih child hc hv (own.2 child hc)
  | text content => exact List.forall_mem_nil _
  | comment span data => exact List.forall_mem_nil _
  | mustache span e =>
    rw [nodeVisits] at h
    rw [node, diagnostics_interpolate]
    exact forall_expression e .template h
  | rawMustache span e =>
    rw [nodeVisits] at h
    rw [node, diagnostics_rawExpression]
    exact forall_expression e .template h
  | ifBlock span test children otherwise elseif hc _ =>
    rw [Node.subnodes, List.forall_mem_cons, List.forall_mem_append, forall_childNodes] at own
    rw [nodeVisits, throughout_append] at h
    rw [diagnostics_ifBlock]
    refine List.forall_mem_append.mpr ⟨forall_expression test .template h.1, ?_⟩
    split
    · exact own.1
    · exact forall_fragment h.2 fun child hin hv => hc child hin hv (own.2.1 child hin)
  | eachBlock span items context index key children otherwise hc ho =>
    rw [Node.subnodes, List.forall_mem_cons, List.forall_mem_append, forall_childNodes,
      forall_branchNodes, nodeComplaints, List.forall_mem_append] at own
    obtain ⟨⟨unwritten, refused⟩, inChildren, inBranch⟩ := own
    simp only [nodeVisits, throughout_append] at h
    obtain ⟨⟨⟨hi, hp⟩, hv⟩, hb⟩ := h
    rw [diagnostics_eachBlock]
    refine List.forall_mem_append.mpr ⟨forall_expression items .template hi, ?_⟩
    split
    · exact unwritten
    · refine List.forall_mem_append.mpr ⟨forall_loopHead _ hp, ?_⟩
      split
      · rename_i fault found
        rw [found] at refused
        exact refused
      · rw [branchVisits_eq, throughout_flatMap] at hb
        rw [diagnostics_elseBranch, List.forall_mem_append, List.forall_mem_flatMap]
        refine ⟨forall_fragment hv fun child hin hv => hc child hin hv (inChildren child hin), ?_⟩
        intro branch found
        have some : branch ∈ otherwise := by simpa using found
        have visited := hb branch found
        rw [← fragmentVisits_eq] at visited
        exact forall_fragment visited fun child hin hv =>
          ho branch some child hin hv (inBranch branch some child hin)
  | component span name attributes children ih =>
    rw [Node.subnodes, List.forall_mem_cons, forall_childNodes] at own
    rw [nodeVisits, throughout_append, throughout_flatMap] at h
    rw [diagnostics_component, diagnostics_componentArguments, List.forall_mem_append,
      List.forall_mem_flatMap]
    refine ⟨fun item hi => forall_attributePieces (h.1 item hi), ?_⟩
    split
    · exact forall_fragment h.2 fun child hc hv => ih child hc hv (own.2 child hc)
    · exact List.forall_mem_nil _
  | slot span attributes children ih =>
    rw [Node.subnodes, List.forall_mem_cons, forall_childNodes] at own
    rw [nodeVisits] at h
    rw [diagnostics_slot, List.forall_mem_append]
    refine ⟨?_, forall_fragment h fun child hc hv => ih child hc hv (own.2 child hc)⟩
    unfold slotBlock
    split
    · exact List.forall_mem_nil _
    · exact own.1
  | unknown => exact List.forall_mem_nil _

end Markup

end Twig

open Source

/-- The expression that a declaration gives a name to. -/
def Declaration.expressions : Declaration → List Expr
  | .prop _ init => init.toList
  | .binding _ value => [value]

/-- The expressions that are to be written for a component. -/
def Source.Document.visits (document : Document) : List (Twig.Mode × Expr) :=
  (document.declarations.flatMap fun declaration =>
      declaration.expressions.flatMap (Twig.visits .value))
    ++ Twig.fragmentVisits document.html.children

/-- The hint about the initializer of a prop. -/
def initializerHint (name : String) (init : Expr) : Diagnostic where
  code := .unrecognizedInitializer
  message := s!"prop `{name}` is initialized with {init.kind}; typed as string with its source text as default"
  span := init.span

namespace Component

variable {P : Diagnostic → Prop} (component : Component)

theorem forall_rawOrValue {e : Expr} (h : Twig.Throughout P (Twig.visits .value e)) :
    ∀ diagnostic ∈ (component.rawOrValue e).diagnostics, P diagnostic := by
  unfold rawOrValue
  split
  · exact List.forall_mem_nil _
  · exact Twig.forall_expression e .value h

theorem forall_elementTexts {elements : List (Option Expr)}
    (h : ∀ element ∈ elements, Twig.Throughout P (Twig.elementVisit element)) :
    ∀ diagnostic ∈ (component.elementTexts elements).diagnostics, P diagnostic := by
  induction elements with
  | nil => exact List.forall_mem_nil _
  | cons element rest ih =>
    rw [List.forall_mem_cons] at h
    cases element with
    | none => simpa [elementTexts] using ih h.2
    | some e =>
      have first := component.forall_rawOrValue (Twig.throughout_element h.1)
      simpa [elementTexts, or_imp, forall_and] using And.intro first (ih h.2)

theorem forall_inferProp {name : String} {init : Expr} (hint : P (initializerHint name init))
    (h : Twig.Throughout P (Twig.visits .value init)) :
    ∀ diagnostic ∈ (component.inferProp name init).diagnostics, P diagnostic := by
  have unknown : ∀ diagnostic ∈ (component.unrecognized name init).diagnostics, P diagnostic := by
    rw [unrecognized, Report.diagnostics_bind, Report.diagnostics_bind, Report.diagnostics_pure,
      List.append_nil]
    exact List.forall_mem_cons.mpr ⟨hint, component.forall_rawOrValue h⟩
  unfold inferProp
  split
  · rw [Twig.visits, Twig.elementVisits_eq, Twig.throughout_cons, Twig.throughout_flatMap] at h
    simpa using component.forall_elementTexts h.2
  · exact List.forall_mem_nil _
  · split
    · exact List.forall_mem_nil _
    · exact List.forall_mem_nil _
    · exact List.forall_mem_nil _
    · exact List.forall_mem_nil _
    · exact unknown
    · exact unknown
  · split
    · split
      · exact List.forall_mem_nil _
      · exact unknown
    · exact unknown
  · exact unknown

/-- What is said about a declaration can be said about the initializer of a prop or about an
expression that was to be written. -/
theorem forall_declaration {declaration : Declaration}
    (hint : ∀ name init, declaration = .prop name (some init) → P (initializerHint name init))
    (h : Twig.Throughout P (declaration.expressions.flatMap (Twig.visits .value))) :
    ∀ diagnostic ∈ component.declarationDiagnostics declaration, P diagnostic := by
  rw [Twig.throughout_flatMap] at h
  cases declaration with
  | prop name init =>
    cases init with
    | none => exact List.forall_mem_nil _
    | some init => exact component.forall_inferProp (hint name init rfl) (h init List.mem_cons_self)
  | binding name value => exact Twig.forall_expression value .value (h value List.mem_cons_self)

/-- A component is transformed exactly if the options are valid and its metadata document can be
made. -/
theorem transform_eq_ok_iff {component : Component} {name : String} {overrides : Option Yaml}
    {options : Options} {report : Report Transformed} :
    component.transform name overrides options = .ok report ↔
      options.validate = .ok () ∧ ∃ metadata,
        options.metadataText (component.context name overrides options).value = .ok metadata ∧
        report = (do
          let context ← component.context name overrides options
          let twig ← component.template context options
          pure { twig := twig, metadata := metadata, context := context }) := by
  unfold transform
  cases options.validate with
  | error fault => simp [Except.mapError, bind, Except.bind]
  | ok _ =>
    cases hm : options.metadataText (component.context name overrides options).value with
    | error fault => simp [Except.mapError, bind, Except.bind, hm]
    | ok text => simp [Except.mapError, bind, Except.bind, pure, Except.pure, hm, eq_comm]

/-- The report of a transformation is that of the script and then that of the markup. -/
theorem diagnostics_transform {component : Component} {name : String} {overrides : Option Yaml}
    {options : Options} {report : Report Transformed}
    (h : component.transform name overrides options = .ok report) :
    report.diagnostics = (component.context name overrides options).diagnostics ++
      (Twig.fragment options component.document.html.children).diagnostics := by
  obtain ⟨-, metadata, -, rfl⟩ := transform_eq_ok_iff.mp h
  simp [Component.template]

/-- What a transformation reports can be said about the initializer of a prop, about an expression
that was to be written, or about a node. -/
theorem forall_transform {name : String} {overrides : Option Yaml} {options : Options}
    {report : Report Transformed} {component : Component}
    (h : component.transform name overrides options = .ok report)
    (hints : ∀ name init, .prop name (some init) ∈ component.document.declarations →
      P (initializerHint name init))
    (visited : Twig.Throughout P component.document.visits)
    (nodes : ∀ inner ∈ childNodes component.document.html.children,
      ∀ diagnostic ∈ Twig.nodeComplaints options inner, P diagnostic) :
    ∀ diagnostic ∈ report.diagnostics, P diagnostic := by
  rw [Document.visits, Twig.throughout_append, Twig.throughout_flatMap] at visited
  rw [forall_childNodes] at nodes
  rw [diagnostics_transform h, diagnostics_declarations, List.forall_mem_append,
    List.forall_mem_flatMap]
  constructor
  · intro declaration declared
    refine component.forall_declaration (fun name init found => ?_) (visited.1 declaration declared)
    exact hints name init (found ▸ declared)
  · refine Twig.forall_fragment visited.2 fun child hc inChild => ?_
    exact Twig.forall_node child inChild (nodes child hc)

end Component

section Severities

theorem code_fault {span : Span} {attempt : Except Fault String} :
    ∀ diagnostic ∈ faultDiagnostics span attempt, diagnostic.code = .droppedNode := by
  intro diagnostic hd
  unfold faultDiagnostics at hd
  split at hd
  · cases hd
  · cases hd
  · rw [List.mem_singleton.mp hd]

theorem code_complaint (e : Expr) :
    ∀ diagnostic ∈ Twig.complaints e, diagnostic.code = .droppedNode := by
  cases e with
  | member span receiver property computed optional =>
    exact List.forall_mem_append.mpr ⟨code_fault, code_fault⟩
  | object span members =>
    refine List.forall_mem_flatMap.mpr fun member _ => ?_
    cases member with
    | property span key value computed shorthand method => exact code_fault
    | spread span argument => exact List.forall_mem_nil _
  | literal span literal => exact code_fault
  | logical span operator left right =>
    rw [Twig.complaints]
    exact code_fault
  | unary span operator argument =>
    rw [Twig.complaints]
    exact code_fault
  | call span callee arguments optional =>
    rw [Twig.complaints]
    exact code_fault
  | assignment span operator target value =>
    rw [Twig.complaints]
    exact code_fault
  | _ => exact List.forall_mem_nil _

theorem code_nodeComplaint (options : Options) (tree : Node) :
    ∀ diagnostic ∈ Twig.nodeComplaints options tree,
      diagnostic.code = .droppedNode ∨ diagnostic.code = .slotNameFallback := by
  cases tree with
  | ifBlock span test children otherwise elseif =>
    rw [Twig.nodeComplaints]
    exact fun diagnostic hd => .inl (code_fault diagnostic hd)
  | eachBlock span items context index key children otherwise =>
    rw [Twig.nodeComplaints, List.forall_mem_append]
    exact ⟨fun diagnostic hd => .inl (code_fault diagnostic hd),
      fun diagnostic hd => .inl (code_fault diagnostic hd)⟩
  | slot span attributes children => exact List.forall_mem_singleton.mpr (.inr rfl)
  | _ => exact List.forall_mem_nil _

/-- A component that is transformed is transformed without an error. -/
theorem Component.transform_mild {component : Component} {name : String} {overrides : Option Yaml}
    {options : Options} {report : Report Transformed}
    (h : component.transform name overrides options = .ok report) :
    ∀ diagnostic ∈ report.diagnostics, diagnostic.severity ≠ .error := by
  refine forall_transform h ?_ ?_ ?_
  · intro name init _
    exact Severity.noConfusion
  · intro part _ diagnostic hd
    rw [Diagnostic.severity, code_complaint part.2 diagnostic hd]
    exact Severity.noConfusion
  · intro inner _ diagnostic hd
    rw [Diagnostic.severity]
    rcases code_nodeComplaint options inner diagnostic hd with code | code
    · rw [code]
      exact Severity.noConfusion
    · rw [code]
      exact Severity.noConfusion

end Severities

end TwigComponent
