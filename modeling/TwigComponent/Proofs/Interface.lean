import TwigComponent.Context
import TwigComponent.Proofs.OrderedMaps

/-!
# The interface that a script declares

A top-level statement declares props, or it binds names to values, or it says
nothing about the interface. So a script is read as a list of declarations in the
order of its source. The props and the set statements of the context are the two
maps that this list defines: a name stands where it was first declared and has
the meaning of its last declaration.
-/
namespace TwigComponent

open Source

/-- What one declarator or one assignment says about the interface. -/
inductive Declaration where
  /-- A prop with its initializer. -/
  | prop (name : String) (init : Option Expr)
  /-- A name that is set to a value. -/
  | binding (name : String) (value : Expr)

namespace Declaration

def prop? : Declaration → Option (String × Option Expr)
  | .prop name init => some (name, init)
  | .binding _ _ => none

def binding? : Declaration → Option (String × Expr)
  | .prop _ _ => none
  | .binding name value => some (name, value)

end Declaration

/-- A declarator of an exported declaration. -/
def Source.Declarator.asProp? (declarator : Declarator) : Option Declaration := do
  let name ← declarator.target.identifier?
  pure (.prop name declarator.init)

/-- A declarator of the script's own. -/
def Source.Declarator.asBinding? (declarator : Declarator) : Option Declaration := do
  let name ← declarator.target.identifier?
  let value ← declarator.init
  pure (.binding name value)

/-- Exported variables are props unless they are constant. Other variables are set, and so are the
targets of reactive assignments. -/
def Source.Statement.declarations : Statement → List Declaration
  | .exportNamed _ (some (.variables _ keyword declarators)) =>
    if keyword = .const then [] else declarators.filterMap Declarator.asProp?
  | .variables _ _ declarators => declarators.filterMap Declarator.asBinding?
  | .labeled _ label (.expression _ (.assignment _ operator target value)) =>
    if label = "$" ∧ operator = "=" then
      (target.identifier?.map fun name => Declaration.binding name value).toList
    else []
  | _ => []

/-- The declarations of the instance script. -/
def Source.Document.declarations (document : Document) : List Declaration :=
  document.instanceBody.flatMap Statement.declarations

/-- The bindings whose value has a Twig form. -/
def Source.Document.writtenBindings (document : Document) : List (String × Expr) :=
  (document.declarations.filterMap Declaration.binding?).filter fun binding =>
    (Twig.expression .value binding.2).value ≠ ""

namespace Component

/-- The definition of a prop: a string if it has no initializer. -/
def propDefinition (component : Component) (name : String) : Option Expr → Report PropDefinition
  | none => pure { type := .string }
  | some init => component.inferProp name init

/-- The diagnostics that a declaration gives by itself. -/
def declarationDiagnostics (component : Component) : Declaration → List Diagnostic
  | .prop name init => (component.propDefinition name init).diagnostics
  | .binding _ value => (Twig.expression .value value).diagnostics

/-- The facts of a declaration. -/
def declarationFacts (component : Component) : Declaration → Report (List Fact)
  | .prop name init => (fun definition => [.prop name definition]) <$> component.propDefinition name init
  | .binding name value => bindingFacts name value

section Collecting

variable {α : Type} (factsOf : α → Report (List Fact))

@[simp] theorem value_collectFacts (items : List α) :
    (collectFacts factsOf items).value = items.flatMap fun item => (factsOf item).value := by
  induction items with
  | nil => rfl
  | cons first rest ih => simp [collectFacts, ih]

@[simp] theorem diagnostics_collectFacts (items : List α) :
    (collectFacts factsOf items).diagnostics =
      items.flatMap fun item => (factsOf item).diagnostics := by
  induction items with
  | nil => rfl
  | cons first rest ih => simp [collectFacts, ih]

/-- The items that have no view say nothing. -/
theorem collectFacts_filterMap {β : Type} {view : α → Option β} {meaning : β → Report (List Fact)}
    (hn : ∀ item, view item = none → factsOf item = pure [])
    (hs : ∀ item seen, view item = some seen → factsOf item = meaning seen) (items : List α) :
    collectFacts factsOf items = collectFacts meaning (items.filterMap view) := by
  induction items with
  | nil => rfl
  | cons first rest ih =>
    rw [collectFacts, ih, List.filterMap_cons]
    cases hv : view first with
    | none =>
      rw [hn first hv]
      apply Report.ext <;> simp
    | some seen => rw [hs first seen hv, collectFacts]

end Collecting

variable (component : Component)

theorem propFacts_of_none {declarator : Declarator} (h : declarator.asProp? = none) :
    component.propFacts declarator = pure [] := by
  cases named : declarator.target.identifier? with
  | none => rw [propFacts, named]
  | some name => simp [Declarator.asProp?, named] at h

theorem propFacts_of_some {declarator : Declarator} {declaration : Declaration}
    (h : declarator.asProp? = some declaration) :
    component.propFacts declarator = component.declarationFacts declaration := by
  cases named : declarator.target.identifier? with
  | none => simp [Declarator.asProp?, named] at h
  | some name =>
    have declared : declaration = .prop name declarator.init := by
      simpa [Declarator.asProp?, named] using h.symm
    rw [propFacts, named, declared, declarationFacts]
    cases declarator.init <;> rfl

theorem declaratorFacts_of_none {declarator : Declarator} (h : declarator.asBinding? = none) :
    declaratorFacts declarator = pure [] := by
  unfold declaratorFacts
  split
  · rename_i name value named bound
    simp [Declarator.asBinding?, named, bound] at h
  · rfl

theorem declaratorFacts_of_some {declarator : Declarator} {declaration : Declaration}
    (h : declarator.asBinding? = some declaration) :
    declaratorFacts declarator = component.declarationFacts declaration := by
  unfold declaratorFacts
  split
  · rename_i name value named bound
    have declared : declaration = .binding name value := by
      simpa [Declarator.asBinding?, named, bound] using h.symm
    rw [declared, declarationFacts]
  · rename_i unbound
    obtain ⟨name, named, rest⟩ := Option.bind_eq_some_iff.mp h
    obtain ⟨value, bound, -⟩ := Option.bind_eq_some_iff.mp rest
    exact absurd bound (unbound name value named)

/-- A statement says what its declarations say. -/
theorem statementFacts_eq (statement : Statement) :
    component.statementFacts statement =
      collectFacts component.declarationFacts statement.declarations := by
  unfold statementFacts
  split
  · rw [Statement.declarations]
    split
    · rfl
    · exact collectFacts_filterMap _ (fun _ h => component.propFacts_of_none h)
        (fun _ _ h => component.propFacts_of_some h) _
  · exact collectFacts_filterMap _ (fun _ h => declaratorFacts_of_none h)
      (fun _ _ h => component.declaratorFacts_of_some h) _
  · rw [Statement.declarations, if_pos ⟨rfl, rfl⟩]
    split
    · rename_i name named
      rw [named]
      apply Report.ext <;> simp [collectFacts, declarationFacts]
    · rename_i unnamed
      rw [unnamed]
      rfl
  · rename_i noExport noVariables noAssignment
    have none : statement.declarations = [] := by
      unfold Statement.declarations
      split
      · exact absurd rfl (noExport _ _ _ _)
      · exact absurd rfl (noVariables _ _ _)
      · split
        · rename_i both
          obtain ⟨rfl, rfl⟩ := both
          exact absurd rfl (noAssignment _ _ _ _ _)
        · rfl
      · rfl
    rw [none]
    rfl

theorem props_declarationFacts (declaration : Declaration) :
    (component.declarationFacts declaration).value.filterMap Fact.prop? =
      declaration.prop?.toList.map fun declared =>
        (declared.1, (component.propDefinition declared.1 declared.2).value) := by
  cases declaration with
  | prop name init => rfl
  | binding name value =>
    rw [declarationFacts, bindingFacts, Report.value_bind, Report.value_pure]
    split <;> rfl

theorem bindings_declarationFacts (declaration : Declaration) :
    (component.declarationFacts declaration).value.filterMap Fact.binding? =
      (declaration.binding?.toList.filter fun binding =>
        (Twig.expression .value binding.2).value ≠ "").map fun binding =>
          (binding.1, (Twig.expression .value binding.2).value) := by
  cases declaration with
  | prop name init => rfl
  | binding name value =>
    rw [declarationFacts, bindingFacts, Report.value_bind, Report.value_pure]
    split <;> simp_all [Declaration.binding?, Fact.binding?]

theorem diagnostics_declarationFacts (declaration : Declaration) :
    (component.declarationFacts declaration).diagnostics =
      component.declarationDiagnostics declaration := by
  cases declaration with
  | prop name init => simp [declarationFacts, declarationDiagnostics]
  | binding name value => simp [declarationFacts, declarationDiagnostics, bindingFacts]

section Script

variable (name : String) (overrides : Option Yaml) (options : Options)

theorem facts_eq :
    (collectFacts component.statementFacts component.document.instanceBody).value =
      component.document.declarations.flatMap fun declaration =>
        (component.declarationFacts declaration).value := by
  rw [value_collectFacts, Document.declarations, List.flatMap_assoc]
  simp only [statementFacts_eq, value_collectFacts]

theorem props_context :
    (component.context name overrides options).value.props =
      Ordered.ofList ((component.document.declarations.filterMap Declaration.prop?).map fun declared =>
        (declared.1, (component.propDefinition declared.1 declared.2).value)) := by
  apply congrArg Ordered.ofList
  rw [facts_eq, List.filterMap_flatMap]
  simp only [props_declarationFacts]
  rw [List.filterMap_eq_flatMap_toList, List.map_flatMap]

theorem setStatements_context :
    (component.context name overrides options).value.setStatements =
      Ordered.ofList (component.document.writtenBindings.map fun binding =>
        (binding.1, (Twig.expression .value binding.2).value)) := by
  apply congrArg Ordered.ofList
  rw [facts_eq, List.filterMap_flatMap, Document.writtenBindings]
  simp only [bindings_declarationFacts]
  rw [List.filterMap_eq_flatMap_toList, List.filter_flatMap, List.map_flatMap]

theorem diagnostics_declarations :
    (component.context name overrides options).diagnostics =
      component.document.declarations.flatMap component.declarationDiagnostics := by
  rw [context, Report.diagnostics_bind, Report.diagnostics_pure, List.append_nil,
    diagnostics_collectFacts, Document.declarations, List.flatMap_assoc]
  simp only [statementFacts_eq, diagnostics_collectFacts, diagnostics_declarationFacts]

end Script

section Source

variable {component} {other : Component} (h : other.source = component.source)

include h

theorem rawOrValue_of_source (e : Expr) : other.rawOrValue e = component.rawOrValue e := by
  have same : other.rawText? e = component.rawText? e := by
    unfold rawText?
    rw [h]
  rw [rawOrValue, rawOrValue, same]

theorem elementTexts_of_source (elements : List (Option Expr)) :
    other.elementTexts elements = component.elementTexts elements := by
  induction elements with
  | nil => rfl
  | cons element rest ih =>
    cases element with
    | none => rw [elementTexts, elementTexts, ih]
    | some e => rw [elementTexts, elementTexts, ih, rawOrValue_of_source h]

theorem unrecognized_of_source (name : String) (init : Expr) :
    other.unrecognized name init = component.unrecognized name init := by
  rw [unrecognized, unrecognized, rawOrValue_of_source h]

/-- Of the component, a definition depends on the source text only. -/
theorem propDefinition_of_source (name : String) (init : Option Expr) :
    other.propDefinition name init = component.propDefinition name init := by
  cases init with
  | none => rfl
  | some init =>
    rw [propDefinition, propDefinition]
    unfold inferProp
    simp only [elementTexts_of_source h, unrecognized_of_source h]

theorem declarationDiagnostics_of_source :
    other.declarationDiagnostics = component.declarationDiagnostics := by
  funext declaration
  cases declaration with
  | prop name init => rw [declarationDiagnostics, declarationDiagnostics, propDefinition_of_source h]
  | binding name value => rfl

end Source

end Component

/-- The props of a component are the names of its exported variables and its set statements the names
that are bound to a value with a Twig form. Either stand in the order in which they are first declared,
and each has the meaning of its last declaration. The diagnostics are those of the declarations one
after the other. Nothing else matters but the text of the source: no other statement, and nothing of
the module script. -/
theorem last_declaration_counts (component : Component) (name : String) (overrides : Option Yaml)
    (options : Options) :
    let context := component.context name overrides options
    let props := component.document.declarations.filterMap Declaration.prop?
    let bindings := component.document.writtenBindings
    context.value.props.map Prod.fst = (props.map Prod.fst).eraseDups ∧
      (∀ key, Ordered.get? key context.value.props =
        (props.findRev? fun declared => declared.1 == key).map fun declared =>
          (component.propDefinition declared.1 declared.2).value) ∧
      context.value.setStatements.map Prod.fst = (bindings.map Prod.fst).eraseDups ∧
      (∀ key, Ordered.get? key context.value.setStatements =
        (bindings.findRev? fun binding => binding.1 == key).map fun binding =>
          (Twig.expression .value binding.2).value) ∧
      context.diagnostics =
        component.document.declarations.flatMap component.declarationDiagnostics ∧
      ∀ other : Component, other.source = component.source →
        other.document.declarations = component.document.declarations →
        (other.context name overrides options).value.props = context.value.props ∧
          (other.context name overrides options).value.setStatements = context.value.setStatements ∧
          (other.context name overrides options).diagnostics = context.diagnostics := by
  intro context props bindings
  have propEntries := component.props_context name overrides options
  have setEntries := component.setStatements_context name overrides options
  have reported := component.diagnostics_declarations name overrides options
  refine ⟨?_, fun key => ?_, ?_, fun key => ?_, reported, fun other hs hd => ⟨?_, ?_, ?_⟩⟩
  · rw [propEntries, Ordered.keys_ofList, List.map_map]
    rfl
  · rw [propEntries, Ordered.get?_ofList_map]
  · rw [setEntries, Ordered.keys_ofList, List.map_map]
    rfl
  · rw [setEntries, Ordered.get?_ofList_map]
  · rw [propEntries, other.props_context, hd]
    simp only [Component.propDefinition_of_source hs]
  · rw [setEntries, other.setStatements_context, Document.writtenBindings, Document.writtenBindings,
      hd]
  · rw [reported, other.diagnostics_declarations, hd, Component.declarationDiagnostics_of_source hs]

/-- A component that consists of an instance script and a module script. -/
def ofScripts (body moduleBody : List Statement) : Component :=
  { document := {
      instanceScript := some ⟨{}, "default", { body := body }⟩
      moduleScript := some ⟨{}, "module", { body := moduleBody }⟩ } }

/-- `export let a = b; let b = a; export var a; export const c = b; $: b = -a; $: d = () => a` -/
def repeatedNames : List Statement :=
  [.exportNamed {} (some (.variables {} .let
      [⟨{}, .identifier {} "a", some (.identifier {} "b")⟩])),
    .variables {} .let [⟨{}, .identifier {} "b", some (.identifier {} "a")⟩],
    .exportNamed {} (some (.variables {} .var [⟨{}, .identifier {} "a", none⟩])),
    .exportNamed {} (some (.variables {} .const [⟨{}, .identifier {} "c", some (.identifier {} "b")⟩])),
    .labeled {} "$" (.expression {}
      (.assignment {} "=" (.identifier {} "b") (.unary {} "-" (.identifier {} "a")))),
    .labeled {} "$" (.expression {} (.assignment {} "=" (.identifier {} "d") .unknown))]

theorem last_declaration_counts_repeatedNames :
    let options : Options := { theme := "base" }
    let context := (ofScripts repeatedNames []).context "card" none options
    context.value.props.map Prod.fst = ["a"] ∧
      context.value.setStatements.map Prod.fst = ["b"] ∧
      Ordered.get? "b" context.value.setStatements = some "-a" ∧
      ((ofScripts (.unknown :: repeatedNames) repeatedNames).context "card" none options).diagnostics =
        context.diagnostics := by
  intro options context
  have facts := last_declaration_counts (ofScripts repeatedNames []) "card" none options
  obtain ⟨propKeys, -, setKeys, setTexts, -, unaffected⟩ := facts
  refine ⟨propKeys, setKeys, setTexts "b", ?_⟩
  exact (unaffected (ofScripts (.unknown :: repeatedNames) repeatedNames) rfl rfl).2.2

end TwigComponent
