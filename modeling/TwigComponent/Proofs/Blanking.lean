import TwigComponent.Proofs.DroppedOperands
import TwigComponent.Proofs.Losses
import TwigComponent.Proofs.Nesting
import TwigComponent.Proofs.Outline

/-!
# Trees without their static text

`blanked` takes the data of comments and the static text of template literals out
of a tree. Two trees that are equal without them differ in nothing else.

The writer never looks at these texts: whether an expression is dropped, whether a
loop can bind its pattern and whether a component has content is the same for a
tree and its blanked form. So their outlines have the same tags, up to what stands
in them behind the keyword.
-/
namespace TwigComponent

namespace Source

mutual

/-- An expression with all static text of its template literals taken out. -/
def Expr.blanked : Expr → Expr
  | .identifier span name => .identifier span name
  | .literal span content => .literal span content
  | .binary span operator left right => .binary span operator left.blanked right.blanked
  | .logical span operator left right => .logical span operator left.blanked right.blanked
  | .conditional span test consequent alternate =>
    .conditional span test.blanked consequent.blanked alternate.blanked
  | .unary span operator argument => .unary span operator argument.blanked
  | .call span callee arguments optional =>
    .call span callee.blanked (blankedArguments arguments) optional
  | .member span object property computed optional =>
    .member span object.blanked property.blanked computed optional
  | .chain span inner => .chain span inner.blanked
  | .array span elements => .array span (blankedElements elements)
  | .object span members => .object span (blankedMembers members)
  | .spread span argument => .spread span argument.blanked
  | .template span segments => .template span (blankedSegments segments)
  | .assignment span operator target value => .assignment span operator target.blanked value.blanked
  | .unknown => .unknown

def blankedArguments : List Expr → List Expr
  | [] => []
  | argument :: rest => argument.blanked :: blankedArguments rest

def blankedElements : List (Option Expr) → List (Option Expr)
  | [] => []
  | none :: rest => none :: blankedElements rest
  | some element :: rest => some element.blanked :: blankedElements rest

def blankedMembers : List Member → List Member
  | [] => []
  | .property span key value computed shorthand method :: rest =>
    .property span key.blanked value.blanked computed shorthand method :: blankedMembers rest
  | .spread span argument :: rest => .spread span argument.blanked :: blankedMembers rest

def blankedSegments : List Segment → List Segment
  | [] => []
  | .text _ :: rest => .text "" :: blankedSegments rest
  | .expression inner :: rest => .expression inner.blanked :: blankedSegments rest

def Pattern.blanked : Pattern → Pattern
  | .identifier span name => .identifier span name
  | .array span elements => .array span (blankedPatterns elements)
  | .object span members => .object span (blankedPatternMembers members)
  | .assignment span target default => .assignment span target.blanked default.blanked
  | .rest span argument => .rest span argument.blanked
  | .unknown => .unknown

def blankedPatterns : List (Option Pattern) → List (Option Pattern)
  | [] => []
  | none :: rest => none :: blankedPatterns rest
  | some element :: rest => some element.blanked :: blankedPatterns rest

def blankedPatternMembers : List PatternMember → List PatternMember
  | [] => []
  | member :: rest => member.blanked :: blankedPatternMembers rest

def PatternMember.blanked : PatternMember → PatternMember
  | .property span key value computed => .property span key.blanked value.blanked computed
  | .rest span argument => .rest span argument.blanked

end

def AttributePart.blanked : AttributePart → AttributePart
  | .text content => .text content
  | .mustache span expression => .mustache span expression.blanked
  | .shorthand span expression => .shorthand span expression.blanked

def AttributeValue.blanked : AttributeValue → AttributeValue
  | .bool value => .bool value
  | .parts list => .parts (list.map AttributePart.blanked)

def Attribute.blanked : Attribute → Attribute
  | .normal span name value => .normal span name value.blanked
  | .spread span expression => .spread span expression.blanked
  | .unknown => .unknown

mutual

/-- A tree with the data of its comments and all static text of its template literals taken out. -/
def Node.blanked : Node → Node
  | .fragment span children => .fragment span (blankedNodes children)
  | .element span name attributes children =>
    .element span name (attributes.map Attribute.blanked) (blankedNodes children)
  | .text content => .text content
  | .comment span _ => .comment span ""
  | .mustache span expression => .mustache span expression.blanked
  | .rawMustache span expression => .rawMustache span expression.blanked
  | .ifBlock span test children otherwise elseif =>
    .ifBlock span test.blanked (blankedNodes children) (blankedBranch otherwise) elseif
  | .eachBlock span items context index key children otherwise =>
    .eachBlock span items.blanked (context.map Pattern.blanked) index (key.map Expr.blanked)
      (blankedNodes children) (blankedBranch otherwise)
  | .component span name attributes children =>
    .component span name (attributes.map Attribute.blanked) (blankedNodes children)
  | .slot span attributes children =>
    .slot span (attributes.map Attribute.blanked) (blankedNodes children)
  | .unknown => .unknown

def blankedNodes : List Node → List Node
  | [] => []
  | first :: rest => first.blanked :: blankedNodes rest

def blankedBranch : Option Branch → Option Branch
  | none => none
  | some (.mk span children) => some (.mk span (blankedNodes children))

end

theorem blankedArguments_eq (arguments : List Expr) :
    blankedArguments arguments = arguments.map Expr.blanked := by
  induction arguments with
  | nil => rfl
  | cons argument rest ih => rw [blankedArguments, ih, List.map_cons]

theorem blankedPatternMembers_eq (members : List PatternMember) :
    blankedPatternMembers members = members.map PatternMember.blanked := by
  induction members with
  | nil => rfl
  | cons member rest ih => rw [blankedPatternMembers, ih, List.map_cons]

theorem blankedNodes_eq (nodes : List Node) : blankedNodes nodes = nodes.map Node.blanked := by
  induction nodes with
  | nil => rfl
  | cons first rest ih => rw [blankedNodes, ih, List.map_cons]

@[simp] theorem identifier?_blanked (e : Expr) : e.blanked.identifier? = e.identifier? := by
  cases e <;> rfl

@[simp] theorem isObjectEntries_blanked (e : Expr) : e.blanked.isObjectEntries = e.isObjectEntries := by
  cases e with
  | member span object property computed optional =>
    rw [Expr.blanked, Expr.isObjectEntries, Expr.isObjectEntries, identifier?_blanked,
      identifier?_blanked]
  | _ => rfl

end Source

namespace Twig

open Source Text

/-- Whether an expression leaves a text does not depend on its static text. -/
theorem value_blanked_eq_empty (e : Expr) (mode : Mode) :
    (expression mode e.blanked).value = "" ↔ (expression mode e).value = "" := by
  induction e using Expr.induction with
  | identifier span name => rw [Expr.blanked]
  | literal span literal => rw [Expr.blanked]
  | binary span operator left right _ _ => simp [Expr.blanked]
  | logical span operator left right _ _ =>
    rw [Expr.blanked, dropped_logical_iff, dropped_logical_iff]
  | conditional span test consequent alternate _ _ _ => simp [Expr.blanked]
  | unary span operator argument _ => rw [Expr.blanked, dropped_unary_iff, dropped_unary_iff]
  | call span callee arguments optional hc ha =>
    rw [Expr.blanked]
    cases entries : callee.isObjectEntries with
    | true =>
      rw [value_call, value_call, isObjectEntries_blanked, entries, if_pos rfl, if_pos rfl,
        intercalate_eq_empty _ (by decide), intercalate_eq_empty _ (by decide), blankedArguments_eq]
      match arguments, ha with
      | [], _ => simp
      | [argument], ha => simpa using ha argument (by simp)
      | _ :: _ :: _, _ => simp
    | false =>
      rw [dropped_call_iff mode span _ optional (by rwa [isObjectEntries_blanked]),
        dropped_call_iff mode span _ optional entries]
      exact hc
  | member span receiver property computed optional hr _ =>
    rw [Expr.blanked, dropped_member_iff, dropped_member_iff, identifier?_blanked]
    exact or_congr_left hr
  | chain span inner ih => simpa [Expr.blanked] using ih
  | array span elements _ _ => simp only [Expr.blanked, value_array_ne_empty]
  | object span members _ => simp only [Expr.blanked, value_object_ne_empty]
  | spread span argument _ => simp [Expr.blanked]
  | template span segments _ => simp only [Expr.blanked, value_template_ne_empty]
  | assignment span operator target value _ => rw [Expr.blanked, value_assignment, value_assignment]
  | unknown => rw [Expr.blanked]

section Forms

/-- The kind of a tag and, if it is a statement, its keyword. -/
def Tag.form (tag : Tag) : TagKind × List String := (tag.kind, tag.keywords)

/-- Tags of the same kinds with the same keywords, in the same order. -/
def SameForms (first second : List Tag) : Prop := first.map Tag.form = second.map Tag.form

instance (first second : List Tag) : Decidable (SameForms first second) :=
  inferInstanceAs (Decidable (_ = _))

namespace SameForms

theorem refl (list : List Tag) : SameForms list list := rfl

theorem append {a b c d : List Tag} (h : SameForms a b) (k : SameForms c d) :
    SameForms (a ++ c) (b ++ d) := by
  rw [SameForms, List.map_append, List.map_append, h, k]

theorem flatMap {α : Type} {items : List α} {first second : α → List Tag}
    (h : ∀ item ∈ items, SameForms (first item) (second item)) :
    SameForms (items.flatMap first) (items.flatMap second) := by
  rw [SameForms, List.map_flatMap, List.map_flatMap]
  exact List.flatMap_congr h

theorem output (a b : String) : SameForms [.output a] [.output b] := rfl

theorem comment (a b : String) : SameForms [.comment a] [.comment b] := rfl

theorem statement {word lead : String} (hw : IsWord word) (hl : word ++ " " = lead) (a b : String) :
    SameForms [.statement (lead ++ a)] [.statement (lead ++ b)] := by
  have same : (Tag.statement (lead ++ a)).keywords = (Tag.statement (lead ++ b)).keywords :=
    congrArg (fun word => [word]) ((keyword_statement hw hl a).trans (keyword_statement hw hl b).symm)
  exact congrArg (fun words => [(TagKind.statement, words)]) same

/-- A construct keeps its form when its argument changes and its content keeps its own. -/
theorem construct {word lead : String} (hw : IsWord word) (hl : word ++ " " = lead) {a b : String}
    {c d : List Tag} (h : SameForms c d) (closing : String) :
    SameForms (.statement (lead ++ a) :: c ++ [.statement closing])
      (.statement (lead ++ b) :: d ++ [.statement closing]) :=
  ((statement hw hl a b).append h).append (refl _)

/-- What is dropped in one is dropped in the other. -/
theorem ite {p q : Prop} [Decidable p] [Decidable q] (hd : p ↔ q) {a b : List Tag}
    (h : SameForms a b) : SameForms (if p then [] else a) (if q then [] else b) := by
  by_cases hp : p
  · rw [if_pos hp, if_pos (hd.mp hp)]
    exact refl []
  · rw [if_neg hp, if_neg fun hq => hp (hd.mpr hq)]
    exact h

end SameForms

end Forms

section Inline

theorem sameForms_outputOutline {a b : String} (h : a = "" ↔ b = "") :
    SameForms (outputOutline a) (outputOutline b) :=
  .ite h (.output a b)

theorem sameForms_segments (segments : List Segment) :
    SameForms ((blankedSegments segments).flatMap segmentOutline) (segments.flatMap segmentOutline) := by
  induction segments with
  | nil => exact .refl []
  | cons segment rest ih =>
    cases segment with
    | text content => exact ih
    | expression inner =>
      rw [blankedSegments, List.flatMap_cons, List.flatMap_cons]
      exact (sameForms_outputOutline (value_blanked_eq_empty inner .template)).append ih

theorem sameForms_interpolateOutline (e : Expr) :
    SameForms (interpolateOutline e.blanked) (interpolateOutline e) := by
  have written := sameForms_outputOutline (value_blanked_eq_empty e .template)
  cases e with
  | template span segments => exact sameForms_segments segments
  | _ => exact written

theorem sameForms_rawOutline (e : Expr) : SameForms (rawOutline e.blanked) (rawOutline e) := by
  have dropped : (filterOperand .template e.blanked).value = "" ↔
      (filterOperand .template e).value = "" := by
    simpa [filterOperand] using value_blanked_eq_empty e .template
  exact .ite dropped (.output _ _)

theorem sameForms_attributeOutline (item : Attribute) :
    SameForms (attributeOutline item.blanked) (attributeOutline item) := by
  match item with
  | .normal span name (.bool flag) => exact .refl []
  | .normal span name (.parts list) =>
    rw [Attribute.blanked, AttributeValue.blanked, attributeOutline, attributeOutline,
      List.flatMap_map]
    refine .flatMap fun part _ => ?_
    cases part with
    | text content => exact .refl []
    | mustache span e => exact sameForms_interpolateOutline e
    | shorthand span e => exact sameForms_interpolateOutline e
  | .spread span e => exact .refl []
  | .unknown => exact .refl []

theorem sameForms_attributes (attributes : List Attribute) :
    SameForms ((attributes.map Attribute.blanked).flatMap attributeOutline)
      (attributes.flatMap attributeOutline) := by
  rw [List.flatMap_map]
  exact .flatMap fun item _ => sameForms_attributeOutline item

end Inline

section Loops

theorem targetNames_blanked (elements : List (Option Pattern)) :
    targetNames (blankedPatterns elements) = targetNames elements := by
  induction elements with
  | nil => rfl
  | cons element rest ih =>
    cases element with
    | none => rfl
    | some pattern => cases pattern <;> simp only [blankedPatterns, Pattern.blanked, targetNames, ih]

theorem length_blankedPatterns (elements : List (Option Pattern)) :
    (blankedPatterns elements).length = elements.length := by
  induction elements with
  | nil => rfl
  | cons element rest ih => cases element <;> simp [blankedPatterns, ih]

/-- Whether a member of a pattern can be bound does not depend on static text, nor on what it is
bound to. -/
theorem bindMember_blanked (a b : String) (member : PatternMember) :
    (bindMember b member.blanked).value.isOk = (bindMember a member).value.isOk := by
  match member with
  | .rest .. => rfl
  | .property span key value true => cases key <;> rfl
  | .property span key value false =>
    cases key with
    | identifier _ name =>
      cases value with
      | assignment _ target right => cases target <;> rfl
      | _ => rfl
    | _ => rfl

/-- Members are bound if each of them can be. -/
theorem isOk_bindMembers (item : String) (members : List PatternMember) :
    (bindMembers item members).value.isOk =
      members.all fun member => (bindMember item member).value.isOk := by
  induction members with
  | nil => rfl
  | cons member rest ih =>
    rw [bindMembers, Report.value_bind, List.all_cons, ← ih]
    cases hf : (bindMember item member).value with
    | error fault => rfl
    | ok text =>
      rw [Report.value_bind]
      cases (bindMembers item rest).value <;> rfl

theorem bindMembers_blanked (a b : String) (members : List PatternMember) :
    (bindMembers b (blankedPatternMembers members)).value.isOk = (bindMembers a members).value.isOk := by
  rw [isOk_bindMembers, isOk_bindMembers, blankedPatternMembers_eq, List.all_map]
  exact congrArg members.all (funext fun member => bindMember_blanked a b member)

theorem isOk_map {α β : Type} (f : α → β) (attempt : Except Fault α) :
    (f <$> attempt).isOk = attempt.isOk := by
  cases attempt <;> rfl

theorem loopHead_blanked (a b : String) (context : Option Pattern) :
    (loopHead b (context.map Pattern.blanked)).value.isOk = (loopHead a context).value.isOk := by
  cases context with
  | none => rfl
  | some pattern =>
    rw [Option.map_some]
    cases pattern with
    | array span elements =>
      rw [Pattern.blanked, loopHead, loopHead, loopTargets, loopTargets, targetNames_blanked,
        length_blankedPatterns]
    | object span members =>
      rw [Pattern.blanked]
      simp only [loopHead, bindPattern, Report.value_bind, Report.value_pure, isOk_map]
      exact bindMembers_blanked (loopVariable a) (loopVariable b) members
    | _ =>
      simp only [Pattern.blanked, loopHead, bindPattern, Report.value_bind, Report.value_pure,
        Except.isOk, Except.toBool, Except.map_ok, Except.map_error]

theorem length_loopBindings (a b : String) (context : Option Pattern) :
    (loopBindings b (context.map Pattern.blanked)).length = (loopBindings a context).length := by
  cases context with
  | none => rfl
  | some pattern =>
    rw [Option.map_some]
    cases pattern with
    | object span members => simp [Pattern.blanked, loopBindings, blankedPatternMembers_eq]
    | _ =>
      rw [Pattern.blanked]
      rfl

theorem sameForms_setOutline {first second : List (String × String)}
    (h : first.length = second.length) : SameForms (setOutline first) (setOutline second) := by
  have form : ∀ binding : String × String,
      (Tag.statement ("set " ++ binding.1 ++ " = " ++ binding.2)).form = (.statement, ["set"]) := by
    intro binding
    rw [String.append_assoc, String.append_assoc]
    exact congrArg (fun word => (TagKind.statement, [word]))
      (keyword_statement (by decide : IsWord "set") (by decide) _)
  have forms : ∀ bindings, (setOutline bindings).map Tag.form =
      List.replicate bindings.length (.statement, ["set"]) := by
    intro bindings
    rw [setOutline, List.map_map, List.eq_replicate_iff]
    refine ⟨by simp, fun pair hp => ?_⟩
    obtain ⟨binding, -, rfl⟩ := List.mem_map.mp hp
    exact form binding
  rw [SameForms, forms, forms, h]

end Loops

section Nodes

variable {options : Options}

theorem hasContent_blanked (children : List Node) : hasContent (blankedNodes children) = hasContent children := by
  have same : isContent ∘ Node.blanked = isContent := funext fun child => by cases child <;> rfl
  rw [hasContent, hasContent, blankedNodes_eq, List.any_map, same]

theorem sameForms_siblings {nodes : List Node}
    (h : ∀ child ∈ nodes, SameForms (outline options child.blanked) (outline options child)) :
    SameForms (outlines options (blankedNodes nodes)) (outlines options nodes) := by
  rw [outlines_eq, outlines_eq, blankedNodes_eq, List.flatMap_map]
  exact .flatMap h

theorem sameForms_branch {otherwise : Option Branch}
    (h : ∀ branch ∈ otherwise, ∀ child ∈ branch.children,
      SameForms (outline options child.blanked) (outline options child)) :
    SameForms (branchOutline options (blankedBranch otherwise)) (branchOutline options otherwise) := by
  match otherwise with
  | none => exact .refl []
  | some (.mk span children) =>
    exact SameForms.append (.refl [.statement "else"]) (sameForms_siblings (h _ rfl))

theorem sameForms_block (a b : String) {first second : List Tag} (h : SameForms first second) :
    SameForms (blockOutline a first) (blockOutline b second) :=
  .construct (by decide : IsWord "block") (by decide) h "endblock"

theorem sameForms_loop (a b : LoopHead) (iterable other : String) {first second : List Tag}
    (h : SameForms first second) :
    SameForms (.statement ("for " ++ a.targets ++ " in " ++ iterable) :: first ++ [.statement "endfor"])
      (.statement ("for " ++ b.targets ++ " in " ++ other) :: second ++ [.statement "endfor"]) := by
  simp only [String.append_assoc]
  exact .construct (by decide : IsWord "for") (by decide) h "endfor"

/-- The tags of a tree keep their forms when its static text is taken out. -/
theorem sameForms_blanked (tree : Node) :
    SameForms (outline options tree.blanked) (outline options tree) := by
  induction tree using Node.induction with
  | fragment span children ih => exact sameForms_siblings ih
  | element span name attributes children ih =>
    rw [Node.blanked, outline, outline]
    refine (sameForms_attributes attributes).append ?_
    split
    · exact .refl []
    · exact sameForms_siblings ih
  | text content => exact .refl []
  | comment span data => exact .comment _ _
  | mustache span e => exact sameForms_interpolateOutline e
  | rawMustache span e => exact sameForms_rawOutline e
  | ifBlock span test children otherwise elseif ih _ =>
    rw [Node.blanked, outline, outline]
    apply SameForms.ite (value_blanked_eq_empty test .template)
    exact .construct (by decide : IsWord "if") (by decide) (sameForms_siblings ih) "endif"
  | eachBlock span items context index key children otherwise ih ihe =>
    rw [Node.blanked, outline, outline]
    apply SameForms.ite (value_blanked_eq_empty items .template)
    have same := loopHead_blanked (expression .template items).value
      (expression .template items.blanked).value context
    cases hl : (loopHead (expression .template items).value context).value <;>
      cases hb : (loopHead (expression .template items.blanked).value
        (context.map Pattern.blanked)).value <;>
      rw [hl, hb] at same
    case error.error => exact .refl []
    case error.ok => cases same
    case ok.error => cases same
    case ok.ok head blankedHead =>
      have bindings := sameForms_setOutline (length_loopBindings
        (expression .template items).value (expression .template items.blanked).value context)
      have counter := SameForms.refl (setOutline (index.toList.map fun name => (name, "loop.index0")))
      have body := (bindings.append counter).append (sameForms_siblings ih)
      exact sameForms_loop blankedHead head _ _ (body.append (sameForms_branch ihe))
  | component span name attributes children ih =>
    have inside := sameForms_block options.defaultSlot options.defaultSlot (sameForms_siblings ih)
    rw [Node.blanked, outline, outline, hasContent_blanked]
    split
    · exact .construct (by decide : IsWord "embed") (by decide) inside "endembed"
    · exact .statement (by decide : IsWord "include") (by decide) _ _
  | slot span attributes children ih => exact sameForms_block _ _ (sameForms_siblings ih)
  | unknown => exact .refl []

end Nodes

end Twig

end TwigComponent
