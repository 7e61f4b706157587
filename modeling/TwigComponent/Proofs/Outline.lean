import TwigComponent.Proofs.Subnodes
import TwigComponent.Proofs.TagTexts
import TwigComponent.Proofs.Tags

/-!
# The tags of a template

`outline` lists the tags that a node writes, each with what stands in it, and
leaves out the text between them. It follows the writer: what is dropped writes
no tag, and a loop writes the tags that bind its pattern.

Whether a reader of the text finds these tags depends on the reader and on the
strings of the component. `Reading` says what has to be known of a reader: it
finds no tag in plain text, it finds a tag where one is written, and it reads
joined texts one after the other. Every such reader finds the outline of a node
in the text of that node.
-/
namespace TwigComponent.Twig

open Source Text

section Bindings

/-- The name that a member of an object pattern binds, and the value it is set to. -/
def memberBinding (item : String) : PatternMember → String × String
  | .property _ (.identifier _ key) (.identifier _ name) _ => (name, item ++ "." ++ key)
  | .property _ (.identifier _ key) (.assignment _ (.identifier _ name) right) _ =>
    (name, item ++ "." ++ key ++ "|default(" ++ (expression .value right).value ++ ")")
  | _ => ("", "")

/-- What is set at the head of a loop over an iterated expression. -/
def loopBindings (iterable : String) : Option Pattern → List (String × String)
  | some (.identifier _ name) => [(name, loopVariable iterable)]
  | some (.object _ members) => members.map (memberBinding (loopVariable iterable))
  | _ => []

def setTags (bindings : List (String × String)) : String :=
  String.join (bindings.map fun binding => setTag binding.1 binding.2)

theorem bindMember_ok {item text : String} {member : PatternMember}
    (h : (bindMember item member).value = .ok text) :
    text = setTag (memberBinding item member).1 (memberBinding item member).2 := by
  unfold bindMember at h
  split at h
  · split at h
    · cases h
      rfl
    · rw [Report.value_bind, Report.value_pure] at h
      cases h
      rfl
    · cases h
  · cases h
  · cases h

theorem bindMembers_ok {item text : String} {members : List PatternMember}
    (h : (bindMembers item members).value = .ok text) :
    text = setTags (members.map (memberBinding item)) := by
  induction members generalizing text with
  | nil =>
    cases h
    rfl
  | cons member rest ih =>
    rw [bindMembers, Report.value_bind] at h
    split at h
    · cases h
    · rename_i first hf
      rw [Report.value_bind] at h
      split at h
      · cases h
      · rename_i others ho
        cases h
        rw [bindMember_ok hf, ih ho]
        simp [setTags, String.join_cons]

/-- The tags at the head of a loop set its bindings. -/
theorem loopHead_ok {iterable : String} {context : Option Pattern} {head : LoopHead}
    (h : (loopHead iterable context).value = .ok head) :
    head.bindings = setTags (loopBindings iterable context) := by
  unfold loopHead at h
  split at h
  · rename_i span elements
    rw [Report.value_pure] at h
    cases ht : loopTargets elements with
    | error fault =>
      rw [ht] at h
      cases h
    | ok targets =>
      rw [ht] at h
      cases h
      rfl
  · rename_i pattern _
    rw [Report.value_bind, Report.value_pure] at h
    cases hb : (bindPattern (loopVariable iterable) pattern).value with
    | error fault =>
      rw [hb] at h
      cases h
    | ok bindings =>
      rw [hb] at h
      cases h
      cases pattern with
      | identifier span name =>
        cases hb
        simp [loopBindings, setTags, String.join_cons]
      | object span members => exact bindMembers_ok hb
      | _ => cases hb
  · cases h
    rfl

theorem indexTag_eq (index : Option String) :
    indexTag index = setTags (index.toList.map fun name => (name, "loop.index0")) := by
  cases index with
  | none => rfl
  | some name => simp [indexTag, setTags, String.join_cons]

end Bindings

section Outlines

/-- The tag of an output, none if the text was dropped. -/
def outputOutline (text : String) : List Tag := if text = "" then [] else [.output text]

def segmentOutline : Segment → List Tag
  | .text _ => []
  | .expression inner => outputOutline (expression .template inner).value

def interpolateOutline : Expr → List Tag
  | .template _ segments => segments.flatMap segmentOutline
  | e => outputOutline (expression .template e).value

def rawOutline (e : Expr) : List Tag :=
  if (filterOperand .template e).value = "" then []
  else [.output ((filterOperand .template e).value ++ "|raw")]

def partOutline : AttributePart → List Tag
  | .text _ => []
  | .mustache _ e => interpolateOutline e
  | .shorthand _ e => interpolateOutline e

def attributeOutline : Attribute → List Tag
  | .normal _ _ (.parts list) => list.flatMap partOutline
  | _ => []

def setOutline (bindings : List (String × String)) : List Tag :=
  bindings.map fun binding => .statement ("set " ++ binding.1 ++ " = " ++ binding.2)

def blockOutline (name : String) (content : List Tag) : List Tag :=
  .statement ("block " ++ name) :: content ++ [.statement "endblock"]

mutual

/-- The tags of a node. -/
def outline (options : Options) : Node → List Tag
  | .fragment _ children => outlines options children
  | .element _ name attributes children =>
    attributes.flatMap attributeOutline
      ++ if isVoidElement name then [] else outlines options children
  | .text _ => []
  | .comment _ data => [.comment (trim data)]
  | .mustache _ e => interpolateOutline e
  | .rawMustache _ e => rawOutline e
  | .ifBlock _ test children _ _ =>
    if (expression .template test).value = "" then []
    else .statement ("if " ++ (expression .template test).value) :: outlines options children
      ++ [.statement "endif"]
  | .eachBlock _ items context index _ children otherwise =>
    if (expression .template items).value = "" then []
    else
      match (loopHead (expression .template items).value context).value with
      | .error _ => []
      | .ok head =>
        .statement ("for " ++ head.targets ++ " in " ++ (expression .template items).value)
          :: setOutline (loopBindings (expression .template items).value context)
          ++ setOutline (index.toList.map fun name => (name, "loop.index0"))
          ++ outlines options children ++ branchOutline options otherwise ++ [.statement "endfor"]
  | .component _ name attributes children =>
    if hasContent children then
      .statement ("embed " ++ componentCall options name (componentArguments attributes).value)
        :: blockOutline options.defaultSlot (outlines options children) ++ [.statement "endembed"]
    else [.statement ("include " ++ componentCall options name (componentArguments attributes).value)]
  | .slot _ attributes children =>
    blockOutline (slotBlock options.defaultSlot attributes).1 (outlines options children)
  | .unknown => []

def outlines (options : Options) : List Node → List Tag
  | [] => []
  | first :: rest => outline options first ++ outlines options rest

def branchOutline (options : Options) : Option Branch → List Tag
  | none => []
  | some (.mk _ children) => .statement "else" :: outlines options children

end

variable (options : Options)

theorem outlines_eq (nodes : List Node) : outlines options nodes = nodes.flatMap (outline options) := by
  induction nodes with
  | nil => rfl
  | cons first rest ih => rw [outlines, ih, List.flatMap_cons]

theorem branchOutline_some (branch : Branch) :
    branchOutline options (some branch) = .statement "else" :: outlines options branch.children := by
  obtain ⟨span, children⟩ := branch
  rfl

end Outlines

end TwigComponent.Twig

namespace TwigComponent.Source

open Twig

/-- The static texts of an expression at the level of markup. -/
def Expr.markup : Expr → List String
  | .template _ segments => segments.flatMap Segment.strings
  | _ => []

def AttributePart.markup : AttributePart → List String
  | .text content => [quotedText content.sourceText]
  | .mustache _ expression => expression.markup
  | .shorthand _ expression => expression.markup

def Attribute.markup : Attribute → List String
  | .normal _ name (.parts list) => name :: list.flatMap AttributePart.markup
  | .normal _ name (.bool _) => [name]
  | _ => []

/-- The texts that a node itself copies into the markup. -/
def Node.markup : Node → List String
  | .element _ name attributes _ => name :: attributes.flatMap Attribute.markup
  | .text content => [content.sourceText]
  | .mustache _ expression => expression.markup
  | _ => []

def Node.comments : Node → List String
  | .comment _ data => [data]
  | _ => []

/-- The texts that a node itself brings into tags. -/
def Node.tagTexts (options : Options) : Node → List String
  | .element _ _ attributes _ => attributes.flatMap Attribute.texts
  | .mustache _ expression => expression.texts
  | .rawMustache _ expression => expression.texts
  | .ifBlock _ test _ _ _ => test.texts
  | .eachBlock _ items context index _ _ _ =>
    items.texts ++ (context.toList.flatMap Pattern.texts ++ index.toList)
  | .component _ name attributes _ =>
    quote (options.componentId name) :: options.defaultSlot :: attributes.flatMap Attribute.texts
  | .slot _ attributes _ => [(slotBlock options.defaultSlot attributes).1]
  | _ => []

end TwigComponent.Source

namespace TwigComponent.Twig

open Source Text

theorem mem_patternMemberExpressions {members : List PatternMember} {member : PatternMember}
    (hm : member ∈ members) {e : Expr} (he : e ∈ patternMemberExpressions [member]) :
    e ∈ patternMemberExpressions members := by
  induction members with
  | nil => cases hm
  | cons first rest ih =>
    have split : patternMemberExpressions (first :: rest) =
        patternMemberExpressions [first] ++ patternMemberExpressions rest := by
      cases first <;> simp [patternMemberExpressions]
    rw [split, List.mem_append]
    rcases List.mem_cons.mp hm with rfl | hm
    · exact .inl he
    · exact .inr (ih hm)

theorem forall_targetNames {P : String → Prop} {elements : List (Option Pattern)}
    {names : List String}
    (hn : targetNames elements = .ok names)
    (h : ∀ inner ∈ patternExpressions elements, ∀ text ∈ inner.ownTexts, P text) :
    ∀ name ∈ names, P name := by
  induction elements generalizing names with
  | nil =>
    cases hn
    simp
  | cons element rest ih =>
    match element, hn with
    | some (.identifier span name), hn =>
      simp only [patternExpressions, Pattern.subexpressions, List.forall_mem_append,
        List.forall_mem_singleton] at h
      cases hr : targetNames rest with
      | error fault =>
        rw [targetNames, hr] at hn
        cases hn
      | ok others =>
        rw [targetNames, hr] at hn
        cases hn
        rw [List.forall_mem_cons]
        exact ⟨h.1 name (by simp [Expr.ownTexts]), ih hr h.2⟩

/-- A reader of tags: `R text tags` says that it finds these tags in the text, wherever the text
stands, and `P` which texts may stand in a tag. -/
structure Reading (P : String → Prop) (R : String → List Tag → Prop) : Prop extends Kept P where
  join {a b : String} {first second : List Tag} : R a first → R b second → R (a ++ b) (first ++ second)
  text {text : String} : Plain text → R text []
  output {text : String} : P text → R (outputTag text) [.output text]
  statement {body : String} : P body → R (tag body) [.statement body]

/-- What a reader has to know of a node to find its tags: its texts may stand in tags, nothing in
the markup is taken for a tag, and a comment is read as one. -/
structure Legible (P : String → Prop) (R : String → List Tag → Prop) (options : Options)
    (tree : Node) : Prop where
  tags : ∀ text ∈ tree.tagTexts options, P text
  markup : ∀ text ∈ tree.markup, R text []
  comments : ∀ data ∈ tree.comments, R (commentTag (trim data)) [.comment (trim data)]

namespace Reading

variable {P : String → Prop} {R : String → List Tag → Prop} (M : Reading P R)
include M

theorem empty : R "" [] := M.text (by decide)

theorem joined {α : Type} {items : List α} {write : α → String} {tags : α → List Tag}
    (h : ∀ item ∈ items, R (write item) (tags item)) :
    R (String.join (items.map write)) (items.flatMap tags) := by
  induction items with
  | nil => exact M.empty
  | cons first rest ih =>
    rw [List.forall_mem_cons] at h
    rw [List.map_cons, String.join_cons, List.flatMap_cons]
    exact M.join h.1 (ih h.2)

section Inline

theorem outputExpression {e : Expr} (h : ∀ text ∈ e.texts, P text) :
    R (Twig.outputExpression e).value (outputOutline (expression .template e).value) := by
  rw [Twig.outputExpression, Report.value_bind, Report.value_pure, outputOutline]
  split
  · exact M.empty
  · exact M.output (M.toKept.expression h .template)

theorem rawExpression {e : Expr} (h : ∀ text ∈ e.texts, P text) :
    R (Twig.rawExpression e).value (rawOutline e) := by
  rw [Twig.rawExpression, Report.value_bind, Report.value_pure, rawOutline, value_filterOperand]
  split
  · exact M.empty
  · have filtered := M.toKept.groupFiltered e (M.toKept.expression h .template)
    exact M.output (M.append filtered (M.plain (by decide)))

theorem interpolate {e : Expr} (h : ∀ text ∈ e.texts, P text) (hm : ∀ text ∈ e.markup, R text []) :
    R (Twig.interpolate e).value (interpolateOutline e) := by
  cases e with
  | template span segments =>
    rw [Twig.interpolate, Report.value_concat, interpolateOutline]
    refine M.joined fun segment hs => ?_
    cases segment with
    | text content =>
      refine hm content (List.mem_flatMap.mpr ⟨_, hs, ?_⟩)
      simp [Segment.strings]
    | expression inner =>
      refine M.outputExpression (List.forall_mem_flatMap.mpr fun e he text ht => h text ?_)
      refine List.mem_flatMap.mpr ⟨e, ?_, ht⟩
      rw [Expr.subexpressions, segmentExpressions_eq]
      refine List.mem_cons_of_mem _ (List.mem_flatMap.mpr ⟨_, hs, ?_⟩)
      simpa [Segment.expressions] using he
  | _ => exact M.outputExpression h

theorem attributePart {part : AttributePart} (h : ∀ text ∈ part.texts, P text)
    (hm : ∀ text ∈ part.markup, R text []) :
    R (attributePartMarkup part).value (partOutline part) := by
  cases part with
  | text content => exact hm (quotedText content.sourceText) (by simp [AttributePart.markup])
  | mustache span e => exact M.interpolate h hm
  | shorthand span e => exact M.interpolate h hm

theorem attributeText {item : Attribute} (h : ∀ text ∈ item.texts, P text)
    (hm : ∀ text ∈ item.markup, R text []) :
    R (attributeMarkup item).value (attributeOutline item) := by
  match item with
  | .normal span name (.bool true) =>
    have named := M.join (M.text (by decide : Plain " ")) (hm name (by simp [Attribute.markup]))
    rw [attributeMarkup, Report.value_pure]
    split
    · exact M.empty
    · exact named
  | .normal span name (.bool false) => exact M.empty
  | .normal span name (.parts list) =>
    rw [Attribute.texts, AttributeValue.texts, List.forall_mem_cons, List.forall_mem_flatMap] at h
    rw [Attribute.markup, List.forall_mem_cons, List.forall_mem_flatMap] at hm
    have opening := M.join (M.join (M.text (by decide : Plain " ")) hm.1)
      (M.text (by decide : Plain "=\""))
    have content := M.joined fun part hp => M.attributePart (h.2 part hp) (hm.2 part hp)
    rw [attributeMarkup, Report.value_bind, Report.value_pure, Report.value_concat, attributeOutline]
    simpa using M.join (M.join opening content) (M.text (by decide : Plain "\""))
  | .spread span e => exact M.empty
  | .unknown => exact M.empty

end Inline

section Loops

theorem setTags {bindings : List (String × String)}
    (h : ∀ binding ∈ bindings, P binding.1 ∧ P binding.2) :
    R (Twig.setTags bindings) (setOutline bindings) := by
  rw [setOutline, List.map_eq_flatMap]
  refine M.joined fun binding hb => M.statement ?_
  have name := M.append (M.plain (by decide : Plain "set ")) (h binding hb).1
  exact M.toKept.between name (by decide) (h binding hb).2

theorem indexTag {index : Option String} (h : ∀ name ∈ index.toList, P name) :
    R (Twig.indexTag index) (setOutline (index.toList.map fun name => (name, "loop.index0"))) := by
  rw [indexTag_eq]
  refine M.setTags fun binding hb => ?_
  obtain ⟨name, hn, rfl⟩ := List.mem_map.mp hb
  exact ⟨h name hn, M.plain (by decide : Plain "loop.index0")⟩

theorem memberBinding {item : String} (hi : P item) {member : PatternMember}
    (h : ∀ inner ∈ patternMemberExpressions [member], ∀ text ∈ inner.ownTexts, P text) :
    P (Twig.memberBinding item member).1 ∧ P (Twig.memberBinding item member).2 := by
  unfold Twig.memberBinding
  split
  · rename_i keySpan key nameSpan name _
    simp only [patternMemberExpressions, Pattern.subexpressions, Expr.subexpressions,
      List.append_nil, List.forall_mem_append, List.forall_mem_singleton] at h
    have path := M.toKept.between hi (by decide : Plain ".") (h.1 key (by simp [Expr.ownTexts]))
    exact ⟨h.2 name (by simp [Expr.ownTexts]), path⟩
  · rename_i keySpan key _ nameSpan name right _
    simp only [patternMemberExpressions, Pattern.subexpressions, Expr.subexpressions,
      List.append_nil, List.forall_mem_append, List.forall_mem_singleton] at h
    have path := M.toKept.between hi (by decide : Plain ".") (h.1 key (by simp [Expr.ownTexts]))
    have fallback := M.toKept.of_subexpressions right h.2.2 .value
    exact ⟨h.2.1 name (by simp [Expr.ownTexts]),
      M.append (M.toKept.between path (by decide) fallback) (M.plain (by decide))⟩
  · exact ⟨M.toKept.nothing, M.toKept.nothing⟩

theorem loopBindings (iterable : String) {context : Option Pattern}
    (h : ∀ text ∈ context.toList.flatMap Pattern.texts, P text) :
    ∀ binding ∈ Twig.loopBindings iterable context, P binding.1 ∧ P binding.2 := by
  have item := M.plain (.loopVariable iterable)
  unfold Twig.loopBindings
  split
  · rename_i span name
    rw [List.forall_mem_singleton]
    exact ⟨h name (by simp [Pattern.texts, Pattern.subexpressions, Expr.ownTexts]), item⟩
  · rename_i span members
    simp only [Option.toList_some, List.flatMap_cons, List.flatMap_nil, List.append_nil,
      Pattern.texts, Pattern.subexpressions, List.forall_mem_flatMap] at h
    intro binding hb
    obtain ⟨member, hin, rfl⟩ := List.mem_map.mp hb
    exact M.memberBinding item fun inner hi => h inner (mem_patternMemberExpressions hin hi)
  · simp

/-- The names after `for`. -/
theorem targets {iterable : String} {context : Option Pattern} {head : LoopHead}
    (hh : (loopHead iterable context).value = .ok head)
    (h : ∀ text ∈ context.toList.flatMap Pattern.texts, P text) : P head.targets := by
  have item := M.plain (.loopVariable iterable)
  unfold loopHead at hh
  split at hh
  · rename_i span elements
    rw [Report.value_pure, loopTargets] at hh
    simp only [Option.toList_some, List.flatMap_cons, List.flatMap_nil, List.append_nil,
      Pattern.texts, Pattern.subexpressions, List.forall_mem_flatMap] at h
    split at hh
    · cases hn : Twig.targetNames elements with
      | error fault =>
        rw [hn] at hh
        cases hh
      | ok names =>
        rw [hn] at hh
        cases hh
        exact M.toKept.intercalate (by decide) (forall_targetNames hn h)
    · cases hh
  · rename_i pattern _
    rw [Report.value_bind, Report.value_pure] at hh
    cases hb : (bindPattern (loopVariable iterable) pattern).value with
    | error fault =>
      rw [hb] at hh
      cases hh
    | ok bindings =>
      rw [hb] at hh
      cases hh
      exact item
  · cases hh
    exact item

end Loops

section Nodes

variable {options : Options}

theorem block {name content : String} {tags : List Tag} (hn : P name) (h : R content tags) :
    R (Twig.block name content) (blockOutline name tags) := by
  have opened := M.statement (M.append (M.plain (by decide : Plain "block ")) hn)
  exact M.join (M.join opened h) (M.statement (M.plain (by decide)))

theorem siblings {nodes : List Node}
    (h : ∀ child ∈ nodes, R (node options child).value (outline options child)) :
    R (fragment options nodes).value (outlines options nodes) := by
  rw [value_fragment, outlines_eq]
  exact M.joined h

theorem branch {otherwise : Option Branch}
    (h : ∀ branch ∈ otherwise, ∀ child ∈ branch.children,
      R (node options child).value (outline options child)) :
    R (elseBranch options otherwise).value (branchOutline options otherwise) := by
  rw [value_elseBranch]
  cases otherwise with
  | none => exact M.empty
  | some branch =>
    rw [branchOutline_some]
    exact M.join (M.statement (M.plain (by decide))) (M.siblings (h branch rfl))

/-- A reader finds the outline of a node in its text. -/
theorem node (tree : Node) (h : ∀ inner ∈ tree.subnodes, Legible P R options inner) :
    R (Twig.node options tree).value (outline options tree) := by
  induction tree using Node.induction with
  | fragment span children ih =>
    rw [Node.subnodes, List.forall_mem_cons, forall_childNodes] at h
    rw [value_node_fragment, outline]
    exact M.siblings fun child hc => ih child hc (h.2 child hc)
  | element span name attributes children ih =>
    rw [Node.subnodes, List.forall_mem_cons, forall_childNodes] at h
    obtain ⟨⟨texts, markup, -⟩, inside⟩ := h
    rw [Node.tagTexts, List.forall_mem_flatMap] at texts
    rw [Node.markup, List.forall_mem_cons, List.forall_mem_flatMap] at markup
    have content := M.siblings fun child hc => ih child hc (inside child hc)
    have attributesText := M.joined fun item hi => M.attributeText (texts item hi) (markup.2 item hi)
    have opened := M.join (M.join (M.text (by decide : Plain "<")) markup.1) attributesText
    rw [value_element, outline]
    split
    · simpa using M.join opened (M.text (by decide : Plain " />"))
    · have closed := M.join (M.join (M.text (by decide : Plain "</")) markup.1)
        (M.text (by decide : Plain ">"))
      have whole := M.join opened (M.join (M.join (M.text (by decide : Plain ">")) content) closed)
      simpa [String.append_assoc] using whole
  | text content =>
    rw [Node.subnodes, List.forall_mem_singleton] at h
    exact h.markup content.sourceText (by simp [Node.markup])
  | comment span data =>
    rw [Node.subnodes, List.forall_mem_singleton] at h
    exact h.comments data (by simp [Node.comments])
  | mustache span e =>
    rw [Node.subnodes, List.forall_mem_singleton] at h
    exact M.interpolate h.tags h.markup
  | rawMustache span e =>
    rw [Node.subnodes, List.forall_mem_singleton] at h
    exact M.rawExpression h.tags
  | ifBlock span test children otherwise elseif ih _ =>
    rw [Node.subnodes, List.forall_mem_cons, List.forall_mem_append, forall_childNodes] at h
    have content := M.siblings fun child hc => ih child hc (h.2.1 child hc)
    have condition := M.toKept.expression h.1.tags .template
    rw [value_ifBlock, outline]
    split
    · exact M.empty
    · have opened := M.statement (M.append (M.plain (by decide : Plain "if ")) condition)
      exact M.join (M.join opened content) (M.statement (M.plain (by decide)))
  | eachBlock span items context index key children otherwise ih ihe =>
    rw [Node.subnodes, List.forall_mem_cons, List.forall_mem_append, forall_childNodes,
      forall_branchNodes] at h
    obtain ⟨own, inside, fallback⟩ := h
    have texts := own.tags
    rw [Node.tagTexts, List.forall_mem_append, List.forall_mem_append] at texts
    have iterable := M.toKept.expression texts.1 .template
    have content := M.siblings fun child hc => ih child hc (inside child hc)
    have alternative := M.branch fun branch hb child hc =>
      ihe branch hb child hc (fallback branch hb child hc)
    rw [value_eachBlock, outline]
    split
    · exact M.empty
    · cases hh : (loopHead (expression .template items).value context).value with
      | error fault => exact M.empty
      | ok head =>
        have names := M.append (M.plain (by decide : Plain "for ")) (M.targets hh texts.2.1)
        have opened := M.statement (M.toKept.between names (by decide : Plain " in ") iterable)
        have bindings := M.setTags (M.loopBindings (expression .template items).value texts.2.1)
        have counter := M.indexTag texts.2.2
        rw [← loopHead_ok hh] at bindings
        exact M.join (M.join (M.join (M.join (M.join opened bindings) counter) content) alternative)
          (M.statement (M.plain (by decide)))
  | component span name attributes children ih =>
    rw [Node.subnodes, List.forall_mem_cons, forall_childNodes] at h
    have texts := h.1.tags
    rw [Node.tagTexts, List.forall_mem_cons, List.forall_mem_cons] at texts
    have call := M.toKept.componentCall texts.1 texts.2.2
    have content := M.siblings fun child hc => ih child hc (h.2 child hc)
    rw [value_component, outline]
    split
    · have opened := M.statement (M.append (M.plain (by decide : Plain "embed ")) call)
      exact M.join (M.join opened (M.block texts.2.1 content)) (M.statement (M.plain (by decide)))
    · exact M.statement (M.append (M.plain (by decide)) call)
  | slot span attributes children ih =>
    rw [Node.subnodes, List.forall_mem_cons, forall_childNodes] at h
    have content := M.siblings fun child hc => ih child hc (h.2 child hc)
    rw [value_slot, outline]
    exact M.block (h.1.tags _ (by simp [Node.tagTexts])) content
  | unknown => exact M.empty

end Nodes

end Reading

end TwigComponent.Twig
