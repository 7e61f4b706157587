import TwigComponent.Proofs.Balance
import TwigComponent.Proofs.Losses
import TwigComponent.Proofs.Subnodes

/-!
# Blocks and slots

The template and the interface of a component come from two walks over the same
tree. The writer turns each slot into a block where it meets it, and it does not
come to the children of a void element, to the else branch of a condition and to
what is inside a block that cannot be written. The walk for the interface goes
everywhere. So the names of the blocks are some of the slots, in their order,
and all of them if the writer leaves nothing out. The block that an embed tag
opens for the content of a component is no slot.
-/
namespace TwigComponent.Twig

open Source Text

/-- The name in a block tag: what stands between the keyword and the blank at the end. -/
def Tag.blockName? (tag : Tag) : Option String :=
  if tag.keywords = ["block"] then
    some (String.ofList (tag.body.drop " block ".length).dropLast)
  else none

def Tag.isEmbed (tag : Tag) : Bool := tag.keywords = ["embed"]

/-- The names of the block tags, in order, without a block right after an embed tag. -/
def blockNames (afterEmbed : Bool) : List Tag → List String
  | [] => []
  | first :: rest =>
    (if afterEmbed then [] else first.blockName?.toList) ++ blockNames first.isEmbed rest

/-- Tags whose blocks have these names, whatever follows. -/
def Shows (list : List Tag) (names : List String) : Prop :=
  ∀ rest, blockNames false (list ++ rest) = names ++ blockNames false rest

namespace Shows

variable {first second content : List Tag} {names others : List String}

theorem nil : Shows [] [] := fun _ => rfl

theorem append (h : Shows first names) (k : Shows second others) :
    Shows (first ++ second) (names ++ others) := by
  intro rest
  rw [List.append_assoc, h, k, List.append_assoc]

theorem of_quiet (h : Quiet first) : Shows first [] := by
  intro rest
  induction first with
  | nil => rfl
  | cons tag later ih =>
    rw [Quiet, wordsOf, List.flatMap_cons, List.forall_mem_append] at h
    have noBlock : tag.keywords ≠ ["block"] := fun hk => by simp [hk] at h
    have noEmbed : tag.keywords ≠ ["embed"] := fun hk => by simp [hk] at h
    simpa [blockNames, Tag.blockName?, Tag.isEmbed, noBlock, noEmbed] using ih h.2

/-- A statement that is neither a block nor an embed tag. -/
theorem statement {body word : String} (hk : wordsOf [.statement body] = [word])
    (hb : word ≠ "block") (he : word ≠ "embed") : Shows [.statement body] [] := by
  intro rest
  have words : (Tag.statement body).keywords = [word] := by simpa [wordsOf] using hk
  simp [blockNames, Tag.blockName?, Tag.isEmbed, words, hb, he]

theorem word {word : String} (hw : IsWord word) (hb : word ≠ "block") (he : word ≠ "embed") :
    Shows [.statement word] [] :=
  statement (wordsOf_word hw []) hb he

theorem lead {word lead : String} (hw : IsWord word) (hl : word ++ " " = lead) (argument : String)
    (hb : word ≠ "block") (he : word ≠ "embed") : Shows [.statement (lead ++ argument)] [] :=
  statement (wordsOf_statement hw hl argument []) hb he

end Shows

section Blocks

theorem keywords_block (name : String) : (Tag.statement ("block " ++ name)).keywords = ["block"] :=
  congrArg (fun word => [word]) (keyword_statement (by decide) (by decide) name)

theorem keywords_embed (call : String) : (Tag.statement ("embed " ++ call)).keywords = ["embed"] :=
  congrArg (fun word => [word]) (keyword_statement (by decide) (by decide) call)

theorem blockName_block (name : String) :
    (Tag.statement ("block " ++ name)).blockName? = some name := by
  have body : (Tag.statement ("block " ++ name)).body.drop " block ".length =
      name.toList ++ [' '] := by
    rw [Tag.statement, spaced, String.toList_append]
    rfl
  rw [Tag.blockName?, if_pos (keywords_block name), body, List.dropLast_concat,
    String.ofList_toList]

variable {content : List Tag} {names : List String}

theorem Shows.endblock : Shows [.statement "endblock"] [] :=
  .word (by decide) (by decide) (by decide)

theorem Shows.block (name : String) (h : Shows content names) :
    Shows (blockOutline name content) (name :: names) := by
  have opened : Shows [.statement ("block " ++ name)] [name] := by
    intro rest
    simp only [List.cons_append, List.nil_append, blockNames, blockName_block, Tag.isEmbed,
      keywords_block]
    rfl
  simpa [blockOutline] using (opened.append h).append .endblock

/-- The block of an embed tag is not shown. -/
theorem Shows.embed (call name : String) (h : Shows content names) :
    Shows (.statement ("embed " ++ call) :: blockOutline name content ++ [.statement "endembed"])
      names := by
  have opened : Shows [.statement ("embed " ++ call), .statement ("block " ++ name)] [] := by
    intro rest
    simp only [List.cons_append, List.nil_append, blockNames, Tag.blockName?, Tag.isEmbed,
      keywords_block, keywords_embed]
    rfl
  have closed : Shows [.statement "endembed"] [] := .word (by decide) (by decide) (by decide)
  simpa [blockOutline] using ((opened.append h).append .endblock).append closed

end Blocks

/-- The blocks of these tags are some of the slots in their order, all of them in the case
given. -/
def Covers (list : List Tag) (slots : List String) (complete : Prop) : Prop :=
  ∃ names, Shows list names ∧ names.Sublist slots ∧ (complete → names = slots)

namespace Covers

variable {a b : List Tag} {first second : List String} {p q : Prop}

theorem of_shows {list : List Tag} {names : List String} (h : Shows list names) :
    Covers list names p :=
  ⟨names, h, .refl names, fun _ => rfl⟩

/-- Tags that show no slot, where none may be missed. -/
theorem of_quiet {list : List Tag} {slots : List String} (h : Quiet list) (hp : p → slots = []) :
    Covers list slots p :=
  ⟨[], .of_quiet h, slots.nil_sublist, fun complete => (hp complete).symm⟩

theorem append (ha : Covers a first p) (hb : Covers b second q) :
    Covers (a ++ b) (first ++ second) (p ∧ q) := by
  obtain ⟨names, shown, sublist, all⟩ := ha
  obtain ⟨others, shown', sublist', all'⟩ := hb
  refine ⟨names ++ others, shown.append shown', sublist.append sublist', ?_⟩
  rintro ⟨complete, complete'⟩
  rw [all complete, all' complete']

theorem mono (h : Covers a first p) (hq : q → p) : Covers a first q := by
  obtain ⟨names, shown, sublist, all⟩ := h
  exact ⟨names, shown, sublist, fun complete => all (hq complete)⟩

/-- Slots behind those of the tags, of which the tags have none. -/
theorem append_left (h : Covers a first p) (hs : p → second = []) :
    Covers a (first ++ second) p := by
  obtain ⟨names, shown, sublist, all⟩ := h
  refine ⟨names, shown, sublist.trans (List.sublist_append_left first second), fun complete => ?_⟩
  rw [all complete, hs complete, List.append_nil]

/-- Tags between others without slots. -/
theorem wrap {before after : List Tag} (hb : Shows before []) (h : Covers a first p)
    (ha : Shows after []) : Covers (before ++ a ++ after) first p := by
  obtain ⟨names, shown, sublist, all⟩ := h
  refine ⟨names, ?_, sublist, all⟩
  simpa using (hb.append shown).append ha

end Covers

/-- Whether the writer passes over children of a node: the content of a void element or the else
branch of a condition. -/
def passesOver : Node → Bool
  | .element _ name _ children => isVoidElement name && !children.isEmpty
  | .ifBlock _ _ _ otherwise _ => otherwise.isSome
  | _ => false

/-- The writer leaves nothing out of a tree. -/
def Complete (options : Options) (tree : Node) : Prop :=
  (∀ inner ∈ tree.subnodes, passesOver inner = false) ∧ Clean (node options tree).diagnostics

section Nodes

variable {options : Options}

theorem covers_siblings {nodes : List Node}
    (h : ∀ child ∈ nodes, Covers (outline options child) (nodeSlots options.defaultSlot child)
      (Complete options child)) :
    Covers (outlines options nodes) (slots options.defaultSlot nodes)
      (∀ child ∈ nodes, Complete options child) := by
  rw [outlines_eq, slots_eq]
  induction nodes with
  | nil => exact .of_shows .nil
  | cons first rest ih =>
    rw [List.forall_mem_cons] at h
    rw [List.flatMap_cons, List.flatMap_cons]
    refine (h.1.append (ih h.2)).mono fun complete => ?_
    exact ⟨complete first (by simp), fun child hc => complete child (by simp [hc])⟩

/-- Blank text has no slots. -/
theorem slots_of_blank {children : List Node} (h : hasContent children = false) (name : String) :
    slots name children = [] := by
  rw [slots_eq, List.flatMap_eq_nil_iff]
  intro child hc
  have blank : isContent child = false := by simpa using List.any_eq_false.mp h child hc
  cases child <;> first | rfl | cases blank

theorem complete_fragment {nodes : List Node}
    (h : ∀ inner ∈ childNodes nodes, passesOver inner = false)
    (hc : Clean (fragment options nodes).diagnostics) : ∀ child ∈ nodes, Complete options child := by
  rw [forall_childNodes] at h
  rw [diagnostics_fragment, clean_flatMap] at hc
  exact fun child hin => ⟨h child hin, hc child hin⟩

/-- The else branch of a loop is written with it. -/
theorem covers_branch {otherwise : Option Branch}
    (h : ∀ branch ∈ otherwise, ∀ child ∈ branch.children, Covers (outline options child)
      (nodeSlots options.defaultSlot child) (Complete options child)) :
    Covers (branchOutline options otherwise) (branchSlots options.defaultSlot otherwise)
      (∀ branch ∈ otherwise, ∀ child ∈ branch.children, Complete options child) := by
  match otherwise with
  | none => exact .of_shows .nil
  | some (.mk span children) =>
    have turned : Shows [.statement "else"] [] := .word (by decide) (by decide) (by decide)
    have content := covers_siblings (h _ rfl)
    rw [branchSlots]
    exact ((Covers.of_shows turned).append content).mono fun complete => ⟨trivial, complete _ rfl⟩

theorem complete_eachBlock {span : Span} {items : Expr} {context : Option Pattern}
    {index : Option String} {key : Option Expr} {children : List Node} {otherwise : Option Branch}
    (h : Complete options (.eachBlock span items context index key children otherwise)) :
    (∀ child ∈ children, Complete options child) ∧
      ∀ branch ∈ otherwise, ∀ child ∈ branch.children, Complete options child := by
  obtain ⟨head, -, -, clean⟩ := clean_eachBlock options h.2
  rw [clean_append, clean_append, clean_append, diagnostics_elseBranch, clean_flatMap] at clean
  have whole := h.1
  rw [Node.subnodes, List.forall_mem_cons, List.forall_mem_append] at whole
  constructor
  · exact complete_fragment whole.2.1 clean.1.2
  · intro branch hb
    apply complete_fragment
    · rw [forall_childNodes]
      exact forall_branchNodes.mp whole.2.2 branch hb
    · exact clean.2 branch (by simpa using hb)

theorem covers_outline (tree : Node) :
    Covers (outline options tree) (nodeSlots options.defaultSlot tree)
      (Complete options tree) := by
  induction tree using Node.induction with
  | fragment span children ih =>
    rw [outline, nodeSlots]
    refine (covers_siblings ih).mono fun complete => ?_
    rw [Complete, Node.subnodes, List.forall_mem_cons, diagnostics_node_fragment] at complete
    exact complete_fragment complete.1.2 complete.2
  | element span name attributes children ih =>
    have quiet : Quiet (attributes.flatMap attributeOutline) :=
      .flatMap fun item _ => quiet_attributeOutline item
    rw [outline, nodeSlots]
    split
    · rename_i void
      rw [List.append_nil]
      refine .of_quiet quiet fun complete => ?_
      have childless := complete.1 _ (by rw [Node.subnodes]; exact List.mem_cons_self)
      have nothing : children = [] := by simpa [passesOver, void] using childless
      rw [nothing, slots]
    · rename_i normal
      have whole := (covers_siblings ih).wrap (.of_quiet quiet) .nil
      rw [List.append_nil] at whole
      refine whole.mono fun complete => ?_
      rw [Complete, Node.subnodes, List.forall_mem_cons, diagnostics_element, if_neg normal,
        clean_append] at complete
      exact complete_fragment complete.1.2 complete.2.2
  | text content => exact .of_shows .nil
  | comment span data => exact .of_shows (.of_quiet (quiet_comment _))
  | mustache span e => exact .of_shows (.of_quiet (quiet_interpolateOutline e))
  | rawMustache span e => exact .of_shows (.of_quiet (quiet_rawOutline e))
  | ifBlock span test children otherwise elseif ih _ =>
    rw [outline, nodeSlots]
    split
    · rename_i dropped
      refine ⟨[], .nil, List.nil_sublist _, fun complete => ?_⟩
      rw [Complete, diagnostics_ifBlock, if_pos dropped, clean_append] at complete
      exact absurd complete.2.2 (by simp)
    · rename_i written
      have opened : Shows [.statement ("if " ++ (expression .template test).value)] [] :=
        .lead (by decide : IsWord "if") (by decide) _ (by decide) (by decide)
      have closed : Shows [.statement "endif"] [] := .word (by decide) (by decide) (by decide)
      have whole := (covers_siblings ih).wrap opened closed
      refine (whole.mono fun complete => ?_).append_left fun complete => ?_
      · rw [Complete, Node.subnodes, List.forall_mem_cons, List.forall_mem_append,
          diagnostics_ifBlock, if_neg written, clean_append] at complete
        exact complete_fragment complete.1.2.1 complete.2.2
      · have branchless := complete.1 _ (by rw [Node.subnodes]; exact List.mem_cons_self)
        have nothing : otherwise = none := by simpa [passesOver] using branchless
        rw [nothing, branchSlots]
  | eachBlock span items context index key children otherwise ih ihe =>
    rw [outline, nodeSlots]
    split
    · rename_i dropped
      refine ⟨[], .nil, List.nil_sublist _, fun complete => ?_⟩
      obtain ⟨head, written, -⟩ := clean_eachBlock options complete.2
      exact absurd dropped written
    · cases hh : (loopHead (expression .template items).value context).value with
      | error fault =>
        refine ⟨[], .nil, List.nil_sublist _, fun complete => ?_⟩
        obtain ⟨head, -, bound, -⟩ := clean_eachBlock options complete.2
        rw [hh] at bound
        cases bound
      | ok head =>
        have opened : Shows [.statement ("for " ++ (head.targets ++ " in " ++
            (expression .template items).value))] [] :=
          .lead (by decide : IsWord "for") (by decide) _ (by decide) (by decide)
        have bindings := (quiet_setOutline (loopBindings (expression .template items).value
          context)).append (quiet_setOutline (index.toList.map fun name => (name, "loop.index0")))
        have closed : Shows [.statement "endfor"] [] := .word (by decide) (by decide) (by decide)
        have whole := ((covers_siblings ih).append (covers_branch ihe)).wrap
          (opened.append (.of_quiet bindings)) closed
        simp only [String.append_assoc, List.append_assoc, List.cons_append, List.nil_append]
          at whole ⊢
        exact whole.mono complete_eachBlock
  | component span name attributes children ih =>
    rw [outline, nodeSlots]
    split
    · rename_i filled
      obtain ⟨names, shown, sublist, all⟩ := covers_siblings ih
      refine ⟨names, .embed _ _ shown, sublist, fun complete => all ?_⟩
      rw [Complete, Node.subnodes, List.forall_mem_cons, diagnostics_component, if_pos filled,
        clean_append] at complete
      exact complete_fragment complete.1.2 complete.2.2
    · rename_i blank
      rw [slots_of_blank (by simpa using blank)]
      exact .of_shows (.lead (by decide : IsWord "include") (by decide) _ (by decide) (by decide))
  | slot span attributes children ih =>
    obtain ⟨names, shown, sublist, all⟩ := covers_siblings ih
    rw [outline, nodeSlots]
    refine ⟨_, .block _ shown, sublist.cons_cons _, fun complete => ?_⟩
    rw [Complete, Node.subnodes, List.forall_mem_cons, diagnostics_slot, clean_append] at complete
    rw [all (complete_fragment complete.1.2 complete.2.2)]
  | unknown => exact .of_shows .nil

end Nodes

section Names

theorem slotName_ne_empty {attributes : List Attribute} {name : String}
    (h : slotName? attributes = some name) : name ≠ "" := by
  induction attributes with
  | nil => cases h
  | cons first rest ih =>
    cases first with
    | normal span key value =>
      rw [slotName?] at h
      split at h
      · split at h
        · split at h
          · exact ih h
          · rename_i nonempty
            cases h
            exact nonempty
        · exact ih h
      · exact ih h
    | spread span e => exact ih h
    | unknown => exact ih h

theorem slotBlock_ne_empty {defaultSlot : String} (hd : defaultSlot ≠ "")
    (attributes : List Attribute) : (slotBlock defaultSlot attributes).1 ≠ "" := by
  rw [slotBlock]
  split
  · rename_i name hn
    exact slotName_ne_empty hn
  · exact hd

theorem nodeSlots_ne_empty {defaultSlot : String} (hd : defaultSlot ≠ "") (tree : Node) :
    ∀ slot ∈ nodeSlots defaultSlot tree, slot ≠ "" := by
  have siblings : ∀ nodes : List Node,
      (∀ child ∈ nodes, ∀ slot ∈ nodeSlots defaultSlot child, slot ≠ "") →
      ∀ slot ∈ slots defaultSlot nodes, slot ≠ "" := by
    intro nodes h
    rwa [slots_eq, List.forall_mem_flatMap]
  have branch : ∀ otherwise : Option Branch,
      (∀ branch ∈ otherwise, ∀ child ∈ branch.children, ∀ slot ∈ nodeSlots defaultSlot child,
        slot ≠ "") →
      ∀ slot ∈ branchSlots defaultSlot otherwise, slot ≠ "" := by
    intro otherwise h
    rw [branchSlots_eq, List.forall_mem_flatMap]
    exact fun branch hb => siblings branch.children (h branch (by simpa using hb))
  induction tree using Node.induction with
  | fragment span children ih => exact siblings children ih
  | element span name attributes children ih => exact siblings children ih
  | ifBlock span test children otherwise elseif ih ihe =>
    rw [nodeSlots, List.forall_mem_append]
    exact ⟨siblings children ih, branch otherwise ihe⟩
  | eachBlock span items context index key children otherwise ih ihe =>
    rw [nodeSlots, List.forall_mem_append]
    exact ⟨siblings children ih, branch otherwise ihe⟩
  | component span name attributes children ih => exact siblings children ih
  | slot span attributes children ih =>
    rw [nodeSlots, List.forall_mem_cons]
    exact ⟨slotBlock_ne_empty hd attributes, siblings children ih⟩
  | _ => simp [nodeSlots]

end Names

end TwigComponent.Twig

namespace TwigComponent

open Source Text Twig

/-- Options that can be used name a theme without braces and a default slot. -/
theorem validate_ok {options : Options} (h : options.validate = .ok ()) :
    Braceless options.theme ∧ options.defaultSlot ≠ "" := by
  unfold Options.validate at h
  split at h
  · cases h
  · split at h
    · cases h
    · rename_i characters
      split at h
      · cases h
      · rename_i named
        constructor
        · refine .of_forall fun c hc => ?_
          have allowed : isNamespaceChar c = true := by
            simp only [Bool.not_eq_true', Bool.not_eq_false] at characters
            exact List.all_eq_true.mp characters c hc
          refine ⟨?_, ?_⟩ <;> rintro rfl <;> exact absurd allowed (by decide)
        · intro empty
          rw [empty] at named
          exact absurd (by decide : isAllBlank "" = true) named

/-- The blocks of a template and the slots of the interface agree. If no string of a component has
a brace, nor the default slot of valid options, the template can be read as plain text and tags in
exactly one way; its blocks but those of embed tags are slots of the interface, in their order, and
all of them if no void element has children, no condition has an else branch and no node is
dropped. No slot has an empty name. -/
theorem blocks_agree_with_slots (component : Component) (name : String) (overrides : Option Yaml)
    (options : Options) (valid : options.validate = .ok ())
    (h : ∀ text ∈ component.document.strings, Braceless text)
    (hd : Braceless options.defaultSlot) :
    ∃ chunks, IsSplit
        (component.template (component.context name overrides options).value options).value.toList
        chunks ∧
      (∀ other, IsSplit
        (component.template (component.context name overrides options).value options).value.toList
        other → other = chunks) ∧
      (blockNames false (tags chunks)).Sublist
        (component.context name overrides options).value.slots ∧
      ((∀ inner ∈ childNodes component.document.html.children, passesOver inner = false) →
        Clean (component.template (component.context name overrides options).value
          options).diagnostics →
        blockNames false (tags chunks) = (component.context name overrides options).value.slots) ∧
      ∀ slot ∈ (component.context name overrides options).value.slots, slot ≠ "" := by
  obtain ⟨ht, named⟩ := validate_ok valid
  obtain ⟨chunks, split, spaced, carried⟩ :=
    carries_template component name overrides options h ht hd
  obtain ⟨names, shown, sublist, all⟩ : Covers (outlines options component.document.html.children) _ _ :=
    covers_siblings fun child _ => covers_outline child
  have whole : Shows (tags chunks) ([] ++ names) := by
    rw [carried]
    exact (Shows.of_quiet (quiet_setOutline _)).append shown
  have found : blockNames false (tags chunks) = names := by simpa [blockNames] using whole []
  refine ⟨chunks, split, fun other ho => split_unique split spaced ho, ?_, ?_, ?_⟩
  · rw [found]
    exact sublist
  · intro passed clean
    rw [found]
    refine all (complete_fragment passed ?_)
    simpa [Component.template] using clean
  · change ∀ slot ∈ slots options.defaultSlot component.document.html.children, slot ≠ ""
    rw [slots_eq, List.forall_mem_flatMap]
    exact fun child _ => nodeSlots_ne_empty named child

/-- Slots inside a component with content, in a loop, in its else branch and in one another. -/
def nestedSlots : Component where
  document := { html := { children := [
    .component {} "Card" [] [
      .slot {} [.normal {} "name" (.parts [.text ⟨{}, "header", none⟩])] [.slot {} [] []]],
    .eachBlock {} (.identifier {} "rows") none none none
      [.slot {} [.normal {} "name" (.parts [.text ⟨{}, "row", none⟩])] []]
      (some (.mk {} [.ifBlock {} (.identifier {} "hint") [.slot {} [] []] none false]))] } }

theorem blocks_agree_with_slots_nested :
    ({ theme := "site" } : Options).validate = .ok () ∧
    (∀ text ∈ nestedSlots.document.strings, Braceless text) ∧
    (∀ inner ∈ childNodes nestedSlots.document.html.children, passesOver inner = false) ∧
    Clean (nestedSlots.template (nestedSlots.context "List" none { theme := "site" }).value
      { theme := "site" }).diagnostics ∧
    ∃ chunks, IsSplit (nestedSlots.template
        (nestedSlots.context "List" none { theme := "site" }).value { theme := "site" }).value.toList
        chunks ∧
      blockNames false (tags chunks) = ["header", "content", "row", "content"] := by
  have valid : ({ theme := "site" } : Options).validate = .ok () := by decide
  have strings : ∀ text ∈ nestedSlots.document.strings, Braceless text := by decide
  have whole : ∀ inner ∈ childNodes nestedSlots.document.html.children,
      passesOver inner = false := by
    simp [nestedSlots, childNodes, branchNodes, Node.subnodes, passesOver]
  have clean : Clean (nestedSlots.template (nestedSlots.context "List" none { theme := "site" }).value
      { theme := "site" }).diagnostics := by decide
  obtain ⟨chunks, split, -, -, all, -⟩ :=
    blocks_agree_with_slots nestedSlots "List" none { theme := "site" } valid strings (by decide)
  have slots : (nestedSlots.context "List" none { theme := "site" }).value.slots =
      ["header", "content", "row", "content"] := by decide
  exact ⟨valid, strings, whole, clean, chunks, split, (all whole clean).trans slots⟩

end TwigComponent
