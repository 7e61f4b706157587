import TwigComponent.Proofs.Outline

/-!
# Components without braces in their strings

The only braces that the writers bring along are those of tags and of hash
literals, and the latter stand apart from what is inside them. So if the strings
of a component have no braces, what stands in its tags is padded, and the text
of every node splits into spaced chunks with the tags of its outline.
-/
namespace TwigComponent.Twig

open Source Text

/-- A text without braces. -/
def Braceless (text : String) : Prop := '\x7b' ∉ text.toList ∧ '\x7d' ∉ text.toList

instance : DecidablePred Braceless := fun _ => inferInstanceAs (Decidable (_ ∧ _))

theorem Plain.braceless {text : String} (h : Plain text) : Braceless text :=
  ⟨fun hin => (h _ hin).1 rfl, fun hin => (h _ hin).2.1 rfl⟩

namespace Braceless

theorem padded {text : String} (h : Braceless text) : Padded text.toList :=
  .of_braceless h.1 h.2

theorem of_forall {text : String} (h : ∀ c ∈ text.toList, c ≠ '\x7b' ∧ c ≠ '\x7d') :
    Braceless text :=
  ⟨fun hin => (h _ hin).1 rfl, fun hin => (h _ hin).2 rfl⟩

theorem forall_mem {text : String} (h : Braceless text) :
    ∀ c ∈ text.toList, c ≠ '\x7b' ∧ c ≠ '\x7d' := by
  intro c hin
  refine ⟨?_, ?_⟩ <;> rintro rfl
  · exact h.1 hin
  · exact h.2 hin

theorem append {a b : String} (ha : Braceless a) (hb : Braceless b) : Braceless (a ++ b) := by
  refine of_forall fun c hin => ?_
  rw [String.toList_append, List.mem_append] at hin
  exact hin.elim (ha.forall_mem c) (hb.forall_mem c)

/-- A text made of characters of a text without braces has none either. -/
theorem ofList {text : String} (h : Braceless text) {cs : List Char} (hs : cs ⊆ text.toList) :
    Braceless (String.ofList cs) := by
  refine of_forall fun c hin => h.forall_mem c (hs ?_)
  simpa using hin

theorem quote {text : String} (h : Braceless text) : Braceless (Twig.quote text) := by
  refine (Braceless.append (by decide) (of_forall fun c hin => ?_)).append (by decide)
  rw [String.toList_ofList, List.mem_flatMap] at hin
  obtain ⟨d, hd, hc⟩ := hin
  unfold escapeChar at hc
  split at hc
  · rcases List.mem_cons.mp hc with rfl | hc
    · decide
    · rw [List.mem_singleton.mp hc]
      exact h.forall_mem d hd
  · rw [List.mem_singleton.mp hc]
    exact h.forall_mem d hd

theorem hashKey {name : String} (h : Braceless name) : Braceless (Twig.hashKey name) := by
  unfold Twig.hashKey
  split
  · exact h
  · exact h.quote

theorem sourceText {content : TextContent}
    (h : ∀ text ∈ content.strings, Braceless text) : Braceless content.sourceText := by
  cases hr : content.raw with
  | none =>
    rw [TextContent.sourceText, hr]
    exact h _ (by simp [TextContent.strings])
  | some raw =>
    rw [TextContent.sourceText, hr]
    exact h _ (by simp [TextContent.strings, hr])

theorem quotedText {text : String} (h : Braceless text) : Braceless (Twig.quotedText text) := by
  refine of_forall fun c hin => ?_
  rw [Twig.quotedText, String.toList_ofList, List.mem_flatMap] at hin
  obtain ⟨d, hd, hc⟩ := hin
  unfold quotedChar at hc
  split at hc
  · exact (by decide : Braceless "&quot;").forall_mem c hc
  · rw [List.mem_singleton.mp hc]
    exact h.forall_mem d hd

theorem trim {text : String} (h : Braceless text) : Braceless (Text.trim text) := by
  refine h.ofList fun c hin => ?_
  have kept := (List.dropWhile_sublist _).subset (List.mem_reverse.mp hin)
  exact (List.dropWhile_sublist _).subset (List.mem_reverse.mp kept)

theorem partsText {parts : List AttributePart} {name : String}
    (h : ∀ text ∈ parts.flatMap AttributePart.strings, Braceless text)
    (hn : AttributeValue.partsText? parts = some name) : Braceless name := by
  induction parts generalizing name with
  | nil =>
    cases hn
    decide
  | cons part rest ih =>
    rw [List.flatMap_cons, List.forall_mem_append] at h
    match part, hn with
    | .text content, hn =>
      obtain ⟨others, ho, rfl⟩ := Option.map_eq_some_iff.mp hn
      have data := h.1 content.data (by simp [AttributePart.strings, TextContent.strings])
      exact data.append (ih h.2 ho)

theorem slotName {attributes : List Attribute} {name : String}
    (h : ∀ text ∈ attributes.flatMap Attribute.strings, Braceless text)
    (hn : slotName? attributes = some name) : Braceless name := by
  induction attributes with
  | nil => cases hn
  | cons first rest ih =>
    rw [List.flatMap_cons, List.forall_mem_append] at h
    cases first with
    | normal span key value =>
      rw [slotName?] at hn
      split at hn
      · split at hn
        · rename_i text static
          split at hn
          · exact ih h.2 hn
          · cases hn
            match value, static with
            | .parts list, static =>
              exact partsText (fun text ht => h.1 text (List.mem_cons_of_mem _ ht)) static
        · exact ih h.2 hn
      · exact ih h.2 hn
    | spread span e => exact ih h.2 hn
    | unknown => exact ih h.2 hn

theorem slotBlock {defaultSlot : String} (hd : Braceless defaultSlot) {attributes : List Attribute}
    (h : ∀ text ∈ attributes.flatMap Attribute.strings, Braceless text) :
    Braceless (Twig.slotBlock defaultSlot attributes).1 := by
  rw [Twig.slotBlock]
  split
  · rename_i name hn
    exact slotName h hn
  · exact hd

end Braceless

theorem toLower_ne {c d : Char} (hc : c.isAlphanum = true) (hd : d.isAlphanum = false) :
    c.toLower ≠ d := by
  rintro rfl
  unfold Char.toLower at hd
  split at hd
  · rename_i upper
    delta Char.isAlphanum Char.isAlpha Char.isUpper Char.isLower at hd
    simp [UInt32.le_iff_toNat_le] at hd upper
    omega
  · rw [hc] at hd
    cases hd

theorem Braceless.componentId {options : Options} (h : Braceless options.theme) (name : String) :
    Braceless (options.componentId name) := by
  refine (h.append (by decide)).append (.of_forall fun c hin => ?_)
  rw [componentSlug, String.toList_ofList, List.mem_map] at hin
  obtain ⟨d, -, rfl⟩ := hin
  split
  · rename_i letter
    exact ⟨toLower_ne letter (by decide), toLower_ne letter (by decide)⟩
  · decide

/-- Padded texts can be read as what stands in a tag. -/
theorem carries_reading :
    Reading (fun text => Padded text.toList) fun text list => Carries text.toList list where
  append ha hb := by
    rw [String.toList_append]
    exact ha.append hb
  plain h := h.braceless.padded
  emptyString := (by decide : Braceless "''").padded
  hashOpening := .opening .nil
  hashClosing := .closing .nil
  emptyHash := .both .nil
  join ha hb := by
    rw [String.toList_append]
    exact ha.append hb
  text h := by
    simpa using Carries.nil.append_braceless h.braceless.1 h.braceless.2
  output h := carries_outputTag h
  statement h := carries_tag h

theorem carries_braceless {text : String} (h : Braceless text) : Carries text.toList [] := by
  simpa using Carries.nil.append_braceless h.1 h.2

section Texts

theorem padded_ownTexts {e : Expr} (h : ∀ text ∈ e.ownStrings, Braceless text) :
    ∀ text ∈ e.ownTexts, Padded text.toList := by
  have strings : ∀ values : List String, (∀ value ∈ values, Braceless value) →
      ∀ text ∈ values.flatMap (fun value => [quote value, hashKey value]), Padded text.toList := by
    intro values hv text ht
    obtain ⟨value, hin, ht⟩ := List.mem_flatMap.mp ht
    simp only [List.mem_cons, List.not_mem_nil, or_false] at ht
    rcases ht with rfl | rfl
    · exact (hv value hin).quote.padded
    · exact (hv value hin).hashKey.padded
  cases e with
  | identifier span name =>
    have named := h name (by simp [Expr.ownStrings])
    simp [Expr.ownTexts, named.padded, named.hashKey.padded]
  | literal span content => exact strings _ h
  | binary span operator left right =>
    have known := h operator (by simp [Expr.ownStrings])
    simp [Expr.ownTexts, known.padded]
  | template span segments =>
    intro text ht
    obtain ⟨content, hc, rfl⟩ := List.mem_map.mp ht
    exact (h content hc).quote.padded
  | _ => simp [Expr.ownTexts]

theorem padded_texts {list : List Expr} (h : ∀ text ∈ list.flatMap Expr.ownStrings, Braceless text) :
    ∀ text ∈ list.flatMap Expr.ownTexts, Padded text.toList := by
  rw [List.forall_mem_flatMap] at h ⊢
  exact fun e he => padded_ownTexts (h e he)

/-- The text of an expression is padded, in either mode and whatever is dropped in it. -/
theorem padded_expression {e : Expr} (h : ∀ text ∈ e.strings, Braceless text) (mode : Mode) :
    Padded (expression mode e).value.toList :=
  carries_reading.toKept.expression (padded_texts h) mode

theorem padded_attributeTexts {item : Attribute} (h : ∀ text ∈ item.strings, Braceless text) :
    ∀ text ∈ item.texts, Padded text.toList := by
  have parts : ∀ part : AttributePart, (∀ text ∈ part.strings, Braceless text) →
      ∀ text ∈ part.texts, Padded text.toList := by
    intro part hp
    cases part with
    | text content =>
      have data := hp content.data (by simp [AttributePart.strings, TextContent.strings])
      simp [AttributePart.texts, data.quote.padded]
    | mustache span e => exact padded_texts hp
    | shorthand span e => exact padded_texts hp
  cases item with
  | normal span name value =>
    rw [Attribute.strings, List.forall_mem_cons] at h
    rw [Attribute.texts, List.forall_mem_cons]
    refine ⟨h.1.hashKey.padded, ?_⟩
    cases value with
    | bool flag => simp [AttributeValue.texts]
    | parts list =>
      rw [AttributeValue.texts, List.forall_mem_flatMap]
      exact fun part hp => parts part (List.forall_mem_flatMap.mp h.2 part hp)
  | spread span e => exact padded_texts h
  | unknown => simp [Attribute.texts]

theorem braceless_exprMarkup {e : Expr} (h : ∀ text ∈ e.strings, Braceless text) :
    ∀ text ∈ e.markup, Braceless text := by
  cases e with
  | template span segments =>
    exact fun text ht => h text (List.mem_flatMap.mpr ⟨_, Expr.mem_subexpressions_self _, ht⟩)
  | _ => simp [Expr.markup]

theorem braceless_attributeMarkup {item : Attribute} (h : ∀ text ∈ item.strings, Braceless text) :
    ∀ text ∈ item.markup, Braceless text := by
  match item with
  | .normal span name (.bool flag) =>
    simpa [Attribute.markup] using h name (by simp [Attribute.strings])
  | .normal span name (.parts list) =>
    rw [Attribute.strings, List.forall_mem_cons] at h
    rw [Attribute.markup, List.forall_mem_cons, List.forall_mem_flatMap]
    refine ⟨h.1, fun part hp => ?_⟩
    have strings := List.forall_mem_flatMap.mp h.2 part hp
    cases part with
    | text content => simpa [AttributePart.markup] using (Braceless.sourceText strings).quotedText
    | mustache span e => exact braceless_exprMarkup strings
    | shorthand span e => exact braceless_exprMarkup strings
  | .spread span e => simp [Attribute.markup]
  | .unknown => simp [Attribute.markup]

end Texts

section Nodes

variable {options : Options}

theorem legible_of_braceless (ht : Braceless options.theme) (hd : Braceless options.defaultSlot)
    {tree : Node} (h : ∀ text ∈ tree.strings, Braceless text) :
    Legible (fun text => Padded text.toList) (fun text list => Carries text.toList list) options
      tree := by
  cases tree with
  | element span name attributes children =>
    rw [Node.strings, List.forall_mem_cons, List.forall_mem_append] at h
    refine ⟨?_, ?_, by simp [Node.comments]⟩
    · rw [Node.tagTexts, List.forall_mem_flatMap]
      exact fun item hi => padded_attributeTexts (List.forall_mem_flatMap.mp h.2.1 item hi)
    · rw [Node.markup, List.forall_mem_cons, List.forall_mem_flatMap]
      refine ⟨carries_braceless h.1, fun item hi text hin => carries_braceless ?_⟩
      exact braceless_attributeMarkup (List.forall_mem_flatMap.mp h.2.1 item hi) text hin
  | text content =>
    refine ⟨by simp [Node.tagTexts], ?_, by simp [Node.comments]⟩
    simpa [Node.markup] using carries_braceless (Braceless.sourceText h)
  | comment span data =>
    refine ⟨by simp [Node.tagTexts], by simp [Node.markup], ?_⟩
    have inside := carries_commentTag (h data (by simp [Node.strings])).trim.padded
    simpa [Node.comments] using inside
  | mustache span e =>
    refine ⟨padded_texts h, fun text hin => carries_braceless ?_, by simp [Node.comments]⟩
    exact braceless_exprMarkup h text hin
  | rawMustache span e =>
    exact ⟨padded_texts h, by simp [Node.markup], by simp [Node.comments]⟩
  | ifBlock span test children otherwise elseif =>
    rw [Node.strings, List.forall_mem_append] at h
    exact ⟨padded_texts h.1, by simp [Node.markup], by simp [Node.comments]⟩
  | eachBlock span items context index key children otherwise =>
    simp only [Node.strings, List.forall_mem_append] at h
    refine ⟨?_, by simp [Node.markup], by simp [Node.comments]⟩
    rw [Node.tagTexts, List.forall_mem_append, List.forall_mem_append, List.forall_mem_flatMap]
    refine ⟨padded_texts h.1, fun pattern hp => ?_, fun name hn => (h.2.2.1 name hn).padded⟩
    exact padded_texts (List.forall_mem_flatMap.mp h.2.1 pattern hp)
  | component span name attributes children =>
    rw [Node.strings, List.forall_mem_cons, List.forall_mem_append] at h
    refine ⟨?_, by simp [Node.markup], by simp [Node.comments]⟩
    rw [Node.tagTexts, List.forall_mem_cons, List.forall_mem_cons, List.forall_mem_flatMap]
    refine ⟨(ht.componentId name).quote.padded, hd.padded, fun item hi => ?_⟩
    exact padded_attributeTexts (List.forall_mem_flatMap.mp h.2.1 item hi)
  | slot span attributes children =>
    rw [Node.strings, List.forall_mem_append] at h
    refine ⟨?_, by simp [Node.markup], by simp [Node.comments]⟩
    simpa [Node.tagTexts] using (Braceless.slotBlock hd h.1).padded
  | _ => exact ⟨by simp [Node.tagTexts], by simp [Node.markup], by simp [Node.comments]⟩

/-- The strings of the nodes inside a tree are strings of the tree. -/
theorem forall_strings_of_subnodes {Q : String → Prop} (tree : Node)
    (h : ∀ text ∈ tree.strings, Q text) :
    ∀ inner ∈ tree.subnodes, ∀ text ∈ inner.strings, Q text := by
  have self := h
  induction tree using Node.induction with
  | fragment span children ih =>
    rw [Node.strings, nodeStrings_eq, List.forall_mem_flatMap] at h
    rw [Node.subnodes, List.forall_mem_cons, forall_childNodes]
    exact ⟨self, fun child hc => ih child hc (h child hc) (h child hc)⟩
  | element span name attributes children ih =>
    rw [Node.strings, List.forall_mem_cons, List.forall_mem_append, nodeStrings_eq,
      List.forall_mem_flatMap (l := children)] at h
    rw [Node.subnodes, List.forall_mem_cons, forall_childNodes]
    exact ⟨self, fun child hc => ih child hc (h.2.2 child hc) (h.2.2 child hc)⟩
  | ifBlock span test children otherwise elseif ih ihe =>
    simp only [Node.strings, nodeStrings_eq, forall_branchStrings, List.forall_mem_append,
      List.forall_mem_flatMap (l := children)] at h
    rw [Node.subnodes, List.forall_mem_cons, List.forall_mem_append, forall_childNodes,
      forall_branchNodes]
    refine ⟨self, fun child hc => ih child hc (h.2.1 child hc) (h.2.1 child hc), ?_⟩
    intro branch hb child hc
    exact ihe branch hb child hc (h.2.2 branch hb child hc) (h.2.2 branch hb child hc)
  | eachBlock span items context index key children otherwise ih ihe =>
    simp only [Node.strings, nodeStrings_eq, forall_branchStrings, List.forall_mem_append,
      List.forall_mem_flatMap (l := children)] at h
    obtain ⟨-, -, -, -, inside, fallback⟩ := h
    rw [Node.subnodes, List.forall_mem_cons, List.forall_mem_append, forall_childNodes,
      forall_branchNodes]
    refine ⟨self, fun child hc => ih child hc (inside child hc) (inside child hc), ?_⟩
    intro branch hb child hc
    exact ihe branch hb child hc (fallback branch hb child hc) (fallback branch hb child hc)
  | component span name attributes children ih =>
    rw [Node.strings, List.forall_mem_cons, List.forall_mem_append, nodeStrings_eq,
      List.forall_mem_flatMap (l := children)] at h
    rw [Node.subnodes, List.forall_mem_cons, forall_childNodes]
    exact ⟨self, fun child hc => ih child hc (h.2.2 child hc) (h.2.2 child hc)⟩
  | slot span attributes children ih =>
    rw [Node.strings, List.forall_mem_append, nodeStrings_eq,
      List.forall_mem_flatMap (l := children)] at h
    rw [Node.subnodes, List.forall_mem_cons, forall_childNodes]
    exact ⟨self, fun child hc => ih child hc (h.2 child hc) (h.2 child hc)⟩
  | _ =>
    rw [Node.subnodes, List.forall_mem_singleton]
    exact self

/-- The text of a node splits into spaced chunks with the tags of its outline. -/
theorem carries_node (ht : Braceless options.theme) (hd : Braceless options.defaultSlot)
    (tree : Node) (h : ∀ text ∈ tree.strings, Braceless text) :
    Carries (node options tree).value.toList (outline options tree) :=
  carries_reading.node tree fun inner hi =>
    legible_of_braceless ht hd (forall_strings_of_subnodes tree h inner hi)

end Nodes

end TwigComponent.Twig
