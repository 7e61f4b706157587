import TwigComponent.Proofs.Blanking
import TwigComponent.Proofs.Scanning

/-!
# Static text stays static

The static text of a template reaches the output in three ways. In a tag it is
quoted, and there it may hold anything. A comment holds its data as it is, and so
does the markup with the text of template literals; nothing is escaped in either.
So a comment can end early at a closing of its own, and markup that holds an
opening begins a tag.

A tree is tame if this does not happen in any of its nodes and the names that stand
in tags have no braces and no quotes. A scan of the text of a tame tree finds the
tags of its outline, and these do not depend on the static text.
-/
namespace TwigComponent.Source

open Twig

/-- The strings that an expression itself writes without quotes. -/
def Expr.ownNames : Expr → List String
  | .identifier _ name => [name]
  | .binary _ operator _ _ => [operator]
  | _ => []

def Expr.names (e : Expr) : List String := e.subexpressions.flatMap Expr.ownNames

def Pattern.names (pattern : Pattern) : List String :=
  pattern.subexpressions.flatMap Expr.ownNames

def AttributePart.names : AttributePart → List String
  | .text _ => []
  | .mustache _ expression => expression.names
  | .shorthand _ expression => expression.names

def Attribute.names : Attribute → List String
  | .normal _ _ (.parts list) => list.flatMap AttributePart.names
  | .spread _ expression => expression.names
  | _ => []

/-- The strings that a node itself writes in tags without quotes. -/
def Node.names (options : Options) : Node → List String
  | .element _ _ attributes _ => attributes.flatMap Attribute.names
  | .mustache _ expression => expression.names
  | .rawMustache _ expression => expression.names
  | .ifBlock _ test _ _ _ => test.names
  | .eachBlock _ items context index _ _ _ =>
    items.names ++ (context.toList.flatMap Pattern.names ++ index.toList)
  | .component _ _ attributes _ => options.defaultSlot :: attributes.flatMap Attribute.names
  | .slot _ attributes _ => [(slotBlock options.defaultSlot attributes).1]
  | _ => []

end TwigComponent.Source

namespace TwigComponent.Twig

open Source Text

section Texts

theorem sealed_ownTexts {e : Expr} (h : ∀ name ∈ e.ownNames, Plain name) :
    ∀ text ∈ e.ownTexts, Sealed text.toList := by
  cases e with
  | identifier span name =>
    have plain := h name (by simp [Expr.ownNames])
    simp [Expr.ownTexts, Sealed.of_plain plain, Sealed.hashKey]
  | literal span content =>
    rw [Expr.ownTexts, List.forall_mem_flatMap]
    intro value _
    simp [Sealed.quote, Sealed.hashKey]
  | binary span operator left right =>
    have plain := h operator (by simp [Expr.ownNames])
    simp [Expr.ownTexts, Sealed.of_plain plain]
  | template span segments =>
    rw [Expr.ownTexts, List.forall_mem_map]
    exact fun content _ => .quote content
  | _ => simp [Expr.ownTexts]

theorem sealed_texts {list : List Expr} (h : ∀ name ∈ list.flatMap Expr.ownNames, Plain name) :
    ∀ text ∈ list.flatMap Expr.ownTexts, Sealed text.toList := by
  rw [List.forall_mem_flatMap] at h ⊢
  exact fun e he => sealed_ownTexts (h e he)

theorem sealed_attributeTexts {item : Attribute} (h : ∀ name ∈ item.names, Plain name) :
    ∀ text ∈ item.texts, Sealed text.toList := by
  match item with
  | .normal span name (.bool flag) =>
    simp [Attribute.texts, AttributeValue.texts, Sealed.hashKey]
  | .normal span name (.parts list) =>
    rw [Attribute.names, List.forall_mem_flatMap] at h
    rw [Attribute.texts, AttributeValue.texts, List.forall_mem_cons, List.forall_mem_flatMap]
    refine ⟨.hashKey name, fun part hp => ?_⟩
    cases part with
    | text content => simp [AttributePart.texts, Sealed.quote]
    | mustache span e => exact sealed_texts (h _ hp)
    | shorthand span e => exact sealed_texts (h _ hp)
  | .spread span e => exact sealed_texts h
  | .unknown => simp [Attribute.texts]

/-- What a node brings into tags is sealed if its names are plain. -/
theorem sealed_tagTexts {options : Options} {tree : Node}
    (h : ∀ name ∈ tree.names options, Plain name) :
    ∀ text ∈ tree.tagTexts options, Sealed text.toList := by
  cases tree with
  | element span name attributes children =>
    rw [Node.names, List.forall_mem_flatMap] at h
    rw [Node.tagTexts, List.forall_mem_flatMap]
    exact fun item hi => sealed_attributeTexts (h item hi)
  | mustache span e => exact sealed_texts h
  | rawMustache span e => exact sealed_texts h
  | ifBlock span test children otherwise elseif => exact sealed_texts h
  | eachBlock span items context index key children otherwise =>
    rw [Node.names, List.forall_mem_append, List.forall_mem_append, List.forall_mem_flatMap] at h
    rw [Node.tagTexts, List.forall_mem_append, List.forall_mem_append, List.forall_mem_flatMap]
    obtain ⟨iterated, pattern, counted⟩ := h
    exact ⟨sealed_texts iterated, fun target ht => sealed_texts (pattern target ht),
      fun name hn => .of_plain (counted name hn)⟩
  | component span name attributes children =>
    rw [Node.names, List.forall_mem_cons, List.forall_mem_flatMap] at h
    rw [Node.tagTexts, List.forall_mem_cons, List.forall_mem_cons, List.forall_mem_flatMap]
    exact ⟨.quote _, .of_plain h.1, fun item hi => sealed_attributeTexts (h.2 item hi)⟩
  | slot span attributes children =>
    rw [Node.names, List.forall_mem_singleton] at h
    rw [Node.tagTexts, List.forall_mem_singleton]
    exact .of_plain h
  | _ => simp [Node.tagTexts]

theorem isInfix_trim (text : String) : (trim text).toList <:+: text.toList := by
  have front : text.toList.dropWhile isBlank <:+ text.toList := List.dropWhile_suffix _
  have back : trimChars text.toList <+: text.toList.dropWhile isBlank := by
    rw [← List.reverse_suffix, trimChars, List.reverse_reverse]
    exact List.dropWhile_suffix _
  rw [trim, String.toList_ofList]
  exact back.isInfix.trans front.isInfix

end Texts

/-- A node whose static text brings in no tag. -/
structure Tame (options : Options) (tree : Node) : Prop where
  names : ∀ name ∈ tree.names options, Plain name
  markup : ∀ text ∈ tree.markup, Inert text
  comments : ∀ data ∈ tree.comments, ¬ TagKind.comment.closing <:+: data.toList

instance (options : Options) (tree : Node) : Decidable (Tame options tree) :=
  decidable_of_iff ((∀ name ∈ tree.names options, Plain name) ∧ (∀ text ∈ tree.markup, Inert text) ∧
      ∀ data ∈ tree.comments, ¬ TagKind.comment.closing <:+: data.toList)
    ⟨fun h => ⟨h.1, h.2.1, h.2.2⟩, fun h => ⟨h.names, h.markup, h.comments⟩⟩

theorem Tame.legible {options : Options} {tree : Node} (h : Tame options tree) :
    Legible (fun text => Sealed text.toList) Scans options tree where
  tags := sealed_tagTexts h.names
  markup text ht := scan_inert (h.markup text ht)
  comments data hd := scans_commentTag fun hin => h.comments data hd (hin.trans (isInfix_trim data))

/-- A scan of the text of a tame tree finds the tags of its outline. -/
theorem scanText_node {options : Options} {tree : Node}
    (h : ∀ inner ∈ tree.subnodes, Tame options inner) :
    scanText (node options tree).value = outline options tree :=
  scanText_of_scans (scans_reading.node tree fun inner hi => (h inner hi).legible)

/-- A scan of a tame tree finds the tags that the tree writes and no others. Two tame trees that
differ in nothing but the data of comments and the static text of template literals have the same
tags: a scan finds as many in both, of the same kinds and with the same keywords. -/
theorem static_text_adds_no_tag (options : Options) (first second : Node)
    (same : first.blanked = second.blanked)
    (hf : ∀ inner ∈ first.subnodes, Tame options inner)
    (hs : ∀ inner ∈ second.subnodes, Tame options inner) :
    scanText (node options first).value = outline options first ∧
    SameForms (scanText (node options first).value) (scanText (node options second).value) := by
  have left : SameForms (outline options first.blanked) (outline options first) :=
    sameForms_blanked first
  have right : SameForms (outline options second.blanked) (outline options second) :=
    sameForms_blanked second
  rw [same] at left
  rw [scanText_node hf, scanText_node hs]
  exact ⟨rfl, left.symm.trans right⟩

/-- A tree with static text in a comment, in two tags and in the markup. -/
def labelled (note label heading : String) : Node :=
  .fragment {} [
    .comment {} note,
    .ifBlock {} (.binary {} "===" (.identifier {} "kind")
        (.template {} [.text label, .expression (.identifier {} "size")])) [
      .component {} "Button"
        [.normal {} "label" (.parts [.mustache {} (.template {} [.text label])])] []] none false,
    .mustache {} (.template {} [.text heading, .expression (.identifier {} "name")])]

def calmLabels : Node := labelled "note" "label" "Hello "

/-- Openings in the comment, delimiters and quotes in the tags, closings in the markup. -/
def wildLabels : Node :=
  labelled "\x7b% if x %\x7d it's" "' \x7d\x7d%\x7d\x7b\x7b x" "#\x7d ' \x7d\x7d"

theorem static_text_adds_no_tag_wildLabels :
    calmLabels.blanked = wildLabels.blanked ∧
    (∀ inner ∈ calmLabels.subnodes, Tame { theme := "site" } inner) ∧
    (∀ inner ∈ wildLabels.subnodes, Tame { theme := "site" } inner) ∧
    (scanText (node { theme := "site" } wildLabels).value).map Tag.form =
      [(.comment, []), (.statement, ["if"]), (.statement, ["include"]), (.statement, ["endif"]),
        (.output, [])] ∧
    SameForms (scanText (node { theme := "site" } wildLabels).value)
      (scanText (node { theme := "site" } calmLabels).value) := by
  have calm : ∀ inner ∈ calmLabels.subnodes, Tame { theme := "site" } inner := by decide
  have wild : ∀ inner ∈ wildLabels.subnodes, Tame { theme := "site" } inner := by decide
  obtain ⟨found, forms⟩ := static_text_adds_no_tag { theme := "site" } wildLabels calmLabels rfl wild calm
  have tags : (outline { theme := "site" } wildLabels).map Tag.form =
      [(.comment, []), (.statement, ["if"]), (.statement, ["include"]), (.statement, ["endif"]),
        (.output, [])] := by decide
  exact ⟨rfl, calm, wild, found ▸ tags, forms⟩

/-- Two trees that differ in static text only and have different tags. -/
def Leak (first second : Node) : Prop :=
  first.blanked = second.blanked ∧
    ¬ SameForms (scanText (node { theme := "site" } first).value)
      (scanText (node { theme := "site" } second).value)

/-- Children with static text in front of a condition. -/
def spoken (text : String) : List Node :=
  [.mustache {} (.template {} [.text text]), .ifBlock {} (.identifier {} "y") [] none false]

/-- A slot with a quote in its name. -/
def quotedSlot : Node := .slot {} [.normal {} "name" (.parts [.text ⟨{}, "it's", none⟩])] []

theorem static_text_leaks :
    -- a comment that closes itself
    Leak (.comment {} "a") (.comment {} "#\x7d\x7b\x7b x \x7d\x7d") ∧
    -- an opening in the markup, by itself or together with the tag behind it
    Leak (.fragment {} (spoken "a")) (.fragment {} (spoken "\x7b\x7b x \x7d\x7d")) ∧
    Leak (.fragment {} (spoken "a")) (.fragment {} (spoken "\x7b")) ∧
    -- text that closes what was left open before it
    Leak (.fragment {} (.text ⟨{}, "\x7b\x7b", none⟩ :: spoken "a"))
      (.fragment {} (.text ⟨{}, "\x7b\x7b", none⟩ :: spoken "\x7d\x7d")) ∧
    Leak (.fragment {} (quotedSlot :: spoken "a")) (.fragment {} (quotedSlot :: spoken "' %\x7d")) := by
  refine ⟨⟨rfl, ?_⟩, ⟨rfl, ?_⟩, ⟨rfl, ?_⟩, ⟨rfl, ?_⟩, ⟨rfl, ?_⟩⟩ <;> decide

end TwigComponent.Twig
