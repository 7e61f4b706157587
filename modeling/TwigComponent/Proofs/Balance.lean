import TwigComponent.Proofs.Braces
import TwigComponent.Proofs.Interface
import TwigComponent.Proofs.Nesting
import TwigComponent.Transform

/-!
# Templates are balanced

A node writes the opening tag of a construct only together with the closing one,
after all that could still fail, so the text of every node is balanced whatever
is dropped in it. The same holds for the tags that bind the members of a pattern
and for those that set the variables of the script, and hence for the template
of a component as a whole.
-/
namespace TwigComponent.Twig

open Source Text

section Quiet

theorem quiet_outputOutline (text : String) : Quiet (outputOutline text) := by
  unfold outputOutline
  split <;> simp [Quiet, wordsOf, Tag.output, Tag.keywords, Chunk.keywords]

theorem quiet_rawOutline (e : Expr) : Quiet (rawOutline e) := by
  unfold rawOutline
  split <;> simp [Quiet, wordsOf, Tag.output, Tag.keywords, Chunk.keywords]

theorem quiet_comment (text : String) : Quiet [.comment text] := by
  simp [Quiet, wordsOf, Tag.comment, Tag.keywords, Chunk.keywords]

theorem quiet_interpolateOutline (e : Expr) : Quiet (interpolateOutline e) := by
  cases e with
  | template span segments =>
    refine Quiet.flatMap fun segment _ => ?_
    cases segment with
    | text content => simp [segmentOutline, Quiet]
    | expression inner => exact quiet_outputOutline _
  | _ => exact quiet_outputOutline _

theorem quiet_attributeOutline (item : Attribute) : Quiet (attributeOutline item) := by
  unfold attributeOutline
  split
  · refine Quiet.flatMap fun part _ => ?_
    cases part with
    | text content => simp [partOutline, Quiet]
    | mustache span e => exact quiet_interpolateOutline e
    | shorthand span e => exact quiet_interpolateOutline e
  · simp [Quiet]

theorem quiet_setOutline (bindings : List (String × String)) : Quiet (setOutline bindings) := by
  rw [setOutline, List.map_eq_flatMap]
  refine Quiet.flatMap fun binding _ => ?_
  rw [Quiet, String.append_assoc, String.append_assoc,
    wordsOf_statement (by decide : IsWord "set") (by decide)]
  simp

end Quiet

section Nodes

variable {options : Options}

theorem neutral_block (name : String) {content : List Tag} (h : Neutral (wordsOf content)) :
    Neutral (wordsOf (blockOutline name content)) := by
  rw [blockOutline, wordsOf_construct (by decide : IsWord "block") (by decide) (by decide)]
  exact h.wrap (fun stack => rfl) fun stack => rfl

theorem neutral_siblings {nodes : List Node}
    (h : ∀ child ∈ nodes, Neutral (wordsOf (outline options child))) :
    Neutral (wordsOf (outlines options nodes)) := by
  rw [outlines_eq]
  induction nodes with
  | nil => exact .nil
  | cons first rest ih =>
    rw [List.forall_mem_cons] at h
    rw [List.flatMap_cons, wordsOf_append]
    exact h.1.append (ih h.2)

/-- A loop with its bindings and, if it has one, its else branch. -/
theorem neutral_loop (head : LoopHead) (iterable : String) {bindings index content : List Tag}
    {otherwise : Option Branch} (hb : Quiet bindings) (hi : Quiet index)
    (h : Neutral (wordsOf content))
    (ho : ∀ branch ∈ otherwise, Neutral (wordsOf (outlines options branch.children))) :
    Neutral (wordsOf (.statement ("for " ++ head.targets ++ " in " ++ iterable)
      :: bindings ++ index ++ content ++ branchOutline options otherwise
      ++ [.statement "endfor"])) := by
  have body := (hb.neutral.append hi.neutral).append h
  have words : wordsOf (.statement ("for " ++ head.targets ++ " in " ++ iterable)
      :: bindings ++ index ++ content ++ branchOutline options otherwise ++ [.statement "endfor"]) =
      "for" :: (wordsOf bindings ++ wordsOf index ++ wordsOf content)
        ++ wordsOf (branchOutline options otherwise) ++ ["endfor"] := by
    rw [String.append_assoc, String.append_assoc, wordsOf_append, wordsOf_append, wordsOf_append,
      wordsOf_append, wordsOf_statement (by decide : IsWord "for") (by decide),
      wordsOf_word (by decide : IsWord "endfor")]
    simp
  rw [words]
  cases otherwise with
  | none =>
    have loop : Neutral ("for" :: (wordsOf bindings ++ wordsOf index ++ wordsOf content) ++
        ["endfor"]) := body.wrap (fun stack => rfl) fun stack => rfl
    simpa [branchOutline] using loop
  | some branch =>
    rw [branchOutline_some, wordsOf_word (by decide : IsWord "else")]
    exact body.loop (ho branch rfl)

/-- The tags of a node leave every stack as it was. -/
theorem neutral_outline (tree : Node) : Neutral (wordsOf (outline options tree)) := by
  induction tree using Node.induction with
  | fragment span children ih => exact neutral_siblings ih
  | element span name attributes children ih =>
    have quiet : Quiet (attributes.flatMap attributeOutline) :=
      .flatMap fun item _ => quiet_attributeOutline item
    rw [outline, wordsOf_append]
    split
    · exact quiet.neutral.append .nil
    · exact quiet.neutral.append (neutral_siblings ih)
  | text content => exact .nil
  | comment span data => exact (quiet_comment _).neutral
  | mustache span e => exact (quiet_interpolateOutline e).neutral
  | rawMustache span e => exact (quiet_rawOutline e).neutral
  | ifBlock span test children otherwise elseif ih _ =>
    rw [outline]
    split
    · exact .nil
    · rw [wordsOf_construct (by decide : IsWord "if") (by decide) (by decide)]
      exact (neutral_siblings ih).wrap (fun stack => rfl) fun stack => rfl
  | eachBlock span items context index key children otherwise ih ihe =>
    rw [outline]
    split
    · exact .nil
    · cases (loopHead (expression .template items).value context).value with
      | error fault => exact .nil
      | ok head =>
        exact neutral_loop head _ (quiet_setOutline _) (quiet_setOutline _) (neutral_siblings ih)
          fun branch hb => neutral_siblings (ihe branch hb)
  | component span name attributes children ih =>
    rw [outline]
    split
    · rw [wordsOf_construct (by decide : IsWord "embed") (by decide) (by decide)]
      exact (neutral_block _ (neutral_siblings ih)).wrap (fun stack => rfl) fun stack => rfl
    · rw [wordsOf_statement (by decide : IsWord "include") (by decide)]
      exact .single fun stack => rfl
  | slot span attributes children ih => exact neutral_block _ (neutral_siblings ih)
  | unknown => exact .nil

end Nodes

end TwigComponent.Twig

namespace TwigComponent

open Source Twig

namespace Ordered

variable {κ ν : Type} [BEq κ] {P : κ → Prop} {Q : ν → Prop}

theorem forall_mem_insert {key : κ} {value : ν} (hk : P key) (hv : Q value)
    {entries : List (κ × ν)} (h : ∀ entry ∈ entries, P entry.1 ∧ Q entry.2) :
    ∀ entry ∈ insert key value entries, P entry.1 ∧ Q entry.2 := by
  induction entries with
  | nil => simpa [insert, alter] using ⟨hk, hv⟩
  | cons first rest ih =>
    rw [List.forall_mem_cons] at h
    rw [insert, alter]
    split
    · rw [List.forall_mem_cons]
      exact ⟨⟨h.1.1, hv⟩, h.2⟩
    · rw [List.forall_mem_cons]
      exact ⟨h.1, ih h.2⟩

/-- What holds of all keys and of all values that are inserted holds of the entries. -/
theorem forall_mem_ofList {entries : List (κ × ν)}
    (h : ∀ entry ∈ entries, P entry.1 ∧ Q entry.2) :
    ∀ entry ∈ ofList entries, P entry.1 ∧ Q entry.2 := by
  -- The entries collected so far keep the property at every insertion.
  suffices step : ∀ done : List (κ × ν), (∀ entry ∈ done, P entry.1 ∧ Q entry.2) →
      ∀ entry ∈ entries.foldl (fun done entry => insert entry.1 entry.2 done) done,
        P entry.1 ∧ Q entry.2 from step [] (by simp)
  induction entries with
  | nil =>
    intro done hd
    exact hd
  | cons first rest ih =>
    intro done hd
    rw [List.forall_mem_cons] at h
    rw [List.foldl_cons]
    exact ih h.2 _ (forall_mem_insert h.1.1 h.1.2 hd)

end Ordered

namespace Component

/-- A fact whose binding, if it is one, can stand in a `set` tag. -/
def Fact.Settable (fact : Fact) : Prop :=
  ∀ entry ∈ fact.binding?, Braceless entry.1 ∧ Padded entry.2.toList

theorem settable_bindingFacts {name : String} {value : Expr} (hn : Braceless name)
    (h : ∀ text ∈ value.strings, Braceless text) :
    ∀ fact ∈ (bindingFacts name value).value, fact.Settable := by
  have padded := padded_expression h .value
  rw [bindingFacts, Report.value_bind, Report.value_pure]
  split
  · simp
  · rw [List.forall_mem_singleton]
    rintro entry ⟨⟩
    exact ⟨hn, padded⟩

theorem braceless_identifier {pattern : Pattern} {name : String}
    (hn : pattern.identifier? = some name) (h : ∀ text ∈ pattern.strings, Braceless text) :
    Braceless name := by
  match pattern, hn with
  | .identifier span name, rfl => exact h name (by simp [Pattern.strings, Pattern.subexpressions])

theorem settable_declaratorFacts {declarator : Declarator}
    (h : ∀ text ∈ declarator.strings, Braceless text) :
    ∀ fact ∈ (declaratorFacts declarator).value, fact.Settable := by
  rw [Declarator.strings, List.forall_mem_append] at h
  unfold declaratorFacts
  split
  · rename_i name init hn hi
    exact settable_bindingFacts (braceless_identifier hn h.1) (by simpa [hi] using h.2)
  · simp

theorem settable_propFacts (component : Component) (declarator : Declarator) :
    ∀ fact ∈ (component.propFacts declarator).value, fact.Settable := by
  unfold propFacts
  split <;> simp [Fact.Settable, Fact.binding?]

theorem settable_statementFacts (component : Component) {statement : Statement}
    (h : ∀ text ∈ statement.strings, Braceless text) :
    ∀ fact ∈ (component.statementFacts statement).value, fact.Settable := by
  unfold statementFacts
  split
  · split
    · simp
    · intro fact hf
      rw [value_collectFacts, List.mem_flatMap] at hf
      obtain ⟨declarator, -, hf⟩ := hf
      exact component.settable_propFacts declarator fact hf
  · intro fact hf
    rw [value_collectFacts, List.mem_flatMap] at hf
    obtain ⟨declarator, hd, hf⟩ := hf
    rw [Statement.strings, List.forall_mem_flatMap] at h
    exact settable_declaratorFacts (h declarator hd) fact hf
  · rename_i target value
    simp only [Statement.strings, Expr.strings, Expr.subexpressions, List.forall_mem_cons,
      List.forall_mem_flatMap, List.forall_mem_append] at h
    obtain ⟨-, -, ht, hv⟩ := h
    split
    · rename_i name hn
      exact settable_bindingFacts (braceless_identifier hn (List.forall_mem_flatMap.mpr ht))
        (List.forall_mem_flatMap.mpr hv)
    · simp
  · simp

theorem settable_setStatements (component : Component) (name : String) (overrides : Option Yaml)
    (options : Options) (h : ∀ text ∈ component.document.strings, Braceless text) :
    ∀ entry ∈ (component.context name overrides options).value.setStatements,
      Braceless entry.1 ∧ Padded entry.2.toList := by
  rw [Document.strings, List.forall_mem_append] at h
  refine Ordered.forall_mem_ofList (P := Braceless) (Q := fun text : String => Padded text.toList)
    fun entry he => ?_
  obtain ⟨fact, hf, hb⟩ := List.mem_filterMap.mp he
  rw [value_collectFacts, List.mem_flatMap] at hf
  obtain ⟨statement, hs, hf⟩ := hf
  have strings := List.forall_mem_flatMap.mp h.2 statement hs
  exact component.settable_statementFacts strings fact hf entry hb

end Component

theorem Twig.Reading.setPrelude {P : String → Prop} {R : String → List Tag → Prop}
    (M : Reading P R) {statements : List (String × String)}
    (h : ∀ entry ∈ statements, P entry.1 ∧ P entry.2) :
    R (TwigComponent.setPrelude statements) (setOutline statements) := by
  rw [setOutline, List.map_eq_flatMap]
  refine M.joined fun entry he => ?_
  have name := M.append (M.plain (by decide : Plain "set ")) (h entry he).1
  have set := M.statement (M.toKept.between name (by decide : Plain " = ") (h entry he).2)
  simpa [setTag] using M.join set (M.text (by decide : Plain "\n"))

/-- The template splits into spaced chunks: tags that set the variables of the script, and those of
the outline of its nodes. -/
theorem carries_template (component : Component) (name : String) (overrides : Option Yaml)
    (options : Options) (h : ∀ text ∈ component.document.strings, Braceless text)
    (ht : Braceless options.theme) (hd : Braceless options.defaultSlot) :
    Carries
      (component.template (component.context name overrides options).value options).value.toList
      (setOutline (component.context name overrides options).value.setStatements
        ++ outlines options component.document.html.children) := by
  have settable := component.settable_setStatements name overrides options h
  have prelude := carries_reading.setPrelude fun entry he =>
    ⟨(settable entry he).1.padded, (settable entry he).2⟩
  rw [Document.strings, List.forall_mem_append, nodeStrings_eq, List.forall_mem_flatMap] at h
  have body := carries_reading.siblings fun child hc => carries_node ht hd child (h.1 child hc)
  exact carries_reading.join prelude body

theorem balanced_template (component : Component) (name : String) (overrides : Option Yaml)
    (options : Options) (h : ∀ text ∈ component.document.strings, Braceless text)
    (ho : ∀ text ∈ options.strings, Braceless text) :
    Balanced (component.template (component.context name overrides options).value options).value := by
  rw [Options.strings, List.forall_mem_cons, List.forall_mem_singleton] at ho
  refine .of_carries (carries_template component name overrides options h ho.1 ho.2) ?_
  rw [wordsOf_append]
  exact (quiet_setOutline _).neutral.append (neutral_siblings fun child _ => neutral_outline child)

/-- If no string of a component and of the options has a brace, the template of the component can
be read as plain text and tags in exactly one way, and its control constructs are well nested,
whatever is dropped on the way. -/
theorem template_wellNested (component : Component) (name : String) (overrides : Option Yaml)
    (options : Options) (h : ∀ text ∈ component.document.strings, Braceless text)
    (ho : ∀ text ∈ options.strings, Braceless text) :
    ∃ chunks, IsSplit
        (component.template (component.context name overrides options).value options).value.toList
        chunks ∧
      (∀ other, IsSplit
        (component.template (component.context name overrides options).value options).value.toList
        other → other = chunks) ∧
      WellNested (keywords chunks) := by
  obtain ⟨words, ⟨chunks, split, spaced, rfl⟩, neutral⟩ :=
    balanced_template component name overrides options h ho
  exact ⟨chunks, split, fun other ho => split_unique split spaced ho, neutral []⟩

/-- A list with an index and an `else`, before it a condition that has no Twig form, after it a
component with content and an empty hash among its arguments. -/
def faultyListing : Component where
  document := {
    html := { children := [
      .ifBlock ⟨0, 12⟩ (.unary ⟨5, 9⟩ "typeof" (.identifier {} "x")) [.text ⟨{}, "lost", none⟩]
        none false,
      .eachBlock {} (.identifier {} "rows")
        (some (.object {} [.property {} (.identifier {} "id") (.identifier {} "id") false]))
        (some "i") none
        [.mustache {} (.binary {} "%" (.identifier {} "id") (.identifier {} "i"))]
        (some (.mk {} [.ifBlock {} (.identifier {} "empty") [.slot {} [] []] none false])),
      .component {} "Card" [.normal {} "style" (.parts [.mustache {} (.object {} [])])]
        [.comment {} " body "]] }
    instanceScript := some {
      span := {}
      context := "default"
      content := { body := [.labeled {} "$" (.expression {}
        (.assignment {} "=" (.identifier {} "empty") (.unary {} "!" (.identifier {} "rows"))))] } } }

theorem template_wellNested_faultyListing :
    (∀ text ∈ faultyListing.document.strings, Braceless text) ∧
    (∀ text ∈ ({ theme := "site" } : Options).strings, Braceless text) ∧
    ∃ chunks, IsSplit (faultyListing.template
        (faultyListing.context "List" none { theme := "site" }).value { theme := "site" }).value.toList
        chunks ∧
      (∀ other, IsSplit (faultyListing.template
        (faultyListing.context "List" none { theme := "site" }).value { theme := "site" }).value.toList
        other → other = chunks) ∧
      WellNested (keywords chunks) ∧
      keywords chunks = ["set", "for", "set", "set", "else", "if", "block", "endblock", "endif",
        "endfor", "embed", "block", "endblock", "endembed"] := by
  have strings : ∀ text ∈ faultyListing.document.strings, Braceless text := by decide
  have fixed : ∀ text ∈ ({ theme := "site" } : Options).strings, Braceless text := by decide
  obtain ⟨chunks, split, unique, nested⟩ :=
    template_wellNested faultyListing "List" none { theme := "site" } strings fixed
  obtain ⟨outlined, other, -, tagged⟩ := carries_template faultyListing "List" none
    { theme := "site" } strings (by decide) (by decide)
  refine ⟨strings, fixed, chunks, split, unique, nested, ?_⟩
  rw [← unique outlined other, keywords_eq, tagged]
  decide +kernel

/-- A text that can be read in one way only, in which its constructs are not well nested. -/
def Misnested (text : String) : Prop :=
  ∃ chunks, IsSplit text.toList chunks ∧ (∀ other, IsSplit text.toList other → other = chunks) ∧
    ¬ WellNested (keywords chunks)

theorem misnested_of_carries {text : String} {list : List Tag} (h : Carries text.toList list)
    (hw : ¬ WellNested (wordsOf list)) : Misnested text := by
  obtain ⟨chunks, split, spaced, rfl⟩ := h
  refine ⟨chunks, split, fun other ho => split_unique split spaced ho, ?_⟩
  rw [keywords_eq]
  exact hw

/-- A page with a text, which may have a raw form, and a component without arguments or content. -/
def cardPage (raw : Option String) : Component where
  document := { html := { children := [.text ⟨{}, "a", raw⟩, .component {} "Card" [] []] } }

/-- Braces of a namespace are written as they stand. In the first page all other strings are free of
them, but the tag of the component ends inside the quotes, and another one opens a condition that
nothing closes. The same happens in the second page with the raw form of a text. -/
theorem unlisted_braces_misnest :
    (let options : Options := { theme := " %\x7d\x7b% if a" }
     let text := ((cardPage none).template ((cardPage none).context "Page" none options).value
       options).value
     (cardPage none).document.strings = ["a", "Card"] ∧ options.defaultSlot = "content" ∧
     text = "a\x7b% include ' %\x7d\x7b% if a:card' only %\x7d" ∧ Misnested text) ∧
    (let options : Options := { theme := "site" }
     let page := cardPage (some "\x7b% if a %\x7d")
     let text := (page.template (page.context "Page" none options).value options).value
     page.document.strings = ["a", "\x7b% if a %\x7d", "Card"] ∧
     text = "\x7b% if a %\x7d\x7b% include 'site:card' only %\x7d" ∧ Misnested text) := by
  constructor
  · intro options text
    have written : text = "a" ++ (tag "include '" ++ tag "if a:card' only") := by decide +kernel
    have carried : Carries text.toList [.statement "include '", .statement "if a:card' only"] := by
      rw [written, String.toList_append, String.toList_append]
      exact ((carries_tag (.of_braceless (by decide) (by decide))).append
        (carries_tag (.of_braceless (by decide) (by decide)))).append_braceless
          (by decide) (by decide)
    exact ⟨by decide, rfl, written.trans (by decide),
      misnested_of_carries carried (by decide +kernel)⟩
  · intro options page text
    have written : text = tag "if a" ++ tag "include 'site:card' only" := by decide +kernel
    have carried : Carries text.toList [.statement "if a", .statement "include 'site:card' only"] := by
      rw [written, String.toList_append]
      exact (carries_tag (.of_braceless (by decide) (by decide))).append
        (carries_tag (.of_braceless (by decide) (by decide)))
    exact ⟨by decide, written.trans (by decide), misnested_of_carries carried (by decide +kernel)⟩

end TwigComponent
