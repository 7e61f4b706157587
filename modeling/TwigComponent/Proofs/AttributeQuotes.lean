import TwigComponent.Proofs.Braces
import TwigComponent.Proofs.Losses

/-!
# Quotes in attributes

The value of an attribute stands between double quotes, and what ends it is the
first double quote outside of an output tag. Text gets an entity for every quote in
it. The static text of a template literal is copied as it is, so each quote in it is
one more quote outside of the tags. There is no other source of quotes: the tags of
a component without braces in its strings are read as they were written, and so
whatever is quoted in a tag stays in it.
-/
namespace TwigComponent

namespace Source

/-- The static texts of the template literals that are written at the level of markup. -/
def AttributePart.quasis (part : AttributePart) : List String :=
  part.expressions.flatMap Expr.markup

end Source

namespace Twig

open Source Text

/-- The places of the double quotes outside of output tags. The first character stands at
`position`, in a tag if `inside` holds. A tag goes from two opening braces to the next two closing
braces, or to the end of the text. -/
def quotesFrom : (inside : Bool) → (position : Nat) → List Char → List Nat
  | _, _, [] => []
  | false, position, [c] => if c = '"' then [position] else []
  | true, _, [_] => []
  | false, position, c :: d :: rest =>
    if c = '\x7b' ∧ d = '\x7b' then quotesFrom true (position + 2) rest
    else (if c = '"' then [position] else []) ++ quotesFrom false (position + 1) (d :: rest)
  | true, position, c :: d :: rest =>
    if c = '\x7d' ∧ d = '\x7d' then quotesFrom false (position + 2) rest
    else quotesFrom true (position + 1) (d :: rest)

def outsideQuotes (text : String) : List Nat := quotesFrom false 0 text.toList

section Steps

attribute [local simp] quotesFrom

variable {c : Char} {rest : List Char} (position : Nat)

theorem quotesFrom_cons (h : c ≠ '\x7b') :
    quotesFrom false position (c :: rest) =
      (if c = '"' then [position] else []) ++ quotesFrom false (position + 1) rest := by
  cases rest with
  | nil => simp
  | cons d rest => rw [quotesFrom, if_neg fun both => h both.1]

theorem quotesFrom_opening :
    quotesFrom false position ('\x7b' :: '\x7b' :: rest) = quotesFrom true (position + 2) rest := by
  rw [quotesFrom, if_pos ⟨rfl, rfl⟩]

theorem quotesFrom_closing :
    quotesFrom true position ('\x7d' :: '\x7d' :: rest) = quotesFrom false (position + 2) rest := by
  rw [quotesFrom, if_pos ⟨rfl, rfl⟩]

theorem quotesFrom_inside (h : c ≠ '\x7d' ∨ ∀ tail, rest ≠ '\x7d' :: tail) :
    quotesFrom true position (c :: rest) = quotesFrom true (position + 1) rest := by
  cases rest with
  | nil => rfl
  | cons d rest =>
    rw [quotesFrom, if_neg]
    rintro ⟨rfl, rfl⟩
    exact h.elim (· rfl) fun ends => ends rest rfl

theorem quotesFrom_inside_pair {d : Char} (hc : c ≠ '\x7d')
    (hd : d ≠ '\x7d' ∨ ∀ tail, rest ≠ '\x7d' :: tail) :
    quotesFrom true position (c :: d :: rest) = quotesFrom true (position + 2) rest := by
  rw [quotesFrom_inside position (.inl hc), quotesFrom_inside _ hd]

/-- Text without opening braces leaves off outside of tags. -/
theorem quotesFrom_append {cs : List Char} (h : '\x7b' ∉ cs) (rest : List Char) :
    quotesFrom false position (cs ++ rest) =
      quotesFrom false position cs ++ quotesFrom false (position + cs.length) rest := by
  induction cs generalizing position with
  | nil => rfl
  | cons c cs ih =>
    rw [List.mem_cons, not_or] at h
    rw [List.cons_append, quotesFrom_cons position (Ne.symm h.1),
      quotesFrom_cons position (Ne.symm h.1), ih (position + 1) h.2, List.append_assoc,
      List.length_cons, Nat.add_assoc, Nat.add_comm 1]

theorem length_quotesFrom {cs : List Char} (h : '\x7b' ∉ cs) :
    (quotesFrom false position cs).length = cs.count '"' := by
  induction cs generalizing position with
  | nil => rfl
  | cons c cs ih =>
    rw [List.mem_cons, not_or] at h
    rw [quotesFrom_cons position (Ne.symm h.1), List.length_append, ih (position + 1) h.2,
      List.count_cons]
    by_cases quote : c = '"' <;> simp [quote, Nat.add_comm]

end Steps

/-- A closing brace never comes first. -/
theorem Padded.append_ne {cs rest : List Char} (h : Padded cs)
    (hr : ∀ tail, rest ≠ '\x7d' :: tail) :
    ∀ tail, cs ++ rest ≠ '\x7d' :: tail := by
  intro tail heq
  cases cs with
  | nil => exact hr tail heq
  | cons c cs =>
    rw [List.cons_append, List.cons.injEq] at heq
    exact @Padded.head_ne (c :: cs) cs h (by rw [heq.1])

/-- A padded text that stands in a tag is read to its end. -/
theorem Padded.quotesFrom {cs rest : List Char} (h : Padded cs)
    (hr : ∀ tail, rest ≠ '\x7d' :: tail) (position : Nat) :
    Twig.quotesFrom true position (cs ++ rest) =
      Twig.quotesFrom true (position + cs.length) rest := by
  induction h generalizing position with
  | nil => rfl
  | char _ hclose _ ih =>
    rw [List.cons_append, quotesFrom_inside position (.inl hclose), ih, List.length_cons,
      Nat.add_assoc, Nat.add_comm 1]
  | opening _ ih =>
    rw [List.cons_append, List.cons_append,
      quotesFrom_inside_pair position (by decide) (.inl (by decide)), ih, Nat.add_assoc,
      Nat.add_comm 2]
    rfl
  | closing hs ih =>
    rw [List.cons_append, List.cons_append,
      quotesFrom_inside_pair position (by decide) (.inr (hs.append_ne hr)), ih, Nat.add_assoc,
      Nat.add_comm 2]
    rfl
  | both hs ih =>
    rw [List.cons_append, List.cons_append,
      quotesFrom_inside_pair position (by decide) (.inr (hs.append_ne hr)), ih, Nat.add_assoc,
      Nat.add_comm 2]
    rfl

/-- How many double quotes there are in texts. -/
def quoteCount (texts : List String) : Nat := (texts.flatMap String.toList).count '"'

theorem quoteCount_eq_zero {texts : List String} :
    quoteCount texts = 0 ↔ ∀ text ∈ texts, '"' ∉ text.toList := by
  simp [quoteCount, List.count_eq_zero]

theorem quoteCount_append (first second : List String) :
    quoteCount (first ++ second) = quoteCount first + quoteCount second := by
  simp [quoteCount]

/-- Wherever the text stands outside of tags, it has this number of quotes outside of its own tags,
and what follows it is outside again. -/
structure ShowsQuotes (text : String) (quotes : Nat) : Prop where
  ends (position : Nat) (rest : List Char) :
    quotesFrom false position (text.toList ++ rest) =
      quotesFrom false position text.toList ++ quotesFrom false (position + text.length) rest
  count (position : Nat) : (quotesFrom false position text.toList).length = quotes

namespace ShowsQuotes

variable {a b text : String} {m n : Nat}

theorem append (h : ShowsQuotes a m) (k : ShowsQuotes b n) : ShowsQuotes (a ++ b) (m + n) where
  ends position rest := by
    rw [String.toList_append, List.append_assoc, h.ends, h.ends, k.ends, String.length_append,
      List.append_assoc, Nat.add_assoc]
  count position := by
    rw [String.toList_append, h.ends, List.length_append, h.count, k.count]

theorem join {α : Type} {items : List α} {write : α → String} {texts : α → List String}
    (h : ∀ item ∈ items, ShowsQuotes (write item) (quoteCount (texts item))) :
    ShowsQuotes (String.join (items.map write)) (quoteCount (items.flatMap texts)) := by
  induction items with
  | nil => exact ⟨fun _ _ => rfl, fun _ => rfl⟩
  | cons first rest ih =>
    rw [List.forall_mem_cons] at h
    rw [List.map_cons, String.join_cons, List.flatMap_cons, quoteCount_append]
    exact h.1.append (ih h.2)

theorem of_braceless (h : Braceless text) : ShowsQuotes text (text.toList.count '"') where
  ends position rest := by rw [quotesFrom_append position h.1, String.length_toList]
  count position := length_quotesFrom position h.1

theorem outputTag (h : Padded text.toList) : ShowsQuotes (Twig.outputTag text) 0 := by
  have skipped : ∀ position rest, quotesFrom false position ((Twig.outputTag text).toList ++ rest) =
      quotesFrom false (position + (Twig.outputTag text).length) rest := by
    intro position rest
    have chars : (Twig.outputTag text).toList ++ rest =
        '\x7b' :: '\x7b' :: ((' ' :: text.toList) ++ (' ' :: '\x7d' :: '\x7d' :: rest)) := by
      simp [Twig.outputTag]
    have body : Padded (' ' :: text.toList) := .char (by decide) (by decide) h
    rw [chars, quotesFrom_opening, body.quotesFrom (by simp), quotesFrom_inside _ (.inl (by decide)),
      quotesFrom_closing]
    have length : (Twig.outputTag text).length = text.length + 6 := by
      rw [Twig.outputTag, String.length_append, String.length_append]
      change 3 + text.length + 3 = text.length + 6
      omega
    rw [length, List.length_cons, String.length_toList]
    congr 1
    omega
  have nothing : ∀ position, quotesFrom false position (Twig.outputTag text).toList = [] := by
    intro position
    simpa [quotesFrom] using skipped position []
  exact ⟨fun position rest => by rw [skipped, nothing, List.nil_append],
    fun position => by rw [nothing, List.length_nil]⟩

end ShowsQuotes

theorem count_quotedText (text : String) : (quotedText text).toList.count '"' = 0 := by
  rw [quotedText, String.toList_ofList, List.count_eq_zero, List.mem_flatMap]
  rintro ⟨c, -, quote⟩
  unfold quotedChar at quote
  split at quote
  · exact absurd quote (by decide)
  · rename_i other
    exact other (List.mem_singleton.mp quote).symm

namespace ShowsQuotes

theorem outputExpression {e : Expr} (h : ∀ text ∈ e.strings, Braceless text) :
    ShowsQuotes (Twig.outputExpression e).value 0 := by
  rw [Twig.outputExpression, Report.value_bind, Report.value_pure]
  split
  · exact of_braceless (by decide)
  · exact outputTag (padded_expression h .template)

/-- At the level of markup an expression has the quotes of its static text. -/
theorem interpolate {e : Expr} (h : ∀ text ∈ e.strings, Braceless text) :
    ShowsQuotes (Twig.interpolate e).value (quoteCount e.markup) := by
  cases e with
  | template span segments =>
    have segmentQuotes : ∀ segment ∈ segments,
        ShowsQuotes (segmentMarkup segment).value (quoteCount segment.strings) := by
      intro segment hs
      cases segment with
      | text content =>
        have own : content ∈ (Expr.template span segments).ownStrings :=
          List.mem_flatMap.mpr ⟨_, hs, List.mem_singleton.mpr rfl⟩
        have content := of_braceless
          (h content (List.mem_flatMap.mpr ⟨_, Expr.mem_subexpressions_self _, own⟩))
        simpa [quoteCount, Segment.strings, segmentMarkup] using content
      | expression inner =>
        refine outputExpression (List.forall_mem_flatMap.mpr fun e he text ht => h text ?_)
        refine List.mem_flatMap.mpr ⟨e, ?_, ht⟩
        rw [Expr.subexpressions, segmentExpressions_eq]
        refine List.mem_cons_of_mem _ (List.mem_flatMap.mpr ⟨_, hs, ?_⟩)
        simpa [Segment.expressions] using he
    rw [Twig.interpolate, Report.value_concat, Expr.markup]
    exact join segmentQuotes
  | _ => exact outputExpression h

theorem attributePart {part : AttributePart} (h : ∀ text ∈ part.strings, Braceless text) :
    ShowsQuotes (attributePartMarkup part).value (quoteCount part.quasis) := by
  cases part with
  | text content =>
    have quoted := of_braceless (Braceless.sourceText h).quotedText
    rwa [count_quotedText] at quoted
  | mustache span e =>
    simpa [AttributePart.quasis, AttributePart.expressions, attributePartMarkup] using interpolate h
  | shorthand span e =>
    simpa [AttributePart.quasis, AttributePart.expressions, attributePartMarkup] using interpolate h

end ShowsQuotes

/-- The quotes of a value between the two around it. -/
theorem outsideQuotes_quoted {name value : String} {n : Nat} (hn : ShowsQuotes name 0)
    (hv : ShowsQuotes value n) :
    outsideQuotes (name ++ "=\"" ++ value ++ "\"") =
      (name.length + 1) :: (quotesFrom false (name.length + 2) value.toList
        ++ [(name ++ "=\"" ++ value ++ "\"").length - 1]) := by
  have opening : ShowsQuotes "=\"" 1 := .of_braceless (by decide)
  have silent : quotesFrom false 0 name.toList = [] := List.length_eq_zero_iff.mp (hn.count 0)
  have first : ∀ position, quotesFrom false position "=\"".toList = [position + 1] := fun _ => rfl
  have last : ∀ position, quotesFrom false position "\"".toList = [position] := fun _ => rfl
  simp only [outsideQuotes, String.toList_append, List.append_assoc, hn.ends, opening.ends, hv.ends,
    silent, first, last, String.length_append, Nat.zero_add, List.nil_append, List.cons_append]
  rfl

/-- A rendered attribute whose name has no quote, and none of whose strings has a brace, has a quote
behind its name, one at its end, and outside of its tags one more for every quote in the static text
of its template literals. So the quotes outside of the tags are the two around the value if and only
if there is no quote in that text. Quotes in text and in tags make no difference. -/
theorem quotes_outside_tags (span : Span) (name : String) (parts : List AttributePart)
    (unquoted : '"' ∉ name.toList)
    (braceless : ∀ text ∈ (Attribute.normal span name (.parts parts)).strings, Braceless text) :
    ∃ value : String,
      let rendered := name ++ "=\"" ++ value ++ "\""
      (attributeMarkup (.normal span name (.parts parts))).value = " " ++ rendered ∧
      (outsideQuotes rendered).length = 2 + quoteCount (parts.flatMap AttributePart.quasis) ∧
      (outsideQuotes rendered = [name.length + 1, rendered.length - 1] ↔
        ∀ quasi ∈ parts.flatMap AttributePart.quasis, '"' ∉ quasi.toList) := by
  rw [Attribute.strings, List.forall_mem_cons, AttributeValue.strings, List.forall_mem_flatMap]
    at braceless
  have named : ShowsQuotes name 0 := by
    simpa [List.count_eq_zero.mpr unquoted] using ShowsQuotes.of_braceless braceless.1
  have content : ShowsQuotes (String.join (parts.map fun part => (attributePartMarkup part).value))
      (quoteCount (parts.flatMap AttributePart.quasis)) :=
    ShowsQuotes.join fun part hp => ShowsQuotes.attributePart (braceless.2 part hp)
  refine ⟨String.join (parts.map fun part => (attributePartMarkup part).value), ?_, ?_, ?_⟩
  · simp [attributeMarkup, String.append_assoc]
  · rw [outsideQuotes_quoted named content, List.length_cons, List.length_append, content.count,
      List.length_singleton]
    omega
  · rw [outsideQuotes_quoted named content, ← quoteCount_eq_zero,
      ← content.count (name.length + 2), List.length_eq_zero_iff, List.cons.injEq]
    simp

/-- Quotes in text and in a tag: `title="say "hi" to {`Mr ${'"x"'}`}"` -/
def quotedTitle : List AttributePart :=
  [.text ⟨{}, "say \"hi\" to ", none⟩,
    .mustache {} (.template {} [.text "Mr ",
      .expression (.literal {} { value := .string "\"x\"", raw := none, regex := none, bigint := none })])]

theorem quotes_outside_tags_quotedTitle :
    ∃ value : String,
      let rendered := "title=\"" ++ value ++ "\""
      (attributeMarkup (.normal {} "title" (.parts quotedTitle))).value = " " ++ rendered ∧
        outsideQuotes rendered = [6, rendered.length - 1] := by
  obtain ⟨value, written, -, unbroken⟩ :=
    quotes_outside_tags {} "title" quotedTitle (by decide) (by decide)
  exact ⟨value, written, unbroken.mpr (by decide)⟩

/-- The quote in the static text of `class={`a"b`}` ends the value. -/
theorem quasi_ends_value :
    let parts : List AttributePart := [.mustache {} (.template {} [.text "a\"b"])]
    (∀ text ∈ (Attribute.normal {} "class" (.parts parts)).strings, Braceless text) ∧
      (attributeMarkup (.normal {} "class" (.parts parts))).value = " class=\"a\"b\"" ∧
      outsideQuotes "class=\"a\"b\"" = [6, 8, 10] := by
  decide

end Twig

end TwigComponent
