import TwigComponent.Proofs.MarkupWriting
import TwigComponent.Proofs.Strings
import TwigComponent.Proofs.Words

/-!
# Texts inside tags

What stands in a tag is put together from names, quoted strings, numbers and the
marks between them, and the only braces among these marks are those of hash
literals. So a property of texts holds of everything that is written inside a
tag if it goes over to joined texts, holds of the marks, and holds of the texts
that come from the strings of the component. The induction over expressions is
done once for all such properties.
-/
namespace TwigComponent

namespace Twig

open Source Text

/-- A text without braces and single quotes. -/
def Plain (text : String) : Prop := ∀ c ∈ text.toList, c ≠ '\x7b' ∧ c ≠ '\x7d' ∧ c ≠ '\''

instance : DecidablePred Plain := fun text => List.decidableBAll _ text.toList

namespace Plain

theorem append {a b : String} (ha : Plain a) (hb : Plain b) : Plain (a ++ b) := by
  intro c hin
  rw [String.toList_append, List.mem_append] at hin
  exact hin.elim (ha c) (hb c)

/-- A text of letters, digits and underscores is plain. -/
theorem of_word {text : String} (h : ∀ c ∈ text.toList, isWordChar c = true) : Plain text := by
  intro c hin
  have allowed := h c hin
  refine ⟨?_, ?_, ?_⟩ <;> rintro rfl <;> exact absurd allowed (by decide)

theorem of_isPlainKey {name : String} (h : isPlainKey name = true) : Plain name :=
  of_word (isWordText_of_isPlainKey h).wordChars

theorem number (value : Json.Number) : Plain value.text := by
  intro c hin
  have numeral := value.isNumeral_of_mem c hin
  refine ⟨?_, ?_, ?_⟩ <;> rintro rfl <;> exact absurd numeral (by decide)

theorem loopVariable (iterable : String) : Plain (Twig.loopVariable iterable) := by
  refine (of_word fun c hin => ?_).append (by decide)
  rw [String.toList_ofList] at hin
  obtain ⟨d, -, rfl⟩ := List.mem_map.mp hin
  split
  · rename_i letter
    rw [isWordChar, letter, Bool.true_or]
  · rfl

end Plain

end Twig

namespace Source

open Twig

/-- The texts that an expression makes of its own strings. A name or a string may also be a key. -/
def Expr.ownTexts : Expr → List String
  | .identifier _ name => [name, hashKey name]
  | .literal _ content => content.value.strings.flatMap fun value => [quote value, hashKey value]
  | .binary _ operator _ _ => [operator]
  | .template _ segments => (segments.flatMap Segment.strings).map quote
  | _ => []

def Expr.texts (e : Expr) : List String := e.subexpressions.flatMap Expr.ownTexts

def Pattern.texts (pattern : Pattern) : List String :=
  pattern.subexpressions.flatMap Expr.ownTexts

def AttributePart.texts : AttributePart → List String
  | .text content => [quote content.data]
  | .mustache _ expression => expression.texts
  | .shorthand _ expression => expression.texts

def AttributeValue.texts : AttributeValue → List String
  | .bool _ => []
  | .parts list => list.flatMap AttributePart.texts

/-- The texts that an attribute brings to the arguments of a component. -/
def Attribute.texts : Attribute → List String
  | .normal _ name value => hashKey name :: value.texts
  | .spread _ expression => expression.texts
  | .unknown => []

end Source

namespace Twig

/-- The text of a member of a literal. -/
def Piece.text : Piece → String
  | .entry text => text
  | .spread source => source

/-- The texts of a group. -/
def Group.texts : Group → List String
  | .entries texts => texts
  | .spread source => [source]

theorem texts_consEntry (text : String) (list : List Group) :
    (consEntry text list).flatMap Group.texts = text :: list.flatMap Group.texts := by
  unfold consEntry
  split <;> simp [Group.texts]

/-- Grouping neither loses a text nor moves one. -/
theorem texts_groups (pieces : List Piece) :
    (groups pieces).flatMap Group.texts = pieces.map Piece.text := by
  induction pieces with
  | nil => rfl
  | cons piece rest ih =>
    cases piece with
    | entry text => rw [groups, texts_consEntry, ih]; rfl
    | spread source => simp [groups, Group.texts, Piece.text, ih]

section Dropping

variable {P : String → Prop} {text : String}

theorem forall_keepEntry (h : P text) : ∀ piece ∈ keepEntry text, P piece.text := by
  unfold keepEntry
  split <;> simp [Piece.text, h]

theorem forall_keepSpread (h : P text) : ∀ piece ∈ keepSpread text, P piece.text := by
  unfold keepSpread
  split <;> simp [Piece.text, h]

theorem forall_keepText (h : P text) : ∀ kept ∈ keepText text, P kept := by
  unfold keepText
  split <;> simp [h]

end Dropping

theorem plain_unaryOperator {operator mark : String} (h : unaryOperator? operator = some mark) :
    Plain mark := by
  unfold unaryOperator? at h
  split at h
  · cases h
    decide
  · split at h
    · cases h
      decide
    · split at h
      · cases h
        decide
      · cases h

/-- A property of texts that goes over to what the writers make of them. -/
structure Kept (P : String → Prop) : Prop where
  append {a b : String} : P a → P b → P (a ++ b)
  plain {text : String} : Plain text → P text
  emptyString : P "''"
  hashOpening : P "\x7b "
  hashClosing : P " \x7d"
  emptyHash : P "\x7b\x7d"

end Twig

namespace Twig.Kept

open Source Text

variable {P : String → Prop} (K : Kept P)
include K

section Joining

variable {text : String} {texts : List String}

theorem nothing : P "" := K.plain (by decide)

theorem wrap {before after : String} (hb : Plain before) (h : P text) (ha : Plain after) :
    P (before ++ text ++ after) :=
  K.append (K.append (K.plain hb) h) (K.plain ha)

theorem between {left middle right : String} (hl : P left) (hm : Plain middle) (hr : P right) :
    P (left ++ middle ++ right) :=
  K.append (K.append hl (K.plain hm)) hr

theorem join (h : ∀ text ∈ texts, P text) : P (String.join texts) := by
  induction texts with
  | nil => exact K.nothing
  | cons text rest ih =>
    rw [List.forall_mem_cons] at h
    rw [String.join_cons]
    exact K.append h.1 (ih h.2)

theorem parenthesize (h : P text) : P (Twig.parenthesize text) := by
  unfold Twig.parenthesize
  split
  · exact K.nothing
  · exact K.wrap (by decide) h (by decide)

theorem groupOperand (e : Expr) (h : P text) : P (Twig.groupOperand e text) := by
  unfold Twig.groupOperand
  split
  · exact K.parenthesize h
  · exact h

theorem groupFiltered (e : Expr) (h : P text) : P (Twig.groupFiltered e text) := by
  unfold Twig.groupFiltered
  split
  · exact K.parenthesize (K.groupOperand e h)
  · exact K.groupOperand e h

theorem intercalate {separator : String} (hs : Plain separator) (h : ∀ text ∈ texts, P text) :
    P (separator.intercalate texts) := by
  induction texts with
  | nil => exact K.nothing
  | cons text rest ih =>
    rw [List.forall_mem_cons] at h
    cases rest with
    | nil => simpa using h.1
    | cons next rest =>
      rw [String.intercalate_cons_cons]
      exact K.between h.1 hs (ih h.2)

theorem concatenation (h : ∀ text ∈ texts, P text) : P (Twig.concatenation texts) := by
  unfold Twig.concatenation
  split
  · exact K.emptyString
  · exact K.intercalate (by decide) h

theorem arrayLiteral (h : ∀ text ∈ texts, P text) : P (Twig.arrayLiteral texts) :=
  K.wrap (by decide) (K.intercalate (by decide) h) (by decide)

theorem hashLiteral (h : ∀ text ∈ texts, P text) : P (Twig.hashLiteral texts) :=
  K.append (K.append K.hashOpening (K.intercalate (by decide) h)) K.hashClosing

end Joining

theorem mergeChain {literal : List String → String}
    (hl : ∀ texts, (∀ text ∈ texts, P text) → P (literal texts))
    {pieces : List Piece} (h : ∀ piece ∈ pieces, P piece.text) :
    P (Twig.mergeChain literal (groups pieces)) := by
  have written : ∀ group ∈ groups pieces, P (group.write literal) := by
    intro group hin
    have texts : ∀ text ∈ group.texts, P text := by
      intro text ht
      have listed : text ∈ (groups pieces).flatMap Group.texts :=
        List.mem_flatMap.mpr ⟨group, hin, ht⟩
      rw [texts_groups, List.mem_map] at listed
      obtain ⟨piece, hp, rfl⟩ := listed
      exact h piece hp
    cases group with
    | entries list => exact hl list texts
    | spread source => exact texts source (by simp [Group.texts])
  cases hg : groups pieces with
  | nil => exact K.nothing
  | cons first rest =>
    rw [hg, List.forall_mem_cons] at written
    refine K.append written.1 (K.join fun text ht => ?_)
    obtain ⟨group, hin, rfl⟩ := List.mem_map.mp ht
    exact K.wrap (by decide) (written.2 group hin) (by decide)

theorem writeArray {pieces : List Piece} (h : ∀ piece ∈ pieces, P piece.text) :
    P (Twig.writeArray pieces) := by
  unfold Twig.writeArray
  split
  · exact K.plain (by decide)
  · exact K.mergeChain (fun _ => K.arrayLiteral) h

theorem writeHash {pieces : List Piece} (h : ∀ piece ∈ pieces, P piece.text) :
    P (Twig.writeHash pieces) := by
  unfold Twig.writeHash
  split
  · exact K.emptyHash
  · exact K.mergeChain (fun _ => K.hashLiteral) h

section Expressions

theorem literalText {literal : Literal}
    (h : ∀ value ∈ literal.value.strings, P (quote value)) :
    P (settledText (Twig.literalText literal)) := by
  obtain ⟨value, raw, regex, bigint⟩ := literal
  match regex, bigint, value with
  | some _, _, _ => exact K.nothing
  | none, some _, _ => exact K.nothing
  | none, none, .string value => exact h value (by simp [LiteralValue.strings])
  | none, none, .number value => exact K.plain (.number value)
  | none, none, .boolean true => exact K.plain (by decide : Plain "true")
  | none, none, .boolean false => exact K.plain (by decide : Plain "false")
  | none, none, .null => exact K.plain (by decide : Plain "null")

theorem keyText {key : Expr} (h : ∀ text ∈ key.ownTexts, P text) :
    P (settledText (Twig.keyText key)) := by
  cases key with
  | identifier span name => exact h (hashKey name) (by simp [Expr.ownTexts])
  | literal span literal =>
    have strings : ∀ value ∈ literal.value.strings, P (quote value) := fun value hv =>
      h _ (List.mem_flatMap.mpr ⟨value, hv, by simp⟩)
    cases hv : literal.value with
    | string value =>
      rw [Twig.keyText, hv]
      exact h (hashKey value) (by simp [Expr.ownTexts, hv, LiteralValue.strings])
    | number value =>
      rw [Twig.keyText, hv]
      exact K.plain (.number value)
    | boolean value =>
      rw [Twig.keyText, hv]
      exact K.literalText strings
    | null =>
      rw [Twig.keyText, hv]
      exact K.literalText strings
  | _ => exact K.nothing

theorem binaryOperator {operator : String} (h : P operator) : P (Twig.binaryOperator operator) := by
  unfold Twig.binaryOperator
  split
  · exact K.plain (by decide)
  · split
    · exact K.plain (by decide)
    · exact h

theorem logical (mode : Mode) (operator : LogicalOperator) (left right : Expr)
    {leftText rightText : String} (hl : P leftText) (hr : P rightText) :
    P (operator.write mode left leftText right rightText) := by
  have grouped : ∀ middle, Plain middle →
      P (Twig.groupOperand left leftText ++ middle ++ Twig.groupOperand right rightText) :=
    fun middle hm => K.between (K.groupOperand left hl) hm (K.groupOperand right hr)
  cases mode <;> cases operator
  case value.or =>
    exact K.append (K.between (K.groupFiltered left hl) (by decide) hr) (K.plain (by decide))
  all_goals exact grouped _ (by decide)

theorem propertyEntry {key value : Expr} (computed method : Bool)
    (hs : ∀ text ∈ key.ownTexts, P text) (hk : P (expression .value key).value)
    (hv : P (expression .value value).value) :
    P (settledText (Twig.propertyEntry key value computed method).value) := by
  have written : P (settledText (propertyKey key computed).value) := by
    cases computed with
    | true =>
      rw [propertyKey, if_pos rfl, Report.value_map]
      split
      · exact K.nothing
      · exact K.parenthesize hk
    | false => exact K.keyText hs
  cases method with
  | true => exact K.nothing
  | false =>
    rw [Twig.propertyEntry, if_neg (by decide), Report.value_bind]
    split
    · exact K.nothing
    · rename_i name hn
      rw [hn] at written
      rw [Report.value_bind]
      split
      · exact K.nothing
      · exact K.between written (by decide) hv

theorem elementPiece {element : Option Expr}
    (he : ∀ e, element = some e → P (expression .value e).value)
    (hs : ∀ span argument, element = some (.spread span argument) →
      P (expression .value argument).value) :
    ∀ piece ∈ (Twig.elementPiece element).value, P piece.text := by
  unfold Twig.elementPiece
  split
  · simpa [Piece.text] using K.plain (by decide : Plain "null")
  · exact forall_keepSpread (K.groupFiltered _ (hs _ _ rfl))
  · exact forall_keepEntry (he _ rfl)

theorem memberPiece {member : Member}
    (h : ∀ e ∈ member.expressions, P (expression .value e).value ∧ ∀ text ∈ e.ownTexts, P text) :
    ∀ piece ∈ (Twig.memberPiece member).value, P piece.text := by
  cases member with
  | property span key value computed shorthand method =>
    obtain ⟨hk, hs⟩ := h key (by simp [Member.expressions])
    obtain ⟨hv, -⟩ := h value (by simp [Member.expressions])
    rw [Twig.memberPiece, Report.value_map, value_settle]
    exact forall_keepEntry (K.propertyEntry computed method hs hk hv)
  | spread span argument =>
    obtain ⟨ha, -⟩ := h argument (by simp [Member.expressions])
    exact forall_keepSpread (K.groupFiltered argument ha)

theorem segmentText (mode : Mode) {segment : Segment}
    (hs : ∀ text ∈ segment.strings, P (quote text))
    (he : ∀ e ∈ segment.expressions, P (expression mode e).value) :
    ∀ text ∈ (Twig.segmentText mode segment).value, P text := by
  cases segment with
  | text content =>
    simpa [Twig.segmentText] using hs content (by simp [Segment.strings])
  | expression inner =>
    exact forall_keepText (K.groupOperand inner (he inner (by simp [Segment.expressions])))

theorem of_subexpressions (e : Expr)
    (h : ∀ inner ∈ e.subexpressions, ∀ text ∈ inner.ownTexts, P text) :
    ∀ mode, P (expression mode e).value := by
  induction e using Expr.induction with
  | identifier span name =>
    intro mode
    rw [value_identifier]
    exact h _ (Expr.mem_subexpressions_self _) name (by simp [Expr.ownTexts])
  | literal span literal =>
    intro mode
    rw [value_literal]
    refine K.literalText fun value hv => ?_
    exact h _ (Expr.mem_subexpressions_self _) _ (List.mem_flatMap.mpr ⟨value, hv, by simp⟩)
  | binary span operator left right hl hr =>
    intro mode
    simp only [Expr.subexpressions, List.forall_mem_cons, List.forall_mem_append] at h
    have operatorText := K.binaryOperator (h.1 operator (by simp [Expr.ownTexts]))
    have middle := K.wrap (by decide : Plain " ") operatorText (by decide : Plain " ")
    rw [value_binary, value_operand, value_operand]
    have whole := K.append (K.append (K.groupOperand left (hl h.2.1 mode)) middle)
      (K.groupOperand right (hr h.2.2 mode))
    simpa [String.append_assoc] using whole
  | logical span operator left right hl hr =>
    intro mode
    simp only [Expr.subexpressions, List.forall_mem_cons, List.forall_mem_append] at h
    rw [value_logical]
    split
    · exact K.logical mode _ left right (hl h.2.1 mode) (hr h.2.2 mode)
    · exact K.nothing
  | conditional span test consequent alternate ht hc ha =>
    intro mode
    simp only [Expr.subexpressions, List.forall_mem_cons, List.forall_mem_append] at h
    rw [value_conditional]
    refine K.between (K.between ?_ (by decide) ?_) (by decide) ?_
    · exact K.groupOperand test (ht h.2.1.1 .template)
    · exact K.groupOperand consequent (hc h.2.1.2 mode)
    · exact K.groupOperand alternate (ha h.2.2 mode)
  | unary span operator argument ih =>
    intro mode
    simp only [Expr.subexpressions, List.forall_mem_cons] at h
    rw [value_unary]
    split
    · rename_i mark hm
      exact K.append (K.plain (plain_unaryOperator hm)) (K.groupOperand argument (ih h.2 mode))
    · exact K.nothing
  | call span callee arguments optional hc ha =>
    intro mode
    simp only [Expr.subexpressions, argumentExpressions_eq, List.forall_mem_cons,
      List.forall_mem_append, List.mem_flatMap] at h
    have texts : P (", ".intercalate (arguments.map fun argument =>
        (expression mode argument).value)) := by
      refine K.intercalate (by decide) fun text ht => ?_
      obtain ⟨argument, hin, rfl⟩ := List.mem_map.mp ht
      exact ha argument hin (fun inner hi => h.2.2 inner ⟨argument, hin, hi⟩) mode
    rw [value_call]
    split
    · exact texts
    · split
      · exact K.nothing
      · have calleeText := K.groupOperand callee (hc h.2.1 mode)
        exact K.append (K.between calleeText (by decide) texts) (K.plain (by decide))
  | member span receiver property computed optional hr hp =>
    intro mode
    simp only [Expr.subexpressions, List.forall_mem_cons, List.forall_mem_append] at h
    have receiverText := K.groupOperand receiver (hr h.2.1 mode)
    rw [value_member]
    split
    · exact K.nothing
    · split
      · exact K.append (K.between receiverText (by decide) (hp h.2.2 mode)) (K.plain (by decide))
      · split
        · rename_i name hn
          cases property <;> cases hn
          have named := hp h.2.2 mode
          rw [value_identifier] at named
          exact K.between receiverText (by decide) named
        · exact K.nothing
  | chain span inner ih =>
    simp only [Expr.subexpressions, List.forall_mem_cons] at h
    simpa using ih h.2
  | array span elements he hs =>
    intro mode
    simp only [Expr.subexpressions, elementExpressions_eq, List.forall_mem_cons,
      List.mem_flatMap] at h
    rw [value_array]
    refine K.writeArray fun piece hp => ?_
    obtain ⟨element, hin, hp⟩ := List.mem_flatMap.mp hp
    refine K.elementPiece (fun e hk => ?_) (fun place argument hk => ?_) piece hp <;> subst hk
    · exact he e hin (fun inner hi => h.2 inner ⟨_, hin, e, by simp, hi⟩) .value
    · refine hs place argument hin (fun inner hi => ?_) .value
      refine h.2 inner ⟨_, hin, .spread place argument, by simp, ?_⟩
      simp [Expr.subexpressions, hi]
  | object span members ih =>
    intro mode
    simp only [Expr.subexpressions, memberExpressions_eq, List.forall_mem_cons,
      List.mem_flatMap] at h
    rw [value_object]
    refine K.writeHash fun piece hp => ?_
    obtain ⟨member, hin, hp⟩ := List.mem_flatMap.mp hp
    refine K.memberPiece (fun e he => ?_) piece hp
    have inside : ∀ inner ∈ e.subexpressions, ∀ text ∈ inner.ownTexts, P text :=
      fun inner hi => h.2 inner ⟨member, hin, e, he, hi⟩
    exact ⟨ih member hin e he inside .value, inside e e.mem_subexpressions_self⟩
  | spread span argument ih =>
    intro mode
    simp only [Expr.subexpressions, List.forall_mem_cons] at h
    rw [value_spread]
    exact K.append (K.plain (by decide)) (K.groupOperand argument (ih h.2 mode))
  | template span segments ih =>
    intro mode
    simp only [Expr.subexpressions, segmentExpressions_eq, List.forall_mem_cons,
      List.mem_flatMap] at h
    rw [value_template]
    refine K.concatenation fun text ht => ?_
    obtain ⟨segment, hin, ht⟩ := List.mem_flatMap.mp ht
    refine K.segmentText mode (fun own ho => ?_) (fun e he => ?_) text ht
    · exact h.1 _ (List.mem_map_of_mem (List.mem_flatMap.mpr ⟨segment, hin, ho⟩))
    · exact ih segment hin e he (fun inner hi => h.2 inner ⟨segment, hin, e, he, hi⟩) mode
  | assignment span operator target value _ =>
    intro mode
    rw [value_assignment]
    exact K.nothing
  | unknown =>
    intro mode
    rw [value_unknown]
    exact K.nothing

/-- The text of an expression has the property in either mode and whatever is dropped in it. -/
theorem expression {e : Expr} (h : ∀ text ∈ e.texts, P text) (mode : Mode) :
    P (Twig.expression mode e).value :=
  K.of_subexpressions e (List.forall_mem_flatMap.mp h) mode

end Expressions

section Arguments

theorem partTexts {part : AttributePart} (h : ∀ text ∈ part.texts, P text) :
    ∀ text ∈ (Twig.partTexts part).value, P text := by
  have kept : ∀ e : Expr, (∀ text ∈ e.texts, P text) →
      ∀ text ∈ (keepText <$> operand .value e).value, P text :=
    fun e he => forall_keepText (K.groupOperand e (K.expression he .value))
  cases part with
  | text content =>
    have quoted := h (quote content.data) (by simp [AttributePart.texts])
    rw [Twig.partTexts, Report.value_pure]
    split <;> simp [quoted]
  | mustache span e => exact kept e h
  | shorthand span e => exact kept e h

theorem attributeValue {value : AttributeValue} (h : ∀ text ∈ value.texts, P text) :
    P (Twig.attributeValue value).value := by
  unfold Twig.attributeValue
  split
  · rename_i flag
    cases flag
    · exact K.plain (by decide : Plain "false")
    · exact K.plain (by decide : Plain "true")
  · exact K.expression (by simpa [AttributeValue.texts, AttributePart.texts] using h) .value
  · exact K.expression (by simpa [AttributeValue.texts, AttributePart.texts] using h) .value
  · rw [Report.value_map, value_partsTexts]
    refine K.concatenation fun text ht => ?_
    obtain ⟨part, hp, ht⟩ := List.mem_flatMap.mp ht
    exact K.partTexts (List.forall_mem_flatMap.mp h part hp) text ht

theorem attributePieces {item : Attribute} (h : ∀ text ∈ item.texts, P text) :
    ∀ piece ∈ (Twig.attributePieces item).value, P piece.text := by
  cases item with
  | normal span name value =>
    rw [Attribute.texts, List.forall_mem_cons] at h
    have entry : P (hashKey name ++ ": " ++ (Twig.attributeValue value).value) :=
      K.between h.1 (by decide) (K.attributeValue h.2)
    rw [Twig.attributePieces, Report.value_bind, Report.value_pure]
    split
    · simp
    · simpa [Piece.text] using entry
  | spread span e => exact forall_keepSpread (K.groupFiltered e (K.expression h .value))
  | unknown => simp [Twig.attributePieces]

/-- The reference to a component with its arguments. -/
theorem componentCall {options : Options} {name : String} {attributes : List Attribute}
    (hr : P (quote (options.componentId name)))
    (h : ∀ text ∈ attributes.flatMap Attribute.texts, P text) :
    P (Twig.componentCall options name (componentArguments attributes).value) := by
  refine K.append (K.append hr ?_) (K.plain (by decide))
  rw [componentArguments, Report.value_bind, Report.value_pure, value_argumentPieces]
  split
  · rename_i text ht
    split at ht
    · cases ht
    · cases ht
      refine K.append (K.plain (by decide)) (K.mergeChain (fun _ => K.hashLiteral) fun piece hp => ?_)
      obtain ⟨item, hi, hp⟩ := List.mem_flatMap.mp hp
      exact K.attributePieces (List.forall_mem_flatMap.mp h item hi) piece hp
  · exact K.nothing

end Arguments

end Twig.Kept

end TwigComponent
