import TwigComponent.Proofs.CoreExpressions
import TwigComponent.Proofs.Words

/-!
# The shapes of core expressions

Seen from its text, a core expression is a word, a quoted string, a list between
brackets, an operand with a link behind it (the name of a member, an index or
the arguments of a call), an operand with a mark before it, or an operand with a
tail behind it: an operator and its right operand, a choice, or a filter. The
modes differ in the tails only.
-/
namespace TwigComponent.Twig

open Source Text

/-- The characters of an expression by itself. -/
def chars (mode : Mode) (e : Expr) : List Char := (expression mode e).value.toList

/-- The characters of an expression that is an operand, or that a filter is attached to. -/
def leadChars (mode : Mode) (filtered : Bool) (e : Expr) : List Char :=
  if filtered then (filterOperand mode e).value.toList else (operand mode e).value.toList

/-- The characters of expressions with commas between them. -/
def listChars (mode : Mode) (list : List Expr) : List Char :=
  (", ".intercalate (list.map fun e => (expression mode e).value)).toList

theorem listChars_cons (mode : Mode) (e : Expr) (rest : List Expr) :
    listChars mode (e :: rest) =
      chars mode e ++ rest.flatMap fun other => ',' :: ' ' :: chars mode other := by
  induction rest generalizing e with
  | nil => simp [listChars, chars]
  | cons next rest ih =>
    have later := ih next
    rw [listChars, List.map_cons, List.map_cons, String.intercalate_cons_cons,
      String.toList_append, String.toList_append]
    change chars mode e ++ [',', ' '] ++ listChars mode (next :: rest) = _
    rw [later]
    simp

theorem parenthesize_toList {text : String} (h : text ≠ "") :
    (parenthesize text).toList = '(' :: (text.toList ++ [')']) := by
  rw [parenthesize, if_neg h]
  simp

theorem Core.not_compound {e : Expr} (h : Core e) (hu : isUnary e = true) :
    needsGrouping e = false := by
  cases h <;> simp_all [isUnary, needsGrouping]

/-- A compound operand stands between parentheses, and so does a unary one under a filter. -/
theorem Core.leadChars_eq {e : Expr} (h : Core e) (mode : Mode) (filtered : Bool) :
    leadChars mode filtered e =
      if needsGrouping e || (filtered && isUnary e) then '(' :: (chars mode e ++ [')'])
      else chars mode e := by
  have grouped := parenthesize_toList (h.value_ne_empty mode)
  unfold leadChars chars
  cases filtered with
  | false =>
    rw [if_neg (by decide), value_operand, groupOperand]
    cases needsGrouping e <;> simp [grouped]
  | true =>
    rw [if_pos rfl, value_filterOperand, groupFiltered, groupOperand]
    cases hu : isUnary e with
    | true => simp [h.not_compound hu, grouped]
    | false => cases needsGrouping e <;> simp [grouped]

/-- What stands behind an operand: the name of a member, an index or the arguments of a call. -/
inductive Link where
  | property (name : String)
  | index (inner : Expr)
  | call (arguments : List Expr)

namespace Link

def expressions : Link → List Expr
  | .property _ => []
  | .index inner => [inner]
  | .call arguments => arguments

def chars (mode : Mode) : Link → List Char
  | .property name => '.' :: name.toList
  | .index inner => '[' :: (Twig.chars mode inner ++ [']'])
  | .call arguments => '(' :: (listChars mode arguments ++ [')'])

def canonical : Link → Link
  | .property name => .property name
  | .index inner => .index inner.canonical
  | .call arguments => .call (arguments.map Expr.canonical)

/-- The expression with the link behind it. -/
def attach (e : Expr) : Link → Expr
  | .property name => .member {} e (.identifier {} name) false false
  | .index inner => .member {} e inner true false
  | .call arguments => .call {} e arguments false

def IsCore : Link → Prop
  | .property name => IsWordText name.toList
  | .index inner => Core inner
  | .call arguments => ∀ argument ∈ arguments, Core argument

end Link

/-- What stands behind the first operand of an expression. -/
inductive Tail where
  | done
  | operator (mark : String) (right : Expr)
  | choice (consequent alternate : Expr)
  | fallback (right : Expr)

namespace Tail

def expressions : Tail → List Expr
  | .done => []
  | .operator _ right => [right]
  | .choice consequent alternate => [consequent, alternate]
  | .fallback right => [right]

def chars (mode : Mode) : Tail → List Char
  | .done => []
  | .operator mark right => ' ' :: (mark.toList ++ ' ' :: leadChars mode false right)
  | .choice consequent alternate =>
    ' ' :: (['?'] ++ ' ' :: (leadChars mode false consequent
      ++ ' ' :: ':' :: ' ' :: leadChars mode false alternate))
  | .fallback right => '|' :: ("default(".toList ++ (Twig.chars mode right ++ [')']))

def canonical : Tail → Tail
  | .done => .done
  | .operator mark right => .operator mark right.canonical
  | .choice consequent alternate => .choice consequent.canonical alternate.canonical
  | .fallback right => .fallback right.canonical

/-- The expression that an operand and a tail make up. -/
def assemble (first : Expr) : Tail → Expr
  | .done => first
  | .operator mark right =>
    if mark = "and" ∨ mark = "?" then .logical {} "&&" first right
    else if mark = "or" then .logical {} "||" first right
    else if mark = "??" then .logical {} "??" first right
    else .binary {} mark first right
  | .choice consequent alternate => .conditional {} first consequent alternate
  | .fallback right => .logical {} "||" first right

def IsCore : Tail → Prop
  | .done => True
  | .operator mark right => ' ' ∉ mark.toList ∧ Core right
  | .choice consequent alternate => Core consequent ∧ Core alternate
  | .fallback right => Core right

end Tail

/-- Names, numbers, truth values and null, with the word that each is written as. -/
inductive WordAtom : Expr → String → Prop
  | name (span : Span) {name : String} : isPlainKey name = true → name ∉ reservedWords →
      WordAtom (.identifier span name) name
  | number (span : Span) (raw : Option String) (n : Nat) :
      WordAtom (.literal span ⟨.number (.int n), raw, none, none⟩) n.repr
  | boolean (span : Span) (raw : Option String) (value : Bool) :
      WordAtom (.literal span ⟨.boolean value, raw, none, none⟩) (booleanText value)
  | null (span : Span) (raw : Option String) :
      WordAtom (.literal span ⟨.null, raw, none, none⟩) "null"

/-- Neither compound nor unary. -/
def IsBare (e : Expr) : Prop := (needsGrouping e || isUnary e) = false

/-- The ways to write a core expression. -/
inductive Shape (mode : Mode) (e : Expr) : Prop
  | word (word : String) (bare : IsBare e) (atom : WordAtom e word)
  | quoted (text : String) (bare : IsBare e)
      (written : chars mode e = '\'' :: (text.toList.flatMap escapeChar ++ ['\'']))
      (canonical : e.canonical = .literal {} ⟨.string text, none, none, none⟩)
  | array (elements : List Expr) (bare : IsBare e) (core : ∀ element ∈ elements, Core element)
      (written : chars mode e = '[' :: (listChars .value elements ++ [']']))
      (canonical : e.canonical = .array {} ((elements.map Expr.canonical).map some))
      (smaller : ∀ element ∈ elements, sizeOf element < sizeOf e)
  | linked (object : Expr) (link : Link) (bare : IsBare e) (core : Core object)
      (notUnary : isUnary object = false) (linkCore : link.IsCore)
      (written : chars mode e = leadChars mode false object ++ link.chars mode)
      (canonical : e.canonical = link.canonical.attach object.canonical)
      (smaller : ∀ part ∈ object :: link.expressions, sizeOf part < sizeOf e)
  | marked (operator mark : String) (argument : Expr) (simple : needsGrouping e = false)
      (unary : isUnary e = true) (core : Core argument) (known : operator ∈ coreUnaryOperators)
      (marks : unaryOperator? operator = some mark)
      (written : chars mode e = mark.toList ++ leadChars mode false argument)
      (canonical : e.canonical = .unary {} operator argument.canonical)
      (smaller : sizeOf argument < sizeOf e)
  | compound (other : Mode) (filtered : Bool) (first : Expr) (tail : Tail)
      (grouped : needsGrouping e = true) (core : Core first) (tailCore : tail.IsCore)
      (written : chars mode e = leadChars other filtered first ++ tail.chars mode)
      (canonical : e.canonical = tail.canonical.assemble first.canonical)
      (smaller : ∀ part ∈ first :: tail.expressions, sizeOf part < sizeOf e)

namespace WordAtom

variable {e e' : Expr} {word : String}

theorem chars_eq (h : WordAtom e word) (mode : Mode) : chars mode e = word.toList := by
  cases h with
  | name span _ _ => rw [chars, value_identifier]
  | number span raw n =>
    rw [chars, value_literal]
    rfl
  | boolean span raw value =>
    rw [chars, value_literal]
    rfl
  | null span raw =>
    rw [chars, value_literal]
    rfl

theorem isWordText (h : WordAtom e word) : IsWordText word.toList := by
  cases h with
  | name span hk _ => exact isWordText_of_isPlainKey hk
  | number span raw n => exact isWordText_repr n
  | boolean span raw value => cases value <;> exact .of_all (by decide) (by decide)
  | null span raw => exact .of_all (by decide) (by decide)

theorem ne_repr {word : String} {c : Char} {cs : List Char} (hw : word.toList = c :: cs)
    (hc : c.isDigit = false) (n : Nat) : word ≠ n.repr := by
  rintro rfl
  rw [Nat.toList_repr] at hw
  have digit := Nat.isDigit_of_mem_toDigits (c := c) (by decide) (by decide)
    (hw ▸ List.mem_cons_self)
  rw [hc] at digit
  cases digit

theorem ne_not (h : WordAtom e word) : word ≠ "not" := by
  cases h with
  | name span _ hr =>
    rintro rfl
    exact hr (by decide)
  | number span raw n => exact Ne.symm (ne_repr (c := 'n') rfl (by decide) n)
  | boolean span raw value => cases value <;> decide
  | null span raw => decide

/-- The expression that a word stands for. -/
def read (word : String) : Expr :=
  if word = "true" then .literal {} ⟨.boolean true, none, none, none⟩
  else if word = "false" then .literal {} ⟨.boolean false, none, none, none⟩
  else if word = "null" then .literal {} ⟨.null, none, none, none⟩
  else if word.toList.all Char.isDigit then
    .literal {} ⟨.number (.int (Nat.ofDigitChars 10 word.toList 0)), none, none, none⟩
  else .identifier {} word

theorem canonical_eq_read (h : WordAtom e word) : e.canonical = read word := by
  cases h with
  | name span hk hr =>
    obtain ⟨c, cs, hw⟩ := List.exists_cons_of_ne_nil (isWordText_of_isPlainKey hk).ne_nil
    have noNumber : word.toList.all Char.isDigit = false := by
      simp [hw, first_of_isPlainKey hk hw]
    simp only [reservedWords, List.mem_cons, not_or] at hr
    rw [read, if_neg hr.1, if_neg hr.2.1, if_neg hr.2.2.1, if_neg (by simp [noNumber])]
    rfl
  | number span raw n =>
    have digits : n.repr.toList.all Char.isDigit = true := by
      rw [Nat.toList_repr, List.all_eq_true]
      exact fun c hc => Nat.isDigit_of_mem_toDigits (by decide) (by decide) hc
    have value : Nat.ofDigitChars 10 n.repr.toList 0 = n := by simp
    rw [read, if_neg (Ne.symm (ne_repr (c := 't') rfl (by decide) n)),
      if_neg (Ne.symm (ne_repr (c := 'f') rfl (by decide) n)),
      if_neg (Ne.symm (ne_repr (c := 'n') rfl (by decide) n)), if_pos digits, value]
    rfl
  | boolean span raw value => cases value <;> rfl
  | null span raw => rfl

end WordAtom

theorem shape_literal (mode : Mode) (span : Span) {content : Literal} (h : IsPlain content) :
    Shape mode (.literal span content) := by
  obtain ⟨value, raw, regex, bigint⟩ := content
  obtain ⟨rfl, rfl, plain⟩ := h
  match value, plain with
  | .string text, _ =>
    refine .quoted text rfl ?_ rfl
    rw [chars, value_literal]
    simp [literalText, Literal.classify, settledText, quote]
  | .number (.int (.ofNat n)), _ => exact .word n.repr rfl (.number span raw n)
  | .boolean value, _ => exact .word _ rfl (.boolean span raw value)
  | .null, _ => exact .word _ rfl (.null span raw)

theorem binaryOperator_core : ∀ operator ∈ coreBinaryOperators,
    ' ' ∉ (binaryOperator operator).toList ∧
    binaryOperator operator ∉ ["and", "?", "or", "??"] ∧
    binaryOperator operator = looseOperator operator := by
  decide

theorem shape_binary (mode : Mode) (span : Span) {operator : String} {left right : Expr}
    (ho : operator ∈ coreBinaryOperators) (hl : Core left) (hr : Core right) :
    Shape mode (.binary span operator left right) := by
  obtain ⟨noBlank, other, loose⟩ := binaryOperator_core operator ho
  simp only [List.mem_cons, List.not_mem_nil, or_false, not_or] at other
  refine .compound mode false left (.operator (binaryOperator operator) right) rfl hl ⟨noBlank, hr⟩
    ?_ ?_ ?_
  · rw [chars, value_binary]
    simp [Tail.chars, leadChars]
  · simp [Tail.canonical, Tail.assemble, other, Expr.canonical, ← loose]
  · simp only [Tail.expressions, List.forall_mem_cons, Expr.binary.sizeOf_spec]
    exact ⟨by omega, by omega, by simp⟩

theorem shape_logical (mode : Mode) (span : Span) {operator : String} {left right : Expr}
    (ho : operator ∈ coreLogicalOperators) (hl : Core left) (hr : Core right) :
    Shape mode (.logical span operator left right) := by
  have small : sizeOf left < sizeOf (Expr.logical span operator left right) ∧
      sizeOf right < sizeOf (Expr.logical span operator left right) := by
    rw [Expr.logical.sizeOf_spec]
    exact ⟨by omega, by omega⟩
  -- In either mode an operator stands between the operands, except for `||` as a value.
  have between : ∀ mark : String, ' ' ∉ mark.toList →
      chars mode (.logical span operator left right) =
        leadChars mode false left ++ (Tail.operator mark right).chars mode →
      (Expr.logical span operator left right).canonical =
        (Tail.operator mark right).canonical.assemble left.canonical →
      Shape mode (.logical span operator left right) := by
    intro mark noBlank written canonical
    refine .compound mode false left (.operator mark right) rfl hl ⟨noBlank, hr⟩ written canonical ?_
    simpa [Tail.expressions] using small
  simp only [coreLogicalOperators, List.mem_cons, List.not_mem_nil, or_false] at ho
  have written := value_logical mode span operator left right
  rcases ho with rfl | rfl | rfl
  · cases mode with
    | template =>
      refine between "and" (by decide) ?_ (by simp [Tail.canonical, Tail.assemble, Expr.canonical])
      rw [chars, written]
      simp [LogicalOperator.ofText?, LogicalOperator.write, Tail.chars, leadChars]
    | value =>
      refine between "?" (by decide) ?_ (by simp [Tail.canonical, Tail.assemble, Expr.canonical])
      rw [chars, written]
      simp [LogicalOperator.ofText?, LogicalOperator.write, Tail.chars, leadChars]
  · cases mode with
    | template =>
      refine between "or" (by decide) ?_ (by simp [Tail.canonical, Tail.assemble, Expr.canonical])
      rw [chars, written]
      simp [LogicalOperator.ofText?, LogicalOperator.write, Tail.chars, leadChars]
    | value =>
      refine .compound .value true left (.fallback right) rfl hl hr ?_ ?_ ?_
      · rw [chars, written]
        simp [LogicalOperator.ofText?, LogicalOperator.write, Tail.chars, leadChars, chars]
      · simp [Tail.canonical, Tail.assemble, Expr.canonical]
      · simpa [Tail.expressions] using small
  · refine between "??" (by decide) ?_ (by simp [Tail.canonical, Tail.assemble, Expr.canonical])
    rw [chars, written]
    cases mode <;> simp [LogicalOperator.ofText?, LogicalOperator.write, Tail.chars, leadChars]

theorem shape_conditional (mode : Mode) (span : Span) {test consequent alternate : Expr}
    (ht : Core test) (hc : Core consequent) (ha : Core alternate) :
    Shape mode (.conditional span test consequent alternate) := by
  refine .compound .template false test (.choice consequent alternate) rfl ht ⟨hc, ha⟩ ?_ ?_ ?_
  · rw [chars, value_conditional]
    simp [Tail.chars, leadChars]
  · simp [Tail.canonical, Tail.assemble, Expr.canonical]
  · simp only [Tail.expressions, List.forall_mem_cons, Expr.conditional.sizeOf_spec]
    exact ⟨by omega, by omega, by omega, by simp⟩

theorem shape_unary (mode : Mode) (span : Span) {operator : String} {argument : Expr}
    (ho : operator ∈ coreUnaryOperators) (ha : Core argument) :
    Shape mode (.unary span operator argument) := by
  have known : ∃ mark, unaryOperator? operator = some mark := by
    simp only [coreUnaryOperators, List.mem_cons, List.not_mem_nil, or_false] at ho
    rcases ho with rfl | rfl | rfl <;> simp [unaryOperator?]
  obtain ⟨mark, hm⟩ := known
  refine .marked operator mark argument rfl rfl ha ho hm ?_ ?_ ?_
  · rw [chars, value_unary, hm]
    simp [leadChars]
  · simp [Expr.canonical]
  · rw [Expr.unary.sizeOf_spec]
    omega

section Linked

variable (mode : Mode) (span : Span) (optional : Bool) {object : Expr}

theorem shape_index (ho : Core object) (hu : isUnary object = false) {inner : Expr}
    (hi : Core inner) : Shape mode (.member span object inner true optional) := by
  refine .linked object (.index inner) rfl ho hu hi ?_ ?_ ?_
  · rw [chars, value_member, if_neg (by simpa using ho.value_ne_empty mode), if_pos rfl]
    simp [Link.chars, leadChars, chars]
  · simp [Link.canonical, Link.attach, Expr.canonical]
  · simp only [Link.expressions, List.forall_mem_cons, Expr.member.sizeOf_spec]
    exact ⟨by omega, by omega, by simp⟩

theorem shape_property (ho : Core object) (hu : isUnary object = false) (place : Span)
    {name : String} (hn : isPlainKey name = true) :
    Shape mode (.member span object (.identifier place name) false optional) := by
  refine .linked object (.property name) rfl ho hu (isWordText_of_isPlainKey hn) ?_ ?_ ?_
  · rw [chars, value_member, if_neg (by simpa using ho.value_ne_empty mode), if_neg (by decide)]
    simp [Link.chars, leadChars, Expr.identifier?]
  · simp [Link.canonical, Link.attach, Expr.canonical]
  · simp only [Link.expressions, List.forall_mem_cons, Expr.member.sizeOf_spec]
    exact ⟨by omega, by simp⟩

theorem shape_call (ho : Core object) (hu : isUnary object = false)
    (hn : object.isObjectEntries = false) {arguments : List Expr}
    (ha : ∀ argument ∈ arguments, Core argument) :
    Shape mode (.call span object arguments optional) := by
  refine .linked object (.call arguments) rfl ho hu ha ?_ ?_ ?_
  · rw [chars, value_call, if_neg (by simp [hn]), if_neg (by simpa using ho.value_ne_empty mode)]
    simp [Link.chars, leadChars, listChars]
  · simp [Link.canonical, Link.attach, Expr.canonical, canonicalArguments_eq]
  · rw [Link.expressions, List.forall_mem_cons, Expr.call.sizeOf_spec]
    refine ⟨by omega, fun argument hin => ?_⟩
    have := List.sizeOf_lt_of_mem hin
    omega

end Linked

theorem shape_array (mode : Mode) (span : Span) {elements : List Expr}
    (h : ∀ element ∈ elements, Core element) : Shape mode (.array span (elements.map some)) := by
  refine .array elements rfl h ?_ ?_ fun element hin => ?_
  · rw [chars, value_array_entries mode span h fun element hin => (h element hin).value_ne_empty _]
    simp [arrayLiteral, listChars]
  · rw [Expr.canonical, canonicalElements_eq]
  · have := List.sizeOf_lt_of_mem (List.mem_map_of_mem (f := some) hin)
    rw [Option.some.sizeOf_spec] at this
    rw [Expr.array.sizeOf_spec]
    omega

/-- Every core expression has one of the shapes, in either mode. -/
theorem Core.shape {e : Expr} (h : Core e) (mode : Mode) : Shape mode e := by
  cases h with
  | identifier span hk hr => exact .word _ rfl (.name span hk hr)
  | literal span hp => exact shape_literal mode span hp
  | binary span ho hl hr => exact shape_binary mode span ho hl hr
  | logical span ho hl hr => exact shape_logical mode span ho hl hr
  | conditional span ht hc ha => exact shape_conditional mode span ht hc ha
  | unary span ho ha => exact shape_unary mode span ho ha
  | index span optional ho hu hi => exact shape_index mode span optional ho hu hi
  | property span place optional ho hu hn => exact shape_property mode span optional ho hu place hn
  | call span optional hc hu hn ha => exact shape_call mode span optional hc hu hn ha
  | array span he => exact shape_array mode span he

end TwigComponent.Twig
