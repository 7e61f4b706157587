import TwigComponent.Proofs.Quoting
import TwigComponent.Proofs.Shapes

/-!
# Reading expressions back

The text of a core expression can be read in one way only. Every part of it is
compared together with what follows it: if two texts agree, and what follows
cannot prolong the part, then the parts agree and so does what follows. The two
modes are read by the same rules, since a text of one mode never means anything
else in the other.
-/
namespace TwigComponent.Twig

open Source Text

/-- Characters that cannot prolong an operand. -/
def isStop (c : Char) : Bool := isBoundary c && c != '.' && c != '[' && c != '('

/-- Characters that end an expression inside a larger one. -/
def isEnd (c : Char) : Bool := c == ')' || c == ']' || c == ','

theorem isBoundary_of_isStop {c : Char} (h : isStop c = true) : isBoundary c = true := by
  simp only [isStop, Bool.and_eq_true] at h
  exact h.1.1.1

theorem isStop_of_isEnd {c : Char} (h : isEnd c = true) : isStop c = true := by
  simp only [isEnd, Bool.or_eq_true, beq_iff_eq] at h
  rcases h with (rfl | rfl) | rfl <;> decide

section Characters

variable {r s : List Char}

/-- A run of characters of a class ends where the first other character stands. -/
theorem run_end_eq (p : Char → Bool) {w v : List Char} (hw : ∀ c ∈ w, p c = true)
    (hv : ∀ c ∈ v, p c = true) (hr : Starts (fun c => !p c) r) (hs : Starts (fun c => !p c) s)
    (h : w ++ r = v ++ s) : w = v ∧ r = s := by
  induction w generalizing v with
  | nil =>
    cases v with
    | nil => exact ⟨rfl, h⟩
    | cons d v =>
      have inRun := hv d (by simp)
      rw [List.nil_append, List.cons_append] at h
      rw [h, Starts.cons_iff, inRun] at hr
      cases hr
  | cons c w ih =>
    cases v with
    | nil =>
      have inRun := hw c (by simp)
      rw [List.nil_append, List.cons_append] at h
      rw [← h, Starts.cons_iff, inRun] at hs
      cases hs
    | cons d v =>
      rw [List.cons_append, List.cons_append, List.cons.injEq] at h
      rw [List.forall_mem_cons] at hw hv
      obtain ⟨rfl, rest⟩ := ih hw.2 hv.2 h.2
      exact ⟨by rw [h.1], rest⟩

theorem word_end_eq {w v : List Char} (hw : ∀ c ∈ w, isWordChar c = true)
    (hv : ∀ c ∈ v, isWordChar c = true) (hr : Starts isBoundary r) (hs : Starts isBoundary s)
    (h : w ++ r = v ++ s) : w = v ∧ r = s :=
  run_end_eq isWordChar hw hv hr hs h

/-- A quoted string ends at the first quote that is not escaped. -/
theorem quote_end_eq {a b : List Char}
    (h : a.flatMap escapeChar ++ '\'' :: r = b.flatMap escapeChar ++ '\'' :: s) :
    a = b ∧ r = s := by
  have read := readString_escaped a r
  rw [h, readString_escaped, Option.some_inj, Prod.mk.injEq] at read
  exact ⟨read.1.symm, read.2.symm⟩

end Characters

/-- The text does not start with the end of anything. -/
def Opens (text : List Char) : Prop := ∃ c cs, text = c :: cs ∧ isEnd c = false

theorem Opens.append {text : List Char} (h : Opens text) (rest : List Char) :
    Opens (text ++ rest) := by
  obtain ⟨c, cs, rfl, hc⟩ := h
  exact ⟨c, cs ++ rest, rfl, hc⟩

theorem isEnd_of_isWordChar {c : Char} (h : isWordChar c = true) : isEnd c = false := by
  cases he : isEnd c with
  | false => rfl
  | true =>
    have boundary := isBoundary_of_isStop (isStop_of_isEnd he)
    rw [isBoundary, h] at boundary
    cases boundary

theorem IsWordText.opens {text : List Char} (h : IsWordText text) : Opens text := by
  match text, h with
  | c :: cs, h => exact ⟨c, cs, rfl, isEnd_of_isWordChar (h.wordChars c (by simp))⟩

theorem leadChars_opens {e : Expr} (h : Core e) {mode : Mode} (ho : Opens (chars mode e))
    (filtered : Bool) : Opens (leadChars mode filtered e) := by
  rw [h.leadChars_eq]
  split
  · exact ⟨'(', _, rfl, by decide⟩
  · exact ho

theorem Core.opens {e : Expr} (h : Core e) (mode : Mode) : Opens (chars mode e) := by
  -- What comes first in a text is a smaller expression or a character of its own.
  induction hn : sizeOf e using Nat.strongRecOn generalizing e mode with
  | ind n ih =>
    subst hn
    cases h.shape mode with
    | word word _ atom =>
      rw [atom.chars_eq]
      exact atom.isWordText.opens
    | quoted text _ written _ =>
      rw [written]
      exact ⟨_, _, rfl, by decide⟩
    | array elements _ _ written _ _ =>
      rw [written]
      exact ⟨_, _, rfl, by decide⟩
    | linked object link _ core _ _ written _ smaller =>
      rw [written]
      exact (leadChars_opens core (ih _ (smaller _ (by simp)) core mode rfl) false).append _
    | marked operator mark argument _ _ _ known marks written _ _ =>
      rw [written]
      simp only [coreUnaryOperators, List.mem_cons, List.not_mem_nil, or_false] at known
      rcases known with rfl | rfl | rfl <;> cases marks <;> exact ⟨_, _, rfl, by decide⟩
    | compound other filtered first tail _ core _ written _ smaller =>
      rw [written]
      exact (leadChars_opens core (ih _ (smaller _ (by simp)) core other rfl) filtered).append _

/-- The text of the expression, with the end of something behind it, is the text of no other
expression. -/
def Reads (e : Expr) : Prop :=
  ∀ {mode mode' : Mode} {e' : Expr} {r r' : List Char}, Core e' → Starts isEnd r → Starts isEnd r' →
    chars mode e ++ r = chars mode' e' ++ r' → e.canonical = e'.canonical ∧ r = r'

section Lists

variable {mode mode' : Mode} {r r' : List Char} {close : Char}

theorem ends_more (hc : close = ')' ∨ close = ']') (mode : Mode) (list : List Expr)
    (r : List Char) :
    Starts isEnd ((list.flatMap fun e => ',' :: ' ' :: chars mode e) ++ close :: r) := by
  cases list with
  | nil => rcases hc with rfl | rfl <;> simp [isEnd]
  | cons e rest => simp [isEnd]

theorem more_end_eq (hc : close = ')' ∨ close = ']') {list list' : List Expr}
    (reads : ∀ e ∈ list, Reads e) (core : ∀ e ∈ list', Core e)
    (h : (list.flatMap fun e => ',' :: ' ' :: chars mode e) ++ close :: r =
      (list'.flatMap fun e => ',' :: ' ' :: chars mode' e) ++ close :: r') :
    list.map Expr.canonical = list'.map Expr.canonical ∧ r = r' := by
  induction list generalizing list' with
  | nil =>
    cases list' with
    | nil => simpa using h
    | cons e' rest' => rcases hc with rfl | rfl <;> simp at h
  | cons e rest ih =>
    cases list' with
    | nil => rcases hc with rfl | rfl <;> simp at h
    | cons e' rest' =>
      rw [List.forall_mem_cons] at reads core
      simp only [List.flatMap_cons, List.cons_append, List.append_assoc, List.cons.injEq,
        true_and] at h
      obtain ⟨first, others⟩ := reads.1 core.1 (ends_more hc mode rest r)
        (ends_more hc mode' rest' r') h
      obtain ⟨later, behind⟩ := ih reads.2 core.2 others
      exact ⟨by rw [List.map_cons, List.map_cons, first, later], behind⟩

theorem Opens.ne_close (hc : close = ')' ∨ close = ']') {text : List Char} (h : Opens text)
    (r : List Char) : close :: r ≠ text := by
  rintro rfl
  obtain ⟨c, cs, eq, opening⟩ := h
  cases eq
  rcases hc with rfl | rfl <;> exact absurd opening (by decide)

/-- A list ends at the bracket that closes it. -/
theorem list_end_eq (hc : close = ')' ∨ close = ']') {list list' : List Expr}
    (core : ∀ e ∈ list, Core e) (reads : ∀ e ∈ list, Reads e) (core' : ∀ e ∈ list', Core e)
    (h : listChars mode list ++ close :: r = listChars mode' list' ++ close :: r') :
    list.map Expr.canonical = list'.map Expr.canonical ∧ r = r' := by
  cases list with
  | nil =>
    cases list' with
    | nil => simpa [listChars] using h
    | cons e' rest' =>
      rw [listChars_cons] at h
      have opens := ((core' e' (by simp)).opens mode').append
        ((rest'.flatMap fun e => ',' :: ' ' :: chars mode' e) ++ close :: r')
      exact absurd (by simpa [listChars] using h) (opens.ne_close hc r)
  | cons e rest =>
    rw [List.forall_mem_cons] at core reads
    cases list' with
    | nil =>
      rw [listChars_cons] at h
      have opens := (core.1.opens mode).append
        ((rest.flatMap fun e => ',' :: ' ' :: chars mode e) ++ close :: r)
      exact absurd (by simpa [listChars] using h.symm) (opens.ne_close hc r')
    | cons e' rest' =>
      rw [List.forall_mem_cons] at core'
      rw [listChars_cons, listChars_cons, List.append_assoc, List.append_assoc] at h
      obtain ⟨first, others⟩ := reads.1 core'.1 (ends_more hc mode rest r)
        (ends_more hc mode' rest' r') h
      obtain ⟨later, behind⟩ := more_end_eq hc reads.2 core'.2 others
      exact ⟨by rw [List.map_cons, List.map_cons, first, later], behind⟩

end Lists

section Links

variable {mode mode' : Mode} {r r' : List Char}

theorem boundary_links (mode : Mode) (links : List Link) (hr : Starts isStop r) :
    Starts isBoundary (links.flatMap (Link.chars mode) ++ r) := by
  cases links with
  | nil => exact hr.mono fun c => isBoundary_of_isStop
  | cons link rest => cases link <;> simp only [List.flatMap_cons, Link.chars, List.cons_append,
      Starts.cons_iff] <;> decide

theorem link_end_eq {link link' : Link} (core : link.IsCore) (core' : link'.IsCore)
    (reads : ∀ part ∈ link.expressions, Reads part) (hr : Starts isBoundary r)
    (hr' : Starts isBoundary r') (h : link.chars mode ++ r = link'.chars mode' ++ r') :
    link.canonical = link'.canonical ∧ r = r' := by
  cases link with
  | property name =>
    cases link' with
    | property name' =>
      simp only [Link.chars, List.cons_append, List.cons.injEq, true_and] at h
      obtain ⟨same, behind⟩ := word_end_eq core.wordChars core'.wordChars hr hr' h
      exact ⟨by rw [String.toList_inj.mp same], behind⟩
    | index inner' => simp [Link.chars] at h
    | call arguments' => simp [Link.chars] at h
  | index inner =>
    cases link' with
    | property name' => simp [Link.chars] at h
    | index inner' =>
      simp only [Link.chars, List.cons_append, List.append_assoc, List.nil_append, List.cons.injEq,
        true_and] at h
      obtain ⟨same, behind⟩ := reads inner (by simp [Link.expressions]) core'
        (by simp [isEnd]) (by simp [isEnd]) h
      exact ⟨by simp [Link.canonical, same], List.tail_eq_of_cons_eq behind⟩
    | call arguments' => simp [Link.chars] at h
  | call arguments =>
    cases link' with
    | property name' => simp [Link.chars] at h
    | index inner' => simp [Link.chars] at h
    | call arguments' =>
      simp only [Link.chars, List.cons_append, List.append_assoc, List.nil_append, List.cons.injEq,
        true_and] at h
      obtain ⟨same, behind⟩ := list_end_eq (.inl rfl) core reads core' h
      exact ⟨by simp [Link.canonical, same], behind⟩

theorem links_end_eq {links links' : List Link} (core : ∀ link ∈ links, link.IsCore)
    (core' : ∀ link ∈ links', link.IsCore)
    (reads : ∀ link ∈ links, ∀ part ∈ link.expressions, Reads part) (hr : Starts isStop r)
    (hr' : Starts isStop r')
    (h : links.flatMap (Link.chars mode) ++ r = links'.flatMap (Link.chars mode') ++ r') :
    links.map Link.canonical = links'.map Link.canonical ∧ r = r' := by
  -- A link starts with a character at which no operand stops.
  have stops : ∀ (link : Link) (mode : Mode) (rest : List Char),
      ¬ Starts isStop (link.chars mode ++ rest) := by
    intro link mode rest
    cases link <;> simp [Link.chars, isStop]
  induction links generalizing links' with
  | nil =>
    cases links' with
    | nil => exact ⟨rfl, by simpa using h⟩
    | cons link' rest' =>
      rw [List.flatMap_nil, List.nil_append, List.flatMap_cons, List.append_assoc] at h
      exact absurd (h ▸ hr) (stops link' mode' _)
  | cons link rest ih =>
    cases links' with
    | nil =>
      rw [List.flatMap_nil, List.nil_append, List.flatMap_cons, List.append_assoc] at h
      exact absurd (h ▸ hr') (stops link mode _)
    | cons link' rest' =>
      rw [List.forall_mem_cons] at core core' reads
      rw [List.flatMap_cons, List.flatMap_cons, List.append_assoc, List.append_assoc] at h
      obtain ⟨first, others⟩ := link_end_eq core.1 core'.1 reads.1 (boundary_links mode rest hr)
        (boundary_links mode' rest' hr') h
      obtain ⟨later, behind⟩ := ih core.2 core'.2 reads.2 others
      exact ⟨by rw [List.map_cons, List.map_cons, first, later], behind⟩

end Links

/-- What an operand starts with, and its characters. -/
inductive Atom (mode : Mode) : Expr → List Char → Prop
  | word {e : Expr} {word : String} : WordAtom e word → Atom mode e word.toList
  | quoted {e : Expr} (text : String) :
      e.canonical = .literal {} ⟨.string text, none, none, none⟩ →
      Atom mode e ('\'' :: (text.toList.flatMap escapeChar ++ ['\'']))
  | array {e : Expr} (elements : List Expr) : (∀ element ∈ elements, Core element) →
      e.canonical = .array {} ((elements.map Expr.canonical).map some) →
      (∀ element ∈ elements, sizeOf element < sizeOf e) →
      Atom mode e ('[' :: (listChars .value elements ++ [']']))
  | group {e : Expr} : Core e → ¬ IsBare e → Atom mode e ('(' :: (chars mode e ++ [')']))

section Atoms

variable {mode mode' : Mode} {r r' : List Char}

/-- The first character of a word is none of those that start other atoms. -/
theorem IsWordText.ne_cons {text : List Char} (h : IsWordText text) {c : Char}
    (hc : isWordChar c = false) (rest rest' : List Char) : text ++ rest ≠ c :: rest' := by
  match text, h with
  | d :: ds, h =>
    intro eq
    have first := h.wordChars d (by simp)
    cases eq
    rw [hc] at first
    cases first

theorem atom_end_eq {e e' : Expr} {text text' : List Char} (atom : Atom mode e text)
    (atom' : Atom mode' e' text') (own : ¬ IsBare e → Reads e)
    (smaller : ∀ part, sizeOf part < sizeOf e → Core part → Reads part)
    (hr : Starts isBoundary r) (hr' : Starts isBoundary r') (h : text ++ r = text' ++ r') :
    e.canonical = e'.canonical ∧ r = r' := by
  cases atom with
  | word word =>
    have isWord := word.isWordText
    cases atom' with
    | word word' =>
      obtain ⟨same, behind⟩ := word_end_eq isWord.wordChars word'.isWordText.wordChars hr hr' h
      rw [String.toList_inj.mp same] at word
      exact ⟨word.canonical_eq_read.trans word'.canonical_eq_read.symm, behind⟩
    | quoted text' _ => exact absurd h (isWord.ne_cons (by decide) r _)
    | array elements' _ _ _ => exact absurd h (isWord.ne_cons (by decide) r _)
    | group _ _ => exact absurd h (isWord.ne_cons (by decide) r _)
  | quoted text canonical =>
    cases atom' with
    | word word' => exact absurd h.symm (word'.isWordText.ne_cons (by decide) r' _)
    | quoted text' canonical' =>
      simp only [List.cons_append, List.append_assoc, List.nil_append, List.cons.injEq,
        true_and] at h
      obtain ⟨same, behind⟩ := quote_end_eq h
      rw [String.toList_inj.mp same] at canonical
      exact ⟨canonical.trans canonical'.symm, behind⟩
    | array elements' _ _ _ => simp at h
    | group _ _ => simp at h
  | array elements core canonical small =>
    cases atom' with
    | word word' => exact absurd h.symm (word'.isWordText.ne_cons (by decide) r' _)
    | quoted text' _ => simp at h
    | array elements' core' canonical' _ =>
      simp only [List.cons_append, List.append_assoc, List.nil_append, List.cons.injEq,
        true_and] at h
      have reads : ∀ element ∈ elements, Reads element :=
        fun element hin => smaller element (small element hin) (core element hin)
      obtain ⟨same, behind⟩ := list_end_eq (.inr rfl) core reads core' h
      exact ⟨by rw [canonical, canonical', same], behind⟩
    | group _ _ => simp at h
  | group core bare =>
    cases atom' with
    | word word' => exact absurd h.symm (word'.isWordText.ne_cons (by decide) r' _)
    | quoted text' _ => simp at h
    | array elements' _ _ _ => simp at h
    | group core' _ =>
      simp only [List.cons_append, List.append_assoc, List.nil_append, List.cons.injEq,
        true_and] at h
      obtain ⟨same, behind⟩ := own bare core' (by simp [isEnd]) (by simp [isEnd]) h
      exact ⟨same, List.tail_eq_of_cons_eq behind⟩

end Atoms

/-- An operand as an atom with links behind it. -/
structure Spine (mode : Mode) (e : Expr) (text : List Char) where
  base : Expr
  atom : List Char
  links : List Link
  isAtom : Atom mode base atom
  baseCore : Core base
  core : ∀ link ∈ links, link.IsCore
  written : text = atom ++ links.flatMap (Link.chars mode)
  canonical : e.canonical = (links.map Link.canonical).foldl Link.attach base.canonical
  base_le : base = e ∨ sizeOf base < sizeOf e
  smaller : ∀ link ∈ links, ∀ part ∈ link.expressions, sizeOf part < sizeOf e

theorem Core.leadChars_bare {e : Expr} (h : Core e) (bare : IsBare e) (mode : Mode)
    (filtered : Bool) : leadChars mode filtered e = chars mode e := by
  rw [IsBare, Bool.or_eq_false_iff] at bare
  simp [h.leadChars_eq, bare]

theorem Core.leadChars_group {e : Expr} (h : Core e) {filtered : Bool}
    (grouped : needsGrouping e = true ∨ filtered = true ∧ isUnary e = true) (mode : Mode) :
    Nonempty (Spine mode e (leadChars mode filtered e)) := by
  have bare : ¬ IsBare e := by
    rcases grouped with hg | ⟨-, hu⟩ <;> simp [IsBare, *]
  refine ⟨e, _, [], .group h bare, h, by simp, ?_, rfl, .inl rfl, by simp⟩
  rcases grouped with hg | ⟨hf, hu⟩ <;> simp [h.leadChars_eq, *]

/-- All operands are spines, except for those with a mark before them. -/
theorem Core.spine {e : Expr} (h : Core e) (mode : Mode) {filtered : Bool}
    (unmarked : filtered = true ∨ isUnary e = false) :
    Nonempty (Spine mode e (leadChars mode filtered e)) := by
  induction hn : sizeOf e using Nat.strongRecOn generalizing e filtered with
  | ind n ih =>
    subst hn
    cases h.shape mode with
    | word word bare atom =>
      refine ⟨e, _, [], .word atom, h, by simp, ?_, rfl, .inl rfl, by simp⟩
      simp [h.leadChars_bare bare, atom.chars_eq]
    | quoted text bare written canonical =>
      refine ⟨e, _, [], .quoted text canonical, h, by simp, ?_, rfl, .inl rfl, by simp⟩
      simp [h.leadChars_bare bare, written]
    | array elements bare core written canonical smaller =>
      refine ⟨e, _, [], .array elements core canonical smaller, h, by simp, ?_, rfl, .inl rfl,
        by simp⟩
      simp [h.leadChars_bare bare, written]
    | linked object link bare core notUnary linkCore written canonical smaller =>
      rw [List.forall_mem_cons] at smaller
      obtain ⟨⟨base, atom, links, isAtom, baseCore, linksCore, before, assembled, le, small⟩⟩ :=
        ih _ smaller.1 core (.inr notUnary) rfl
      refine ⟨base, atom, links ++ [link], isAtom, baseCore, ?_, ?_, ?_, ?_, ?_⟩
      · rw [List.forall_mem_append, List.forall_mem_singleton]
        exact ⟨linksCore, linkCore⟩
      · rw [h.leadChars_bare bare, written, before]
        simp
      · rw [canonical, assembled]
        simp
      · refine .inr ?_
        rcases le with rfl | lt
        · exact smaller.1
        · exact Nat.lt_trans lt smaller.1
      · rw [List.forall_mem_append, List.forall_mem_singleton]
        exact ⟨fun inner hin part hp => Nat.lt_trans (small inner hin part hp) smaller.1,
          smaller.2⟩
    | marked operator mark argument _ unary _ _ _ _ _ _ =>
      rcases unmarked with hf | hu
      · exact h.leadChars_group (.inr ⟨hf, unary⟩) mode
      · rw [unary] at hu
        cases hu
    | compound other filtered first tail grouped _ _ _ _ _ =>
      exact h.leadChars_group (.inl grouped) mode

theorem Link.IsCore.expressions {link : Link} (h : link.IsCore) :
    ∀ part ∈ link.expressions, Core part := by
  cases link with
  | property name => simp [Link.expressions]
  | index inner =>
    rw [Link.expressions, List.forall_mem_singleton]
    exact h
  | call arguments => exact h

theorem Spine.end_eq {mode mode' : Mode} {e e' : Expr} {text text' r r' : List Char}
    (spine : Spine mode e text) (spine' : Spine mode' e' text') (own : ¬ IsBare e → Reads e)
    (smaller : ∀ part, sizeOf part < sizeOf e → Core part → Reads part)
    (hr : Starts isStop r) (hr' : Starts isStop r') (h : text ++ r = text' ++ r') :
    e.canonical = e'.canonical ∧ r = r' := by
  obtain ⟨base, atom, links, isAtom, baseCore, core, rfl, canonical, le, small⟩ := spine
  obtain ⟨base', atom', links', isAtom', -, core', rfl, canonical', -, -⟩ := spine'
  rw [List.append_assoc, List.append_assoc] at h
  have baseReads : ¬ IsBare base → Reads base := by
    intro bare
    rcases le with rfl | lt
    · exact own bare
    · exact smaller base lt baseCore
  have below : ∀ part, sizeOf part < sizeOf base → Core part → Reads part := by
    intro part hp core
    rcases le with rfl | lt
    · exact smaller part hp core
    · exact smaller part (Nat.lt_trans hp lt) core
  have reads : ∀ link ∈ links, ∀ part ∈ link.expressions, Reads part := fun link hin part hp =>
    smaller part (small link hin part hp) ((core link hin).expressions part hp)
  obtain ⟨same, others⟩ := atom_end_eq isAtom isAtom' baseReads below
    (boundary_links mode links hr) (boundary_links mode' links' hr') h
  obtain ⟨linked, behind⟩ := links_end_eq core core' reads hr hr' others
  exact ⟨by rw [canonical, canonical', same, linked], behind⟩

/-- A unary operand without a filter starts with its mark. -/
structure Marked (mode : Mode) (e : Expr) where
  operator : String
  mark : String
  argument : Expr
  known : operator ∈ coreUnaryOperators
  marks : unaryOperator? operator = some mark
  core : Core argument
  written : leadChars mode false e = mark.toList ++ leadChars mode false argument
  canonical : e.canonical = .unary {} operator argument.canonical
  smaller : sizeOf argument < sizeOf e

theorem Core.marked {e : Expr} (h : Core e) (hu : isUnary e = true) (mode : Mode) :
    Nonempty (Marked mode e) := by
  have notBare : ¬ IsBare e := by simp [IsBare, hu]
  cases h.shape mode with
  | word _ bare _ => exact absurd bare notBare
  | quoted _ bare _ _ => exact absurd bare notBare
  | array _ bare _ _ _ _ => exact absurd bare notBare
  | linked _ _ bare _ _ _ _ _ _ => exact absurd bare notBare
  | marked operator mark argument simple _ core known marks written canonical smaller =>
    have lead : leadChars mode false e = chars mode e := by simp [h.leadChars_eq, simple]
    exact ⟨operator, mark, argument, known, marks, core, lead.trans written, canonical, smaller⟩
  | compound _ _ _ _ grouped _ _ _ _ _ =>
    rw [h.not_compound hu] at grouped
    cases grouped

section Leads

variable {mode mode' : Mode} {r r' : List Char}

/-- A mark is not the start of an atom: `not` is no word of the core. -/
theorem Atom.ne_mark {e : Expr} {text : List Char} (atom : Atom mode e text) {operator mark : String}
    (known : operator ∈ coreUnaryOperators) (marks : unaryOperator? operator = some mark)
    (hr : Starts isBoundary r) : text ++ r ≠ mark.toList ++ r' := by
  intro h
  simp only [coreUnaryOperators, List.mem_cons, List.not_mem_nil, or_false] at known
  rcases known with rfl | rfl | rfl <;> cases marks
  · cases atom with
    | word word =>
      have split : "not ".toList ++ r' = "not".toList ++ ' ' :: r' := by simp
      rw [split] at h
      have keyword : IsWordText "not".toList := .of_all (by decide) (by decide)
      obtain ⟨same, -⟩ := word_end_eq word.isWordText.wordChars keyword.wordChars hr
        (by simp [isBoundary]; decide) h
      exact word.ne_not (String.toList_inj.mp same)
    | quoted text _ => simp at h
    | array elements _ _ _ => simp at h
    | group _ _ => simp at h
  all_goals
    cases atom with
    | word word => exact absurd h (word.isWordText.ne_cons (by decide) r _)
    | quoted text _ => simp at h
    | array elements _ _ _ => simp at h
    | group _ _ => simp at h

theorem mark_end_eq {operator operator' mark mark' : String} (known : operator ∈ coreUnaryOperators)
    (known' : operator' ∈ coreUnaryOperators) (marks : unaryOperator? operator = some mark)
    (marks' : unaryOperator? operator' = some mark') (h : mark.toList ++ r = mark'.toList ++ r') :
    operator = operator' ∧ r = r' := by
  simp only [coreUnaryOperators, List.mem_cons, List.not_mem_nil, or_false] at known known'
  rcases known with rfl | rfl | rfl <;> cases marks <;>
    rcases known' with rfl | rfl | rfl <;> cases marks' <;> simp_all

/-- The text of the operand, with something behind it that cannot prolong it, is the text of no
other operand. -/
def LeadReads (filtered : Bool) (e : Expr) : Prop :=
  ∀ {mode mode' : Mode} {filtered' : Bool} {e' : Expr} {r r' : List Char}, Core e' →
    Starts isStop r → Starts isStop r' →
    leadChars mode filtered e ++ r = leadChars mode' filtered' e' ++ r' →
    e.canonical = e'.canonical ∧ r = r'

theorem Spine.ne_marked {e e' : Expr} {text : List Char} (spine : Spine mode e text)
    (marked : Marked mode' e') (hr : Starts isStop r) : text ++ r ≠ leadChars mode' false e' ++ r' := by
  intro h
  rw [spine.written, marked.written, List.append_assoc, List.append_assoc] at h
  exact spine.isAtom.ne_mark marked.known marked.marks (boundary_links mode spine.links hr) h

theorem leadReads {e : Expr} (h : Core e) {filtered : Bool}
    (own : needsGrouping e = true ∨ filtered = true → Reads e)
    (smaller : ∀ part, sizeOf part < sizeOf e → Core part → Reads part) : LeadReads filtered e := by
  induction hn : sizeOf e using Nat.strongRecOn generalizing e filtered with
  | ind n ih =>
    subst hn
    intro mode mode' filtered' e' r r' core' hr hr' eq
    by_cases unmarked : filtered = true ∨ isUnary e = false
    · obtain ⟨spine⟩ := h.spine mode unmarked
      by_cases unmarked' : filtered' = true ∨ isUnary e' = false
      · obtain ⟨spine'⟩ := core'.spine mode' unmarked'
        refine spine.end_eq spine' (fun notBare => own ?_) smaller hr hr' eq
        rw [IsBare, Bool.not_eq_false, Bool.or_eq_true] at notBare
        rcases notBare with grouped | unary
        · exact .inl grouped
        · exact .inr (unmarked.resolve_right (by simp [unary]))
      · rw [not_or, Bool.not_eq_true, Bool.not_eq_false] at unmarked'
        obtain ⟨rfl, unary'⟩ := unmarked'
        obtain ⟨marked'⟩ := core'.marked unary' mode'
        exact absurd eq (spine.ne_marked marked' hr)
    · rw [not_or, Bool.not_eq_true, Bool.not_eq_false] at unmarked
      obtain ⟨rfl, unary⟩ := unmarked
      obtain ⟨marked⟩ := h.marked unary mode
      by_cases unmarked' : filtered' = true ∨ isUnary e' = false
      · obtain ⟨spine'⟩ := core'.spine mode' unmarked'
        exact absurd eq.symm (spine'.ne_marked marked hr')
      · rw [not_or, Bool.not_eq_true, Bool.not_eq_false] at unmarked'
        obtain ⟨rfl, unary'⟩ := unmarked'
        obtain ⟨marked'⟩ := core'.marked unary' mode'
        rw [marked.written, marked'.written, List.append_assoc, List.append_assoc] at eq
        obtain ⟨operators, arguments⟩ :=
          mark_end_eq marked.known marked'.known marked.marks marked'.marks eq
        have reads : LeadReads false marked.argument := ih _ marked.smaller marked.core
          (fun _ => smaller _ marked.smaller marked.core)
          (fun part hp => smaller part (Nat.lt_trans hp marked.smaller)) rfl
        obtain ⟨same, behind⟩ := reads marked'.core hr hr' arguments
        exact ⟨by rw [marked.canonical, marked'.canonical, operators, same], behind⟩

end Leads

section Tails

variable {mode mode' : Mode} {r r' : List Char}

theorem stops_tail (mode : Mode) (tail : Tail) (hr : Starts isEnd r) :
    Starts isStop (tail.chars mode ++ r) := by
  cases tail with
  | done => exact hr.mono fun c => isStop_of_isEnd
  | operator mark right =>
    simp only [Tail.chars, List.cons_append, Starts.cons_iff]
    decide
  | choice consequent alternate =>
    simp only [Tail.chars, List.cons_append, Starts.cons_iff]
    decide
  | fallback right =>
    simp only [Tail.chars, List.cons_append, Starts.cons_iff]
    decide

/-- The operator ends at the next blank. -/
theorem operator_end_eq (mark mark' : List Char) (hm : ' ' ∉ mark) (hm' : ' ' ∉ mark')
    (h : mark ++ ' ' :: r = mark' ++ ' ' :: r') : mark = mark' ∧ r = r' := by
  obtain ⟨same, behind⟩ := run_end_eq (· != ' ') (fun c hc => bne_iff_ne.mpr fun eq => hm (eq ▸ hc))
    (fun c hc => bne_iff_ne.mpr fun eq => hm' (eq ▸ hc)) (by simp) (by simp) h
  exact ⟨same, List.tail_eq_of_cons_eq behind⟩

/-- Nothing ends where a tail starts. -/
theorem tail_eq_done {tail : Tail} (h : Starts isEnd (tail.chars mode ++ r)) : tail = .done := by
  cases tail with
  | done => rfl
  | operator mark right => simp [Tail.chars, isEnd] at h
  | choice consequent alternate => simp [Tail.chars, isEnd] at h
  | fallback right => simp [Tail.chars, isEnd] at h

theorem tail_end_eq {tail tail' : Tail} (core : tail.IsCore) (core' : tail'.IsCore)
    (reads : ∀ part ∈ tail.expressions, Reads part)
    (leads : ∀ part ∈ tail.expressions, LeadReads false part)
    (hr : Starts isEnd r) (hr' : Starts isEnd r') (h : tail.chars mode ++ r = tail'.chars mode' ++ r') :
    tail.canonical = tail'.canonical ∧ r = r' := by
  have stop := hr.mono fun c => isStop_of_isEnd
  have stop' := hr'.mono fun c => isStop_of_isEnd
  cases tail with
  | done =>
    have same : r = tail'.chars mode' ++ r' := h
    rw [same] at hr
    obtain rfl := tail_eq_done hr
    exact ⟨rfl, same⟩
  | operator mark right =>
    have lead : LeadReads false right := leads right (by simp [Tail.expressions])
    cases tail' with
    | done =>
      have same : _ = r' := h
      rw [← same] at hr'
      cases tail_eq_done hr'
    | operator mark' right' =>
      simp only [Tail.chars, List.cons_append, List.append_assoc, List.cons.injEq, true_and] at h
      obtain ⟨marks, operands⟩ := operator_end_eq _ _ core.1 core'.1 h
      obtain ⟨same, behind⟩ := lead core'.2 stop stop' operands
      exact ⟨by simp [Tail.canonical, String.toList_inj.mp marks, same], behind⟩
    | choice consequent' alternate' =>
      -- The short form of a choice ends where the long one goes on.
      simp only [Tail.chars, List.cons_append, List.append_assoc, List.cons.injEq, true_and] at h
      obtain ⟨-, operands⟩ := operator_end_eq _ ['?'] core.1 (by decide) h
      obtain ⟨-, behind⟩ := lead core'.1 stop (by simp [isStop]; decide) operands
      simp [behind, isEnd] at hr
    | fallback right' => simp [Tail.chars] at h
  | choice consequent alternate =>
    have lead : LeadReads false consequent := leads consequent (by simp [Tail.expressions])
    have last : LeadReads false alternate := leads alternate (by simp [Tail.expressions])
    cases tail' with
    | done =>
      have same : _ = r' := h
      rw [← same] at hr'
      cases tail_eq_done hr'
    | operator mark' right' =>
      simp only [Tail.chars, List.cons_append, List.append_assoc, List.cons.injEq, true_and] at h
      obtain ⟨-, operands⟩ := operator_end_eq ['?'] _ (by decide) core'.1 h
      obtain ⟨-, behind⟩ := lead core'.2 (by simp [isStop]; decide) stop' operands
      simp [← behind, isEnd] at hr'
    | choice consequent' alternate' =>
      simp only [Tail.chars, List.cons_append, List.append_assoc, List.nil_append, List.cons.injEq,
        true_and] at h
      obtain ⟨first, behind⟩ := lead core'.1 (by simp [isStop]; decide) (by simp [isStop]; decide) h
      simp only [List.cons.injEq, true_and] at behind
      obtain ⟨second, behind⟩ := last core'.2 stop stop' behind
      exact ⟨by simp [Tail.canonical, first, second], behind⟩
    | fallback right' => simp [Tail.chars] at h
  | fallback right =>
    cases tail' with
    | done =>
      have same : _ = r' := h
      rw [← same] at hr'
      cases tail_eq_done hr'
    | operator mark' right' => simp [Tail.chars] at h
    | choice consequent' alternate' => simp [Tail.chars] at h
    | fallback right' =>
      simp only [Tail.chars, List.cons_append, List.append_assoc, List.nil_append, List.cons.injEq,
        true_and, List.append_cancel_left_eq] at h
      obtain ⟨same, behind⟩ := reads right (by simp [Tail.expressions]) core' (by simp [isEnd])
        (by simp [isEnd]) h
      exact ⟨by simp [Tail.canonical, same], List.tail_eq_of_cons_eq behind⟩

end Tails

/-- An expression as an operand with a tail behind it. -/
structure Phrase (mode : Mode) (e : Expr) where
  other : Mode
  filtered : Bool
  first : Expr
  tail : Tail
  core : Core first
  tailCore : tail.IsCore
  written : chars mode e = leadChars other filtered first ++ tail.chars mode
  canonical : e.canonical = tail.canonical.assemble first.canonical
  first_le : (first = e ∧ needsGrouping e = false ∧ filtered = false) ∨ sizeOf first < sizeOf e
  smaller : ∀ part ∈ tail.expressions, sizeOf part < sizeOf e

theorem Core.phrase {e : Expr} (h : Core e) (mode : Mode) : Nonempty (Phrase mode e) := by
  cases hg : needsGrouping e with
  | false =>
    have alone : chars mode e = leadChars mode false e ++ Tail.done.chars mode := by
      simp [h.leadChars_eq, hg, Tail.chars]
    exact ⟨mode, false, e, .done, h, trivial, alone, rfl, .inl ⟨rfl, hg, rfl⟩,
      by simp [Tail.expressions]⟩
  | true =>
    have notBare : ¬ IsBare e := by simp [IsBare, hg]
    cases h.shape mode with
    | word _ bare _ => exact absurd bare notBare
    | quoted _ bare _ _ => exact absurd bare notBare
    | array _ bare _ _ _ _ => exact absurd bare notBare
    | linked _ _ bare _ _ _ _ _ _ => exact absurd bare notBare
    | marked _ _ _ simple _ _ _ _ _ _ _ =>
      rw [simple] at hg
      cases hg
    | compound other filtered first tail _ core tailCore written canonical smaller =>
      rw [List.forall_mem_cons] at smaller
      exact ⟨other, filtered, first, tail, core, tailCore, written, canonical, .inr smaller.1,
        smaller.2⟩

theorem Tail.IsCore.expressions {tail : Tail} (h : tail.IsCore) :
    ∀ part ∈ tail.expressions, Core part := by
  cases tail with
  | done => simp [Tail.expressions]
  | operator mark right =>
    rw [Tail.expressions, List.forall_mem_singleton]
    exact h.2
  | choice consequent alternate =>
    rw [Tail.expressions, List.forall_mem_cons, List.forall_mem_singleton]
    exact h
  | fallback right =>
    rw [Tail.expressions, List.forall_mem_singleton]
    exact h

/-- Core expressions are read back from their texts. -/
theorem Core.reads {e : Expr} (h : Core e) : Reads e := by
  induction hn : sizeOf e using Nat.strongRecOn generalizing e with
  | ind n ih =>
    subst hn
    intro mode mode' e' r r' core' hr hr' eq
    obtain ⟨phrase⟩ := h.phrase mode
    obtain ⟨phrase'⟩ := core'.phrase mode'
    have smaller : ∀ part, sizeOf part < sizeOf e → Core part → Reads part :=
      fun part hp core => ih _ hp core rfl
    have firstReads : LeadReads phrase.filtered phrase.first := by
      rcases phrase.first_le with ⟨whole, simple, plain⟩ | lt
      · refine leadReads phrase.core (fun grouped => ?_) (by rwa [whole])
        rw [whole, simple, plain] at grouped
        simp at grouped
      · exact leadReads phrase.core (fun _ => smaller _ lt phrase.core)
          fun part hp => smaller part (Nat.lt_trans hp lt)
    have tailCore := phrase.tailCore.expressions
    have tailReads : ∀ part ∈ phrase.tail.expressions, Reads part := fun part hp =>
      smaller part (phrase.smaller part hp) (tailCore part hp)
    have tailLeads : ∀ part ∈ phrase.tail.expressions, LeadReads false part := fun part hp =>
      leadReads (tailCore part hp) (fun _ => tailReads part hp)
        fun inner hi => smaller inner (Nat.lt_trans hi (phrase.smaller part hp))
    rw [phrase.written, phrase'.written, List.append_assoc, List.append_assoc] at eq
    obtain ⟨first, tails⟩ := firstReads phrase'.core (stops_tail mode phrase.tail hr)
      (stops_tail mode' phrase'.tail hr') eq
    obtain ⟨tail, behind⟩ := tail_end_eq phrase.tailCore phrase'.tailCore tailReads tailLeads hr hr'
      tails
    exact ⟨by rw [phrase.canonical, phrase'.canonical, first, tail], behind⟩

/-- Two core expressions have the same text exactly if they are the same up to spans, source texts
of literals, optional flags and strictness of comparison, in template mode and in value mode. -/
theorem core_text_eq_iff {e e' : Expr} (h : Core e) (h' : Core e') (mode : Mode) :
    (expression mode e).value = (expression mode e').value ↔ e.canonical = e'.canonical := by
  constructor
  · intro same
    have whole : chars mode e ++ [] = chars mode e' ++ [] := by rw [chars, chars, same]
    exact (h.reads h' .nil .nil whole).1
  · intro same
    rw [← h.value_canonical, same, h'.value_canonical]

/-- The choice `-a.b === 2 ? [f(x), 'it'][0] : !c || d`, as far as its text tells. -/
def indexedChoice (span : Span) (comparison : String) (raw : Option String) (optional : Bool) :
    Expr :=
  .conditional span
    (.binary span comparison
      (.unary span "-"
        (.member span (.identifier span "a") (.identifier span "b") false optional))
      (.literal span ⟨.number (.int 2), raw, none, none⟩))
    (.member span
      (.array span
        (List.map some [.call span (.identifier span "f") [.identifier span "x"] optional,
          .literal span ⟨.string "it", raw, none, none⟩]))
      (.literal span ⟨.number (.int 0), raw, none, none⟩) true optional)
    (.logical span "||" (.unary span "!" (.identifier span "c")) (.identifier span "d"))

theorem core_indexedChoice (span : Span) {comparison : String} (raw : Option String)
    (optional : Bool) (h : comparison ∈ coreBinaryOperators) :
    Core (indexedChoice span comparison raw optional) := by
  have name : ∀ name : String, isPlainKey name = true → name ∉ reservedWords →
      Core (.identifier span name) := fun name => Core.identifier span
  have number : ∀ n : Nat, Core (.literal span ⟨.number (.int n), raw, none, none⟩) :=
    fun n => .literal span ⟨rfl, rfl, Int.natCast_nonneg n⟩
  refine .conditional span ?_ ?_ ?_
  · exact .binary span h (.unary span (by decide) (.property span span optional
      (name "a" (by decide) (by decide)) rfl (by decide))) (number 2)
  · refine .index span optional (.array span ?_) rfl (number 0)
    rw [List.forall_mem_cons, List.forall_mem_singleton]
    refine ⟨.call span optional (name "f" (by decide) (by decide)) rfl rfl ?_, ?_⟩
    · rw [List.forall_mem_singleton]
      exact name "x" (by decide) (by decide)
    · exact .literal span ⟨rfl, rfl, trivial⟩
  · exact .logical span (by decide) (.unary span (by decide) (name "c" (by decide) (by decide)))
      (name "d" (by decide) (by decide))

theorem core_text_eq_iff_indexedChoice :
    Core (indexedChoice {} "===" none false) ∧
    Core (indexedChoice ⟨4, 40⟩ "==" (some "2") true) ∧
    (expression .value (indexedChoice {} "===" none false)).value =
      "(-a.b == 2) ? [f(x), 'it'][0] : ((not c)|default(d))" ∧
    (indexedChoice {} "===" none false).canonical =
      (indexedChoice ⟨4, 40⟩ "==" (some "2") true).canonical := by
  have strict := core_indexedChoice {} none false (by decide : "===" ∈ coreBinaryOperators)
  have loose := core_indexedChoice ⟨4, 40⟩ (some "2") true (by decide : "==" ∈ coreBinaryOperators)
  exact ⟨strict, loose, by decide, (core_text_eq_iff strict loose .value).mp (by decide)⟩

end TwigComponent.Twig
