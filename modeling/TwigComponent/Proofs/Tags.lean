import Mathlib.Data.List.Chain
import Mathlib.Data.List.Infix
import TwigComponent.Twig.Markup

/-!
# Reading a template as text and tags

A template is a sequence of chunks: plain text, output tags, statement tags and
comment tags. A split of a text into chunks is allowed if no plain text and no
tag holds the opening of a tag and no tag holds its own closing. Nothing is said
about where a tag has to end otherwise, so a text may have several splits. It
has only one if its chunks are spaced: no brace in the plain text, blanks at
both ends of every tag, and braces inside a tag only with a blank or another
brace next to them as in a hash literal.
-/
namespace TwigComponent.Twig

inductive TagKind where
  | output
  | statement
  | comment
deriving DecidableEq, Repr

namespace TagKind

/-- The second character of the opening. -/
def openMark : TagKind → Char
  | .output => '\x7b'
  | .statement => '%'
  | .comment => '#'

/-- The first character of the closing. -/
def closeMark : TagKind → Char
  | .output => '\x7d'
  | .statement => '%'
  | .comment => '#'

def opening (kind : TagKind) : List Char := ['\x7b', kind.openMark]

def closing (kind : TagKind) : List Char := [kind.closeMark, '\x7d']

theorem openMark_injective {a b : TagKind} (h : a.openMark = b.openMark) : a = b := by
  revert h
  cases a <;> cases b <;> decide

theorem openMark_ne_blank (kind : TagKind) : kind.openMark ≠ ' ' := by cases kind <;> decide

theorem openMark_ne_close (kind : TagKind) : kind.openMark ≠ '\x7d' := by cases kind <;> decide

theorem closeMark_ne_blank (kind : TagKind) : kind.closeMark ≠ ' ' := by cases kind <;> decide

theorem closeMark_ne_open (kind : TagKind) : kind.closeMark ≠ '\x7b' := by cases kind <;> decide

end TagKind

/-- A chunk of a template. The body of a tag is what stands between its opening and its
closing. -/
inductive Chunk where
  | text (content : List Char)
  | tag (kind : TagKind) (body : List Char)
deriving DecidableEq, Repr

namespace Chunk

def chars : Chunk → List Char
  | .text content => content
  | .tag kind body => kind.opening ++ body ++ kind.closing

def isText : Chunk → Bool
  | .text _ => true
  | .tag _ _ => false

/-- A chunk as a reader of tags takes it. -/
def Readable : Chunk → Prop
  | .text content => content ≠ [] ∧ ∀ kind : TagKind, ¬ kind.opening <:+: content
  | .tag kind body => (∀ inner : TagKind, ¬ inner.opening <:+: body) ∧ ¬ kind.closing <:+: body

end Chunk

/-- What neighbours in a split have to meet. -/
def Apart (a b : Chunk) : Prop := ¬ (a.isText = true ∧ b.isText = true)

/-- A way to read a text: the chunks are readable, they make up the text, and no two plain texts
stand side by side. -/
structure IsSplit (text : List Char) (chunks : List Chunk) : Prop where
  joined : chunks.flatMap Chunk.chars = text
  readable : ∀ chunk ∈ chunks, chunk.Readable
  separated : chunks.IsChain Apart

/-- Text in which braces occur only as in hash literals: an opening brace with a blank after it,
a closing brace with a blank before it, or both together. -/
inductive Padded : List Char → Prop
  | nil : Padded []
  | char {c : Char} {cs : List Char} : c ≠ '\x7b' → c ≠ '\x7d' → Padded cs → Padded (c :: cs)
  | opening {cs : List Char} : Padded cs → Padded ('\x7b' :: ' ' :: cs)
  | closing {cs : List Char} : Padded cs → Padded (' ' :: '\x7d' :: cs)
  | both {cs : List Char} : Padded cs → Padded ('\x7b' :: '\x7d' :: cs)

theorem pair_infix_cons {a b c : Char} {cs : List Char} :
    [a, b] <:+: c :: cs ↔ (a = c ∧ ∃ rest, b :: rest = cs) ∨ [a, b] <:+: cs := by
  rw [List.infix_cons_iff, List.cons_prefix_cons]
  exact Iff.rfl

namespace Padded

theorem append {as bs : List Char} (ha : Padded as) (hb : Padded bs) : Padded (as ++ bs) := by
  induction ha with
  | nil => exact hb
  | char hopen hclose _ ih => exact .char hopen hclose ih
  | opening _ ih => exact .opening ih
  | closing _ ih => exact .closing ih
  | both _ ih => exact .both ih

theorem of_braceless {cs : List Char} (hopen : '\x7b' ∉ cs) (hclose : '\x7d' ∉ cs) : Padded cs := by
  induction cs with
  | nil => exact .nil
  | cons c cs ih =>
    rw [List.mem_cons, not_or] at hopen hclose
    exact .char (Ne.symm hopen.1) (Ne.symm hclose.1) (ih hopen.2 hclose.2)

theorem head_ne {cs rest : List Char} (h : Padded cs) : '\x7d' :: rest ≠ cs := by
  rintro rfl
  cases h with
  | char _ hclose _ => exact hclose rfl

theorem not_opening {cs : List Char} (h : Padded cs) (kind : TagKind) :
    ¬ kind.opening <:+: cs := by
  have noBlank := kind.openMark_ne_blank
  have noClose := kind.openMark_ne_close
  rw [TagKind.opening]
  induction h with
  | nil => simp
  | char hopen _ _ ih => simp [pair_infix_cons, Ne.symm hopen, ih]
  | opening _ ih => simp [pair_infix_cons, noBlank, ih]
  | closing _ ih => simp [pair_infix_cons, ih]
  | both _ ih => simp [pair_infix_cons, noClose, ih]

theorem not_closing {cs : List Char} (h : Padded cs) (kind : TagKind) :
    ¬ kind.closing <:+: cs := by
  have noBlank := kind.closeMark_ne_blank
  have noOpen := kind.closeMark_ne_open
  rw [TagKind.closing]
  induction h with
  | nil => simp
  | char _ _ hcs ih => simp [pair_infix_cons, hcs.head_ne, ih]
  | opening _ ih => simp [pair_infix_cons, noOpen, noBlank, ih]
  | closing hcs ih => simp [pair_infix_cons, noBlank, hcs.head_ne, ih]
  | both hcs ih => simp [pair_infix_cons, noOpen, hcs.head_ne, ih]

end Padded

/-- The body of a tag: a blank before the text and one after it. -/
def spaced (text : List Char) : List Char := ' ' :: (text ++ [' '])

theorem Padded.spaced {text : List Char} (h : Padded text) : Padded (Twig.spaced text) :=
  .char (by decide) (by decide) (h.append (.char (by decide) (by decide) .nil))

/-- A chunk of a text that can be read in one way only. -/
inductive Chunk.Spaced : Chunk → Prop
  | text {content : List Char} : content ≠ [] → '\x7b' ∉ content → '\x7d' ∉ content →
      Spaced (.text content)
  | tag {kind : TagKind} {text : List Char} : Padded text → Spaced (.tag kind (spaced text))

theorem Chunk.Spaced.readable {chunk : Chunk} (h : chunk.Spaced) : chunk.Readable := by
  cases h with
  | text hne hopen hclose => exact ⟨hne, (Padded.of_braceless hopen hclose).not_opening⟩
  | tag h => exact ⟨h.spaced.not_opening, h.spaced.not_closing _⟩

/-- Two splits cannot part inside a plain text without braces. -/
theorem text_end_eq {content other rest more : List Char} (hopen : '\x7b' ∉ content)
    (hrest : rest = [] ∨ ∃ (kind : TagKind) (tail : List Char),
      rest = '\x7b' :: kind.openMark :: ' ' :: tail)
    (hother : ∀ kind : TagKind, ¬ kind.opening <:+: other)
    (hmore : more = [] ∨ ∃ (kind : TagKind) (tail : List Char), more = kind.opening ++ tail)
    (h : content ++ rest = other ++ more) : content = other ∧ rest = more := by
  rcases List.append_eq_append_iff.mp h with ⟨extra, hextra, hsplit⟩ | ⟨extra, hextra, hsplit⟩
  · -- The other text goes on into the tag that follows.
    match extra with
    | [] => exact ⟨by simpa using hextra.symm, by simpa using hsplit⟩
    | [c] =>
      obtain rfl | ⟨kind, tail, rfl⟩ := hrest
      · cases hsplit
      obtain rfl | ⟨inner, tail', rfl⟩ := hmore
      · cases hsplit
      simp only [TagKind.opening, List.cons_append, List.nil_append, List.cons.injEq] at hsplit
      exact absurd hsplit.2.2.1.symm inner.openMark_ne_blank
    | c :: d :: extra =>
      obtain rfl | ⟨kind, tail, rfl⟩ := hrest
      · cases hsplit
      simp only [List.cons_append, List.cons.injEq] at hsplit
      obtain ⟨rfl, rfl, -⟩ := hsplit
      exact absurd ⟨content, extra, by simp [TagKind.opening, hextra]⟩ (hother kind)
  · -- The other text ends before a character that is no brace.
    match extra with
    | [] => exact ⟨by simpa using hextra, by simpa using hsplit.symm⟩
    | c :: extra =>
      obtain rfl | ⟨kind, tail, rfl⟩ := hmore
      · cases hsplit
      simp only [TagKind.opening, List.cons_append, List.cons.injEq] at hsplit
      exact absurd (by simp [hextra, ← hsplit.1]) hopen

/-- Two splits cannot part inside a tag with blanks at its ends. -/
theorem body_end_eq {kind : TagKind} {text body rest more : List Char} (ht : Padded text)
    (hrest : ∀ tail, rest ≠ '\x7d' :: tail) (hbody : ¬ kind.closing <:+: body)
    (h : spaced text ++ (kind.closing ++ rest) = body ++ (kind.closing ++ more)) :
    spaced text = body ∧ rest = more := by
  rcases List.append_eq_append_iff.mp h with ⟨extra, hextra, hsplit⟩ | ⟨extra, hextra, hsplit⟩
  · match extra with
    | [] => exact ⟨by simpa using hextra.symm, List.append_cancel_left hsplit⟩
    | [c] =>
      simp only [TagKind.closing, List.cons_append, List.nil_append, List.cons.injEq] at hsplit
      exact absurd hsplit.2.2 (hrest _)
    | c :: d :: extra =>
      simp only [TagKind.closing, List.cons_append, List.nil_append, List.cons.injEq] at hsplit
      obtain ⟨rfl, rfl, -⟩ := hsplit
      exact absurd ⟨spaced text, extra, by simp [TagKind.closing, hextra]⟩ hbody
  · match extra with
    | [] => exact ⟨by simpa using hextra, (List.append_cancel_left hsplit).symm⟩
    | [c] =>
      simp only [TagKind.closing, List.cons_append, List.nil_append, List.cons.injEq] at hsplit
      have last : (spaced text).getLast? = (body ++ [c]).getLast? := by rw [hextra]
      simp only [spaced, ← List.cons_append, List.getLast?_concat, Option.some.injEq] at last
      exact absurd (hsplit.1.trans last.symm) kind.closeMark_ne_blank
    | c :: d :: extra =>
      simp only [TagKind.closing, List.cons_append, List.nil_append, List.cons.injEq] at hsplit
      obtain ⟨rfl, rfl, -⟩ := hsplit
      exact absurd ⟨body, extra, by simp [TagKind.closing, hextra]⟩ (ht.spaced.not_closing kind)

section Unique

variable {chunks others rest more : List Chunk}

theorem Chunk.Readable.chars_ne_nil {chunk : Chunk} (h : chunk.Readable) : chunk.chars ≠ [] := by
  cases chunk with
  | text content => exact h.1
  | tag kind body => simp [Chunk.chars, TagKind.opening]

theorem chunks_eq_nil (h : ∀ chunk ∈ chunks, chunk.Readable)
    (hnil : chunks.flatMap Chunk.chars = []) : chunks = [] := by
  cases chunks with
  | nil => rfl
  | cons chunk rest =>
    rw [List.flatMap_cons, List.append_eq_nil_iff] at hnil
    exact absurd hnil.1 (h chunk (by simp)).chars_ne_nil

/-- After a plain text the text ends or a tag follows. -/
theorem after_text {content : List Char} (h : (Chunk.text content :: rest).IsChain Apart) :
    rest = [] ∨ ∃ kind body tail, rest = .tag kind body :: tail := by
  rw [List.isChain_cons_iff] at h
  obtain rfl | ⟨next, tail, hne, -, rfl⟩ := h
  · exact .inl rfl
  · cases next with
    | text _ => exact absurd ⟨rfl, rfl⟩ hne
    | tag kind body => exact .inr ⟨kind, body, tail, rfl⟩

theorem chars_after_text {content : List Char} (h : (Chunk.text content :: rest).IsChain Apart) :
    rest.flatMap Chunk.chars = [] ∨
      ∃ (kind : TagKind) (tail : List Char), rest.flatMap Chunk.chars = kind.opening ++ tail := by
  obtain rfl | ⟨kind, body, tail, rfl⟩ := after_text h
  · exact .inl rfl
  · refine .inr ⟨kind, body ++ kind.closing ++ tail.flatMap Chunk.chars, ?_⟩
    simp only [List.flatMap_cons, Chunk.chars, List.append_assoc]

theorem spaced_chars_after_text {content : List Char}
    (h : (Chunk.text content :: rest).IsChain Apart) (hs : ∀ chunk ∈ rest, chunk.Spaced) :
    rest.flatMap Chunk.chars = [] ∨ ∃ (kind : TagKind) (tail : List Char),
      rest.flatMap Chunk.chars = '\x7b' :: kind.openMark :: ' ' :: tail := by
  obtain rfl | ⟨kind, body, tail, rfl⟩ := after_text h
  · exact .inl rfl
  · have first : (Chunk.tag kind body).Spaced := hs _ (by simp)
    cases first with
    | tag _ => exact .inr ⟨kind, _, by simp [Chunk.chars, TagKind.opening, spaced]; rfl⟩

theorem spaced_head_ne (h : ∀ chunk ∈ chunks, chunk.Spaced) (tail : List Char) :
    chunks.flatMap Chunk.chars ≠ '\x7d' :: tail := by
  intro heq
  cases chunks with
  | nil => cases heq
  | cons chunk rest =>
    cases h chunk (by simp) with
    | @text content hne hopen hclose =>
      match content, hne, hclose with
      | c :: content, _, hclose =>
        rw [List.flatMap_cons, Chunk.chars, List.cons_append, List.cons.injEq] at heq
        exact hclose (by simp [heq.1])
    | tag _ => simp [Chunk.chars, TagKind.opening] at heq

/-- The first chunk of any split is the first of the spaced split, and so both go on with the same
text. -/
theorem first_chunk_eq {chunk other : Chunk} (hs : ∀ c ∈ chunk :: rest, c.Spaced)
    (hc : (chunk :: rest).IsChain Apart) (ho : other.Readable) (hc' : (other :: more).IsChain Apart)
    (h : chunk.chars ++ rest.flatMap Chunk.chars = other.chars ++ more.flatMap Chunk.chars) :
    other = chunk ∧ more.flatMap Chunk.chars = rest.flatMap Chunk.chars := by
  have hrest : ∀ c ∈ rest, c.Spaced := fun c hin => hs c (by simp [hin])
  cases hs chunk (by simp) with
  | @text content hne hopen hclose =>
    cases other with
    | text found =>
      obtain ⟨rfl, hends⟩ :=
        text_end_eq hopen (spaced_chars_after_text hc hrest) ho.2 (chars_after_text hc') h
      exact ⟨rfl, hends.symm⟩
    | tag kind body =>
      match content, hne, hopen with
      | c :: content, _, hopen =>
        simp only [Chunk.chars, TagKind.opening, List.cons_append, List.cons.injEq] at h
        exact absurd (List.mem_cons.mpr (.inl h.1.symm)) hopen
  | @tag kind text hpad =>
    cases other with
    | text found =>
      -- The opening of the tag would have to lie in the text or across its end.
      match found, ho, hc' with
      | [], ho, _ => exact absurd rfl ho.1
      | [c], _, hc' =>
        obtain hmore | ⟨inner, tail, hmore⟩ := chars_after_text hc'
        · simp [hmore, Chunk.chars, TagKind.opening] at h
        · simp only [hmore, Chunk.chars, TagKind.opening, spaced, List.cons_append, List.nil_append,
            List.cons.injEq] at h
          exact absurd h.2.2.1.symm inner.openMark_ne_blank
      | c :: d :: found, ho, _ =>
        simp only [Chunk.chars, TagKind.opening, List.cons_append, List.nil_append,
          List.cons.injEq] at h
        obtain ⟨rfl, rfl, -⟩ := h
        exact absurd ⟨[], found, rfl⟩ (ho.2 kind)
    | tag kind' body =>
      simp only [Chunk.chars, List.append_assoc] at h
      have hkind : kind' = kind := by
        simp only [TagKind.opening, List.cons_append, List.cons.injEq] at h
        exact (TagKind.openMark_injective h.2.1).symm
      subst hkind
      obtain ⟨rfl, hends⟩ :=
        body_end_eq hpad (spaced_head_ne hrest) ho.2 (List.append_cancel_left h)
      exact ⟨rfl, hends.symm⟩

/-- A text that splits into spaced chunks splits in no other way. -/
theorem split_unique {text : List Char} (h : IsSplit text chunks)
    (hs : ∀ chunk ∈ chunks, chunk.Spaced) (ho : IsSplit text others) : others = chunks := by
  obtain ⟨rfl, -, separated⟩ := h
  obtain ⟨joined, readable, separated'⟩ := ho
  induction chunks generalizing others with
  | nil => exact chunks_eq_nil readable joined
  | cons chunk rest ih =>
    cases others with
    | nil => exact (chunks_eq_nil (fun c hc => (hs c hc).readable) joined.symm).symm
    | cons other more =>
      obtain ⟨rfl, hends⟩ := first_chunk_eq hs separated (readable other (by simp)) separated'
        joined.symm
      rw [ih (fun c hc => hs c (by simp [hc])) separated.tail hends
        (fun c hc => readable c (by simp [hc])) separated'.tail]

end Unique

/-- A tag of a template. -/
structure Tag where
  kind : TagKind
  body : List Char
deriving DecidableEq, Repr

def Chunk.tags : Chunk → List Tag
  | .text _ => []
  | .tag kind body => [⟨kind, body⟩]

/-- The tags of a split, in order. -/
def tags (chunks : List Chunk) : List Tag := chunks.flatMap Chunk.tags

/-- The text splits into spaced chunks, and these are its tags. -/
def Carries (text : List Char) (list : List Tag) : Prop :=
  ∃ chunks, IsSplit text chunks ∧ (∀ chunk ∈ chunks, chunk.Spaced) ∧ tags chunks = list

namespace Carries

variable {text rest : List Char} {list others : List Tag}

theorem of_spaced (chunks : List Chunk) (hs : ∀ chunk ∈ chunks, chunk.Spaced)
    (hc : chunks.IsChain Apart) : Carries (chunks.flatMap Chunk.chars) (tags chunks) :=
  ⟨chunks, ⟨rfl, fun chunk hin => (hs chunk hin).readable, hc⟩, hs, rfl⟩

theorem nil : Carries [] [] := of_spaced [] (by simp) .nil

/-- A character that is no brace joins the plain text behind it, if there is one. -/
theorem cons {c : Char} (hopen : c ≠ '\x7b') (hclose : c ≠ '\x7d') (h : Carries text list) :
    Carries (c :: text) list := by
  obtain ⟨chunks, ⟨rfl, -, chain⟩, hs, rfl⟩ := h
  have single : (Chunk.text [c]).Spaced :=
    .text (by simp) (by simpa using Ne.symm hopen) (by simpa using Ne.symm hclose)
  match chunks, chain, hs with
  | [], _, _ => exact of_spaced [.text [c]] (by simpa using single) (.singleton _)
  | .text content :: tail, chain, hs =>
    rw [List.forall_mem_cons] at hs
    cases hs.1 with
    | text hne ho hc =>
      refine of_spaced (.text (c :: content) :: tail) ?_ ?_
      · rw [List.forall_mem_cons]
        exact ⟨.text (by simp) (by simp [Ne.symm hopen, ho]) (by simp [Ne.symm hclose, hc]), hs.2⟩
      · -- Only the kinds of the chunks matter.
        cases tail with
        | nil => exact .singleton _
        | cons next tail =>
          obtain ⟨apart, chain⟩ := List.isChain_cons_cons.mp chain
          exact List.isChain_cons_cons.mpr ⟨apart, chain⟩
  | .tag kind body :: tail, chain, hs =>
    refine of_spaced (.text [c] :: .tag kind body :: tail) ?_ ?_
    · rw [List.forall_mem_cons]
      exact ⟨single, hs⟩
    · exact List.isChain_cons_cons.mpr ⟨by simp [Apart, Chunk.isText], chain⟩

theorem tag (kind : TagKind) {inner : List Char} (hi : Padded inner) (h : Carries text list) :
    Carries ((Chunk.tag kind (spaced inner)).chars ++ text) (⟨kind, spaced inner⟩ :: list) := by
  obtain ⟨chunks, ⟨rfl, -, chain⟩, hs, rfl⟩ := h
  refine of_spaced (.tag kind (spaced inner) :: chunks) ?_ ?_
  · rw [List.forall_mem_cons]
    exact ⟨.tag hi, hs⟩
  · cases chunks with
    | nil => exact .singleton _
    | cons next tail => exact List.isChain_cons_cons.mpr ⟨by simp [Apart, Chunk.isText], chain⟩

theorem append_braceless {content : List Char} (hopen : '\x7b' ∉ content) (hclose : '\x7d' ∉ content)
    (h : Carries text list) : Carries (content ++ text) list := by
  induction content with
  | nil => exact h
  | cons c content ih =>
    rw [List.mem_cons, not_or] at hopen hclose
    exact (ih hopen.2 hclose.2).cons (Ne.symm hopen.1) (Ne.symm hclose.1)

theorem append (h : Carries text list) (k : Carries rest others) :
    Carries (text ++ rest) (list ++ others) := by
  obtain ⟨chunks, ⟨rfl, -, -⟩, hs, rfl⟩ := h
  induction chunks with
  | nil => exact k
  | cons chunk chunks ih =>
    rw [List.forall_mem_cons] at hs
    have later := ih hs.2
    rw [List.flatMap_cons, List.append_assoc, tags, List.flatMap_cons, List.append_assoc]
    cases hs.1 with
    | text _ hopen hclose => exact later.append_braceless hopen hclose
    | tag hi => exact later.tag _ hi

end Carries

namespace Tag

def output (text : String) : Tag := ⟨.output, spaced text.toList⟩

def comment (text : String) : Tag := ⟨.comment, spaced text.toList⟩

def statement (body : String) : Tag := ⟨.statement, spaced body.toList⟩

end Tag

theorem chars_outputTag (text : String) :
    (outputTag text).toList = (Chunk.tag .output (spaced text.toList)).chars := by
  simp [outputTag, Chunk.chars, spaced, TagKind.opening, TagKind.closing, TagKind.openMark,
    TagKind.closeMark]

theorem chars_commentTag (text : String) :
    (commentTag text).toList = (Chunk.tag .comment (spaced text.toList)).chars := by
  simp [commentTag, Chunk.chars, spaced, TagKind.opening, TagKind.closing, TagKind.openMark,
    TagKind.closeMark]

theorem chars_tag (body : String) :
    (tag body).toList = (Chunk.tag .statement (spaced body.toList)).chars := by
  simp [tag, Chunk.chars, spaced, TagKind.opening, TagKind.closing, TagKind.openMark,
    TagKind.closeMark]

theorem carries_outputTag {text : String} (h : Padded text.toList) :
    Carries (outputTag text).toList [.output text] := by
  rw [chars_outputTag]
  simpa [Tag.output] using Carries.nil.tag .output h

theorem carries_commentTag {text : String} (h : Padded text.toList) :
    Carries (commentTag text).toList [.comment text] := by
  rw [chars_commentTag]
  simpa [Tag.comment] using Carries.nil.tag .comment h

theorem carries_tag {body : String} (h : Padded body.toList) :
    Carries (tag body).toList [.statement body] := by
  rw [chars_tag]
  simpa [Tag.statement] using Carries.nil.tag .statement h

end TwigComponent.Twig
