import Mathlib.Data.List.Infix
import TwigComponent.Proofs.Outline

/-!
# Scanning a template for tags

A scan goes through a text from left to right. Outside a tag the first opening
begins one. A comment goes on to the first closing of comments; another tag goes
on to its first closing outside a string in single quotes, in which a backslash
takes the next character with it. A tag that is never closed goes on to the end
of the text.

The scan finds a tag as it was written if its text is sealed: braces stand apart
as in hash literals, and every quote belongs to a quoted string. What is inside
such a string does not matter.
-/
namespace TwigComponent.Twig

open Source Text

/-- Where a scan stands, in a tag with what it has read of it. -/
inductive Place where
  | text
  | tag (kind : TagKind) (body : List Char)
  | quoted (kind : TagKind) (body : List Char)

/-- The kind of tag that a character opens after a brace. -/
def TagKind.ofMark? (c : Char) : Option TagKind :=
  if c = '\x7b' then some .output
  else if c = '%' then some .statement
  else if c = '#' then some .comment
  else none

/-- The tags that a scan finds from its place on. -/
def scan : Place → List Char → List Tag
  | .text, [] => []
  | .text, [_] => []
  | .text, c :: d :: rest =>
    if c = '\x7b' then
      match TagKind.ofMark? d with
      | some kind => scan (.tag kind []) rest
      | none => scan .text (d :: rest)
    else scan .text (d :: rest)
  | .tag kind body, [] => [⟨kind, body⟩]
  | .tag kind body, [c] => [⟨kind, body ++ [c]⟩]
  | .tag kind body, c :: d :: rest =>
    if c = kind.closeMark ∧ d = '\x7d' then ⟨kind, body⟩ :: scan .text rest
    else if c = '\'' ∧ kind ≠ .comment then scan (.quoted kind (body ++ [c])) (d :: rest)
    else scan (.tag kind (body ++ [c])) (d :: rest)
  | .quoted kind body, [] => [⟨kind, body⟩]
  | .quoted kind body, [c] => [⟨kind, body ++ [c]⟩]
  | .quoted kind body, c :: d :: rest =>
    if c = '\\' then scan (.quoted kind (body ++ [c, d])) rest
    else if c = '\'' then scan (.tag kind (body ++ [c])) (d :: rest)
    else scan (.quoted kind (body ++ [c])) (d :: rest)

/-- The tags that a scan finds in a text. -/
def scanText (text : String) : List Tag := scan .text text.toList

section Steps

variable {kind : TagKind} {body rest : List Char} {c : Char}

@[simp] theorem ofMark_openMark (kind : TagKind) : TagKind.ofMark? kind.openMark = some kind := by
  cases kind <;> rfl

theorem openMark_of_ofMark (h : TagKind.ofMark? c = some kind) : c = kind.openMark := by
  unfold TagKind.ofMark? at h
  split at h
  · cases h
    assumption
  · split at h
    · cases h
      assumption
    · split at h
      · cases h
        assumption
      · cases h

theorem scan_text_pair (c d : Char) (rest : List Char) :
    scan .text (c :: d :: rest) =
      if c = '\x7b' then
        (TagKind.ofMark? d).elim (scan .text (d :: rest)) fun kind => scan (.tag kind []) rest
      else scan .text (d :: rest) := by
  change ite _ _ _ = _
  cases TagKind.ofMark? d <;> rfl

theorem scan_tag_pair (kind : TagKind) (body : List Char) (c d : Char) (rest : List Char) :
    scan (.tag kind body) (c :: d :: rest) =
      if c = kind.closeMark ∧ d = '\x7d' then ⟨kind, body⟩ :: scan .text rest
      else if c = '\'' ∧ kind ≠ .comment then scan (.quoted kind (body ++ [c])) (d :: rest)
      else scan (.tag kind (body ++ [c])) (d :: rest) := rfl

theorem scan_quoted_pair (kind : TagKind) (body : List Char) (c d : Char) (rest : List Char) :
    scan (.quoted kind body) (c :: d :: rest) =
      if c = '\\' then scan (.quoted kind (body ++ [c, d])) rest
      else if c = '\'' then scan (.tag kind (body ++ [c])) (d :: rest)
      else scan (.quoted kind (body ++ [c])) (d :: rest) := rfl

theorem scan_text_cons (h : c ≠ '\x7b') : scan .text (c :: rest) = scan .text rest := by
  cases rest with
  | nil => rfl
  | cons d rest => rw [scan_text_pair, if_neg h]

theorem scan_opening (kind : TagKind) (rest : List Char) :
    scan .text (kind.opening ++ rest) = scan (.tag kind []) rest := by
  rw [TagKind.opening, List.cons_append, List.cons_append, List.nil_append, scan_text_pair,
    if_pos rfl, ofMark_openMark, Option.elim_some]

theorem scan_closing (kind : TagKind) (body rest : List Char) :
    scan (.tag kind body) (kind.closing ++ rest) = ⟨kind, body⟩ :: scan .text rest := by
  rw [TagKind.closing, List.cons_append, List.cons_append, List.nil_append, scan_tag_pair,
    if_pos ⟨rfl, rfl⟩]

/-- A character that neither closes the tag nor begins a string is read. -/
theorem scan_tag_cons (hc : c ≠ kind.closeMark ∨ ∀ tail, rest ≠ '\x7d' :: tail)
    (hq : c = '\'' → kind = .comment) :
    scan (.tag kind body) (c :: rest) = scan (.tag kind (body ++ [c])) rest := by
  cases rest with
  | nil => rfl
  | cons d rest =>
    have open' : ¬ (c = kind.closeMark ∧ d = '\x7d') := by
      rintro ⟨hmark, rfl⟩
      exact hc.elim (fun h => h hmark) fun h => h rest rfl
    have unquoted : ¬ (c = '\'' ∧ kind ≠ .comment) := fun h => h.2 (hq h.1)
    rw [scan_tag_pair, if_neg open', if_neg unquoted]

theorem scan_quote (hk : kind ≠ .comment) :
    scan (.tag kind body) ('\'' :: rest) = scan (.quoted kind (body ++ ['\''])) rest := by
  have noMark : '\'' ≠ kind.closeMark := by cases kind <;> decide
  cases rest with
  | nil => rfl
  | cons d rest => rw [scan_tag_pair, if_neg fun h => noMark h.1, if_pos ⟨rfl, hk⟩]

theorem scan_unquote : scan (.quoted kind body) ('\'' :: rest) = scan (.tag kind (body ++ ['\''])) rest := by
  cases rest with
  | nil => rfl
  | cons d rest => rw [scan_quoted_pair, if_neg (by decide), if_pos rfl]

theorem scan_quoted_cons (hb : c ≠ '\\') (hq : c ≠ '\'') :
    scan (.quoted kind body) (c :: rest) = scan (.quoted kind (body ++ [c])) rest := by
  cases rest with
  | nil => rfl
  | cons d rest => rw [scan_quoted_pair, if_neg hb, if_neg hq]

/-- A string ends at the quote behind it, whatever text is escaped in it. -/
theorem scan_escaped (text : List Char) :
    scan (.quoted kind body) (text.flatMap escapeChar ++ '\'' :: rest) =
      scan (.tag kind (body ++ text.flatMap escapeChar ++ ['\''])) rest := by
  induction text generalizing body with
  | nil => simpa using scan_unquote
  | cons c text ih =>
    have step : scan (.quoted kind body) (escapeChar c ++ (text.flatMap escapeChar ++ '\'' :: rest)) =
        scan (.quoted kind (body ++ escapeChar c)) (text.flatMap escapeChar ++ '\'' :: rest) := by
      unfold escapeChar
      split
      · rw [List.cons_append, List.cons_append, List.nil_append, scan_quoted_pair, if_pos rfl]
      · rename_i free
        rw [not_or] at free
        exact scan_quoted_cons free.1 free.2
    rw [List.flatMap_cons, List.append_assoc, step, ih, List.append_assoc body]

end Steps

/-- Text in which braces stand apart as in hash literals and every quote belongs to a string. -/
inductive Sealed : List Char → Prop
  | nil : Sealed []
  | char {c : Char} {cs : List Char} : c ≠ '\x7b' → c ≠ '\x7d' → c ≠ '\'' → Sealed cs →
      Sealed (c :: cs)
  | opening {cs : List Char} : Sealed cs → Sealed ('\x7b' :: ' ' :: cs)
  | closing {cs : List Char} : Sealed cs → Sealed (' ' :: '\x7d' :: cs)
  | both {cs : List Char} : Sealed cs → Sealed ('\x7b' :: '\x7d' :: cs)
  | quoted (text : List Char) {cs : List Char} : Sealed cs →
      Sealed ('\'' :: (text.flatMap escapeChar ++ '\'' :: cs))

namespace Sealed

theorem append {as bs : List Char} (ha : Sealed as) (hb : Sealed bs) : Sealed (as ++ bs) := by
  induction ha with
  | nil => exact hb
  | char hopen hclose hquote _ ih => exact .char hopen hclose hquote ih
  | opening _ ih => exact .opening ih
  | closing _ ih => exact .closing ih
  | both _ ih => exact .both ih
  | quoted text _ ih => simpa using ih.quoted text

theorem of_plain {text : String} (h : Plain text) : Sealed text.toList := by
  rw [Plain] at h
  generalize text.toList = cs at h
  induction cs with
  | nil => exact .nil
  | cons c cs ih =>
    rw [List.forall_mem_cons] at h
    exact .char h.1.1 h.1.2.1 h.1.2.2 (ih h.2)

theorem quote (text : String) : Sealed (Twig.quote text).toList := by
  simpa [Twig.quote] using Sealed.nil.quoted text.toList

theorem hashKey (name : String) : Sealed (Twig.hashKey name).toList := by
  unfold Twig.hashKey
  split
  · rename_i plain
    exact of_plain (.of_isPlainKey plain)
  · exact quote name

/-- A closing brace never comes first. -/
theorem append_ne {cs rest : List Char} (h : Sealed cs) (hr : ∀ tail, rest ≠ '\x7d' :: tail) :
    ∀ tail, cs ++ rest ≠ '\x7d' :: tail := by
  intro tail heq
  cases h with
  | nil => exact hr tail heq
  | char _ hclose _ _ => exact hclose (List.cons.inj heq).1
  | opening _ => exact absurd (List.cons.inj heq).1 (by decide)
  | closing _ => exact absurd (List.cons.inj heq).1 (by decide)
  | both _ => exact absurd (List.cons.inj heq).1 (by decide)
  | quoted _ _ => exact absurd (List.cons.inj heq).1 (by decide)

/-- A scan in a tag reads a sealed text to its end. -/
theorem scan {kind : TagKind} (hk : kind ≠ .comment) {cs rest : List Char} (h : Sealed cs)
    (hr : ∀ tail, rest ≠ '\x7d' :: tail) (body : List Char) :
    Twig.scan (.tag kind body) (cs ++ rest) = Twig.scan (.tag kind (body ++ cs)) rest := by
  have blank : ' ' ≠ kind.closeMark := Ne.symm kind.closeMark_ne_blank
  have brace : '\x7b' ≠ kind.closeMark := Ne.symm kind.closeMark_ne_open
  induction h generalizing body with
  | nil => simp
  | @char c cs _ _ hquote hs ih =>
    rw [List.cons_append, scan_tag_cons (.inr (hs.append_ne hr)) fun hq => absurd hq hquote, ih]
    simp
  | opening hs ih =>
    rw [List.cons_append, List.cons_append, scan_tag_cons (.inl brace) (by simp),
      scan_tag_cons (.inl blank) (by simp), ih]
    simp
  | closing hs ih =>
    rw [List.cons_append, List.cons_append, scan_tag_cons (.inl blank) (by simp),
      scan_tag_cons (.inr (hs.append_ne hr)) (by simp), ih]
    simp
  | both hs ih =>
    rw [List.cons_append, List.cons_append, scan_tag_cons (.inl brace) (by simp),
      scan_tag_cons (.inr (hs.append_ne hr)) (by simp), ih]
    simp
  | quoted text hs ih =>
    rw [List.cons_append, List.append_assoc, List.cons_append, scan_quote hk, scan_escaped, ih]
    simp

end Sealed

/-- A text that is no part of a tag wherever it stands. -/
def Inert (text : String) : Prop :=
  (∀ kind : TagKind, ¬ kind.opening <:+: text.toList) ∧ text.toList.getLast? ≠ some '\x7b'

instance : DecidablePred Inert := fun text =>
  decidable_of_iff ((¬ TagKind.output.opening <:+: text.toList ∧
      ¬ TagKind.statement.opening <:+: text.toList ∧ ¬ TagKind.comment.opening <:+: text.toList) ∧
      text.toList.getLast? ≠ some '\x7b') <|
    and_congr_left' ⟨fun h kind => by cases kind <;> simp [h], fun h => ⟨h _, h _, h _⟩⟩

theorem scan_inert {text : String} (h : Inert text) (rest : List Char) :
    scan .text (text.toList ++ rest) = scan .text rest := by
  obtain ⟨closed, last⟩ := h
  generalize text.toList = cs at closed last
  induction cs with
  | nil => rfl
  | cons c cs ih =>
    have later : ∀ kind : TagKind, ¬ kind.opening <:+: cs := fun kind hin =>
      closed kind (List.infix_cons hin)
    by_cases hc : c = '\x7b'
    · subst hc
      match cs with
      | [] => exact absurd rfl last
      | d :: cs =>
        have noMark : TagKind.ofMark? d = none := by
          cases hm : TagKind.ofMark? d with
          | none => rfl
          | some kind =>
            rw [openMark_of_ofMark hm] at closed
            exact absurd ⟨[], cs, rfl⟩ (closed kind)
        rw [List.cons_append, List.cons_append, scan_text_pair, if_pos rfl, noMark]
        exact ih later (by simpa using last)
    · rw [List.cons_append, scan_text_cons hc]
      refine ih later fun hl => last ?_
      rw [List.getLast?_cons, hl]
      rfl

theorem Plain.inert {text : String} (h : Plain text) : Inert text := by
  constructor
  · intro kind hin
    exact (h '\x7b' (hin.subset (by simp [TagKind.opening]))).1 rfl
  · intro hl
    exact (h '\x7b' (List.mem_of_getLast? hl)).1 rfl

/-- A tag is found as it was written. -/
theorem scan_tag {kind : TagKind} (hk : kind ≠ .comment) {text : List Char} (h : Sealed text)
    (rest : List Char) :
    scan .text ((Chunk.tag kind (spaced text)).chars ++ rest) =
      ⟨kind, spaced text⟩ :: scan .text rest := by
  have body : Sealed (' ' :: text) := .char (by decide) (by decide) (by decide) h
  have chars : (Chunk.tag kind (spaced text)).chars ++ rest =
      kind.opening ++ ((' ' :: text) ++ (' ' :: (kind.closing ++ rest))) := by
    simp [Chunk.chars, spaced]
  rw [chars, scan_opening, body.scan hk (by simp),
    scan_tag_cons (.inl (Ne.symm kind.closeMark_ne_blank)) (by simp), scan_closing]
  simp [spaced]

/-- A scan in a comment reads on while there is no closing of comments. -/
theorem scan_comment {data : List Char} (h : ¬ TagKind.comment.closing <:+: data) (body rest : List Char) :
    scan (.tag .comment body) (data ++ ' ' :: rest) =
      scan (.tag .comment (body ++ data)) (' ' :: rest) := by
  induction data generalizing body with
  | nil => simp
  | cons c data ih =>
    have later : ¬ TagKind.comment.closing <:+: data := fun hin => h (List.infix_cons hin)
    have noClosing : c ≠ TagKind.comment.closeMark ∨ ∀ tail, data ++ ' ' :: rest ≠ '\x7d' :: tail := by
      by_cases hc : c = TagKind.comment.closeMark
      · right
        intro tail heq
        match data with
        | [] => exact absurd (List.cons.inj heq).1 (by decide)
        | d :: data =>
          rw [List.cons_append, List.cons.injEq] at heq
          exact h ⟨[], data, by rw [hc, heq.1]; rfl⟩
      · exact .inl hc
    rw [List.cons_append, scan_tag_cons noClosing fun _ => rfl, ih later]
    simp

/-- A scan finds these tags in the text, whatever follows. -/
def Scans (text : String) (list : List Tag) : Prop :=
  ∀ rest, scan .text (text.toList ++ rest) = list ++ scan .text rest

theorem scanText_of_scans {text : String} {list : List Tag} (h : Scans text list) :
    scanText text = list := by
  simpa [scanText, scan] using h []

theorem scans_commentTag {text : String} (h : ¬ TagKind.comment.closing <:+: text.toList) :
    Scans (commentTag text) [.comment text] := by
  intro rest
  have chars : (commentTag text).toList ++ rest = TagKind.comment.opening ++
      (' ' :: (text.toList ++ ' ' :: (TagKind.comment.closing ++ rest))) := by
    simp [chars_commentTag, Chunk.chars, spaced]
  have blank : ' ' ≠ TagKind.comment.closeMark := by decide
  rw [chars, scan_opening, scan_tag_cons (.inl blank) (by simp), scan_comment h,
    scan_tag_cons (.inl blank) (by simp), scan_closing]
  simp [Tag.comment, spaced]

/-- Scans read sealed texts as what stands in a tag. -/
theorem scans_reading : Reading (fun text => Sealed text.toList) Scans where
  append ha hb := by
    rw [String.toList_append]
    exact ha.append hb
  plain h := .of_plain h
  emptyString := .quoted [] .nil
  hashOpening := .opening .nil
  hashClosing := .closing .nil
  emptyHash := .both .nil
  join ha hb rest := by
    rw [String.toList_append, List.append_assoc, ha, hb, List.append_assoc]
  text h := scan_inert h.inert
  output h rest := by
    rw [chars_outputTag]
    exact scan_tag (by decide) h rest
  statement h rest := by
    rw [chars_tag]
    exact scan_tag (by decide) h rest

end TwigComponent.Twig
