import TwigComponent.Proofs.Tags

/-!
# Nested control constructs

The statement tags of a template open and close constructs. They are read with a
stack of the constructs that are open: a closing keyword has to name the last
one opened, `else` belongs to a loop that has none yet, and `set` and `include`
leave the stack alone. A text is balanced if reading its keywords leaves every
stack as it was, so balanced texts may stand anywhere, one after the other or
inside one another.
-/
namespace TwigComponent.Twig

open Text

/-- The first word of a tag. -/
def keyword (body : List Char) : String :=
  String.ofList ((body.dropWhile isBlank).takeWhile fun c => !isBlank c)

/-- The keyword of a statement tag. -/
def Chunk.keywords : Chunk → List String
  | .tag .statement body => [keyword body]
  | _ => []

/-- The keywords of the statement tags, in order. -/
def keywords (chunks : List Chunk) : List String := chunks.flatMap Chunk.keywords

/-- A construct that is open. Of a loop it is known whether its `else` has been seen. -/
inductive Frame where
  | conditional
  | loop (hasElse : Bool)
  | block
  | embed
deriving DecidableEq, Repr

/-- Reads one keyword, the innermost construct first. -/
def readKeyword (stack : List Frame) (word : String) : Option (List Frame) :=
  match word, stack with
  | "set", _ => some stack
  | "include", _ => some stack
  | "if", _ => some (.conditional :: stack)
  | "for", _ => some (.loop false :: stack)
  | "block", _ => some (.block :: stack)
  | "embed", _ => some (.embed :: stack)
  | "else", .loop false :: outer => some (.loop true :: outer)
  | "endif", .conditional :: outer => some outer
  | "endfor", .loop _ :: outer => some outer
  | "endblock", .block :: outer => some outer
  | "endembed", .embed :: outer => some outer
  | _, _ => none

def readKeywords (stack : List Frame) (words : List String) : Option (List Frame) :=
  words.foldlM readKeyword stack

/-- Every construct is closed by its own keyword, and nothing is closed that is not open. -/
def WellNested (words : List String) : Prop := readKeywords [] words = some []

instance (words : List String) : Decidable (WellNested words) :=
  inferInstanceAs (Decidable (_ = _))

/-- Keywords that leave every stack as it is. -/
def Neutral (words : List String) : Prop := ∀ stack, readKeywords stack words = some stack

theorem readKeywords_append (stack : List Frame) (first second : List String) :
    readKeywords stack (first ++ second) =
      (readKeywords stack first).bind fun stack => readKeywords stack second :=
  List.foldlM_append

namespace Neutral

theorem nil : Neutral [] := fun _ => rfl

theorem append {first second : List String} (h : Neutral first) (k : Neutral second) :
    Neutral (first ++ second) := by
  intro stack
  rw [readKeywords_append, h stack]
  exact k stack

theorem single {word : String} (h : ∀ stack, readKeyword stack word = some stack) :
    Neutral [word] := by
  intro stack
  simp [readKeywords, h]

/-- A construct around neutral keywords is neutral. -/
theorem wrap {opening closing : String} {frame : Frame} {words : List String} (h : Neutral words)
    (hopen : ∀ stack, readKeyword stack opening = some (frame :: stack))
    (hclose : ∀ stack, readKeyword (frame :: stack) closing = some stack) :
    Neutral (opening :: words ++ [closing]) := by
  intro stack
  rw [readKeywords_append, readKeywords, List.foldlM_cons, hopen]
  change (readKeywords (frame :: stack) words).bind _ = _
  rw [h (frame :: stack)]
  change readKeywords (frame :: stack) [closing] = _
  simp [readKeywords, hclose]

/-- A loop with an `else`. -/
theorem loop {body fallback : List String} (h : Neutral body) (k : Neutral fallback) :
    Neutral ("for" :: body ++ "else" :: fallback ++ ["endfor"]) := by
  intro stack
  have opened : readKeywords stack ("for" :: body) = some (.loop false :: stack) := h _
  have turned : readKeywords (.loop false :: stack) ("else" :: fallback) =
      some (.loop true :: stack) := k _
  rw [readKeywords_append, readKeywords_append, opened]
  change (readKeywords _ ("else" :: fallback)).bind _ = _
  rw [turned]
  rfl

end Neutral

/-- The text splits into spaced chunks, and these are the keywords of its statement tags. -/
def Renders (text : List Char) (words : List String) : Prop :=
  ∃ chunks, IsSplit text chunks ∧ (∀ chunk ∈ chunks, chunk.Spaced) ∧ keywords chunks = words

/-- The keyword of a tag, if it is a statement. -/
def Tag.keywords (tag : Tag) : List String := (Chunk.tag tag.kind tag.body).keywords

theorem keywords_eq (chunks : List Chunk) : keywords chunks = (tags chunks).flatMap Tag.keywords := by
  induction chunks with
  | nil => rfl
  | cons chunk rest ih =>
    rw [keywords, tags, List.flatMap_cons, List.flatMap_cons, List.flatMap_append]
    congr 1
    cases chunk with
    | text content => rfl
    | tag kind body => exact (List.append_nil _).symm

namespace Renders

variable {text : List Char} {words : List String}

theorem iff_carries : Renders text words ↔ ∃ list, Carries text list ∧
    list.flatMap Tag.keywords = words := by
  constructor
  · rintro ⟨chunks, split, hs, rfl⟩
    exact ⟨tags chunks, ⟨chunks, split, hs, rfl⟩, (keywords_eq chunks).symm⟩
  · rintro ⟨list, ⟨chunks, split, hs, rfl⟩, rfl⟩
    exact ⟨chunks, split, hs, keywords_eq chunks⟩

end Renders

/-- A word that can be a keyword. -/
def IsWord (word : String) : Prop :=
  word.toList ≠ [] ∧
    word.toList.all (fun c => !isBlank c && c != '\x7b' && c != '\x7d') = true

instance : DecidablePred IsWord := fun _ => inferInstanceAs (Decidable (_ ∧ _))

theorem IsWord.forall_mem {word : String} (h : IsWord word) :
    ∀ c ∈ word.toList, isBlank c = false ∧ c ≠ '\x7b' ∧ c ≠ '\x7d' := by
  intro c hc
  have kept := List.all_eq_true.mp h.2 c hc
  simp only [Bool.and_eq_true, Bool.not_eq_true', bne_iff_ne] at kept
  exact ⟨kept.1.1, kept.1.2, kept.2⟩

/-- The first word of a tag is its keyword, whatever follows after a blank. -/
theorem keyword_word {word : String} (hw : IsWord word) (rest : List Char) :
    keyword (' ' :: (word.toList ++ ' ' :: rest)) = word := by
  have blank : isBlank ' ' = true := by decide
  have kept : (word.toList ++ ' ' :: rest).dropWhile isBlank = word.toList ++ ' ' :: rest := by
    match h : word.toList, hw.1 with
    | c :: cs, _ =>
      have := (hw.forall_mem c (by simp [h])).1
      rw [List.cons_append, List.dropWhile_cons_of_neg (by simp [this])]
  have taken : (word.toList ++ ' ' :: rest).takeWhile (fun c => !isBlank c) = word.toList := by
    rw [List.takeWhile_append_of_pos fun c hc => by simp [(hw.forall_mem c hc).1],
      List.takeWhile_cons_of_neg (by simp [blank]), List.append_nil]
  rw [keyword, List.dropWhile_cons_of_pos blank, kept, taken, String.ofList_toList]

theorem keyword_spaced {word : String} (hw : IsWord word) : keyword (spaced word.toList) = word :=
  keyword_word hw []

/-- `lead` is a keyword with the blank behind it. -/
theorem keyword_statement {word lead : String} (hw : IsWord word) (hl : word ++ " " = lead)
    (argument : String) : keyword (spaced (lead ++ argument).toList) = word := by
  have body : spaced (lead ++ argument).toList =
      ' ' :: (word.toList ++ ' ' :: (argument.toList ++ [' '])) := by simp [spaced, ← hl]
  rw [body, keyword_word hw]

/-- The keywords of the tags, in order. -/
def wordsOf (list : List Tag) : List String := list.flatMap Tag.keywords

@[simp] theorem wordsOf_nil : wordsOf [] = [] := rfl

@[simp] theorem wordsOf_append (first second : List Tag) :
    wordsOf (first ++ second) = wordsOf first ++ wordsOf second := List.flatMap_append

theorem wordsOf_statement {word lead : String} (hw : IsWord word) (hl : word ++ " " = lead)
    (argument : String) (rest : List Tag) :
    wordsOf (.statement (lead ++ argument) :: rest) = word :: wordsOf rest :=
  congrArg (· :: wordsOf rest) (keyword_statement hw hl argument)

theorem wordsOf_word {word : String} (hw : IsWord word) (rest : List Tag) :
    wordsOf (.statement word :: rest) = word :: wordsOf rest :=
  congrArg (· :: wordsOf rest) (keyword_spaced hw)

/-- A construct with the tags inside it. -/
theorem wordsOf_construct {opening lead closing : String} (ho : IsWord opening)
    (hl : opening ++ " " = lead) (hc : IsWord closing) (argument : String) (content : List Tag) :
    wordsOf (.statement (lead ++ argument) :: content ++ [.statement closing]) =
      opening :: wordsOf content ++ [closing] := by
  rw [wordsOf_append, wordsOf_statement ho hl, wordsOf_word hc, wordsOf_nil]

/-- Tags without statements other than `set`. -/
def Quiet (list : List Tag) : Prop := ∀ word ∈ wordsOf list, word = "set"

theorem Quiet.append {first second : List Tag} (h : Quiet first) (k : Quiet second) :
    Quiet (first ++ second) := by
  rw [Quiet, wordsOf_append, List.forall_mem_append]
  exact ⟨h, k⟩

theorem Quiet.flatMap {α : Type} {items : List α} {tags : α → List Tag}
    (h : ∀ item ∈ items, Quiet (tags item)) : Quiet (items.flatMap tags) := by
  rw [Quiet, wordsOf, List.flatMap_assoc, List.forall_mem_flatMap]
  exact h

theorem Quiet.neutral {list : List Tag} (h : Quiet list) : Neutral (wordsOf list) := by
  rw [Quiet] at h
  generalize wordsOf list = words at h
  induction words with
  | nil => exact .nil
  | cons word words ih =>
    rw [List.forall_mem_cons] at h
    have first : Neutral [word] := .single fun stack => by rw [h.1]; rfl
    exact first.append (ih h.2)

/-- A text that splits into spaced chunks whose keywords leave every stack as it was. -/
def Balanced (text : String) : Prop := ∃ words, Renders text.toList words ∧ Neutral words

theorem Balanced.of_carries {text : String} {list : List Tag} (h : Carries text.toList list)
    (hn : Neutral (wordsOf list)) : Balanced text :=
  ⟨wordsOf list, Renders.iff_carries.mpr ⟨list, h, rfl⟩, hn⟩

end TwigComponent.Twig
