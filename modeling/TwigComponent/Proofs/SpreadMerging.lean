import Mathlib.Data.List.Chain
import TwigComponent.Proofs.OrderedMaps
import TwigComponent.Proofs.TagTexts

/-!
# Spreads in literals

A literal with spreads is written as a chain of merges, one for each group of its
members. The groups are the members that left a text, in the order written, cut into
maximal runs of plain entries with every spread by itself. There is exactly one such
cut (`IsCut.eq_groups`).

What a chain of merges stands for depends on what its entries and sources stand
for, which is given here by their positions among the members that are left. Merging the groups
from left to right gives the same as adding the members one by one, for hashes,
where a later entry wins and a key keeps its first place, and for arrays, where a
merge is a concatenation. Both are instances of `Collecting`.
-/
namespace TwigComponent.Twig

open Source Text

/-- The members of a group. -/
def Group.pieces : Group → List Piece
  | .entries texts => texts.map .entry
  | .spread source => [.spread source]

def Group.isRun : Group → Bool
  | .entries _ => true
  | .spread _ => false

/-- Groups that are a list of members, in its order, cut into maximal runs of entries with every
spread by itself. -/
structure IsCut (pieces : List Piece) (list : List Group) : Prop where
  inOrder : list.flatMap Group.pieces = pieces
  noEmptyRun : ∀ texts, .entries texts ∈ list → texts ≠ []
  noAdjacentRuns : list.IsChain fun left right => left.isRun = false ∨ right.isRun = false

theorem IsCut.spread {pieces : List Piece} {list : List Group} (h : IsCut pieces list)
    (source : String) : IsCut (.spread source :: pieces) (.spread source :: list) where
  inOrder := by
    rw [List.flatMap_cons, h.inOrder]
    rfl
  noEmptyRun texts ht := by
    rcases List.mem_cons.mp ht with heq | later
    · cases heq
    · exact h.noEmptyRun texts later
  noAdjacentRuns := by
    rw [List.isChain_cons]
    exact ⟨fun _ _ => .inl rfl, h.noAdjacentRuns⟩

/-- An entry joins a run that stands first, and else is a run by itself. -/
theorem IsCut.entry {pieces : List Piece} {list : List Group} (h : IsCut pieces list)
    (text : String) : IsCut (.entry text :: pieces) (consEntry text list) := by
  obtain ⟨inOrder, noEmptyRun, noAdjacentRuns⟩ := h
  match list with
  | [] =>
    refine ⟨?_, ?_, List.isChain_singleton _⟩
    · rw [← inOrder]
      rfl
    · intro texts ht
      cases List.mem_singleton.mp ht
      exact List.cons_ne_nil _ _
  | .entries first :: rest =>
    rw [List.isChain_cons] at noAdjacentRuns
    refine ⟨?_, ?_, List.isChain_cons.mpr noAdjacentRuns⟩
    · rw [← inOrder]
      rfl
    · intro texts ht
      rcases List.mem_cons.mp ht with heq | later
      · cases heq
        exact List.cons_ne_nil _ _
      · exact noEmptyRun texts (List.mem_cons_of_mem _ later)
  | .spread source :: rest =>
    refine ⟨?_, ?_, List.isChain_cons_cons.mpr ⟨.inr rfl, noAdjacentRuns⟩⟩
    · rw [← inOrder]
      rfl
    · intro texts ht
      rcases List.mem_cons.mp ht with heq | later
      · cases heq
        exact List.cons_ne_nil _ _
      · exact noEmptyRun texts later

theorem isCut_groups (pieces : List Piece) : IsCut pieces (groups pieces) := by
  induction pieces with
  | nil => exact ⟨rfl, by simp [groups], List.isChain_nil⟩
  | cons piece rest ih =>
    cases piece with
    | entry text => exact ih.entry text
    | spread source => exact ih.spread source

/-- Entries in front of groups that do not begin with a run are one run. -/
theorem groups_run_append {texts : List String} (ht : texts ≠ []) {pieces : List Piece}
    (hp : ∀ first ∈ (groups pieces).head?, first.isRun = false) :
    groups (texts.map .entry ++ pieces) = .entries texts :: groups pieces := by
  induction texts with
  | nil => exact absurd rfl ht
  | cons text texts ih =>
    rw [List.map_cons, List.cons_append, groups]
    cases texts with
    | nil =>
      rw [List.map_nil, List.nil_append]
      cases hg : groups pieces with
      | nil => rfl
      | cons first rest =>
        have single := hp first (by rw [hg]; rfl)
        cases first with
        | entries texts => cases single
        | spread source => rfl
    | cons next texts =>
      rw [ih (List.cons_ne_nil _ _)]
      rfl

/-- There is no other cut. -/
theorem IsCut.eq_groups {pieces : List Piece} {list : List Group} (h : IsCut pieces list) :
    list = groups pieces := by
  obtain ⟨rfl, noEmptyRun, noAdjacentRuns⟩ := h
  induction list with
  | nil => rfl
  | cons first rest ih =>
    rw [List.isChain_cons] at noAdjacentRuns
    have later := ih (fun texts ht => noEmptyRun texts (List.mem_cons_of_mem _ ht)) noAdjacentRuns.2
    rw [List.flatMap_cons]
    cases first with
    | spread source => exact congrArg (List.cons _) later
    | entries texts =>
      have apart : ∀ next ∈ (groups (rest.flatMap Group.pieces)).head?, next.isRun = false := by
        intro next hn
        rw [← later] at hn
        exact (noAdjacentRuns.1 next hn).resolve_left (by simp [Group.isRun])
      have run := groups_run_append (noEmptyRun texts List.mem_cons_self) apart
      rw [← later] at run
      exact run.symm

section Texts

/-- The text of a group: the entries of a run between the marks of the literal, or the source of a
spread. -/
def Group.text (opening closing : String) : Group → String
  | .entries texts => opening ++ ", ".intercalate texts ++ closing
  | .spread source => source

/-- The first group, and a merge filter for every later one; nothing if there is no group. -/
def chain? (opening closing : String) : List Group → Option String
  | [] => none
  | first :: rest =>
    some (first.text opening closing
      ++ String.join (rest.map fun group => "|merge(" ++ group.text opening closing ++ ")"))

theorem write_arrayLiteral : Group.write arrayLiteral = Group.text "[" "]" := by
  funext group
  cases group <;> rfl

theorem write_hashLiteral : Group.write hashLiteral = Group.text "\x7b " " \x7d" := by
  funext group
  cases group <;> rfl

/-- A chain of merges, if the groups are written between the marks. -/
theorem mergeChain_eq {literal : List String → String} {opening closing : String}
    (h : Group.write literal = Group.text opening closing) (list : List Group) :
    mergeChain literal list = (chain? opening closing list).getD "" := by
  cases list with
  | nil => rfl
  | cons first rest =>
    rw [mergeChain, h]
    rfl

theorem isEmpty_pieces (pieces : List Piece) : pieces.isEmpty = (groups pieces).isEmpty := by
  cases hg : groups pieces with
  | nil =>
    have cut := (isCut_groups pieces).inOrder
    rw [hg] at cut
    rw [← cut]
    rfl
  | cons first rest =>
    cases pieces with
    | nil => cases hg
    | cons piece others => rfl

theorem writeArray_eq_chain (pieces : List Piece) :
    writeArray pieces = (chain? "[" "]" (groups pieces)).getD "[]" := by
  rw [writeArray, isEmpty_pieces, mergeChain_eq write_arrayLiteral]
  cases groups pieces <;> rfl

theorem writeHash_eq_chain (pieces : List Piece) :
    writeHash pieces = (chain? "\x7b " " \x7d" (groups pieces)).getD "\x7b\x7d" := by
  rw [writeHash, isEmpty_pieces, mergeChain_eq write_hashLiteral]
  cases groups pieces <;> rfl

/-- An element of an array literal as it is written. -/
def elementRendering : Option Expr → Piece
  | none => .entry "null"
  | some (.spread _ argument) => .spread (filterOperand .value argument).value
  | some element => .entry (expression .value element).value

/-- A member of an object literal as it is written. -/
def memberRendering : Member → Piece
  | .property span key value computed _ method =>
    .entry (settle span (propertyEntry key value computed method)).value
  | .spread _ argument => .spread (filterOperand .value argument).value

/-- An attribute of a component as it is written. An attribute without a value leaves nothing, and
directives take no part. -/
def attributeRendering : Attribute → Piece
  | .normal _ name value =>
    let text := (attributeValue value).value
    .entry (if text = "" then "" else hashKey name ++ ": " ++ text)
  | .spread _ expression => .spread (filterOperand .value expression).value
  | .unknown => .entry ""

/-- The members that left a text. -/
def survivors (pieces : List Piece) : List Piece := pieces.filter fun piece => piece.text != ""

/-- A list in which every member leaves its rendering if that has a text. -/
theorem flatMap_eq_survivors {α : Type} {write : α → List Piece} {rendering : α → Piece}
    (h : ∀ item, write item = survivors [rendering item]) (items : List α) :
    items.flatMap write = survivors (items.map rendering) := by
  induction items with
  | nil => rfl
  | cons item rest ih =>
    rw [List.flatMap_cons, ih, h, survivors, survivors, survivors, ← List.filter_append]
    rfl

theorem keepEntry_eq_survivors (text : String) : keepEntry text = survivors [.entry text] := by
  by_cases h : text = "" <;> simp [keepEntry, survivors, Piece.text, h]

theorem keepSpread_eq_survivors (source : String) : keepSpread source = survivors [.spread source] := by
  by_cases h : source = "" <;> simp [keepSpread, survivors, Piece.text, h]

theorem elementPiece_eq_survivors (element : Option Expr) :
    (elementPiece element).value = survivors [elementRendering element] := by
  cases element with
  | none => rfl
  | some expr =>
    cases expr with
    | spread span argument => exact keepSpread_eq_survivors _
    | _ => simp only [elementPiece, Report.value_map, keepEntry_eq_survivors, elementRendering]

theorem memberPiece_eq_survivors (member : Member) :
    (memberPiece member).value = survivors [memberRendering member] := by
  cases member with
  | property span key value computed shorthand method => exact keepEntry_eq_survivors _
  | spread span argument => exact keepSpread_eq_survivors _

theorem attributePieces_eq_survivors (item : Attribute) :
    (attributePieces item).value = survivors [attributeRendering item] := by
  cases item with
  | normal span name value =>
    rw [attributePieces, Report.value_bind, Report.value_pure, attributeRendering]
    split
    · rfl
    · simp [survivors, Piece.text]
  | spread span expression => exact keepSpread_eq_survivors _
  | unknown => rfl

end Texts

/-- Values that entries are added to one by one, and that can be joined, the later one last. -/
structure Collecting (M E : Type) where
  empty : M
  add : M → E → M
  join : M → M → M
  empty_join : ∀ value, join empty value = value
  join_empty : ∀ value, join value empty = value
  join_add : ∀ value other entry, join value (add other entry) = add (join value other) entry

/-- Hashes: a merge overrides, and new keys come last. -/
def hashes (κ ν : Type) [DecidableEq κ] : Collecting (OrderedMap κ ν) (κ × ν) where
  empty := .empty
  add := .insert
  join := .merge
  empty_join := OrderedMap.empty_merge
  join_empty := OrderedMap.merge_empty
  join_add := OrderedMap.merge_insert

/-- Arrays: a merge appends. -/
def arrays (α : Type) : Collecting (List α) α where
  empty := []
  add list item := list ++ [item]
  join list other := list ++ other
  empty_join := List.nil_append
  join_empty := List.append_nil
  join_add list other item := (List.append_assoc list other [item]).symm

/-- What the members at the positions of a list stand for: a plain one for an entry, and the source
of a spread for a value. -/
structure Assignment (M E : Type) where
  entry : Nat → E
  source : Nat → M

namespace Collecting

variable {M E : Type} (c : Collecting M E) (a : Assignment M E)

/-- The members one by one, from a position on. -/
def addPieces : Nat → M → List Piece → M
  | _, done, [] => done
  | position, done, .entry _ :: rest => addPieces (position + 1) (c.add done (a.entry position)) rest
  | position, done, .spread _ :: rest =>
    addPieces (position + 1) (c.join done (a.source position)) rest

/-- What a group stands for whose first member has the position given. -/
def ofGroup (position : Nat) : Group → M
  | .entries texts => ((List.range' position texts.length).map a.entry).foldl c.add c.empty
  | .spread _ => a.source position

/-- What each group stands for, the first member of the first one at the position given. -/
def ofGroups : Nat → List Group → List M
  | _, [] => []
  | position, group :: rest =>
    c.ofGroup a position group :: ofGroups (position + group.pieces.length) rest

/-- Joins values from left to right, beginning with the first. -/
def joinAll : List M → M
  | [] => c.empty
  | first :: rest => rest.foldl c.join first

theorem addPieces_append (first second : List Piece) (position : Nat) (done : M) :
    c.addPieces a position done (first ++ second) =
      c.addPieces a (position + first.length) (c.addPieces a position done first) second := by
  induction first generalizing position done with
  | nil => rfl
  | cons piece rest ih =>
    have shifted : position + (piece :: rest).length = position + 1 + rest.length := by
      rw [List.length_cons]
      omega
    rw [shifted]
    cases piece with
    | entry text => exact ih _ _
    | spread source => exact ih _ _

theorem addPieces_entries (texts : List String) (position : Nat) (done : M) :
    c.addPieces a position done (texts.map .entry) =
      ((List.range' position texts.length).map a.entry).foldl c.add done := by
  induction texts generalizing position done with
  | nil => rfl
  | cons text rest ih => exact ih (position + 1) (c.add done (a.entry position))

/-- Entries that are collected first and joined then are added one by one. -/
theorem join_foldl_add (entries : List E) (value other : M) :
    c.join value (entries.foldl c.add other) = entries.foldl c.add (c.join value other) := by
  induction entries generalizing other with
  | nil => rfl
  | cons entry rest ih =>
    rw [List.foldl_cons, ih, c.join_add, List.foldl_cons]

theorem join_ofGroup (group : Group) (position : Nat) (done : M) :
    c.join done (c.ofGroup a position group) = c.addPieces a position done group.pieces := by
  cases group with
  | entries texts =>
    rw [ofGroup, join_foldl_add, c.join_empty, Group.pieces, addPieces_entries]
  | spread source => rfl

theorem foldl_join_ofGroups (list : List Group) (position : Nat) (done : M) :
    (c.ofGroups a position list).foldl c.join done =
      c.addPieces a position done (list.flatMap Group.pieces) := by
  induction list generalizing position done with
  | nil => rfl
  | cons group rest ih =>
    rw [ofGroups, List.foldl_cons, ih, join_ofGroup, List.flatMap_cons, addPieces_append]

/-- Joining the groups is adding their members one by one. -/
theorem joinAll_ofGroups (pieces : List Piece) :
    c.joinAll (c.ofGroups a 0 (groups pieces)) = c.addPieces a 0 c.empty pieces := by
  have seeded : ∀ values, c.joinAll values = values.foldl c.join c.empty := by
    intro values
    cases values with
    | nil => rfl
    | cons first rest => rw [joinAll, List.foldl_cons, c.empty_join]
  rw [seeded, foldl_join_ofGroups, (isCut_groups pieces).inOrder]

end Collecting

/-- Object literals, array literals and component arguments with any spreads are written as the
groups of the members that left a text, merged from left to right. The groups are these members in
the order written, cut into maximal runs with every spread by itself. A run is written as a literal
of its entries and a spread as its source. Whatever the entries and the sources stand for, merging
the groups gives what adding the members one by one gives. -/
theorem spreads_merge_in_order (mode : Mode) (span : Span) (members : List Member)
    (elements : List (Option Expr)) (attributes : List Attribute) :
    (let kept := survivors (members.map memberRendering)
     (∀ list, IsCut kept list ↔ list = groups kept) ∧
     (expression mode (.object span members)).value =
       (chain? "\x7b " " \x7d" (groups kept)).getD "\x7b\x7d" ∧
     ∀ (κ ν : Type) [DecidableEq κ] (a : Assignment (OrderedMap κ ν) (κ × ν)),
       (hashes κ ν).joinAll ((hashes κ ν).ofGroups a 0 (groups kept)) =
         (hashes κ ν).addPieces a 0 .empty kept) ∧
    (let kept := survivors (elements.map elementRendering)
     (∀ list, IsCut kept list ↔ list = groups kept) ∧
     (expression mode (.array span elements)).value =
       (chain? "[" "]" (groups kept)).getD "[]" ∧
     ∀ (α : Type) (a : Assignment (List α) α),
       (arrays α).joinAll ((arrays α).ofGroups a 0 (groups kept)) =
         (arrays α).addPieces a 0 [] kept) ∧
    (let kept := survivors (attributes.map attributeRendering)
     (∀ list, IsCut kept list ↔ list = groups kept) ∧
     (componentArguments attributes).value = chain? "\x7b " " \x7d" (groups kept) ∧
     ∀ (κ ν : Type) [DecidableEq κ] (a : Assignment (OrderedMap κ ν) (κ × ν)),
       (hashes κ ν).joinAll ((hashes κ ν).ofGroups a 0 (groups kept)) =
         (hashes κ ν).addPieces a 0 .empty kept) := by
  have cut : ∀ kept list, IsCut kept list ↔ list = groups kept := fun kept list =>
    ⟨IsCut.eq_groups, fun heq => heq ▸ isCut_groups kept⟩
  refine ⟨⟨cut _, ?_, ?_⟩, ⟨cut _, ?_, ?_⟩, ⟨cut _, ?_, ?_⟩⟩
  · rw [value_object, flatMap_eq_survivors memberPiece_eq_survivors, writeHash_eq_chain]
  · intro κ ν _ a
    exact (hashes κ ν).joinAll_ofGroups a _
  · rw [value_array, flatMap_eq_survivors elementPiece_eq_survivors, writeArray_eq_chain]
  · intro α a
    exact (arrays α).joinAll_ofGroups a _
  · rw [componentArguments, Report.value_bind, Report.value_pure, value_argumentPieces,
      flatMap_eq_survivors attributePieces_eq_survivors, isEmpty_pieces,
      mergeChain_eq write_hashLiteral]
    cases groups (survivors (attributes.map attributeRendering)) <;> rfl
  · intro κ ν _ a
    exact (hashes κ ν).joinAll_ofGroups a _

/-- How `{ a: x, ...b, c: y }` is written, and `[x, ...?, y, ...b]` with a first spread that has no
Twig form: the entries around that one are one run. -/
example :
    (expression .value (.object {} [
      .property {} (.identifier {} "a") (.identifier {} "x") false false false,
      .spread {} (.identifier {} "b"),
      .property {} (.identifier {} "c") (.identifier {} "y") false false false])).value =
        "\x7b a: x \x7d|merge(b)|merge(\x7b c: y \x7d)" ∧
    (expression .value (.array {} [
      some (.identifier {} "x"), some (.spread {} .unknown), some (.identifier {} "y"),
      some (.spread {} (.identifier {} "b"))])).value = "[x, y]|merge(b)" := by
  decide +kernel

end TwigComponent.Twig
