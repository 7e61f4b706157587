import TwigComponent.Proofs.DocumentParts

/-!
# Positions in a document

A position is a path of steps into the JSON value of a document, and the same path
leads to a part of the document that was read. What carries through one step carries
through a path, by induction on the path.

An object whose kind a grammar does not know reads as unknown wherever that grammar
is read, so with one at any position the document can be read as before, and only
the part at that position is another one.
-/
namespace TwigComponent

namespace Json

/-- The value at the end of a path. -/
def follow? : Json → List Step → Option Json
  | json, [] => some json
  | json, step :: path => do (← json.at? step).follow? path

/-- Puts a value in place of the one at the end of a path. -/
def replace : Json → List Step → Json → Json
  | _, [], new => new
  | json, step :: path, new =>
    match json.at? step with
    | some value => json.put step (value.replace path new)
    | none => json

end Json

namespace Source

open Json

/-- The part at the end of a path. -/
def Part.follow? : Part → List Step → Option Part
  | part, [] => some part
  | part, step :: path => do (← part.at? step).follow? path

/-- Puts a part in place of the one at the end of a path. -/
def Part.replace : Part → List Step → Part → Part
  | _, [], new => new
  | part, step :: path, new =>
    match part.at? step with
    | some inner => part.put step (inner.replace path new)
    | none => part

/-- The role in which the value at the end of a path is read, if it is read at all. Null stands for
a part that is not there. -/
def Role.at? : Role → Json → List Step → Option Role
  | role, _, [] => some role
  | role, json, step :: path => do
    let inner ← role.inner? json step
    match ← json.at? step with
    | .null => none
    | value => inner.at? value path

theorem Role.at?_cons {role reached : Role} {json : Json} {step : Step} {path : List Step}
    (h : role.at? json (step :: path) = some reached) :
    ∃ inner value, role.inner? json step = some inner ∧ json.at? step = some value ∧
      value ≠ .null ∧ inner.at? value path = some reached := by
  obtain ⟨inner, hi, h⟩ := Option.bind_eq_some_iff.mp h
  obtain ⟨value, hv, h⟩ := Option.bind_eq_some_iff.mp h
  refine ⟨inner, value, hi, hv, ?_, ?_⟩
  · rintro rfl
    cases h
  · cases value with
    | null => cases h
    | _ => exact h

section Paths

variable {role reached : Role} {json : Json} {part : Part} {path : List Step}

/-- What stands at the end of a path was read as the part at the end of that path. -/
theorem read_follow? (h : role.read json = .ok part) (hp : role.at? json path = some reached) :
    ∃ value old, json.follow? path = some value ∧ part.follow? path = some old ∧
      reached.read value = .ok old := by
  induction path generalizing role json part with
  | nil =>
    cases hp
    exact ⟨json, part, rfl, rfl, h⟩
  | cons step path ih =>
    obtain ⟨inner, value, hi, hv, hn, hrest⟩ := Role.at?_cons hp
    obtain ⟨old, ho, hat⟩ := (carries_step h hi hv hn).found
    obtain ⟨last, reading, hl, he, hr⟩ := ih ho hrest
    refine ⟨last, reading, ?_, ?_, hr⟩
    · rw [Json.follow?, hv]
      exact hl
    · rw [Part.follow?, hat]
      exact he

/-- Another value at the end of a path makes another part there and no other difference. -/
theorem read_replace (h : role.read json = .ok part) (hp : role.at? json path = some reached)
    {other : Json} {new : Part} (hn : reached.read other = .ok new) :
    role.read (json.replace path other) = .ok (part.replace path new) ∧
      (part.replace path new).follow? path = some new := by
  induction path generalizing role json part with
  | nil =>
    cases hp
    exact ⟨hn, rfl⟩
  | cons step path ih =>
    obtain ⟨inner, value, hi, hv, hne, hrest⟩ := Role.at?_cons hp
    -- The value at the first step is read anew by the induction hypothesis, and the step passes
    -- that on to the whole.
    have carries := carries_step h hi hv hne
    obtain ⟨old, ho, hat⟩ := carries.found
    obtain ⟨read, reach⟩ := ih ho hrest
    obtain ⟨readStep, reachStep⟩ := carries.replaced _ _ read
    rw [Json.replace, hv, Part.replace, hat]
    refine ⟨readStep, ?_⟩
    rw [Part.follow?, reachStep]
    exact reach

end Paths

/-- An object whose one type is a text that names no kind of a grammar. -/
def Grammar.IsForeign (grammar : Grammar) (json : Json) : Prop :=
  ∃ members kind, json = .obj members ∧
    (members.filter fun member => member.1 = "type") = [("type", .str kind)] ∧ kind ∉ grammar.kinds

theorem Grammar.IsForeign.kindOf_eq {grammar : Grammar} {json : Json} (h : grammar.IsForeign json)
    (standing : Standing) :
    ∃ kind, kindOf standing grammar.kinds json = .ok kind ∧ kind ∉ grammar.kinds := by
  obtain ⟨members, kind, rfl, only, unlisted⟩ := h
  refine ⟨kind, ?_, unlisted⟩
  have values : (members.filterMap fun member => if member.1 = "type" then some member.2 else none) =
      (members.filter fun member => member.1 = "type").map Prod.snd := by
    rw [← List.filterMap_eq_filter, List.map_filterMap]
    refine List.filterMap_congr fun member _ => ?_
    by_cases same : member.1 = "type" <;> simp [Option.guard, same]
  change readField (kindName standing grammar.kinds) "type" (.obj members) = _
  rw [readField_eq, value?, valuesUnder, values, only]
  rfl

/-- A foreign object reads as unknown. -/
theorem Grammar.IsForeign.read {grammar : Grammar} {json : Json} (h : grammar.IsForeign json)
    (standing : Standing) : (Role.one grammar standing).read json = .ok grammar.unknown := by
  obtain ⟨kind, hk, unlisted⟩ := h.kindOf_eq standing
  cases grammar
  · exact map_eq_ok_iff.mpr ⟨_, readNode_eq_ok_iff.mpr ⟨kind, hk, .unknown unlisted⟩, rfl⟩
  · refine map_eq_ok_iff.mpr ⟨.unknown, ?_, rfl⟩
    rw [readAttribute]
    refine bind_eq_ok_iff.mpr ⟨kind, hk, ?_⟩
    split
    · exact absurd (by decide) unlisted
    · exact absurd (by decide) unlisted
    · rfl
  · refine map_eq_ok_iff.mpr ⟨.unknown, ?_, rfl⟩
    rw [readStatement]
    refine bind_eq_ok_iff.mpr ⟨kind, hk, ?_⟩
    split
    · exact absurd (by decide) unlisted
    · exact absurd (by decide) unlisted
    · exact absurd (by decide) unlisted
    · exact absurd (by decide) unlisted
    · rfl

/-- With an object of unknown kind at any position where a node, an attribute or a statement is read,
a document that could be read can still be read, and it is the same document but for the unknown part
at that position. -/
theorem unknown_kind_keeps_document {json : Json} {document : Document} {path : List Step}
    {grammar : Grammar} {standing : Standing} {other : Json}
    (h : Document.ofJson json = .ok document)
    (hp : Role.document.at? json path = some (.one grammar standing))
    (ho : grammar.IsForeign other) :
    (∃ value part, json.follow? path = some value ∧
      (Part.document document).follow? path = some part ∧
      (Role.one grammar standing).read value = .ok part) ∧
    ∃ changed, Document.ofJson (json.replace path other) = .ok changed ∧
      Part.document changed = (Part.document document).replace path grammar.unknown ∧
      (Part.document changed).follow? path = some grammar.unknown := by
  have whole : Role.document.read json = .ok (.document document) :=
    map_eq_ok_iff.mpr ⟨document, h, rfl⟩
  refine ⟨read_follow? whole hp, ?_⟩
  obtain ⟨read, reach⟩ := read_replace whole hp (ho.read standing)
  obtain ⟨changed, hc, same⟩ := map_eq_ok_iff.mp read
  rw [← same] at reach
  exact ⟨changed, hc, same, reach⟩

def hiddenJson : Json :=
  .obj [("type", .str "Element"), ("name", .str "b"), ("attributes", .arr [
    .obj [("type", .str "Attribute"), ("name", .str "hidden"), ("value", .bool true)]])]

/-- A block whose else branch holds an element with one attribute. -/
def fallbackBlock : Json :=
  .obj [("type", .str "IfBlock"),
    ("expression", .obj [("type", .str "Identifier"), ("name", .str "ready")]),
    ("else", .obj [("children", .arr [hiddenJson])])]

def fallbackJson : Json := .obj [("html", .obj [("children", .arr [fallbackBlock])])]

def fallbackDocument (attr : Attribute) : Document :=
  ⟨⟨{}, [.ifBlock {} (.identifier {} "ready") [] (some (.mk {} [.element {} "b" [attr] []])) false]⟩,
    none, none⟩

/-- The way to the attribute of the element. -/
def fallbackPath : List Step :=
  [.field "html", .field "children", .item 0, .field "else", .field "children", .item 0,
    .field "attributes", .item 0]

def handlerJson : Json := .obj [("name", .str "click"), ("type", .str "EventHandler")]

theorem readChildren_singleton {standing : Standing} {item : Json} {node : Node}
    (h : readNode standing item = .ok node) :
    readChildren standing (.obj [("children", .arr [item])]) = .ok [node] := by
  rw [readChildren_eq, readItems_eq]
  exact (readEach_arr _ _).trans (mapM_eq_ok_iff.mpr (.cons h .nil))

theorem ofJson_fallback :
    Document.ofJson fallbackJson = .ok (fallbackDocument (.normal {} "hidden" (.bool true))) := by
  have element : readNode .inner hiddenJson =
      .ok (.element {} "b" [.normal {} "hidden" (.bool true)] []) := by
    refine readNode_eq_ok_iff.mpr ⟨"Element", rfl, .element rfl rfl rfl ?_⟩
    rw [readChildren_eq]
    rfl
  have branch : readBranch (.obj [("children", .arr [hiddenJson])]) =
      .ok (.mk {} [.element {} "b" [.normal {} "hidden" (.bool true)] []]) := by
    rw [readBranch, readChildren_singleton element]
    rfl
  have block : readNode .alone fallbackBlock = .ok (.ifBlock {} (.identifier {} "ready") []
      (some (.mk {} [.element {} "b" [.normal {} "hidden" (.bool true)] []])) false) := by
    refine readNode_eq_ok_iff.mpr ⟨"IfBlock", rfl, .ifBlock rfl ?_ ?_ ?_ rfl⟩
    · change readExpr .inner _ = _
      rw [readExpr]
      rfl
    · rw [readChildren_eq]
      rfl
    · rw [readOtherwise_eq]
      exact map_eq_ok_iff.mpr ⟨_, branch, rfl⟩
  have html : readFragment (.obj [("children", .arr [fallbackBlock])]) =
      .ok (fallbackDocument (.normal {} "hidden" (.bool true))).html := by
    rw [readFragment, readChildren_singleton block]
    rfl
  rw [fallbackJson, ofJson_obj, readDocument, readOptional_eq]
  change ((some <$> readFragment _) >>= _) = _
  rw [html]
  rfl

theorem unknown_kind_keeps_document_fallback :
    Document.ofJson fallbackJson = .ok (fallbackDocument (.normal {} "hidden" (.bool true))) ∧
      Role.document.at? fallbackJson fallbackPath = some (.one .attribute .inner) ∧
      Grammar.attribute.IsForeign handlerJson ∧
      Document.ofJson (fallbackJson.replace fallbackPath handlerJson) =
        .ok (fallbackDocument .unknown) := by
  have position : Role.document.at? fallbackJson fallbackPath = some (.one .attribute .inner) := by
    decide
  have unlisted : Grammar.attribute.IsForeign handlerJson := ⟨_, "EventHandler", rfl, rfl, by decide⟩
  obtain ⟨-, changed, hc, same, -⟩ := unknown_kind_keeps_document ofJson_fallback position unlisted
  refine ⟨ofJson_fallback, position, unlisted, hc.trans (congrArg Except.ok ?_)⟩
  injection same

end Source

end TwigComponent
