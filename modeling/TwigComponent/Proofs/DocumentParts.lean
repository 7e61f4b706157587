import TwigComponent.Proofs.NodeParts

/-!
# Parts of statements, scripts and documents

Reading carries through every step from a document down to its nodes, attributes and
statements. A document that is a list of its parts is read as the object that has
them under their names.
-/
namespace TwigComponent.Source

open Json Text

theorem Statement.field_cases {kind key : String} {inner : Role}
    (h : (key, inner) ∈ Statement.fields kind) :
    inner = .one .statement .inner ∧
      (kind = "ExportNamedDeclaration" ∧ key = "declaration" ∨
        kind = "LabeledStatement" ∧ key = "body") := by
  unfold Statement.fields at h
  split at h <;> simp_all

section Statements

variable {standing : Standing} {json value : Json} {statement : Statement}

theorem readStatement_of_export
    (h : kindOf standing Statement.kinds json = .ok "ExportNamedDeclaration") :
    readStatement standing json = do
      let declaration ← readNullable (readStatement .inner) "declaration" json
      return .exportNamed (← readSpan json) declaration := by
  rw [readStatement, h, readNullable, bind_assoc]
  rfl

theorem readStatement_of_label
    (h : kindOf standing Statement.kinds json = .ok "LabeledStatement") :
    readStatement standing json = .ok statement ↔ ∃ span label body,
      readSpan json = .ok span ∧ readField readLabel "label" json = .ok label ∧
        readField (readStatement .inner) "body" json = .ok body ∧
        statement = .labeled span label body := by
  rw [readStatement, h]
  change (field json "body" >>= fun inner => readSpan json >>= fun span =>
    field json "label" >>= fun name => readLabel name.1 >>= fun label =>
      readStatement .inner inner.1 >>= fun body => pure (.labeled span label body)) = .ok statement ↔ _
  simp only [readField, bind_eq_ok_iff, pure_eq_ok_iff]
  constructor
  · rintro ⟨inner, hi, span, hs, name, hn, label, hl, body, hb, rfl⟩
    exact ⟨span, label, body, hs, ⟨name, hn, hl⟩, ⟨inner, hi, hb⟩, rfl⟩
  · rintro ⟨span, label, body, hs, ⟨name, hn, hl⟩, ⟨inner, hi, hb⟩, rfl⟩
    exact ⟨inner, hi, span, hs, name, hn, label, hl, body, hb, rfl⟩

theorem carries_declaration (h : readStatement standing json = .ok statement)
    (hk : kindOf standing Statement.kinds json = .ok "ExportNamedDeclaration")
    (hv : json.at? (.field "declaration") = some value) (hn : value ≠ .null) :
    Carries (.one .statement standing) json (.statement statement) (.field "declaration")
      (.one .statement .inner) value := by
  rw [readStatement_of_export hk] at h
  simp only [bind_eq_ok_iff, pure_eq_ok_iff] at h
  obtain ⟨declaration, hd, span, hs, rfl⟩ := h
  obtain ⟨⟨old, rfl, hr⟩, change⟩ := readNullable_carries hd hv hn
  refine .of_reads (fun _ => rfl) (fun _ => rfl) ⟨old, hr, rfl⟩ fun other new ho =>
    ⟨.exportNamed span (some new), ?_, rfl, rfl⟩
  have given : other ≠ .null := by
    rintro rfl
    rw [readStatement] at ho
    cases ho
  rw [readStatement_of_export ((kindOf_put (by decide) ..).trans hk), change other given, ho,
    readsOnly_span.put (by decide), hs]
  rfl

theorem carries_body (h : readStatement standing json = .ok statement)
    (hk : kindOf standing Statement.kinds json = .ok "LabeledStatement")
    (hv : json.at? (.field "body") = some value) :
    Carries (.one .statement standing) json (.statement statement) (.field "body")
      (.one .statement .inner) value := by
  obtain ⟨span, label, body, hs, hl, hb, rfl⟩ := (readStatement_of_label hk).mp h
  obtain ⟨old, change⟩ := readField_carries hb hv
  refine .of_reads (fun _ => rfl) (fun _ => rfl) ⟨body, old, rfl⟩ fun other new ho =>
    ⟨.labeled span label new, ?_, rfl, rfl⟩
  refine (readStatement_of_label ((kindOf_put (by decide) ..).trans hk)).mpr
    ⟨span, label, new, ?_, ?_, (change other).trans ho, rfl⟩
  · rw [readsOnly_span.put (by decide), hs]
  · rw [(readsOnly_field readLabel "label").put (by decide), hl]

end Statements

section Lists

variable {standing : Standing} {json value : Json} {index : Nat}

/-- A list carries through its items, whatever they are. -/
theorem carries_item {α : Type} {read : Json → Except LoadError α} {ofList : List α → Part}
    {ofItem : α → Part} {role inner : Role} {list : List α}
    (hr : ∀ json, role.read json = ofList <$> readEach read json)
    (hi : ∀ json, inner.read json = ofItem <$> read json)
    (hat : ∀ list, (ofList list).at? (.item index) = list[index]?.map ofItem)
    (hput : ∀ list new, (ofList list).put (.item index) (ofItem new) = ofList (list.set index new))
    (h : readEach read json = .ok list) (hv : json.at? (.item index) = some value) :
    Carries role json (ofList list) (.item index) inner value := by
  obtain ⟨⟨old, ho, hread⟩, change⟩ := readEach_carries h hv
  refine .of_reads hr hi ⟨old, hread, by rw [hat, ho]; rfl⟩ fun other new hn =>
    ⟨list.set index new, change other new hn, hput list new, ?_⟩
  have bound : index < list.length := (List.getElem?_eq_some_iff.mp ho).1
  rw [hat, List.getElem?_set_self bound]
  rfl

theorem carries_list {grammar : Grammar} {part : Part}
    (h : (Role.list grammar standing).read json = .ok part)
    (hv : json.at? (.item index) = some value) :
    Carries (.list grammar standing) json part (.item index) (.one grammar standing) value := by
  cases grammar
  all_goals
    obtain ⟨list, hl, rfl⟩ := map_eq_ok_iff.mp h
    exact carries_item (fun _ => rfl) (fun _ => rfl) (fun _ => rfl) (fun _ _ => rfl) hl hv

end Lists

section Containers

variable {json value : Json}

theorem carries_fragment {fragment : Fragment} (h : readFragment json = .ok fragment)
    (hv : json.at? (.field "children") = some value) :
    Carries .fragment json (.fragment fragment) (.field "children") (.list .node .alone) value := by
  simp only [readFragment, readChildren_eq, bind_eq_ok_iff, pure_eq_ok_iff] at h
  obtain ⟨span, hs, children, hc, rfl⟩ := h
  obtain ⟨old, change⟩ := readItems_carries hc hv
  refine .of_reads (fun _ => rfl) (fun _ => rfl) ⟨children, old, rfl⟩ fun other list hl =>
    ⟨⟨span, list⟩, ?_, rfl, rfl⟩
  rw [readFragment, readsOnly_span.put (by decide), hs, readChildren_eq, change, hl]
  rfl

theorem carries_branch {branch : Branch} (h : readBranch json = .ok branch)
    (hv : json.at? (.field "children") = some value) :
    Carries .branch json (.branch branch) (.field "children") (.list .node .inner) value := by
  simp only [readBranch, readChildren_eq, bind_eq_ok_iff, pure_eq_ok_iff] at h
  obtain ⟨span, hs, children, hc, rfl⟩ := h
  obtain ⟨old, change⟩ := readItems_carries hc hv
  refine .of_reads (fun _ => rfl) (fun _ => rfl) ⟨children, old, rfl⟩ fun other list hl =>
    ⟨.mk span list, ?_, rfl, rfl⟩
  rw [readBranch, readsOnly_span.put (by decide), hs, readChildren_eq, change, hl]
  rfl

theorem readProgram_eq (json : Json) :
    readProgram json = do
      let body ← readItems (readStatement .alone) "body" json
      return ⟨← readSpan json, body⟩ := by
  rw [readProgram, readItems, bind_assoc]

theorem carries_program {program : Program} (h : readProgram json = .ok program)
    (hv : json.at? (.field "body") = some value) :
    Carries .program json (.program program) (.field "body") (.list .statement .alone) value := by
  simp only [readProgram_eq, bind_eq_ok_iff, pure_eq_ok_iff] at h
  obtain ⟨body, hb, span, hs, rfl⟩ := h
  obtain ⟨old, change⟩ := readItems_carries hb hv
  refine .of_reads (fun _ => rfl) (fun _ => rfl) ⟨body, old, rfl⟩ fun other list hl =>
    ⟨⟨span, list⟩, ?_, rfl, rfl⟩
  rw [readProgram_eq, change, hl, readsOnly_span.put (by decide), hs]
  rfl

theorem readScript_eq (json : Json) :
    readScript json = do
      let content ← readOptional readProgram "content" json
      return ⟨← readSpan json, ← textOrEmpty json "context", content.getD {}⟩ := by
  rw [readScript, readOptional, bind_assoc]

theorem carries_script {script : Script} (h : readScript json = .ok script)
    (hv : json.at? (.field "content") = some value) :
    Carries .script json (.script script) (.field "content") .program value := by
  simp only [readScript_eq, bind_eq_ok_iff, pure_eq_ok_iff] at h
  obtain ⟨content, hc, span, hs, context, ht, rfl⟩ := h
  obtain ⟨⟨old, rfl, hr⟩, change⟩ := readOptional_carries hc hv
  refine .of_reads (fun _ => rfl) (fun _ => rfl) ⟨old, hr, rfl⟩ fun other new hn =>
    ⟨⟨span, context, new⟩, ?_, rfl, rfl⟩
  rw [readScript_eq, change, hn, readsOnly_span.put (by decide), hs,
    (readsOnly_textOrEmpty "context").put (by decide), ht]
  rfl

end Containers

section Documents

variable {json value : Json} {document : Document}

/-- The document of an object. -/
def readDocument (json : Json) : Except LoadError Document := do
  let html ← readOptional readFragment "html" json
  let inst ← readNullable readScript "instance" json
  let module ← readNullable readScript "module" json
  return ⟨html.getD {}, inst, module⟩

theorem ofJson_obj (members : List (String × Json)) :
    Document.ofJson (.obj members) = readDocument (.obj members) := by
  simp only [Document.ofJson, readDocument, readOptional, readNullable, bind_assoc]

theorem ofJson_of_field {key : String} (hv : json.at? (.field key) = some value) :
    Document.ofJson json = readDocument json ∧
      ∀ new, Document.ofJson (json.put (.field key) new) = readDocument (json.put (.field key) new) := by
  cases json with
  | obj members => exact ⟨ofJson_obj members, fun _ => ofJson_obj _⟩
  | _ => cases hv

theorem carries_document {key : String} {inner : Role} (h : Document.ofJson json = .ok document)
    (hf : (key, inner) ∈ Role.document.fields json) (hv : json.at? (.field key) = some value)
    (hn : value ≠ .null) :
    Carries .document json (.document document) (.field key) inner value := by
  obtain ⟨before, after⟩ := ofJson_of_field hv
  rw [before] at h
  simp only [readDocument, bind_eq_ok_iff, pure_eq_ok_iff] at h
  obtain ⟨html, hh, inst, hi, module, hm, rfl⟩ := h
  have given : ∀ {other : Json} {script : Script}, readScript other = .ok script → other ≠ .null := by
    rintro other script hs rfl
    cases hs
  simp only [Role.fields, List.mem_cons, Prod.mk.injEq, List.not_mem_nil, or_false] at hf
  obtain ⟨rfl, rfl⟩ | ⟨rfl, rfl⟩ | ⟨rfl, rfl⟩ := hf
  · obtain ⟨⟨old, rfl, hr⟩, change⟩ := readOptional_carries hh hv
    refine .of_reads (fun _ => rfl) (fun _ => rfl) ⟨old, hr, rfl⟩ fun other new ho =>
      ⟨⟨new, inst, module⟩, ?_, rfl, rfl⟩
    rw [after, readDocument, change, ho, (readsOnly_nullable _ _).put (by decide), hi,
      (readsOnly_nullable _ _).put (by decide), hm]
    rfl
  · obtain ⟨⟨old, rfl, hr⟩, change⟩ := readNullable_carries hi hv hn
    refine .of_reads (fun _ => rfl) (fun _ => rfl) ⟨old, hr, rfl⟩ fun other new ho =>
      ⟨⟨html.getD {}, some new, module⟩, ?_, rfl, rfl⟩
    rw [after, readDocument, change other (given ho), ho, (readsOnly_optional _ _).put (by decide), hh,
      (readsOnly_nullable _ _).put (by decide), hm]
    rfl
  · obtain ⟨⟨old, rfl, hr⟩, change⟩ := readNullable_carries hm hv hn
    refine .of_reads (fun _ => rfl) (fun _ => rfl) ⟨old, hr, rfl⟩ fun other new ho =>
      ⟨⟨html.getD {}, inst, some new⟩, ?_, rfl, rfl⟩
    rw [after, readDocument, change other (given ho), ho, (readsOnly_optional _ _).put (by decide), hh,
      (readsOnly_nullable _ _).put (by decide), hi]
    rfl

/-- A list of the parts of a document stands for the object with these parts. -/
theorem ofJson_arr {items : List Json} (h : items.length ≤ 3) :
    Document.ofJson (.arr items) = Document.ofJson (.obj (Document.fields.zip items)) := by
  have script : ∀ json, readNullableScript json = readPresent readScript (some json) := by
    intro json
    cases json <;> rfl
  rw [ofJson_obj, readDocument, readOptional_eq, readNullable_eq, readNullable_eq]
  rcases items with _ | ⟨html, _ | ⟨inst, _ | ⟨module, _ | ⟨extra, rest⟩⟩⟩⟩
  · rfl
  · change (readFragment html >>= _) = ((some <$> readFragment html) >>= _)
    cases readFragment html <;> rfl
  · change (readFragment html >>= _) = ((some <$> readFragment html) >>= _)
    cases readFragment html
    · rfl
    · change (readNullableScript inst >>= _) = _
      rw [script]
      rfl
  · change (readFragment html >>= _) = ((some <$> readFragment html) >>= _)
    cases readFragment html
    · rfl
    · change (readNullableScript inst >>= fun _ => readNullableScript module >>= _) = _
      simp only [script]
      rfl
  · simp only [List.length_cons] at h
    omega

/-- The items of a list document are the fields of an object document. -/
theorem field_of_item {index : Nat} {inner : Role} (h : Role.document.itemRole? index = some inner) :
    ∃ key, Document.fields[index]? = some key ∧ (key, inner) ∈ Role.document.fields json ∧
      (∀ whole, (Part.document whole).at? (.item index) = (Part.document whole).at? (.field key)) ∧
      ∀ whole new, (Part.document whole).put (.item index) new =
        (Part.document whole).put (.field key) new := by
  rcases index with _ | _ | _ | index
  · cases h
    exact ⟨"html", rfl, .head _, fun _ => rfl, fun _ new => by cases new <;> rfl⟩
  · cases h
    exact ⟨"instance", rfl, .tail _ (.head _), fun _ => rfl, fun _ new => by cases new <;> rfl⟩
  · cases h
    exact ⟨"module", rfl, .tail _ (.tail _ (.head _)), fun _ => rfl,
      fun _ new => by cases new <;> rfl⟩
  · cases h

theorem at?_zip_fields {items : List Json} {index : Nat} {key : String}
    (h : Document.fields[index]? = some key) :
    (Json.obj (Document.fields.zip items)).at? (.field key) = items[index]? := by
  rcases index with _ | _ | _ | index
  all_goals cases h
  all_goals rcases items with _ | ⟨html, _ | ⟨inst, _ | ⟨module, rest⟩⟩⟩ <;> rfl

theorem put_zip_fields {items : List Json} {index : Nat} {key : String}
    (h : Document.fields[index]? = some key) (new : Json) :
    (Json.obj (Document.fields.zip items)).put (.field key) new =
      .obj (Document.fields.zip (items.set index new)) := by
  rcases index with _ | _ | _ | index
  all_goals cases h
  all_goals rcases items with _ | ⟨html, _ | ⟨inst, _ | ⟨module, rest⟩⟩⟩ <;> rfl

theorem length_le_of_ofJson {items : List Json} (h : Document.ofJson (.arr items) = .ok document) :
    items.length ≤ 3 := by
  rcases items with _ | ⟨html, _ | ⟨inst, _ | ⟨module, _ | ⟨extra, rest⟩⟩⟩⟩
  rotate_left 4
  · cases h
  all_goals simp

theorem carries_document_item {index : Nat} {inner : Role} (h : Document.ofJson json = .ok document)
    (hr : Role.document.itemRole? index = some inner) (hv : json.at? (.item index) = some value)
    (hn : value ≠ .null) :
    Carries .document json (.document document) (.item index) inner value := by
  cases json with
  | arr items =>
    have short := length_le_of_ofJson h
    obtain ⟨key, hk, hf, sameAt, samePut⟩ := field_of_item hr
    rw [ofJson_arr short] at h
    -- A change of the item is a change of the field with its name, in the object and in the document.
    have named := carries_document h hf ((at?_zip_fields hk).trans hv) hn
    refine ⟨?_, fun other new ho => ?_⟩
    · rw [sameAt]
      exact named.found
    · obtain ⟨read, found⟩ := named.replaced other new ho
      rw [put_zip_fields hk] at read
      change Part.document <$> Document.ofJson (.arr (items.set index other)) = _ ∧ _
      rw [ofJson_arr (by rwa [List.length_set]), samePut]
      obtain ⟨changed, hc, same⟩ := map_eq_ok_iff.mp read
      rw [← same] at found ⊢
      exact ⟨map_eq_ok_iff.mpr ⟨changed, hc, rfl⟩, (sameAt changed).trans found⟩
  | _ => cases hv

end Documents

/-- Reading carries through every step to a value that is read. -/
theorem carries_step {role inner : Role} {json value : Json} {part : Part} {step : Step}
    (h : role.read json = .ok part) (hi : role.inner? json step = some inner)
    (hv : json.at? step = some value) (hn : value ≠ .null) : Carries role json part step inner value := by
  cases step with
  | field key =>
    have hf : (key, inner) ∈ role.fields json := by
      obtain ⟨before, after, hs, -⟩ := List.lookup_eq_some_iff.mp hi
      rw [hs]
      exact List.mem_append_right _ List.mem_cons_self
    cases role with
    | document =>
      obtain ⟨document, hd, rfl⟩ := map_eq_ok_iff.mp h
      exact carries_document hd hf hv hn
    | fragment =>
      obtain ⟨fragment, hd, rfl⟩ := map_eq_ok_iff.mp h
      cases List.mem_singleton.mp hf
      exact carries_fragment hd hv
    | script =>
      obtain ⟨script, hd, rfl⟩ := map_eq_ok_iff.mp h
      cases List.mem_singleton.mp hf
      exact carries_script hd hv
    | program =>
      obtain ⟨program, hd, rfl⟩ := map_eq_ok_iff.mp h
      cases List.mem_singleton.mp hf
      exact carries_program hd hv
    | branch =>
      obtain ⟨branch, hd, rfl⟩ := map_eq_ok_iff.mp h
      cases List.mem_singleton.mp hf
      exact carries_branch hd hv
    | list => cases hf
    | one grammar standing =>
      rw [Role.fields] at hf
      split at hf
      · rename_i kind hk
        cases grammar
        · obtain ⟨node, hd, rfl⟩ := map_eq_ok_iff.mp h
          exact carries_node hd hk hf hv hn
        · cases hf
        · obtain ⟨statement, hd, rfl⟩ := map_eq_ok_iff.mp h
          obtain ⟨rfl, ⟨rfl, rfl⟩ | ⟨rfl, rfl⟩⟩ := Statement.field_cases hf
          · exact carries_declaration hd hk hv hn
          · exact carries_body hd hk hv
      · cases hf
  | item index =>
    cases role with
    | document =>
      obtain ⟨document, hd, rfl⟩ := map_eq_ok_iff.mp h
      exact carries_document_item hd hi hv hn
    | list grammar standing =>
      cases hi
      exact carries_list h hv
    | _ => cases hi

end TwigComponent.Source
