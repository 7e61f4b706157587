import TwigComponent.Proofs.Interface
import TwigComponent.Proofs.Positions

/-!
# The source text of initializers

An initializer that says nothing about the type of its prop is kept as text: the
piece of the source from where it starts to where it ends. This needs the place of
the expression, and an expression has its place from the object that it was read
from, if the grammar knows its kind. An object of another kind is read as
`unknown`, which stands nowhere. Its prop is a string with an empty default, and
the hint about it points to the beginning of the source.
-/
namespace TwigComponent

namespace Text

theorem utf8ByteSize_cons (c : Char) (cs : List Char) :
    (String.ofList (c :: cs)).utf8ByteSize = c.utf8Size + (String.ofList cs).utf8ByteSize := by
  simp

theorem dropBytes_char (c : Char) (n : Nat) (cs : List Char) :
    dropBytes (c.utf8Size + n) (c :: cs) = dropBytes n cs := by
  have wide := c.utf8Size_pos
  obtain ⟨m, hm⟩ : ∃ m, c.utf8Size + n = m + 1 := ⟨c.utf8Size + n - 1, by omega⟩
  have left : m + 1 - c.utf8Size = n := by omega
  rw [hm, dropBytes, left, if_pos (by omega)]

theorem takeBytes_char (c : Char) (n : Nat) (cs : List Char) :
    takeBytes (c.utf8Size + n) (c :: cs) = (takeBytes n cs).map (c :: ·) := by
  have wide := c.utf8Size_pos
  obtain ⟨m, hm⟩ : ∃ m, c.utf8Size + n = m + 1 := ⟨c.utf8Size + n - 1, by omega⟩
  have left : m + 1 - c.utf8Size = n := by omega
  rw [hm, takeBytes, left, if_pos (by omega)]

theorem dropBytes_append (cs rest : List Char) :
    dropBytes (String.ofList cs).utf8ByteSize (cs ++ rest) = some rest := by
  induction cs with
  | nil => cases rest <;> rfl
  | cons c cs ih => rw [utf8ByteSize_cons, List.cons_append, dropBytes_char, ih]

theorem takeBytes_append (cs rest : List Char) :
    takeBytes (String.ofList cs).utf8ByteSize (cs ++ rest) = some cs := by
  induction cs with
  | nil => cases rest <;> rfl
  | cons c cs ih =>
    rw [utf8ByteSize_cons, List.cons_append, takeBytes_char, ih]
    rfl

/-- A span covers the text between its offsets. -/
theorem slice_append (before after : String) {text : String} (h : text ≠ "") :
    Span.slice ⟨before.utf8ByteSize, (before ++ text).utf8ByteSize⟩ (before ++ text ++ after) =
      some text := by
  have size : (before ++ text).utf8ByteSize = before.utf8ByteSize + text.utf8ByteSize :=
    String.utf8ByteSize_append
  have positive : text.utf8ByteSize ≠ 0 := by simpa using h
  have dropped := dropBytes_append before.toList (text.toList ++ after.toList)
  have taken := takeBytes_append text.toList after.toList
  have order : before.utf8ByteSize < (before ++ text).utf8ByteSize := by omega
  have covered : (before ++ text).utf8ByteSize - before.utf8ByteSize = text.utf8ByteSize := by omega
  rw [String.ofList_toList] at dropped taken
  rw [Span.slice, if_pos order, covered, String.toList_append, String.toList_append,
    List.append_assoc, dropped]
  simp [taken]

end Text

namespace Source

open Json Text

/-- An expression of a kind that the grammar knows has the place of its object, and any other one is
unknown. -/
theorem readExpr_cases {standing : Standing} {json : Json} {e : Expr}
    (h : readExpr standing json = .ok e) :
    ∃ kind, kindOf standing Expr.kinds json = .ok kind ∧
      (kind ∈ Expr.kinds ∧ readSpan json = .ok e.span ∧ e.kind = kind ∨
        kind ∉ Expr.kinds ∧ e = .unknown) := by
  rw [readExpr] at h
  obtain ⟨kind, hk, found⟩ := bind_eq_ok_iff.mp h
  clear h
  refine ⟨kind, hk, ?_⟩
  clear hk
  split at found
  case h_15 =>
    right
    constructor
    · simp only [Expr.kinds, List.mem_cons, List.not_mem_nil, or_false]
      tauto
    · exact (pure_eq_ok_iff.mp found).symm
  -- The other kinds read their fields in an order of their own, the place among them.
  all_goals
    left
    refine ⟨by decide, ?_⟩
    repeat
      replace found := bind_eq_ok_iff.mp found
      obtain ⟨_, _, found⟩ := found
    cases pure_eq_ok_iff.mp found
    exact ⟨by assumption, rfl⟩

section Declarators

variable {standing : Standing} {json : Json}

/-- The name of the grammar for this kind of statement. -/
def Statement.kind : Statement → String
  | .variables .. => "VariableDeclaration"
  | .exportNamed .. => "ExportNamedDeclaration"
  | .labeled .. => "LabeledStatement"
  | .expression .. => "ExpressionStatement"
  | .unknown => "Unknown"

theorem readStatement_kind {statement : Statement} (h : readStatement standing json = .ok statement)
    (hu : statement ≠ .unknown) : kindOf standing Statement.kinds json = .ok statement.kind := by
  rw [readStatement] at h
  obtain ⟨kind, hk, found⟩ := bind_eq_ok_iff.mp h
  clear h
  rw [hk]
  clear hk
  split at found
  case h_5 => exact absurd (pure_eq_ok_iff.mp found).symm hu
  all_goals
    repeat
      replace found := bind_eq_ok_iff.mp found
      obtain ⟨_, _, found⟩ := found
    cases pure_eq_ok_iff.mp found
    rfl

theorem readStatement_exported {span : Span} {statement : Statement}
    (h : readStatement standing json = .ok (.exportNamed span (some statement))) :
    readNullable (readStatement .inner) "declaration" json = .ok (some statement) := by
  rw [readStatement_of_export (readStatement_kind h (by simp))] at h
  simp only [bind_eq_ok_iff, pure_eq_ok_iff] at h
  obtain ⟨declaration, hd, place, hs, same⟩ := h
  cases same
  exact hd

theorem readStatement_of_variables {statement : Statement}
    (h : kindOf standing Statement.kinds json = .ok "VariableDeclaration") :
    readStatement standing json = .ok statement ↔ ∃ span keyword declarators,
      readItems readDeclarator "declarations" json = .ok declarators ∧ readSpan json = .ok span ∧
        readField readKeyword "kind" json = .ok keyword ∧
        statement = .variables span keyword declarators := by
  rw [readStatement, h]
  change (items json "declarations" >>= fun found =>
    found.mapM (fun item => readDeclarator item.1) >>= fun declarators =>
      readSpan json >>= fun span => field json "kind" >>= fun word =>
        readKeyword word.1 >>= fun keyword => pure (.variables span keyword declarators)) = .ok statement ↔ _
  simp only [readItems, readField, bind_eq_ok_iff, pure_eq_ok_iff]
  constructor
  · rintro ⟨found, hf, declarators, hd, span, hs, word, hw, keyword, hk, rfl⟩
    exact ⟨span, keyword, declarators, ⟨found, hf, hd⟩, hs, ⟨word, hw, hk⟩, rfl⟩
  · rintro ⟨span, keyword, declarators, ⟨found, hf, hd⟩, hs, ⟨word, hw, hk⟩, rfl⟩
    exact ⟨found, hf, declarators, hd, span, hs, word, hw, keyword, hk, rfl⟩

theorem readStatement_variables {span : Span} {keyword : Keyword} {declarators : List Declarator}
    (h : readStatement standing json = .ok (.variables span keyword declarators)) :
    readItems readDeclarator "declarations" json = .ok declarators := by
  obtain ⟨place, word, list, hl, -, -, same⟩ :=
    (readStatement_of_variables (readStatement_kind h (by simp))).mp h
  cases same
  exact hl

theorem readDeclarator_eq_ok_iff {declarator : Declarator} :
    readDeclarator json = .ok declarator ↔
      readNullable (readExpr .inner) "init" json = .ok declarator.init ∧
        readSpan json = .ok declarator.span ∧
        readField readPattern "id" json = .ok declarator.target := by
  simp only [readDeclarator, readNullable, readField, bind_eq_ok_iff, pure_eq_ok_iff]
  constructor
  · rintro ⟨found, hf, init, hi, span, hs, pattern, hp, target, ht, rfl⟩
    exact ⟨⟨found, hf, hi⟩, hs, ⟨pattern, hp, ht⟩⟩
  · rintro ⟨⟨found, hf, hi⟩, hs, ⟨pattern, hp, ht⟩⟩
    exact ⟨found, hf, _, hi, _, hs, pattern, hp, _, ht, rfl⟩

end Declarators

/-- The declarator of an exported declaration that is not constant: the indices of the statement in the
instance script and of the declarator in the statement, and the declarator itself. -/
def Document.Exports (document : Document) (index position : Nat) (declarator : Declarator) : Prop :=
  ∃ span place keyword declarators,
    document.instanceBody[index]? =
        some (.exportNamed span (some (.variables place keyword declarators))) ∧
      (keyword = .let ∨ keyword = .var) ∧ declarators[position]? = some declarator

/-- The path from a document to an initializer of an exported declaration. The instance script stands
under its name, or second in a list. -/
def initializerPath (first : Step) (index position : Nat) : List Step :=
  [first, .field "content", .field "body", .item index, .field "declaration",
    .field "declarations", .item position, .field "init"]

section Documents

variable {json value : Json} {document : Document} {first : Step}

theorem ne_null_of_at? {step : Step} (h : json.at? step = some value) : json ≠ .null := by
  rintro rfl
  cases step <;> cases h

theorem readScript_of_at? (hd : Document.ofJson json = .ok document)
    (hf : first = .field "instance" ∨ first = .item 1) (hv : json.at? first = some value)
    (hn : value ≠ .null) : ∃ script, document.instanceScript = some script ∧
      readScript value = .ok script := by
  have found : ∃ old, Role.script.read value = .ok old ∧
      document.instanceScript.map Part.script = some old := by
    rcases hf with rfl | rfl
    · exact (carries_document hd (.tail _ (.head _)) hv hn).found
    · exact (carries_document_item hd rfl hv hn).found
  obtain ⟨part, hr, hp⟩ := found
  obtain ⟨script, hs, rfl⟩ := map_eq_ok_iff.mp hr
  obtain ⟨kept, hk, same⟩ := Option.map_eq_some_iff.mp hp
  cases same
  exact ⟨script, hk, hs⟩

/-- The statements of the instance script are read from the body of its content. -/
theorem readEach_instanceBody {script content body : Json} (hd : Document.ofJson json = .ok document)
    (hf : first = .field "instance" ∨ first = .item 1) (hs : json.at? first = some script)
    (hc : script.at? (.field "content") = some content)
    (hb : content.at? (.field "body") = some body) :
    readEach (readStatement .alone) body = .ok document.instanceBody := by
  obtain ⟨read, hr, h⟩ := readScript_of_at? hd hf hs (ne_null_of_at? hc)
  rw [readScript_eq] at h
  simp only [bind_eq_ok_iff, pure_eq_ok_iff] at h
  obtain ⟨program, hp, span, -, context, -, rfl⟩ := h
  obtain ⟨⟨inner, rfl, h⟩, -⟩ := readOptional_carries hp hc
  rw [readProgram_eq] at h
  simp only [bind_eq_ok_iff, pure_eq_ok_iff] at h
  obtain ⟨statements, hi, place, -, rfl⟩ := h
  rw [Document.instanceBody, hr]
  exact (readItems_carries hi hb).1

/-- The value at the end of the path was read as the initializer of the declarator. -/
theorem readExpr_initializer {index position : Nat} {declarator : Declarator}
    (hd : Document.ofJson json = .ok document) (hf : first = .field "instance" ∨ first = .item 1)
    (he : document.Exports index position declarator)
    (hv : json.follow? (initializerPath first index position) = some value) (hn : value ≠ .null) :
    ∃ e, declarator.init = some e ∧ readExpr .inner value = .ok e := by
  obtain ⟨span, place, keyword, declarators, hs, -, hk⟩ := he
  obtain ⟨script, toScript, hv⟩ := Option.bind_eq_some_iff.mp hv
  obtain ⟨content, toContent, hv⟩ := Option.bind_eq_some_iff.mp hv
  obtain ⟨body, toBody, hv⟩ := Option.bind_eq_some_iff.mp hv
  obtain ⟨statement, toStatement, hv⟩ := Option.bind_eq_some_iff.mp hv
  obtain ⟨declaration, toDeclaration, hv⟩ := Option.bind_eq_some_iff.mp hv
  obtain ⟨list, toList, hv⟩ := Option.bind_eq_some_iff.mp hv
  obtain ⟨item, toItem, hv⟩ := Option.bind_eq_some_iff.mp hv
  obtain ⟨init, toInit, hv⟩ := Option.bind_eq_some_iff.mp hv
  cases hv
  have readBody := readEach_instanceBody hd hf toScript toContent toBody
  obtain ⟨⟨exported, atIndex, readExport⟩, -⟩ := readEach_carries readBody toStatement
  cases atIndex.symm.trans hs
  have readDeclaration := readStatement_exported readExport
  obtain ⟨⟨declared, same, readVariables⟩, -⟩ :=
    readNullable_carries readDeclaration toDeclaration (ne_null_of_at? toList)
  cases same
  have readList := (readItems_carries (readStatement_variables readVariables) toList).1
  obtain ⟨⟨found, atPosition, readFound⟩, -⟩ := readEach_carries readList toItem
  cases atPosition.symm.trans hk
  exact (readNullable_carries (readDeclarator_eq_ok_iff.mp readFound).1 toInit hn).1

end Documents

/-- Whether a literal is neither a regular expression nor a big integer. -/
def Literal.isPlain (content : Literal) : Bool :=
  content.regex.isNone && content.bigint.isNone

def LiteralValue.isNumber : LiteralValue → Bool
  | .number _ => true
  | _ => false

/-- Whether an initializer says what the type of its prop is. -/
def Expr.isRecognized : Expr → Bool
  | .array .. => true
  | .object .. => true
  | .literal _ content => content.isPlain
  | .unary _ operator (.literal _ content) =>
    operator == "-" && content.isPlain && content.value.isNumber
  | _ => false

end Source

open Source Text

/-- What is said about a prop that is kept as text. -/
def unrecognizedFacts (name kind text : String) (span : Span) : Report (List Component.Fact) where
  value := [.prop name { type := .string, default := some (.str text) }]
  diagnostics := [{
    code := .unrecognizedInitializer
    message := s!"prop `{name}` is initialized with {kind}; typed as string with its source text as default"
    span := span
  }]

namespace Component

variable {component : Component} {name : String} {declarator : Declarator} {e : Expr}

theorem inferProp_of_not_recognized (h : e.isRecognized = false) :
    component.inferProp name e = component.unrecognized name e := by
  unfold inferProp
  split
  · cases h
  · cases h
  · rename_i content
    obtain ⟨value, raw, regex, bigint⟩ := content
    cases regex with
    | some regex => rfl
    | none =>
      cases bigint with
      | some digits => rfl
      | none => cases h
  · rename_i content
    obtain ⟨value, raw, regex, bigint⟩ := content
    cases regex with
    | some regex => rfl
    | none =>
      cases bigint with
      | some digits => rfl
      | none =>
        cases value with
        | number value => cases h
        | string value => rfl
        | boolean value => rfl
        | null => rfl
  · rfl

theorem propFacts_of_not_recognized (hn : declarator.target.identifier? = some name)
    (hi : declarator.init = some e) (h : e.isRecognized = false) {text : String}
    (ht : component.rawOrValue e = pure text) :
    component.propFacts declarator = unrecognizedFacts name e.kind text e.span := by
  rw [propFacts, hn, hi]
  change (component.inferProp name e >>= fun definition => pure [Fact.prop name definition]) = _
  rw [inferProp_of_not_recognized h, unrecognized, ht]
  rfl

theorem rawOrValue_of_slice {source text : String} (hs : component.source = some source)
    (ht : e.span.slice source = some text) : component.rawOrValue e = pure text := by
  have covered : component.source.bind e.span.slice = some text := by rw [hs, Option.bind_some, ht]
  have raw : component.rawText? e = some text := by
    unfold rawText?
    rw [covered]
  rw [rawOrValue, raw]

theorem rawOrValue_unknown (component : Component) : component.rawOrValue .unknown = pure "" := by
  have nowhere : component.source.bind Expr.unknown.span.slice = none := by
    cases component.source <;> rfl
  have raw : component.rawText? .unknown = none := by
    unfold rawText?
    rw [nowhere]
  rw [rawOrValue, raw]
  rfl

/-- What is said about an exported declarator is said about the component. -/
theorem diagnostics_exported {index position : Nat}
    (he : component.document.Exports index position declarator)
    (hn : declarator.target.identifier? = some name) (title : String) (overrides : Option Yaml)
    (options : Options) :
    (component.propFacts declarator).diagnostics <:+:
      (component.context title overrides options).diagnostics := by
  obtain ⟨span, place, keyword, declarators, hs, hk, hd⟩ := he
  have changeable : keyword ≠ .const := by rcases hk with rfl | rfl <;> simp
  have asProp : declarator.asProp? = some (.prop name declarator.init) := by
    simp [Declarator.asProp?, hn]
  have declared : Declaration.prop name declarator.init ∈ component.document.declarations := by
    refine List.mem_flatMap.mpr ⟨_, List.mem_of_getElem? hs, ?_⟩
    rw [Statement.declarations, if_neg changeable]
    exact List.mem_filterMap.mpr ⟨declarator, List.mem_of_getElem? hd, asProp⟩
  obtain ⟨earlier, later, split⟩ := List.append_of_mem declared
  rw [component.propFacts_of_some asProp, diagnostics_declarationFacts, diagnostics_declarations, split]
  exact ⟨_, _, by rw [List.flatMap_append, List.flatMap_cons, List.append_assoc]⟩

end Component

/-- The initializer of an exported variable that says nothing about the type of its prop. The prop is a
string with exactly the source text as its default and one hint at the place of that text, if the grammar
knows the kind of the initializer. If it does not, then the text and the place are lost. -/
theorem initializer_text_kept {json init : Json} {document : Document} {first : Json.Step}
    {index position : Nat} {declarator : Declarator} {name : String} (before text after : String)
    (hd : Document.ofJson json = .ok document)
    (hf : first = .field "instance" ∨ first = .item 1)
    (he : document.Exports index position declarator)
    (hn : declarator.target.identifier? = some name)
    (hi : json.follow? (initializerPath first index position) = some init)
    (hr : ∀ e, declarator.init = some e → e.isRecognized = false)
    (hs : readSpan init = .ok ⟨before.utf8ByteSize, (before ++ text).utf8ByteSize⟩)
    (ht : text ≠ "") :
    let component : Component := ⟨document, some (before ++ text ++ after)⟩
    ∃ kind, kindOf .inner Expr.kinds init = .ok kind ∧
      (kind ∈ Expr.kinds → component.propFacts declarator =
        unrecognizedFacts name kind text ⟨before.utf8ByteSize, (before ++ text).utf8ByteSize⟩) ∧
      (kind ∉ Expr.kinds → component.propFacts declarator = unrecognizedFacts name "Unknown" "" {}) ∧
      ∀ title overrides options, (component.propFacts declarator).diagnostics <:+:
        (component.context title overrides options).diagnostics := by
  intro component
  have given : init ≠ .null := by
    rintro rfl
    cases hs
  obtain ⟨e, initialized, read⟩ := readExpr_initializer hd hf he hi given
  have unrecognized := hr e initialized
  obtain ⟨kind, hk, known⟩ := readExpr_cases read
  refine ⟨kind, hk, ?_, ?_, component.diagnostics_exported he hn⟩
  · intro listed
    obtain ⟨-, place, rfl⟩ := known.resolve_right fun unknown => unknown.1 listed
    have span : e.span = ⟨before.utf8ByteSize, (before ++ text).utf8ByteSize⟩ :=
      Except.ok.inj (place.symm.trans hs)
    have slice : e.span.slice (before ++ text ++ after) = some text := by
      rw [span]
      exact slice_append before after ht
    have raw : component.rawOrValue e = pure text := Component.rawOrValue_of_slice rfl slice
    rw [Component.propFacts_of_not_recognized hn initialized unrecognized raw, span]
  · intro unlisted
    obtain ⟨-, rfl⟩ := known.resolve_left fun listed => unlisted listed.1
    exact Component.propFacts_of_not_recognized hn initialized unrecognized
      component.rawOrValue_unknown

section Documents

/-- The declarator `n = ...`. -/
def declaratorJson (members : List (String × Json)) : Json :=
  .obj [("id", .obj [("type", .str "Identifier"), ("name", .str "n")]), ("init", .obj members)]

/-- The statement `export let n = ...`. -/
def statementJson (members : List (String × Json)) : Json :=
  .obj [("type", .str "ExportNamedDeclaration"),
    ("declaration", .obj [("type", .str "VariableDeclaration"), ("kind", .str "let"),
      ("declarations", .arr [declaratorJson members])])]

/-- A document with that statement alone. -/
def exportJson (members : List (String × Json)) : Json :=
  .obj [("instance", .obj [("content", .obj [("body", .arr [statementJson members])])])]

def exportDeclarator (e : Expr) : Declarator := ⟨{}, .identifier {} "n", some e⟩

def exportDocument (e : Expr) : Document :=
  { instanceScript := some ⟨{}, "", { body :=
      [.exportNamed {} (some (.variables {} .let [exportDeclarator e]))] }⟩ }

theorem exports_exportDocument (e : Expr) : (exportDocument e).Exports 0 0 (exportDeclarator e) :=
  ⟨{}, {}, .let, [exportDeclarator e], rfl, .inl rfl, rfl⟩

theorem readDeclarator_exportJson {members : List (String × Json)} {e : Expr}
    (h : readExpr .inner (.obj members) = .ok e) :
    readDeclarator (declaratorJson members) = .ok (exportDeclarator e) := by
  refine readDeclarator_eq_ok_iff.mpr ⟨?_, rfl, ?_⟩
  · rw [readNullable_eq]
    exact map_eq_ok_iff.mpr ⟨e, h, rfl⟩
  · rw [readField_eq]
    change readPattern _ = _
    rw [readPattern]
    rfl

theorem readStatement_exportJson {members : List (String × Json)} {e : Expr}
    (h : readExpr .inner (.obj members) = .ok e) :
    readStatement .alone (statementJson members) =
      .ok (.exportNamed {} (some (.variables {} .let [exportDeclarator e]))) := by
  have declaration : readStatement .inner (.obj [("type", .str "VariableDeclaration"),
      ("kind", .str "let"), ("declarations", .arr [declaratorJson members])]) =
        .ok (.variables {} .let [exportDeclarator e]) := by
    refine (readStatement_of_variables rfl).mpr ⟨{}, .let, _, ?_, rfl, rfl, rfl⟩
    rw [readItems_eq]
    exact (readEach_arr _ _).trans (mapM_eq_ok_iff.mpr (.cons (readDeclarator_exportJson h) .nil))
  rw [readStatement_of_export rfl, readNullable_eq]
  change ((some <$> readStatement .inner _) >>= _) = _
  rw [declaration]
  rfl

theorem ofJson_exportJson {members : List (String × Json)} {e : Expr}
    (h : readExpr .inner (.obj members) = .ok e) :
    Document.ofJson (exportJson members) = .ok (exportDocument e) := by
  have body : readItems (readStatement .alone) "body" (.obj [("body", .arr [statementJson members])]) =
      .ok (exportDocument e).instanceBody := by
    rw [readItems_eq]
    exact (readEach_arr _ _).trans (mapM_eq_ok_iff.mpr (.cons (readStatement_exportJson h) .nil))
  have program : readProgram (.obj [("body", .arr [statementJson members])]) =
      .ok { body := (exportDocument e).instanceBody } := by
    rw [readProgram_eq, body]
    rfl
  have script : readScript (.obj [("content", .obj [("body", .arr [statementJson members])])]) =
      .ok ⟨{}, "", { body := (exportDocument e).instanceBody }⟩ := by
    rw [readScript_eq, readOptional_eq]
    change ((some <$> readProgram _) >>= _) = _
    rw [program]
    rfl
  rw [exportJson, ofJson_obj, readDocument, readNullable_eq]
  change ((some <$> readScript _) >>= _) = _
  rw [script]
  rfl

/-- The identifier `été`. -/
def summerMembers : List (String × Json) :=
  [("type", .str "Identifier"), ("start", .ofNat 23), ("end", .ofNat 28), ("name", .str "été")]

theorem initializer_text_kept_summer :
    let component : Component :=
      ⟨exportDocument (.identifier ⟨23, 28⟩ "été"), some "<script>export let n = été;</script>"⟩
    Document.ofJson (exportJson summerMembers) = .ok component.document ∧
      component.propFacts (exportDeclarator (.identifier ⟨23, 28⟩ "été")) =
        unrecognizedFacts "n" "Identifier" "été" ⟨23, 28⟩ := by
  intro component
  have read : readExpr .inner (.obj summerMembers) = .ok (.identifier ⟨23, 28⟩ "été") := by
    rw [readExpr]
    rfl
  have loaded := ofJson_exportJson read
  have unrecognized : ∀ e, (exportDeclarator (.identifier ⟨23, 28⟩ "été")).init = some e →
      e.isRecognized = false := by
    intro e he
    cases he
    rfl
  obtain ⟨kind, named, kept, -⟩ := initializer_text_kept "<script>export let n = " "été" ";</script>"
    loaded (.inl rfl) (exports_exportDocument _) rfl rfl unrecognized rfl (by decide)
  cases named
  exact ⟨loaded, kept (by decide)⟩

/-- The arrow function `() => 1`. -/
def arrowMembers : List (String × Json) :=
  [("type", .str "ArrowFunctionExpression"), ("start", .ofNat 23), ("end", .ofNat 30)]

/-- The grammar has no arrow functions, so nothing is left of this one but a hint at the beginning of
the source. -/
theorem arrow_text_lost :
    let component : Component := ⟨exportDocument .unknown, some "<script>export let n = () => 1;</script>"⟩
    Document.ofJson (exportJson arrowMembers) = .ok component.document ∧
      readSpan (.obj arrowMembers) = .ok ⟨23, 30⟩ ∧
      Span.slice ⟨23, 30⟩ "<script>export let n = () => 1;</script>" = some "() => 1" ∧
      component.propFacts (exportDeclarator .unknown) = unrecognizedFacts "n" "Unknown" "" {} := by
  intro component
  have read : readExpr .inner (.obj arrowMembers) = .ok .unknown := by
    rw [readExpr]
    rfl
  have covered := slice_append "<script>export let n = " ";</script>" (by decide : "() => 1" ≠ "")
  have named : (exportDeclarator .unknown).target.identifier? = some "n" := rfl
  have initialized : (exportDeclarator .unknown).init = some .unknown := rfl
  have lost := Component.propFacts_of_not_recognized named initialized rfl component.rawOrValue_unknown
  exact ⟨ofJson_exportJson read, rfl, covered, lost⟩

end Documents

end TwigComponent
