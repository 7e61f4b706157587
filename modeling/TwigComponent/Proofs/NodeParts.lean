import TwigComponent.Proofs.Parts

/-!
# Parts of a node

What a node is read as, kind by kind, and that reading carries through the fields of
a node that hold its children, its attributes and its else branch: none of its other
fields is looked up under these keys.
-/
namespace TwigComponent.Source

open Json Text

section Equations

theorem readChildren_eq (standing : Standing) (json : Json) :
    readChildren standing json = readItems (readNode standing) "children" json := by
  rw [readChildren]
  rfl

theorem readAttributes_eq (standing : Standing) (json : Json) :
    readAttributes standing json = readItems (readAttribute standing) "attributes" json := rfl

theorem readOtherwise_eq (json : Json) : readOtherwise json = readNullable readBranch "else" json := by
  rw [readOtherwise]
  rfl

theorem readsOnly_children (standing : Standing) : ReadsOnly ["children"] (readChildren standing) := by
  rw [funext (readChildren_eq standing)]
  exact readsOnly_items _ _

theorem readsOnly_attributes (standing : Standing) :
    ReadsOnly ["attributes"] (readAttributes standing) :=
  readsOnly_items _ _

theorem readsOnly_otherwise : ReadsOnly ["else"] readOtherwise := by
  rw [funext readOtherwise_eq]
  exact readsOnly_nullable _ _

end Equations

/-- The node that an object of a kind stands for. -/
inductive NodeFrom (json : Json) : String → Node → Prop
  | fragment {span : Span} {children : List Node} :
      readSpan json = .ok span → readChildren .inner json = .ok children →
      NodeFrom json "Fragment" (.fragment span children)
  | element {span : Span} {name : String} {attributes : List Attribute} {children : List Node} :
      readSpan json = .ok span → text json "name" = .ok name →
      readAttributes .inner json = .ok attributes → readChildren .inner json = .ok children →
      NodeFrom json "Element" (.element span name attributes children)
  | text {content : TextContent} :
      readTextContent json = .ok content → NodeFrom json "Text" (.text content)
  | comment {span : Span} {data : String} :
      readSpan json = .ok span → textOrEmpty json "data" = .ok data →
      NodeFrom json "Comment" (.comment span data)
  | mustache {span : Span} {expression : Expr} :
      readSpan json = .ok span → readExpression json = .ok expression →
      NodeFrom json "MustacheTag" (.mustache span expression)
  | rawMustache {span : Span} {expression : Expr} :
      readSpan json = .ok span → readExpression json = .ok expression →
      NodeFrom json "RawMustacheTag" (.rawMustache span expression)
  | ifBlock {span : Span} {test : Expr} {children : List Node} {otherwise : Option Branch}
      {elseif : Bool} :
      readSpan json = .ok span → readExpression json = .ok test →
      readChildren .inner json = .ok children → readOtherwise json = .ok otherwise →
      flag json "elseif" = .ok elseif →
      NodeFrom json "IfBlock" (.ifBlock span test children otherwise elseif)
  | eachBlock {span : Span} {items : Expr} {context : Option Pattern} {index : Option String}
      {key : Option Expr} {children : List Node} {otherwise : Option Branch} :
      readNullable readPattern "context" json = .ok context →
      readNullable (readExpr .inner) "key" json = .ok key →
      readSpan json = .ok span → readExpression json = .ok items →
      nullableText json "index" = .ok index → readChildren .inner json = .ok children →
      readOtherwise json = .ok otherwise →
      NodeFrom json "EachBlock" (.eachBlock span items context index key children otherwise)
  | component {span : Span} {name : String} {attributes : List Attribute} {children : List Node} :
      readSpan json = .ok span → text json "name" = .ok name →
      readAttributes .inner json = .ok attributes → readChildren .inner json = .ok children →
      NodeFrom json "InlineComponent" (.component span name attributes children)
  | slot {span : Span} {attributes : List Attribute} {children : List Node} :
      readSpan json = .ok span → readAttributes .inner json = .ok attributes →
      readChildren .inner json = .ok children → NodeFrom json "Slot" (.slot span attributes children)
  | unknown {kind : String} : kind ∉ Node.kinds → NodeFrom json kind .unknown

/-- A node is read exactly if its kind and the fields of that kind are. -/
theorem readNode_eq_ok_iff {standing : Standing} {json : Json} {node : Node} :
    readNode standing json = .ok node ↔
      ∃ kind, kindOf standing Node.kinds json = .ok kind ∧ NodeFrom json kind node := by
  rw [readNode, bind_eq_ok_iff]
  refine exists_congr fun kind => and_congr_right fun _ => ⟨fun h => ?_, fun h => ?_⟩
  · split at h
    all_goals simp only [bind_eq_ok_iff, pure_eq_ok_iff] at h
    · obtain ⟨span, hs, children, hc, rfl⟩ := h
      exact .fragment hs hc
    · obtain ⟨span, hs, name, hn, attributes, ha, children, hc, rfl⟩ := h
      exact .element hs hn ha hc
    · obtain ⟨content, ht, rfl⟩ := h
      exact .text ht
    · obtain ⟨span, hs, data, hd, rfl⟩ := h
      exact .comment hs hd
    · obtain ⟨span, hs, expression, he, rfl⟩ := h
      exact .mustache hs he
    · obtain ⟨span, hs, expression, he, rfl⟩ := h
      exact .rawMustache hs he
    · obtain ⟨span, hs, test, ht, children, hc, otherwise, ho, elseif, hf, rfl⟩ := h
      exact .ifBlock hs ht hc ho hf
    · obtain ⟨_, hc, context, hp, _, hk, key, he, span, hs, items, hi, index, hx, children, hn,
        otherwise, ho, rfl⟩ := h
      exact .eachBlock (bind_eq_ok_iff.mpr ⟨_, hc, hp⟩) (bind_eq_ok_iff.mpr ⟨_, hk, he⟩) hs hi hx hn ho
    · obtain ⟨span, hs, name, hn, attributes, ha, children, hc, rfl⟩ := h
      exact .component hs hn ha hc
    · obtain ⟨span, hs, attributes, ha, children, hc, rfl⟩ := h
      exact .slot hs ha hc
    · subst h
      refine .unknown ?_
      simp only [Node.kinds, List.mem_cons, List.not_mem_nil, or_false, not_or]
      and_intros <;> assumption
  · cases h with
    | eachBlock hp hk hs hi hx hn ho =>
      obtain ⟨_, hc, hp⟩ := bind_eq_ok_iff.mp hp
      obtain ⟨_, hk, he⟩ := bind_eq_ok_iff.mp hk
      simp only [bind_eq_ok_iff, pure_eq_ok_iff]
      exact ⟨_, hc, _, hp, _, hk, _, he, _, hs, _, hi, _, hx, _, hn, _, ho, rfl⟩
    | unknown hk =>
      simp only [Node.kinds, List.mem_cons, not_or] at hk
      split <;> simp_all [pure, Except.pure]
    | _ =>
      simp only [*]
      rfl

theorem Node.fields_of_unknown {kind : String} (h : kind ∉ Node.kinds) : Node.fields kind = [] := by
  unfold Node.fields
  split
  case h_7 => rfl
  all_goals exact absurd (by decide) h

theorem Node.field_cases {kind key : String} {inner : Role} (h : (key, inner) ∈ Node.fields kind) :
    key = "children" ∧ inner = .list .node .inner ∨
      key = "attributes" ∧ inner = .list .attribute .inner ∨ key = "else" ∧ inner = .branch := by
  unfold Node.fields at h
  split at h <;> simp at h <;> grind

section Nodes

variable {standing : Standing} {json value : Json} {kind : String} {node : Node}

theorem NodeFrom.children (h : NodeFrom json kind node)
    (hf : ("children", .list .node .inner) ∈ Node.fields kind) :
    readChildren .inner json = .ok node.children := by
  cases h with
  | fragment | element | ifBlock | eachBlock | component | slot => assumption
  | unknown hk => simp [Node.fields_of_unknown hk] at hf
  | _ => exact absurd hf (by decide)

theorem NodeFrom.attributes (h : NodeFrom json kind node)
    (hf : ("attributes", .list .attribute .inner) ∈ Node.fields kind) :
    readAttributes .inner json = .ok node.attributes := by
  cases h with
  | element | component | slot => assumption
  | unknown hk => simp [Node.fields_of_unknown hk] at hf
  | _ => exact absurd hf (by decide)

theorem NodeFrom.otherwise (h : NodeFrom json kind node)
    (hf : ("else", .branch) ∈ Node.fields kind) : readOtherwise json = .ok node.otherwise := by
  cases h with
  | ifBlock | eachBlock => assumption
  | unknown hk => simp [Node.fields_of_unknown hk] at hf
  | _ => exact absurd hf (by decide)

/-- Two objects that agree in what a node has besides children, attributes and an else branch. -/
structure SameOwnFields (json other : Json) : Prop where
  span : readSpan other = readSpan json
  name : text other "name" = text json "name"
  expression : readExpression other = readExpression json
  elseif : flag other "elseif" = flag json "elseif"
  context : readNullable readPattern "context" other = readNullable readPattern "context" json
  key : readNullable (readExpr .inner) "key" other = readNullable (readExpr .inner) "key" json
  index : nullableText other "index" = nullableText json "index"

theorem sameOwnFields_put {key : String} (h : key ∈ ["attributes", "children", "else"])
    (json new : Json) : SameOwnFields json (json.put (.field key) new) := by
  have apart : ∀ keys : List String, (∀ name ∈ keys, name ∉ ["attributes", "children", "else"]) →
      key ∉ keys := fun keys distinct hk => distinct key hk h
  exact {
    span := readsOnly_span.put (apart _ (by decide)) json new
    name := (readsOnly_text "name").put (apart _ (by decide)) json new
    expression := readsOnly_expression.put (apart _ (by decide)) json new
    elseif := (readsOnly_flag "elseif").put (apart _ (by decide)) json new
    context := (readsOnly_nullable readPattern "context").put (apart _ (by decide)) json new
    key := (readsOnly_nullable (readExpr .inner) "key").put (apart _ (by decide)) json new
    index := (readsOnly_nullableText "index").put (apart _ (by decide)) json new
  }

/-- Other children make the same node with these children. -/
theorem NodeFrom.put_children (h : NodeFrom json kind node)
    (hf : ("children", .list .node .inner) ∈ Node.fields kind) {new : Json} {list : List Node}
    (hl : readChildren .inner (json.put (.field "children") new) = .ok list) :
    NodeFrom (json.put (.field "children") new) kind (node.withChildren list) := by
  have own := sameOwnFields_put (show "children" ∈ _ by decide) json new
  have attributes := (readsOnly_attributes .inner).put (show "children" ∉ _ by decide) json new
  have otherwise := readsOnly_otherwise.put (show "children" ∉ _ by decide) json new
  cases h with
  | fragment hs => exact .fragment (own.span.trans hs) hl
  | element hs hn ha =>
    exact .element (own.span.trans hs) (own.name.trans hn) (attributes.trans ha) hl
  | ifBlock hs ht _ ho he =>
    exact .ifBlock (own.span.trans hs) (own.expression.trans ht) hl (otherwise.trans ho)
      (own.elseif.trans he)
  | eachBlock hc hk hs he hi _ ho =>
    exact .eachBlock (own.context.trans hc) (own.key.trans hk) (own.span.trans hs)
      (own.expression.trans he) (own.index.trans hi) hl (otherwise.trans ho)
  | component hs hn ha =>
    exact .component (own.span.trans hs) (own.name.trans hn) (attributes.trans ha) hl
  | slot hs ha => exact .slot (own.span.trans hs) (attributes.trans ha) hl
  | unknown hk => exact .unknown hk
  | _ => exact absurd hf (by decide)

theorem NodeFrom.put_attributes (h : NodeFrom json kind node)
    (hf : ("attributes", .list .attribute .inner) ∈ Node.fields kind) {new : Json}
    {list : List Attribute}
    (hl : readAttributes .inner (json.put (.field "attributes") new) = .ok list) :
    NodeFrom (json.put (.field "attributes") new) kind (node.withAttributes list) := by
  have own := sameOwnFields_put (show "attributes" ∈ _ by decide) json new
  have children := (readsOnly_children .inner).put (show "attributes" ∉ _ by decide) json new
  cases h with
  | element hs hn _ hc =>
    exact .element (own.span.trans hs) (own.name.trans hn) hl (children.trans hc)
  | component hs hn _ hc =>
    exact .component (own.span.trans hs) (own.name.trans hn) hl (children.trans hc)
  | slot hs _ hc => exact .slot (own.span.trans hs) hl (children.trans hc)
  | unknown hk => exact .unknown hk
  | _ => exact absurd hf (by decide)

theorem NodeFrom.put_otherwise (h : NodeFrom json kind node)
    (hf : ("else", .branch) ∈ Node.fields kind) {new : Json} {branch : Branch}
    (hb : readOtherwise (json.put (.field "else") new) = .ok (some branch)) :
    NodeFrom (json.put (.field "else") new) kind (node.withOtherwise branch) := by
  have own := sameOwnFields_put (show "else" ∈ _ by decide) json new
  have children := (readsOnly_children .inner).put (show "else" ∉ _ by decide) json new
  cases h with
  | ifBlock hs ht hc _ he =>
    exact .ifBlock (own.span.trans hs) (own.expression.trans ht) (children.trans hc) hb
      (own.elseif.trans he)
  | eachBlock hc hk hs he hi hn =>
    exact .eachBlock (own.context.trans hc) (own.key.trans hk) (own.span.trans hs)
      (own.expression.trans he) (own.index.trans hi) (children.trans hn) hb
  | unknown hk => exact .unknown hk
  | _ => exact absurd hf (by decide)

theorem carries_children (hk : kindOf standing Node.kinds json = .ok kind)
    (h : NodeFrom json kind node)
    (hf : ("children", .list .node .inner) ∈ Node.fields kind)
    (hv : json.at? (.field "children") = some value) :
    Carries (.one .node standing) json (.node node) (.field "children") (.list .node .inner) value := by
  have read := h.children hf
  rw [readChildren_eq] at read
  obtain ⟨old, change⟩ := readItems_carries read hv
  refine .of_reads (fun _ => rfl) (fun _ => rfl) ⟨_, old, rfl⟩ fun other list hl => ?_
  have readChanged : readChildren .inner (json.put (.field "children") other) = .ok list := by
    rw [readChildren_eq, change, hl]
  have changed := h.put_children hf readChanged
  -- What was put is what is found: the changed node was read, and its children with it.
  have kept : (node.withChildren list).children = list := by
    have := changed.children hf
    rw [readChanged] at this
    exact (Except.ok.inj this).symm
  refine ⟨_, readNode_eq_ok_iff.mpr ⟨kind, ?_, changed⟩, rfl, congrArg (some ∘ Part.nodes) kept⟩
  rw [kindOf_put (by decide), hk]

theorem carries_attributes (hk : kindOf standing Node.kinds json = .ok kind)
    (h : NodeFrom json kind node)
    (hf : ("attributes", .list .attribute .inner) ∈ Node.fields kind)
    (hv : json.at? (.field "attributes") = some value) :
    Carries (.one .node standing) json (.node node) (.field "attributes") (.list .attribute .inner)
      value := by
  obtain ⟨old, change⟩ := readItems_carries (h.attributes hf) hv
  refine .of_reads (fun _ => rfl) (fun _ => rfl) ⟨_, old, rfl⟩ fun other list hl => ?_
  have readChanged := (change other).trans hl
  have changed := h.put_attributes hf readChanged
  have kept : (node.withAttributes list).attributes = list := by
    have := changed.attributes hf
    rw [readAttributes_eq, readChanged] at this
    exact (Except.ok.inj this).symm
  refine ⟨_, readNode_eq_ok_iff.mpr ⟨kind, ?_, changed⟩, rfl, congrArg (some ∘ Part.attributes) kept⟩
  rw [kindOf_put (by decide), hk]

theorem carries_otherwise (hk : kindOf standing Node.kinds json = .ok kind)
    (h : NodeFrom json kind node) (hf : ("else", .branch) ∈ Node.fields kind)
    (hv : json.at? (.field "else") = some value) (hn : value ≠ .null) :
    Carries (.one .node standing) json (.node node) (.field "else") .branch value := by
  have read := h.otherwise hf
  rw [readOtherwise_eq] at read
  obtain ⟨⟨old, ho, hr⟩, change⟩ := readNullable_carries read hv hn
  refine .of_reads (fun _ => rfl) (fun _ => rfl) ⟨old, hr, congrArg (Option.map Part.branch) ho⟩
    fun other branch hb => ?_
  have given : other ≠ .null := by
    rintro rfl
    cases hb
  have readChanged : readOtherwise (json.put (.field "else") other) = .ok (some branch) := by
    rw [readOtherwise_eq, change other given, hb]
    rfl
  have changed := h.put_otherwise hf readChanged
  have kept : (node.withOtherwise branch).otherwise = some branch := by
    have := changed.otherwise hf
    rw [readChanged] at this
    exact (Except.ok.inj this).symm
  refine ⟨_, readNode_eq_ok_iff.mpr ⟨kind, ?_, changed⟩, rfl,
    congrArg (Option.map Part.branch) kept⟩
  rw [kindOf_put (by decide), hk]

/-- A node carries through each of its fields that holds nodes or attributes. -/
theorem carries_node {key : String} {inner : Role} (h : readNode standing json = .ok node)
    (hk : kindOf standing Node.kinds json = .ok kind) (hf : (key, inner) ∈ Node.fields kind)
    (hv : json.at? (.field key) = some value) (hn : value ≠ .null) :
    Carries (.one .node standing) json (.node node) (.field key) inner value := by
  obtain ⟨found, hfound, read⟩ := readNode_eq_ok_iff.mp h
  obtain rfl : found = kind := Except.ok.inj (hfound.symm.trans hk)
  obtain ⟨rfl, rfl⟩ | ⟨rfl, rfl⟩ | ⟨rfl, rfl⟩ := Node.field_cases hf
  · exact carries_children hk read hf hv
  · exact carries_attributes hk read hf hv
  · exact carries_otherwise hk read hf hv hn

end Nodes

end TwigComponent.Source
