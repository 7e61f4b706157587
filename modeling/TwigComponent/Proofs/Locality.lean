import TwigComponent.Proofs.MarkupWriting

/-!
# Faults stay where they are

A hole is a place in a render tree, at any depth, that a node can fill. Filling it
either makes no difference at all, because the writer does not come to that place,
or it puts the text of the node between two fixed texts and its diagnostics
between two fixed lists. So a node that is dropped takes its own text away and
nothing else, wherever it stands.

Blank text is left out: a component reference whose children are all blank is an
include, and any other child turns it into an embed.
-/
namespace TwigComponent

namespace Source

open Text

/-- A node without its children, or a block without its else branch. -/
inductive Parent where
  | fragment (span : Span)
  | element (span : Span) (name : String) (attributes : List Attribute)
  | component (span : Span) (name : String) (attributes : List Attribute)
  | slot (span : Span) (attributes : List Attribute)
  | ifBlock (span : Span) (test : Expr) (otherwise : Option Branch) (elseif : Bool)
  /-- The children are those of the else branch. -/
  | ifElse (span : Span) (test : Expr) (children : List Node) (branch : Span) (elseif : Bool)
  | eachBlock (span : Span) (items : Expr) (context : Option Pattern) (index : Option String)
      (key : Option Expr) (otherwise : Option Branch)
  /-- The children are those of the else branch. -/
  | eachElse (span : Span) (items : Expr) (context : Option Pattern) (index : Option String)
      (key : Option Expr) (children : List Node) (branch : Span)

/-- The node with the children given. -/
def Parent.fill : Parent → List Node → Node
  | .fragment span, inner => .fragment span inner
  | .element span name attributes, inner => .element span name attributes inner
  | .component span name attributes, inner => .component span name attributes inner
  | .slot span attributes, inner => .slot span attributes inner
  | .ifBlock span test otherwise elseif, inner => .ifBlock span test inner otherwise elseif
  | .ifElse span test children branch elseif, inner =>
    .ifBlock span test children (some (.mk branch inner)) elseif
  | .eachBlock span items context index key otherwise, inner =>
    .eachBlock span items context index key inner otherwise
  | .eachElse span items context index key children branch, inner =>
    .eachBlock span items context index key children (some (.mk branch inner))

/-- Sibling nodes with one hole. -/
inductive Hole where
  /-- The hole stands among the siblings. -/
  | here (before after : List Node)
  /-- The hole stands among the children of one of the siblings, or deeper. -/
  | inside (before : List Node) (parent : Parent) (inner : Hole) (after : List Node)

/-- The siblings with the hole filled by a node. -/
def Hole.fill (filler : Node) : Hole → List Node
  | .here before after => before ++ filler :: after
  | .inside before parent inner after => before ++ parent.fill (inner.fill filler) :: after

end Source

/-- What stands around a report: texts before and after its text, and diagnostics before and after
its diagnostics. -/
structure Margin where
  before : String := ""
  after : String := ""
  earlier : List Diagnostic := []
  later : List Diagnostic := []

namespace Margin

def around (margin : Margin) (report : Report String) : Report String where
  value := margin.before ++ report.value ++ margin.after
  diagnostics := margin.earlier ++ report.diagnostics ++ margin.later

/-- The outer margin with the inner one next to what stands inside. -/
def comp (outer inner : Margin) : Margin where
  before := outer.before ++ inner.before
  after := inner.after ++ outer.after
  earlier := outer.earlier ++ inner.earlier
  later := inner.later ++ outer.later

theorem around_comp (outer inner : Margin) (report : Report String) :
    (outer.comp inner).around report = outer.around (inner.around report) := by
  apply Report.ext
  · simp [around, comp, String.append_assoc]
  · simp [around, comp]

end Margin

namespace Twig

open Source Text

/-- Whether the opening tag of a loop can be written. -/
def hasLoopHead (items : Expr) (context : Option Pattern) : Bool :=
  (expression .template items).value != "" &&
    match (loopHead (expression .template items).value context).value with
    | .ok _ => true
    | .error _ => false

/-- Whether the writer comes to the children that a parent lacks. -/
def isOpen : Parent → Bool
  | .element _ name _ => !isVoidElement name
  | .ifBlock _ test _ _ => (expression .template test).value != ""
  | .ifElse .. => false
  | .eachBlock _ items context _ _ _ => hasLoopHead items context
  | .eachElse _ items context _ _ _ _ => hasLoopHead items context
  | _ => true

/-- Whether the writer comes to a hole: all parents around it are open. -/
def isReached : Hole → Bool
  | .here _ _ => true
  | .inside _ parent inner _ => isOpen parent && isReached inner

theorem hasContent_of_mem {children : List Node} {child : Node} (hm : child ∈ children)
    (hc : isContent child = true) : hasContent children = true :=
  List.any_eq_true.mpr ⟨child, hm, hc⟩

/-- No parent is a text, so one among the siblings is content. -/
theorem isContent_fill (parent : Parent) (children : List Node) :
    isContent (parent.fill children) = true := by
  cases parent <;> rfl

theorem hasContent_fill (hole : Hole) {filler : Node} (hf : isContent filler = true) :
    hasContent (hole.fill filler) = true := by
  cases hole with
  | here before after => exact hasContent_of_mem (by simp [Hole.fill]) hf
  | inside before parent inner after =>
    exact hasContent_of_mem (by simp [Hole.fill]) (isContent_fill parent (inner.fill filler))

/-- The siblings of a node are its margin. -/
theorem fragment_around (options : Options) (before after : List Node) :
    ∃ margin : Margin, ∀ child,
      fragment options (before ++ child :: after) = margin.around (node options child) := by
  refine ⟨⟨(fragment options before).value, (fragment options after).value,
    (fragment options before).diagnostics, (fragment options after).diagnostics⟩, ?_⟩
  intro child
  apply Report.ext
  · simp [Margin.around, String.join_append, String.join_cons, String.append_assoc]
  · simp [Margin.around]

section Parents

variable (options : Options)

/-- A loop that cannot be opened leaves no text, and says the same whatever stands in it. -/
theorem eachBlock_closed (span : Span) {items : Expr} {context : Option Pattern}
    (h : hasLoopHead items context = false) :
    ∃ report, ∀ index key children otherwise,
      node options (.eachBlock span items context index key children otherwise) = report := by
  rw [hasLoopHead, Bool.and_eq_false_iff] at h
  refine ⟨node options (.eachBlock span items context none none [] none), ?_⟩
  intro index key children otherwise
  apply Report.ext
  · rw [value_eachBlock, value_eachBlock]
    split
    · rfl
    · rename_i hne
      cases hl : (loopHead (expression .template items).value context).value with
      | error fault => rfl
      | ok head => simp [hne, hl] at h
  · rw [diagnostics_eachBlock, diagnostics_eachBlock]
    split
    · rfl
    · rename_i hne
      cases hl : (loopHead (expression .template items).value context).value with
      | error fault => rfl
      | ok head => simp [hne, hl] at h

/-- A loop that is opened writes its children and then its else branch. -/
theorem eachBlock_open (span : Span) {items : Expr} {context : Option Pattern}
    (h : hasLoopHead items context = true) (index : Option String) (key : Option Expr) :
    ∃ margin : Margin, ∀ children otherwise,
      node options (.eachBlock span items context index key children otherwise) =
        margin.around (do
          let content ← fragment options children
          let fallback ← elseBranch options otherwise
          pure (content ++ fallback)) := by
  rw [hasLoopHead, Bool.and_eq_true, bne_iff_ne] at h
  obtain ⟨hne, hl⟩ := h
  cases hh : (loopHead (expression .template items).value context).value with
  | error fault => simp [hh] at hl
  | ok head =>
    refine ⟨⟨tag ("for " ++ head.targets ++ " in " ++ (expression .template items).value)
        ++ head.bindings ++ indexTag index, tag "endfor",
      (expression .template items).diagnostics
        ++ (loopHead (expression .template items).value context).diagnostics, []⟩, ?_⟩
    intro children otherwise
    apply Report.ext
    · rw [value_eachBlock, if_neg hne, hh]
      simp [Margin.around, String.append_assoc]
    · rw [diagnostics_eachBlock, if_neg hne, hh]
      simp [Margin.around]

/-- What a parent that is not open leaves does not depend on the children it lacks. -/
theorem fill_closed {parent : Parent} (h : isOpen parent = false) :
    ∃ report, ∀ children, node options (parent.fill children) = report := by
  refine ⟨node options (parent.fill []), ?_⟩
  intro children
  cases parent with
  | element span name attributes =>
    have void : isVoidElement name = true := by simpa [isOpen] using h
    apply Report.ext
    · simp [Parent.fill, value_element, void]
    · simp [Parent.fill, diagnostics_element, void]
  | ifBlock span test otherwise elseif =>
    have dropped : (expression .template test).value = "" := by simpa [isOpen] using h
    apply Report.ext
    · simp [Parent.fill, value_ifBlock, dropped]
    · simp [Parent.fill, diagnostics_ifBlock, dropped]
  | ifElse span test inner branch elseif =>
    apply Report.ext
    · simp only [Parent.fill, value_ifBlock]
    · simp only [Parent.fill, diagnostics_ifBlock]
  | eachBlock span items context index key otherwise =>
    obtain ⟨report, same⟩ := eachBlock_closed options span h
    simp only [Parent.fill, same]
  | eachElse span items context index key inner branch =>
    obtain ⟨report, same⟩ := eachBlock_closed options span h
    simp only [Parent.fill, same]
  | _ => cases h

/-- An open parent is a margin around its children. -/
theorem fill_open {parent : Parent} (h : isOpen parent = true) :
    ∃ margin : Margin, ∀ children, hasContent children = true →
      node options (parent.fill children) = margin.around (fragment options children) := by
  cases parent with
  | fragment span =>
    refine ⟨{}, fun children _ => ?_⟩
    apply Report.ext
    · simp [Parent.fill, Margin.around]
    · simp [Parent.fill, Margin.around]
  | element span name attributes =>
    have notVoid : isVoidElement name = false := by simpa [isOpen] using h
    refine ⟨⟨"<" ++ name ++ String.join (attributes.map fun item => (attributeMarkup item).value)
        ++ ">", "</" ++ name ++ ">",
      attributes.flatMap fun item => (attributeMarkup item).diagnostics, []⟩, fun children _ => ?_⟩
    apply Report.ext
    · simp [Parent.fill, Margin.around, value_element, notVoid, String.append_assoc]
    · simp [Parent.fill, Margin.around, diagnostics_element, notVoid]
  | component span name attributes =>
    refine ⟨⟨tag ("embed " ++ componentCall options name (componentArguments attributes).value)
        ++ tag ("block " ++ options.defaultSlot), tag "endblock" ++ tag "endembed",
      (componentArguments attributes).diagnostics, []⟩, fun children hc => ?_⟩
    apply Report.ext
    · rw [Parent.fill, value_component, if_pos hc]
      simp [Margin.around, block, String.append_assoc]
    · rw [Parent.fill, diagnostics_component, if_pos hc]
      simp [Margin.around]
  | slot span attributes =>
    refine ⟨⟨tag ("block " ++ (slotBlock options.defaultSlot attributes).1), tag "endblock",
      if (slotBlock options.defaultSlot attributes).2 then
        (tellFallback (slotBlock options.defaultSlot attributes).1 span).diagnostics else [], []⟩,
      fun children _ => ?_⟩
    apply Report.ext
    · rw [Parent.fill, value_slot]
      simp [Margin.around, block, String.append_assoc]
    · rw [Parent.fill, diagnostics_slot]
      simp [Margin.around]
  | ifBlock span test otherwise elseif =>
    have kept : (expression .template test).value ≠ "" := by simpa [isOpen] using h
    refine ⟨⟨tag ("if " ++ (expression .template test).value), tag "endif",
      (expression .template test).diagnostics, []⟩, fun children _ => ?_⟩
    apply Report.ext
    · rw [Parent.fill, value_ifBlock, if_neg kept]
      simp [Margin.around, String.append_assoc]
    · rw [Parent.fill, diagnostics_ifBlock, if_neg kept]
      simp [Margin.around]
  | ifElse span test inner branch elseif => cases h
  | eachBlock span items context index key otherwise =>
    obtain ⟨outer, written⟩ := eachBlock_open options span h index key
    refine ⟨outer.comp ⟨"", (elseBranch options otherwise).value, [],
      (elseBranch options otherwise).diagnostics⟩, fun children _ => ?_⟩
    rw [Parent.fill, written, Margin.around_comp]
    congr 1
    apply Report.ext
    · simp [Margin.around]
    · simp [Margin.around]
  | eachElse span items context index key inner branch =>
    obtain ⟨outer, written⟩ := eachBlock_open options span h index key
    refine ⟨outer.comp ⟨(fragment options inner).value ++ tag "else", "",
      (fragment options inner).diagnostics, []⟩, fun children _ => ?_⟩
    rw [Parent.fill, written, Margin.around_comp]
    congr 1
    apply Report.ext
    · simp [Margin.around, value_elseBranch, Branch.children, String.append_assoc]
    · simp [Margin.around, diagnostics_elseBranch, Branch.children]

end Parents

/-- A hole that the writer does not come to may hold any node. -/
theorem hole_closed (options : Options) {hole : Hole} (h : isReached hole = false) :
    ∃ report, ∀ filler, isContent filler = true →
      fragment options (hole.fill filler) = report := by
  induction hole with
  | here before after => cases h
  | inside before parent inner after ih =>
    obtain ⟨siblings, beside⟩ := fragment_around options before after
    cases ho : isOpen parent with
    | false =>
      obtain ⟨report, same⟩ := fill_closed options ho
      refine ⟨siblings.around report, fun filler _ => ?_⟩
      rw [Hole.fill, beside, same]
    | true =>
      have unreached : isReached inner = false := by simpa [isReached, ho] using h
      obtain ⟨report, same⟩ := ih unreached
      obtain ⟨outer, written⟩ := fill_open options ho
      refine ⟨siblings.around (outer.around report), fun filler hf => ?_⟩
      rw [Hole.fill, beside, written _ (hasContent_fill inner hf), same filler hf]

/-- All that stands around a hole the writer comes to is a margin of the node in it. -/
theorem hole_open (options : Options) {hole : Hole} (h : isReached hole = true) :
    ∃ margin : Margin, ∀ filler, isContent filler = true →
      fragment options (hole.fill filler) = margin.around (node options filler) := by
  induction hole with
  | here before after =>
    obtain ⟨siblings, beside⟩ := fragment_around options before after
    exact ⟨siblings, fun filler _ => beside filler⟩
  | inside before parent inner after ih =>
    rw [isReached, Bool.and_eq_true] at h
    obtain ⟨siblings, beside⟩ := fragment_around options before after
    obtain ⟨outer, written⟩ := fill_open options h.1
    obtain ⟨margin, around⟩ := ih h.2
    refine ⟨(siblings.comp outer).comp margin, fun filler hf => ?_⟩
    rw [Hole.fill, beside, written _ (hasContent_fill inner hf), around filler hf,
      Margin.around_comp, Margin.around_comp]

/-- For every hole, one of two things holds of all nodes but blank text. If the hole lies in a void
element, in the else branch of a condition or in a block that cannot be opened, the node in it makes
no difference. Otherwise the text of the node stands between two texts and its diagnostics between
two lists that the hole and the options fix. -/
theorem faults_stay_local (options : Options) (hole : Hole) :
    (isReached hole = false ∧ ∃ report, ∀ filler, isContent filler = true →
      fragment options (hole.fill filler) = report) ∨
    (isReached hole = true ∧ ∃ (before after : String) (earlier later : List Diagnostic),
      ∀ filler, isContent filler = true →
        (fragment options (hole.fill filler)).value =
          before ++ (node options filler).value ++ after ∧
        (fragment options (hole.fill filler)).diagnostics =
          earlier ++ (node options filler).diagnostics ++ later) := by
  cases h : isReached hole with
  | false => exact .inl ⟨rfl, hole_closed options h⟩
  | true =>
    obtain ⟨margin, around⟩ := hole_open options h
    refine .inr ⟨rfl, margin.before, margin.after, margin.earlier, margin.later, ?_⟩
    intro filler hf
    rw [around filler hf]
    exact ⟨rfl, rfl⟩

/-- A component in the else branch of a loop inside a slot, with blank text around the hole. -/
def holeInEmbed : Hole :=
  .inside [.text ⟨{}, "a", none⟩]
    (.slot ⟨1, 9⟩ [])
    (.inside []
      (.eachElse {} (.identifier {} "rows") (some (.identifier {} "row")) none none
        [.mustache {} (.identifier {} "row")] {})
      (.inside [] (.component {} "Card" []) (.here [.text ⟨{}, " ", none⟩] []) [])
      [])
    [.unknown]

/-- A condition that cannot be written. -/
def faultyCondition : Node :=
  .ifBlock ⟨3, 7⟩ (.unary ⟨4, 6⟩ "typeof" (.identifier {} "x")) [] none false

/-- Dropping a node in the innermost of four parents takes away its text alone. -/
theorem faults_stay_local_holeInEmbed :
    isContent faultyCondition = true ∧
    ∃ (before after : String) (earlier later : List Diagnostic),
      (fragment { theme := "site" } (holeInEmbed.fill faultyCondition)).value = before ++ after ∧
      (fragment { theme := "site" } (holeInEmbed.fill faultyCondition)).diagnostics =
        earlier ++ (node { theme := "site" } faultyCondition).diagnostics ++ later ∧
      (fragment { theme := "site" } (holeInEmbed.fill (.comment {} "b"))).value =
        before ++ "\x7b# b #\x7d" ++ after ∧
      (fragment { theme := "site" } (holeInEmbed.fill (.comment {} "b"))).diagnostics =
        earlier ++ later := by
  refine ⟨rfl, ?_⟩
  rcases faults_stay_local { theme := "site" } holeInEmbed with
    ⟨unreached, -⟩ | ⟨-, before, after, earlier, later, fixed⟩
  · exact absurd unreached (by decide)
  · obtain ⟨faultText, faultReport⟩ := fixed faultyCondition rfl
    obtain ⟨commentText, commentReport⟩ := fixed (.comment {} "b") rfl
    have dropped : (node { theme := "site" } faultyCondition).value = "" := by decide
    refine ⟨before, after, earlier, later, ?_, faultReport, commentText, ?_⟩
    · rw [faultText, dropped, String.append_empty]
    · rw [commentReport]
      exact congrArg (· ++ later) (List.append_nil earlier)

end Twig

end TwigComponent
