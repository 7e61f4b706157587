import Mathlib.Data.List.Basic
import TwigComponent.Output
import TwigComponent.Proofs.Messages

/-!
# Diagnostics one to a line

The output for machines ends every diagnostic with a line break and puts none
between its fields. Nothing is done about the line breaks of a message. So the
output can be read line by line if and only if no message has one, and a string of
the component that a message quotes may bring one in.
-/
namespace TwigComponent

open Text

/-- Splitting at a character leaves one piece more than there are places to split at. -/
theorem length_splitOn (mark : Char) (text : List Char) :
    (text.splitOn mark).length = text.count mark + 1 := by
  induction text with
  | nil => simp
  | cons c rest ih =>
    rw [List.splitOn_cons_eq_if_modifyHead, List.count_cons]
    split
    · rw [List.length_cons, ih]
    · rw [List.length_modifyHead, ih, Nat.add_zero]

/-- Texts that end in line breaks come apart again. -/
theorem splitOn_join_lines {texts : List String} (h : ∀ text ∈ texts, OneLine text) :
    (String.join (texts.map (· ++ "\n"))).toList.splitOn '\n' =
      texts.map String.toList ++ [[]] := by
  induction texts with
  | nil => simp
  | cons text rest ih =>
    rw [List.forall_mem_cons] at h
    have first : (String.join ((text :: rest).map (· ++ "\n"))).toList =
        text.toList ++ '\n' :: (String.join (rest.map (· ++ "\n"))).toList := by
      simp [String.join_cons]
    rw [first, List.splitOn_append_cons_self, List.splitOn_eq_singleton h.1, ih h.2]
    rfl

namespace Output

/-- What stands before the message of a diagnostic. -/
def machineFront (lines : Option LineIndex) (path : String) (diagnostic : Diagnostic) : String :=
  let (startLine, startColumn) := place lines diagnostic.span.start
  let (stopLine, stopColumn) := place lines diagnostic.span.stop
  machineSeverity diagnostic.severity ++ " " ++ path ++ ":" ++ toString startLine ++ ":"
    ++ toString startColumn ++ ":" ++ toString stopLine ++ ":" ++ toString stopColumn ++ " "

/-- What stands behind the message of a diagnostic. -/
def machineBack (diagnostic : Diagnostic) : String := " (" ++ diagnostic.code.name ++ ")"

/-- The line of a diagnostic in the output for machines. -/
def machineLine (lines : Option LineIndex) (path : String) (diagnostic : Diagnostic) : String :=
  machineFront lines path diagnostic ++ diagnostic.message ++ machineBack diagnostic

variable {path : String} (lines : Option LineIndex) (diagnostics : List Diagnostic)

theorem machineText_eq (diagnostic : Diagnostic) :
    machineText lines path diagnostic = machineLine lines path diagnostic ++ "\n" := by
  calc machineText lines path diagnostic
      = machineFront lines path diagnostic ++ diagnostic.message ++ " (" ++ diagnostic.code.name
          ++ (")" ++ "\n") := rfl
    _ = machineLine lines path diagnostic ++ "\n" := by
      simp only [machineLine, machineBack, String.append_assoc]

theorem oneLine_machineFront (hp : OneLine path) (diagnostic : Diagnostic) :
    OneLine (machineFront lines path diagnostic) := by
  have severity : OneLine (machineSeverity diagnostic.severity) := by
    cases diagnostic.severity <;> exact oneLine_literal (by decide)
  have colon : OneLine ":" := oneLine_literal (by decide)
  have blank : OneLine " " := oneLine_literal (by decide)
  have number : ∀ n : Nat, OneLine (toString n) := oneLine_repr
  simp only [machineFront, oneLine_append]
  simp only [severity, hp, colon, blank, number, and_self]

theorem oneLine_machineBack (diagnostic : Diagnostic) : OneLine (machineBack diagnostic) := by
  have code : OneLine diagnostic.code.name := by
    cases diagnostic.code <;> exact oneLine_literal (by decide)
  have opening : OneLine " (" := oneLine_literal (by decide)
  have closing : OneLine ")" := oneLine_literal (by decide)
  simp [machineBack, code, opening, closing]

/-- Beside the message, no field of a line has a line break. -/
theorem count_machineLine (hp : OneLine path) (diagnostic : Diagnostic) :
    (machineLine lines path diagnostic).toList.count '\n' =
      diagnostic.message.toList.count '\n' := by
  have front := List.count_eq_zero.mpr (oneLine_machineFront lines hp diagnostic)
  have back := List.count_eq_zero.mpr (oneLine_machineBack diagnostic)
  rw [machineLine, String.toList_append, String.toList_append, List.count_append, List.count_append,
    front, back]
  omega

theorem fileText_machine (source : Option String) :
    fileText .machine diagnostics path source =
      String.join ((diagnostics.map (machineLine (lines? source) path)).map (· ++ "\n")) := by
  change String.join (diagnostics.map (machineText (lines? source) path)) = _
  rw [List.map_map]
  exact congrArg String.join (List.map_congr_left fun diagnostic _ => machineText_eq _ diagnostic)

/-- The line breaks of the output are those at the ends of the diagnostics and those in messages. -/
theorem count_fileText_machine (hp : OneLine path) (source : Option String) :
    (fileText .machine diagnostics path source).toList.count '\n' =
      diagnostics.length + (diagnostics.flatMap (·.message.toList)).count '\n' := by
  rw [fileText_machine]
  induction diagnostics with
  | nil => rfl
  | cons diagnostic rest ih =>
    have ending : "\n".toList.count '\n' = 1 := by decide
    rw [List.map_cons, List.map_cons, String.join_cons, String.toList_append, String.toList_append,
      List.count_append, List.count_append, ih, count_machineLine _ hp, ending, List.flatMap_cons,
      List.count_append, List.length_cons]
    omega

/-- The output has one line for each diagnostic if and only if no message has a line break. -/
theorem lines_fileText_machine (hp : OneLine path) (source : Option String) :
    (fileText .machine diagnostics path source).toList.splitOn '\n' =
        (diagnostics.map (machineLine (lines? source) path)).map String.toList ++ [[]] ↔
      OneLiners diagnostics := by
  constructor
  · intro apart
    have pieces := congrArg List.length apart
    rw [length_splitOn, count_fileText_machine diagnostics hp] at pieces
    simp only [List.length_append, List.length_map, List.length_singleton] at pieces
    have whole : (diagnostics.flatMap (·.message.toList)).count '\n' = 0 := by omega
    rw [List.count_eq_zero, List.mem_flatMap, not_exists] at whole
    exact fun diagnostic hd broken => whole diagnostic ⟨hd, broken⟩
  · intro short
    rw [fileText_machine]
    refine splitOn_join_lines (List.forall_mem_map.mpr fun diagnostic hd => ?_)
    exact List.count_eq_zero.mp
      ((count_machineLine _ hp diagnostic).trans (List.count_eq_zero.mpr (short diagnostic hd)))

end Output

/-- The output for machines over the diagnostics of a transformation, for a path on one line. It has
a line break for each diagnostic and one for each line break in a message. Split at its line breaks
it is the lines of the diagnostics, in their order, if and only if no message has one; and none has
one if none of the strings that messages quote has one. -/
theorem machine_output_lines {component : Component} {name : String} {overrides : Option Yaml}
    {options : Options} {report : Report Transformed}
    (h : component.transform name overrides options = .ok report)
    {path : String} (hp : OneLine path) (source : Option String) :
    let output := Output.fileText .machine report.diagnostics path source
    output.toList.count '\n' =
        report.diagnostics.length + (report.diagnostics.flatMap (·.message.toList)).count '\n' ∧
      (output.toList.splitOn '\n' =
          (report.diagnostics.map (Output.machineLine (Output.lines? source) path)).map String.toList
            ++ [[]] ↔
        ∀ diagnostic ∈ report.diagnostics, OneLine diagnostic.message) ∧
      ((∀ text ∈ options.defaultSlot :: component.document.quotes, OneLine text) →
        ∀ diagnostic ∈ report.diagnostics, OneLine diagnostic.message) :=
  ⟨Output.count_fileText_machine _ hp source, Output.lines_fileText_machine _ hp source,
    Component.oneLiners_transform h⟩

/-- An object literal with an arrow function under a key. -/
def keyedArrow (key : String) : Source.Expr :=
  .object {}
    [.property ⟨1, 9⟩ (.literal {} ⟨.string key, none, none, none⟩) .unknown false false false]

/-- A component that writes the literal. -/
def arrowCard (key : String) : Component :=
  { document := { html := { children := [.mustache {} (keyedArrow key)] } } }

theorem transform_arrowCard (key : String) :
    ∃ report,
      (arrowCard key).transform "card" none { theme := "site", metadata := false } = .ok report ∧
      report.diagnostics = faultDiagnostics ⟨1, 9⟩ (.error (.unwritable "Property"
        s!"the value of `{Twig.hashKey key}` could not be translated")) := by
  refine ⟨_, Component.transform_eq_ok_iff.mpr ⟨rfl, none, rfl, rfl⟩, ?_⟩
  rfl

theorem machine_output_lines_hyphenatedKey :
    ∃ report,
      (arrowCard "a-b").transform "card" none { theme := "site", metadata := false } = .ok report ∧
        report.diagnostics.length = 1 ∧ OneLine "card.svelte" ∧
        (Output.fileText .machine report.diagnostics "card.svelte" none).toList.splitOn '\n' =
          (report.diagnostics.map (Output.machineLine (Output.lines? none) "card.svelte")).map
            String.toList ++ [[]] := by
  obtain ⟨report, done, said⟩ := transform_arrowCard "a-b"
  have path : OneLine "card.svelte" := oneLine_literal (by decide)
  obtain ⟨-, apart, short⟩ := machine_output_lines done path none
  have quoted : ∀ text ∈ [defaultSlotName, "a-b"], OneLine text :=
    List.forall_mem_cons.mpr ⟨oneLine_literal (by decide),
      List.forall_mem_singleton.mpr (oneLine_literal (by decide))⟩
  exact ⟨report, done, congrArg List.length said, path, apart.mpr (short quoted)⟩

/-- A message quotes the key as it stands, and the one diagnostic takes two lines. -/
theorem brokenKey_takes_two_lines :
    ∃ report,
      (arrowCard "a\nb").transform "card" none { theme := "site", metadata := false } = .ok report ∧
        report.diagnostics.length = 1 ∧ OneLine "card.svelte" ∧
        (Output.fileText .machine report.diagnostics "card.svelte" none).toList.count '\n' = 2 := by
  obtain ⟨report, done, said⟩ := transform_arrowCard "a\nb"
  have path : OneLine "card.svelte" := oneLine_literal (by decide)
  refine ⟨report, done, congrArg List.length said, path, ?_⟩
  rw [Output.count_fileText_machine _ path, said]
  decide +kernel

end TwigComponent
