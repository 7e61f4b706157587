import TwigComponent.Context
import TwigComponent.Proofs.MarkupWriting

/-!
# The nodes inside a node

Conditions such as "no component with content" or "no condition with an else
branch" are conditions on the list of all nodes inside a tree, the tree itself
among them. What the writer does not come to counts too.
-/
namespace TwigComponent

namespace Source

mutual

/-- All nodes inside a node, itself first. -/
def Node.subnodes : Node → List Node
  | .fragment span children => .fragment span children :: childNodes children
  | .element span name attributes children =>
    .element span name attributes children :: childNodes children
  | .text content => [.text content]
  | .comment span data => [.comment span data]
  | .mustache span expression => [.mustache span expression]
  | .rawMustache span expression => [.rawMustache span expression]
  | .ifBlock span test children otherwise elseif =>
    .ifBlock span test children otherwise elseif :: (childNodes children ++ branchNodes otherwise)
  | .eachBlock span items context index key children otherwise =>
    .eachBlock span items context index key children otherwise ::
      (childNodes children ++ branchNodes otherwise)
  | .component span name attributes children =>
    .component span name attributes children :: childNodes children
  | .slot span attributes children => .slot span attributes children :: childNodes children
  | .unknown => [.unknown]

def childNodes : List Node → List Node
  | [] => []
  | first :: rest => first.subnodes ++ childNodes rest

def branchNodes : Option Branch → List Node
  | none => []
  | some (.mk _ children) => childNodes children

end

theorem childNodes_eq (nodes : List Node) : childNodes nodes = nodes.flatMap Node.subnodes := by
  induction nodes with
  | nil => rfl
  | cons first rest ih => rw [childNodes, ih, List.flatMap_cons]

section Members

variable {P : Node → Prop}

theorem forall_childNodes {nodes : List Node} :
    (∀ inner ∈ childNodes nodes, P inner) ↔
      ∀ child ∈ nodes, ∀ inner ∈ child.subnodes, P inner := by
  rw [childNodes_eq, List.forall_mem_flatMap]

theorem forall_branchNodes {otherwise : Option Branch} :
    (∀ inner ∈ branchNodes otherwise, P inner) ↔
      ∀ branch ∈ otherwise, ∀ child ∈ branch.children, ∀ inner ∈ child.subnodes, P inner := by
  match otherwise with
  | none => simp [branchNodes]
  | some (.mk _ children) => simp [branchNodes, Branch.children, forall_childNodes]

end Members

end Source

open Source

theorem slots_eq (defaultSlot : String) (nodes : List Node) :
    slots defaultSlot nodes = nodes.flatMap (nodeSlots defaultSlot) := by
  induction nodes with
  | nil => rfl
  | cons first rest ih => rw [slots, ih, List.flatMap_cons]

theorem branchSlots_eq (defaultSlot : String) (otherwise : Option Branch) :
    branchSlots defaultSlot otherwise =
      otherwise.toList.flatMap fun branch => slots defaultSlot branch.children := by
  match otherwise with
  | none => rfl
  | some (.mk _ children) => simp [branchSlots, Branch.children]

end TwigComponent
