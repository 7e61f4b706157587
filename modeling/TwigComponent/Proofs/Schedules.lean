import Mathlib.Data.List.InsertIdx
import Mathlib.Data.List.Perm.Basic
import TwigComponent.Run

/-!
# Schedules

A schedule takes the members of a list one by one until none is left, so its order
is a permutation, and every permutation is the order of a schedule. What was made of
the members in that order can be put back in the order of the list.
-/
namespace TwigComponent.Schedule

variable {α β : Type} (schedule : Schedule)

theorem order_nil : schedule.order ([] : List α) = [] := by
  rw [order]

theorem order_cons (first : α) (rest : List α) :
    schedule.order (first :: rest) =
      (first :: rest).get (schedule.next rest.length) ::
        schedule.order ((first :: rest).eraseIdx (schedule.next rest.length)) := by
  rw [order]

/-- Lists by the number of their members: the induction that `order` goes by. -/
@[elab_as_elim]
theorem taking {motive : List α → Prop} (nil : motive [])
    (cons : ∀ first rest, motive ((first :: rest).eraseIdx (schedule.next rest.length)) →
      motive (first :: rest)) (list : List α) : motive list :=
  order.induct schedule motive nil cons list

/-- Taking a member away leaves one member less. -/
theorem length_eraseIdx_next (first : α) (rest : List α) :
    ((first :: rest).eraseIdx (schedule.next rest.length)).length = rest.length := by
  rw [List.length_eraseIdx_of_lt (schedule.next rest.length).isLt]
  rfl

theorem order_perm (list : List α) : (schedule.order list).Perm list := by
  induction list using schedule.taking with
  | nil => rw [order_nil]
  | cons first rest ih =>
    rw [order_cons]
    exact (ih.cons _).trans (List.getElem_cons_eraseIdx_perm _)

theorem length_order (list : List α) : (schedule.order list).length = list.length :=
  (schedule.order_perm list).length_eq

/-- The order of the list comes back. -/
theorem restore_order (list : List α) : schedule.restore (schedule.order list) = list := by
  induction list using schedule.taking with
  | nil => rw [order_nil, restore]
  | cons first rest ih =>
    rw [order_cons, restore, ih, length_order, length_eraseIdx_next]
    exact List.insertIdx_eraseIdx_getElem _

theorem restore_map (f : α → β) (list : List α) :
    schedule.restore (list.map f) = (schedule.restore list).map f := by
  induction list with
  | nil => rfl
  | cons first rest ih =>
    rw [List.map_cons, restore, restore, List.length_map, ih, List.map_insertIdx]

theorem length_restore (list : List α) : (schedule.restore list).length = list.length := by
  induction list with
  | nil => rfl
  | cons first rest ih =>
    rw [restore, List.length_insertIdx_of_le_length (by rw [ih]; exact Fin.is_le _), ih]
    rfl

theorem restore_perm (list : List α) : (schedule.restore list).Perm list := by
  induction list with
  | nil => exact .refl _
  | cons first rest ih =>
    rw [restore]
    exact (List.perm_insertIdx _ _ (by rw [length_restore]; exact Fin.is_le _)).trans (ih.cons _)

@[simp] theorem order_forwards (list : List α) : forwards.order list = list := by
  induction list with
  | nil => rw [order_nil]
  | cons first rest ih =>
    rw [order_cons]
    exact congrArg (List.cons first) ih

@[simp] theorem restore_forwards (list : List α) : forwards.restore list = list := by
  induction list with
  | nil => rfl
  | cons first rest ih =>
    rw [restore, ih]
    rfl

/-- The order of a list is settled by what is next while members of it are left. -/
theorem order_congr {first second : Schedule} {list : List α}
    (h : ∀ others < list.length, first.next others = second.next others) :
    first.order list = second.order list := by
  induction list using first.taking with
  | nil => rw [order_nil, order_nil]
  | cons head rest ih =>
    have now := h rest.length (Nat.lt_succ_self _)
    have later := ih fun others left =>
      h others (Nat.lt_succ_of_lt (by rwa [length_eraseIdx_next] at left))
    rw [order_cons, order_cons, ← now, later]

/-- A schedule that takes the member at a position next if a certain number of others are left. -/
def update (others : Nat) (position : Fin (others + 1)) : Schedule :=
  ⟨fun left => if h : left = others then h ▸ position else schedule.next left⟩

/-- Every order is that of a schedule. -/
theorem exists_order {list order : List α} (h : order.Perm list) :
    ∃ schedule : Schedule, schedule.order list = order := by
  induction order generalizing list with
  | nil =>
    cases h.nil_eq
    exact ⟨forwards, order_forwards _⟩
  | cons head tail ih =>
    obtain ⟨position, inside, rfl⟩ := List.getElem_of_mem (h.subset List.mem_cons_self)
    have left : tail.Perm (list.eraseIdx position) :=
      (h.trans (List.getElem_cons_eraseIdx_perm inside).symm).cons_inv
    obtain ⟨later, rfl⟩ := ih left
    match list, inside with
    | first :: rest, inside =>
      refine ⟨later.update rest.length ⟨position, inside⟩, ?_⟩
      have now : (later.update rest.length ⟨position, inside⟩).next rest.length =
          ⟨position, inside⟩ := by
        simp [update]
      rw [order_cons, now]
      refine congrArg (List.cons _) (order_congr fun others fewer => ?_)
      rw [List.length_eraseIdx_of_lt inside] at fewer
      exact dif_neg (Nat.ne_of_lt fewer)

end TwigComponent.Schedule
