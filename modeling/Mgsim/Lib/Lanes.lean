import Mathlib.Logic.Function.Basic
import Mathlib.Data.List.Basic

namespace Mgsim.Lib
universe u v w
variable {α : Type u} {β : Type v} {ι : Type w} [DecidableEq ι]

/-- The items of a list stand in queues, one for each lane, in the order of the list. -/
def Lanes (lane : α → ι) (content : α → β) (queues : ι → List β) (items : List α) : Prop :=
  ∀ i, queues i = (items.filter fun x => lane x = i).map content

namespace Lanes
variable {lane : α → ι} {content : α → β} {queues queues' : ι → List β} {items : List α}

/-- An item enters the queue of its lane. -/
theorem push (lanes : Lanes lane content queues items) (x : α) {i : ι} (own : lane x = i) :
    Lanes lane content (Function.update queues i (queues i ++ [content x])) (items ++ [x]) := by
  intro j
  rw [List.filter_append, List.map_append, ← lanes j]
  by_cases same : j = i
  · subst same
    simp [own]
  · have other : lane x ≠ j := fun eq => same (eq.symm.trans own)
    simp [same, other]

/-- The front of a queue is the first item of its lane. -/
theorem front (lanes : Lanes lane content queues items) {i : ι} {y : β} {rest : List β} (found : queues i = y :: rest) :
    ∃ x before after, items = before ++ x :: after ∧ items.find? (fun x => lane x = i) = some x ∧
      items.eraseP (fun x => lane x = i) = before ++ after ∧ content x = y ∧ lane x = i ∧
      (∀ z ∈ before, lane z ≠ i) ∧ Lanes lane content (Function.update queues i rest) (before ++ after) := by
  have own := lanes i
  rw [found] at own
  obtain ⟨x, tail, split, value, after⟩ := List.map_eq_cons_iff.mp own.symm
  obtain ⟨before, later, whole, ahead, first, remaining⟩ := List.filter_eq_cons_iff.mp split
  rw [decide_eq_true_eq] at first
  have outside : ∀ z ∈ before, lane z ≠ i := fun z member => by simpa using ahead z member
  refine ⟨x, before, later, whole, ?_, ?_, value, first, outside, fun j => ?_⟩
  · rw [whole, List.find?_append, List.find?_eq_none.mpr (by simpa using outside)]
    simp [first]
  · rw [whole, List.eraseP_append_right _ (by simpa using outside)]
    simp [first]
  · have others : (before.filter fun x => lane x = i) = [] := by
      rw [List.filter_eq_nil_iff]
      simpa using outside
    by_cases same : j = i
    · subst same
      rw [Function.update_self, List.filter_append, others, List.nil_append, remaining, after]
    · have different : lane x ≠ j := fun eq => same (eq.symm.trans first)
      rw [Function.update_of_ne same, lanes j, whole, List.filter_append, List.filter_append, List.filter_cons]
      simp [different]

theorem congr (lanes : Lanes lane content queues items) (same : ∀ i, queues' i = queues i) :
    Lanes lane content queues' items := fun i => (same i).trans (lanes i)

/-- Nothing is left when all queues are empty. -/
theorem eq_nil (lanes : Lanes lane content queues items) (empty : ∀ x ∈ items, queues (lane x) = []) : items = [] := by
  cases items with
  | nil => rfl
  | cons x rest =>
    have own := lanes (lane x)
    rw [empty x List.mem_cons_self] at own
    simp at own

end Lanes

end Mgsim.Lib
