import Mathlib.Data.List.Perm.Basic
import Mathlib.Data.List.Nodup

namespace Mgsim.Lib
universe u
variable {α : Type u} [DecidableEq α] [LT α]

/-- The first was used later than the second; the ones never used come last, in
their own order. The uses stand in `recent`, the last one first. -/
def MoreRecent (recent : List α) (a b : α) : Prop :=
  recent.idxOf a < recent.idxOf b ∨ a ∉ recent ∧ b ∉ recent ∧ a < b

theorem MoreRecent.cons {recent : List α} {a b used : α} (before : MoreRecent recent a b) (notA : a ≠ used)
    (notB : b ≠ used) : MoreRecent (used :: recent) a b := by
  rcases before with later | ⟨unusedA, unusedB, lower⟩
  · refine Or.inl ?_
    rw [List.idxOf_cons_ne _ (Ne.symm notA), List.idxOf_cons_ne _ (Ne.symm notB)]
    omega
  · exact Or.inr ⟨by simp [notA, unusedA], by simp [notB, unusedB], lower⟩

theorem moreRecent_used {recent : List α} {used b : α} (other : b ≠ used) : MoreRecent (used :: recent) used b := by
  refine Or.inl ?_
  rw [List.idxOf_cons_self, List.idxOf_cons_ne _ (Ne.symm other)]
  omega

/-- A list ordered by use, when one of its items is used and moved to the front. -/
theorem pairwise_moreRecent_moveFront {recent order : List α} {used : α} (nodup : order.Nodup)
    (ordered : order.Pairwise (MoreRecent recent)) :
    (used :: order.erase used).Pairwise (MoreRecent (used :: recent)) := by
  have others : ∀ b ∈ order.erase used, b ≠ used := fun b member => (nodup.mem_erase_iff.mp member).1
  refine List.pairwise_cons.mpr ⟨fun b member => moreRecent_used (others b member), ?_⟩
  have kept : (order.erase used).Pairwise (MoreRecent recent) := ordered.sublist List.erase_sublist
  exact kept.imp_of_mem fun atA atB before => before.cons (others _ atA) (others _ atB)

/-- The last of a list ordered by use is the one used least recently. -/
theorem moreRecent_of_getLast {recent order : List α} {last a : α} (ordered : order.Pairwise (MoreRecent recent))
    (atEnd : order.getLast? = some last) (member : a ∈ order) (other : a ≠ last) : MoreRecent recent a last := by
  obtain ⟨front, rfl⟩ := List.getLast?_eq_some_iff.mp atEnd
  have inFront : a ∈ front := by
    rcases List.mem_append.mp member with inside | same
    · exact inside
    · exact absurd (List.mem_singleton.mp same) other
  exact (List.pairwise_append.mp ordered).2.2 a inFront last (List.mem_singleton_self last)

end Mgsim.Lib
