import Mathlib.Data.List.Range
import Mathlib.Tactic.Tauto
import Mgsim.Lib.Intrusive

namespace Mgsim.Lib
universe u
variable {α : Type u}

/-- The items of a list that is linked both ways, from its head to its tail. -/
structure Linked (head tail : Option α) (next previous : α → Option α) (items : List α) : Prop where
  nodup : items.Nodup
  forward : Chain next head items
  backward : Chain previous tail items.reverse

namespace Linked
variable {head tail tail' : Option α} {next next' previous previous' : α → Option α} {items front back : List α}
  {a b : α}

theorem head_eq (linked : Linked head tail next previous items) : head = items.head? := linked.forward.head_eq

theorem tail_eq (linked : Linked head tail next previous items) : tail = items.getLast? := by
  rw [linked.backward.head_eq, List.head?_reverse]

theorem next_eq (linked : Linked head tail next previous (front ++ a :: back)) : next a = back.head? :=
  linked.forward.next_eq

theorem previous_eq (linked : Linked head tail next previous (front ++ a :: back)) : previous a = front.getLast? := by
  have backward := linked.backward
  rw [List.reverse_append, List.reverse_cons, List.append_assoc, List.singleton_append] at backward
  rw [backward.next_eq, List.head?_reverse]

/-- An item behind another one is not the first. -/
theorem head_ne (linked : Linked head tail next previous (front ++ b :: a :: back)) : head ≠ some a := by
  intro first
  have distinct := linked.nodup
  rw [List.append_cons] at distinct
  have fresh := (List.nodup_middle.mp distinct).notMem
  rw [linked.head_eq] at first
  refine fresh (List.mem_append_left _ (List.mem_of_head? ?_))
  rw [← first]
  cases front <;> rfl

/-- An item before another one is not the last. -/
theorem tail_ne (linked : Linked head tail next previous (front ++ a :: b :: back)) : tail ≠ some a := by
  intro last
  have fresh := (List.nodup_middle.mp linked.nodup).notMem
  rw [linked.tail_eq, List.getLast?_append_of_ne_nil _ (List.cons_ne_nil _ _), List.getLast?_cons_cons] at last
  exact fresh (List.mem_append_right _ (List.mem_of_getLast? last))

/-- One item links forward to another exactly when this one links back to it. -/
theorem next_iff_previous (linked : Linked head tail next previous items) (atA : a ∈ items) (atB : b ∈ items) :
    next a = some b ↔ previous b = some a := by
  constructor
  · intro link
    obtain ⟨front, back, rfl⟩ := List.append_of_mem atA
    rw [linked.next_eq] at link
    obtain ⟨back, rfl⟩ := List.head?_eq_some_iff.mp link
    rw [List.append_cons] at linked
    rw [linked.previous_eq, List.getLast?_concat]
  · intro link
    obtain ⟨front, back, rfl⟩ := List.append_of_mem atB
    rw [linked.previous_eq] at link
    obtain ⟨front, rfl⟩ := List.getLast?_eq_some_iff.mp link
    rw [List.append_assoc] at linked
    rw [linked.next_eq]
    rfl

/-- The backward links without an item that is taken out behind another one. -/
theorem unlinked_backward (linked : Linked head tail next previous (front ++ b :: a :: back))
    (atBack : ∀ c ∈ back.head?, previous' c = some b)
    (others : ∀ x ∈ front ++ b :: back, x ∉ back.head? → previous' x = previous x) :
    Chain previous' (front ++ b :: back).getLast? (front ++ b :: back).reverse := by
  have previousA : previous a = some b := by
    rw [List.append_cons] at linked
    rw [linked.previous_eq, List.getLast?_concat]
  have backward := linked.backward
  cases back with
  | nil =>
    simp only [List.reverse_append, List.reverse_cons, List.reverse_nil, List.nil_append, List.cons_append] at backward
    have behind := backward.rest
    rw [previousA] at behind
    rw [List.getLast?_concat, List.reverse_concat]
    refine behind.congr fun x member => others x ?_ (by simp)
    simpa [or_comm] using member
  | cons c back =>
    have ends : (front ++ b :: c :: back).getLast? = tail := by
      rw [linked.tail_eq]
      simp only [List.getLast?_append, List.getLast?_cons_cons]
    have fresh : c ∉ front ++ [b] ++ [a] ++ back := by
      have nodup := linked.nodup
      rw [List.append_cons, List.append_cons] at nodup
      exact (List.nodup_cons.mp (List.nodup_middle.mp nodup)).1
    simp only [List.reverse_append, List.reverse_cons, List.append_assoc, List.singleton_append] at backward
    rw [ends]
    simp only [List.reverse_append, List.reverse_cons, List.append_assoc, List.singleton_append]
    refine backward.unlink (by rw [atBack c rfl, previousA]) fun x member => ?_
    have inside : x ∈ back ∨ x = b ∨ x ∈ front := by
      simpa using member
    refine others x ?_ ?_
    · simp only [List.mem_append, List.mem_cons]
      tauto
    · intro same
      cases Option.some.inj same
      refine fresh ?_
      simp only [List.mem_append, List.mem_singleton]
      tauto

/-- An item behind another one is taken out and becomes the first one. -/
theorem moveFront [DecidableEq α] (linked : Linked head tail next previous (front ++ b :: a :: back)) (nextB : next' b = next a)
    (nextA : next' a = head) (nextOthers : ∀ x, x ≠ a → x ≠ b → next' x = next x) (previousA : previous' a = none)
    (previousHead : ∀ h ∈ head, previous' h = some a) (previousBack : ∀ c ∈ back.head?, previous' c = some b)
    (previousOthers : ∀ x, x ≠ a → x ∉ head → x ∉ back.head? → previous' x = previous x)
    (last : tail' = (front ++ b :: back).getLast?) :
    Linked (some a) tail' next' previous' (a :: (front ++ b :: back)) := by
  have split : (front ++ b :: a :: back).Perm (a :: (front ++ b :: back)) :=
    (List.Perm.append_left front (List.Perm.swap a b back)).trans List.perm_middle
  have nodup := split.nodup_iff.mp linked.nodup
  obtain ⟨fresh, distinct⟩ := List.nodup_cons.mp nodup
  have notA : ∀ x ∈ front ++ b :: back, x ≠ a := by
    rintro x member rfl
    exact fresh member
  have notB : ∀ x ∈ front ++ back, x ≠ b := by
    rintro x member rfl
    exact (List.nodup_middle.mp distinct).notMem member
  refine ⟨nodup, ?_, ?_⟩
  · have without : Chain next' head (front ++ b :: back) := by
      refine linked.forward.unlink nextB fun x member => nextOthers x (notA x ?_) (notB x member)
      simp only [List.mem_append, List.mem_cons] at member ⊢
      exact member.imp_right Or.inr
    rw [← nextA] at without
    exact .cons without
  · have unlinked : Chain (fun x => if x ∈ back.head? then some b else previous x) (front ++ b :: back).getLast?
        (front ++ b :: back).reverse :=
      linked.unlinked_backward (fun c first => if_pos first) fun x _ behind => if_neg behind
    have first : (front ++ b :: back).reverse.getLast? = head := by
      rw [List.getLast?_reverse, linked.head_eq]
      cases front <;> rfl
    rw [List.reverse_cons, last]
    have whole := unlinked.snoc (List.nodup_reverse.mpr distinct) previousA ?_ ?_
    · rwa [List.head?_append_of_ne_nil _ (by simp), List.head?_reverse] at whole
    · rw [first]
      exact previousHead
    · rw [first]
      intro x member notHead
      split
      · rename_i behind
        exact previousBack x behind
      · rename_i behind
        exact previousOthers x (notA x (List.mem_reverse.mp member)) notHead behind

end Linked

/-- The numbers below `n`, each linked to the one after it and the one before it. -/
theorem linked_range {n : Nat} {next previous : Nat → Option Nat} (some : n ≠ 0)
    (forward : ∀ i < n, next i = if i + 1 < n then .some (i + 1) else none)
    (backward : ∀ i < n, previous i = if i = 0 then none else .some (i - 1)) :
    Linked (.some 0) (.some (n - 1)) next previous (List.range n) := by
  refine ⟨List.nodup_range, ?_, ?_⟩
  · have chain : ∀ k s, s + k = n → Chain next (if k = 0 then none else .some s) (List.range' s k) := by
      intro k
      induction k with
      | zero => exact fun _ _ => .nil
      | succ k ih =>
        intro s bound
        rw [if_neg (Nat.succ_ne_zero k), List.range'_succ]
        refine .cons ?_
        have later := ih (s + 1) (by omega)
        have link : next s = if k = 0 then none else .some (s + 1) := by
          rw [forward s (by omega)]
          split <;> split <;> first | rfl | omega
        rwa [← link] at later
    have whole := chain n 0 (Nat.zero_add n)
    rwa [if_neg some, ← List.range_eq_range'] at whole
  · have chain : ∀ k ≤ n, Chain previous (if k = 0 then none else .some (k - 1)) (List.range k).reverse := by
      intro k
      induction k with
      | zero => exact fun _ => .nil
      | succ k ih =>
        intro bound
        rw [if_neg (Nat.succ_ne_zero k), List.range_succ, List.reverse_concat]
        refine .cons ?_
        have earlier := ih (by omega)
        rwa [← backward k (by omega)] at earlier
    have whole := chain n le_rfl
    rwa [if_neg some] at whole

end Mgsim.Lib
