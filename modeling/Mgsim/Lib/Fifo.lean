import Mathlib.Data.List.Induction

namespace Mgsim.Lib
universe u
variable {α : Type u}

inductive FifoOp (α : Type u)
  | enqueue (item : α)
  | dequeue (item : α)

/-- The items that operations put into a queue. -/
@[simp] def enqueued : List (FifoOp α) → List α
  | [] => []
  | .enqueue item :: rest => item :: enqueued rest
  | .dequeue _ :: rest => enqueued rest

/-- The items that operations take from a queue. -/
@[simp] def dequeued : List (FifoOp α) → List α
  | [] => []
  | .enqueue _ :: rest => dequeued rest
  | .dequeue item :: rest => item :: dequeued rest

/-- The runs of a bounded queue from empty: the operations, and the items that are left. -/
inductive Fifo (bound : Option Nat) : List (FifoOp α) → List α → Prop
  | start : Fifo bound [] []
  | enqueue {ops items item} : Fifo bound ops items → (∀ max ∈ bound, items.length < max) →
      Fifo bound (ops ++ [.enqueue item]) (items ++ [item])
  | dequeue {ops items item} : Fifo bound ops (item :: items) → Fifo bound (ops ++ [.dequeue item]) items

theorem enqueued_append (first second : List (FifoOp α)) : enqueued (first ++ second) = enqueued first ++ enqueued second := by
  induction first with
  | nil => rfl
  | cons op rest ih => cases op <;> simp [ih]

theorem dequeued_append (first second : List (FifoOp α)) : dequeued (first ++ second) = dequeued first ++ dequeued second := by
  induction first with
  | nil => rfl
  | cons op rest ih => cases op <;> simp [ih]

/-- The items that are left in a queue. -/
def remaining (ops : List (FifoOp α)) : List α := (enqueued ops).drop (dequeued ops).length

namespace Fifo
variable {bound : Option Nat} {ops : List (FifoOp α)} {items : List α}

/-- Nothing is lost or duplicated, and the order is kept. -/
theorem conserved (run : Fifo bound ops items) : enqueued ops = dequeued ops ++ items := by
  induction run with
  | start => rfl
  | enqueue _ _ ih => simp [enqueued_append, dequeued_append, ih]
  | dequeue _ ih => simp [enqueued_append, dequeued_append, ih]

theorem remaining_eq (run : Fifo bound ops items) : remaining ops = items := by
  rw [remaining, run.conserved, List.drop_left]

/-- A queue without a bound takes any number of items. -/
theorem enqueueAll (run : Fifo none ops items) (chain : List α) :
    Fifo none (ops ++ chain.map .enqueue) (items ++ chain) := by
  induction chain generalizing ops items with
  | nil => simpa using run
  | cons item rest ih =>
    have longer : Fifo none (ops ++ [.enqueue item]) (items ++ [item]) := run.enqueue nofun
    simpa using ih longer

theorem bounded (run : Fifo bound ops items) : ∀ max ∈ bound, items.length ≤ max := by
  induction run with
  | start => simp
  | enqueue _ room _ =>
    intro max member
    have fits := room max member
    rw [List.length_append, List.length_singleton]
    omega
  | dequeue _ ih =>
    intro max member
    have before := ih max member
    rw [List.length_cons] at before
    omega

end Fifo

end Mgsim.Lib
