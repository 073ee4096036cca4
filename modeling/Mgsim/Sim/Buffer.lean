import Mathlib.Algebra.Ring.Nat
import Mgsim.Lib.Buffer
import Mgsim.Lib.Fifo
import Mgsim.Lib.Run

namespace Mgsim.Sim
open Mgsim.Lib
variable {α : Type}

/-- What the `Update` of a storage tells its sensitive process. -/
inductive Signal
  | notify
  | unnotify
  deriving DecidableEq

/-- By how much signals change the activation count of their process. -/
def balance : List Signal → Int
  | [] => 0
  | .notify :: rest => balance rest + 1
  | .unnotify :: rest => balance rest - 1

theorem balance_append (first second : List Signal) : balance (first ++ second) = balance first + balance second := by
  induction first with
  | nil => simp [balance]
  | cons signal tail ih => cases signal <;> simp only [List.cons_append, balance, ih] <;> omega

/-- `INFINITE`, the greatest `size_t`. -/
def infinite : Nat := 2 ^ 64 - 1

/-- `Buffer`; `new` are the items in `m_new`, of which there are `m_pushes`. -/
structure SimBuffer (α : Type) where
  maxSize : Nat
  maxPushes : Nat
  data : List α
  new : List α
  popped : Bool

namespace SimBuffer

/-- The constructor, with its assertion about `MAX_PUSHES`. -/
def create (maxSize maxPushes : Nat) : Option (SimBuffer α) :=
  if maxPushes ≤ 4 then some ⟨maxSize, maxPushes, [], [], false⟩ else none

/-- `m_data.size() + m_pushes + min_space`, in a `size_t`. -/
def demand (b : SimBuffer α) (minSpace : Nat) : Nat := (b.data.length + b.new.length + minSpace) % 2 ^ 64

/-- `Push` in a phase: its result and the buffer after it, or `none` where an assertion fails. -/
def push (phase : Phase) (b : SimBuffer α) (item : α) (minSpace : Nat) : Option (Bool × SimBuffer α) :=
  if minSpace = 0 then none
  else if b.maxPushes ≠ 1 ∧ b.maxPushes ≤ b.new.length then none
  else if b.maxPushes = 1 ∧ b.new.length = 1 then some (false, b)
  else if b.maxSize = infinite ∨ b.demand minSpace ≤ b.maxSize then
    some (true, if phase = .commit then { b with new := b.new ++ [item] } else b)
  else some (false, b)

/-- `Pop` in a phase. It does not look at the data. -/
def pop (phase : Phase) (b : SimBuffer α) : Option (SimBuffer α) :=
  if b.popped then none else some (if phase = .commit then { b with popped := true } else b)

/-- `Update`: the signals, the item that is taken out, and the buffer after it. A pop
from a buffer without an item is undefined. -/
def update (b : SimBuffer α) : Option (List Signal × Option α × SimBuffer α) :=
  let notified := if b.new ≠ [] ∧ b.data = [] then [Signal.notify] else []
  let data := b.data ++ b.new
  if b.popped then
    match data with
    | [] => none
    | first :: rest => some (notified ++ (if rest = [] then [.unnotify] else []), some first,
        { b with data := rest, new := [], popped := false })
  else some (notified, none, { b with data := data, new := [] })

end SimBuffer

inductive BufferEvent (α : Type)
  | push (phase : Phase) (item : α) (minSpace : Nat)
  | pop (phase : Phase)
  | update

/-- A buffer with its history, and the activations that its process has from it. -/
structure BufferRecord (α : Type) where
  buffer : SimBuffer α
  ops : List (FifoOp α)
  activations : Int

namespace BufferRecord

def initial (buffer : SimBuffer α) : BufferRecord α := ⟨buffer, [], 0⟩

def step (r : BufferRecord α) : BufferEvent α → Option (BufferRecord α)
  | .push phase item minSpace => (r.buffer.push phase item minSpace).map fun (done, buffer) =>
      { r with buffer := buffer, ops := if done ∧ phase = .commit then r.ops ++ [.enqueue item] else r.ops }
  | .pop phase => (r.buffer.pop phase).map fun buffer => { r with buffer := buffer }
  | .update => r.buffer.update.map fun (signals, taken, buffer) =>
      ⟨buffer, r.ops ++ taken.toList.map .dequeue, r.activations + balance signals⟩

/-- The space that a push asks for is counted without a carry out of the `size_t`. -/
def Guard (r : BufferRecord α) : BufferEvent α → Prop
  | .push _ _ minSpace => r.buffer.maxSize = infinite ∨ r.buffer.data.length + r.buffer.new.length + minSpace < 2 ^ 64
  | _ => True

instance (r : BufferRecord α) (e : BufferEvent α) : Decidable (r.Guard e) := by
  cases e <;> unfold Guard <;> infer_instance

end BufferRecord

/-- The maximum of a buffer, if it has one. -/
def SimBuffer.bound (b : SimBuffer α) : Option Nat := if b.maxSize = infinite then none else some b.maxSize

/-- The buffer is a bounded queue of the items that have been pushed and not taken out. -/
structure RefinesFifo (r : BufferRecord α) : Prop where
  inOrder : enqueued r.ops = dequeued r.ops ++ (r.buffer.data ++ r.buffer.new)
  bounded : ∀ max ∈ r.buffer.bound, (r.buffer.data ++ r.buffer.new).length ≤ max
  refused : ∀ phase item minSpace buffer, r.buffer.push phase item minSpace = some (false, buffer) → buffer = r.buffer
  notified : r.activations = if r.buffer.data = [] then 0 else 1

/-- What holds in every run: the history is one of a bounded queue. -/
structure Queued (r : BufferRecord α) : Prop where
  run : Fifo r.buffer.bound r.ops (r.buffer.data ++ r.buffer.new)
  notified : r.activations = if r.buffer.data = [] then 0 else 1

section Steps
variable {b b' : SimBuffer α} {phase : Phase} {item : α} {minSpace : Nat} {done : Bool}

/-- A push stores its item only in the commit phase, and only where there is room. -/
theorem SimBuffer.push_spec (called : b.push phase item minSpace = some (done, b')) :
    (b' = b ∧ ¬ (done = true ∧ phase = .commit)) ∨
      (done = true ∧ phase = .commit ∧ b' = { b with new := b.new ++ [item] } ∧ 0 < minSpace ∧
        (b.maxSize = infinite ∨ b.demand minSpace ≤ b.maxSize)) := by
  unfold push at called
  split at called
  · cases called
  rename_i positive
  split at called
  · cases called
  split at called
  · cases called
    exact Or.inl ⟨rfl, by simp⟩
  split at called
  · rename_i room
    by_cases commit : phase = .commit
    · rw [if_pos commit] at called
      cases called
      exact Or.inr ⟨rfl, commit, rfl, Nat.pos_of_ne_zero positive, room⟩
    · rw [if_neg commit] at called
      cases called
      exact Or.inl ⟨rfl, fun both => commit both.2⟩
  · cases called
    exact Or.inl ⟨rfl, by simp⟩

/-- A refused push has no effect. -/
theorem SimBuffer.push_refused (called : b.push phase item minSpace = some (false, b')) : b' = b := by
  rcases push_spec called with ⟨same, _⟩ | ⟨impossible, _⟩
  · exact same
  · cases impossible

theorem SimBuffer.pop_spec (called : b.pop phase = some b') :
    b'.data = b.data ∧ b'.new = b.new ∧ b'.bound = b.bound := by
  unfold pop at called
  split at called
  · cases called
  · cases called
    split <;> exact ⟨rfl, rfl, rfl⟩

/-- An update takes out the first item, if it has been popped, and its signals tell whether items are left. -/
theorem SimBuffer.update_spec {signals : List Signal} {taken : Option α} (called : b.update = some (signals, taken, b')) :
    b.data ++ b.new = taken.toList ++ b'.data ∧ b'.new = [] ∧ b'.bound = b.bound ∧
      balance signals = (if b'.data = [] then 0 else 1) - (if b.data = [] then 0 else 1) := by
  have quiet (data new : List α) : balance (if new ≠ [] ∧ data = [] then [Signal.notify] else []) =
      (if data ++ new = [] then 0 else 1) - (if data = [] then 0 else 1) := by
    cases data <;> cases new <;> simp [balance]
  unfold update at called
  dsimp only at called
  split at called
  · split at called
    · cases called
    · rename_i first rest found
      cases called
      refine ⟨found, rfl, rfl, ?_⟩
      have nonempty := quiet b.data b.new
      rw [found] at nonempty
      rw [balance_append, nonempty]
      cases rest <;> simp [balance]
      omega
  · cases called
    exact ⟨rfl, rfl, rfl, quiet b.data b.new⟩

end Steps

namespace Queued
variable {r r' : BufferRecord α} {e : BufferEvent α}

theorem step (queued : Queued r) (allowed : r.Guard e) (taken : r.step e = some r') : Queued r' := by
  cases e with
  | push phase item minSpace =>
    obtain ⟨⟨done, buffer⟩, called, rfl⟩ := Option.map_eq_some_iff.mp taken
    rcases SimBuffer.push_spec called with ⟨rfl, unstored⟩ | ⟨accepted, commit, rfl, positive, room⟩
    · refine ⟨?_, queued.notified⟩
      dsimp only
      rw [if_neg unstored]
      exact queued.run
    · refine ⟨?_, queued.notified⟩
      dsimp only
      rw [if_pos ⟨accepted, commit⟩, ← List.append_assoc]
      refine .enqueue queued.run fun max member => ?_
      unfold SimBuffer.bound at member
      split at member
      · cases member
      · rename_i finite
        have same : r.buffer.maxSize = max := Option.some.inj member
        have fits := room.resolve_left finite
        have small := Or.resolve_left allowed finite
        rw [SimBuffer.demand, Nat.mod_eq_of_lt small] at fits
        rw [List.length_append]
        omega
  | pop phase =>
    obtain ⟨buffer, called, rfl⟩ := Option.map_eq_some_iff.mp taken
    obtain ⟨data, new, bound⟩ := SimBuffer.pop_spec called
    refine ⟨?_, ?_⟩
    · dsimp only
      rw [data, new, bound]
      exact queued.run
    · dsimp only
      rw [data]
      exact queued.notified
  | update =>
    obtain ⟨⟨signals, item, buffer⟩, called, rfl⟩ := Option.map_eq_some_iff.mp taken
    obtain ⟨items, new, bound, counted⟩ := SimBuffer.update_spec called
    have run := queued.run
    rw [items] at run
    refine ⟨?_, ?_⟩
    · dsimp only
      rw [new, bound, List.append_nil]
      cases item with
      | none => simpa using run
      | some x => exact run.dequeue
    · dsimp only
      rw [queued.notified, counted]
      omega

theorem refines (queued : Queued r) : RefinesFifo r :=
  ⟨queued.run.conserved, queued.run.bounded, fun _ _ _ _ => SimBuffer.push_refused, queued.notified⟩

end Queued

section Cycle
variable {b : SimBuffer α}

/-- The buffer as the components use it, which look at its front before they pop. -/
def SimBuffer.toBuffer (b : SimBuffer α) (poppable : b.popped = true → b.data ≠ []) : Buffer α :=
  ⟨b.bound, b.maxPushes, b.data, b.new, b.popped, poppable⟩

/-- A push of a component has the result and the effect of the push of the source. -/
theorem SimBuffer.pushIn_toBuffer (poppable : b.popped = true → b.data ≠ []) {phase : Phase} {item : α} {minSpace : Nat}
    (positive : 0 < minSpace) (small : b.data.length + b.new.length + minSpace < 2 ^ 64) {done : Bool} {c : Buffer α}
    (called : (b.toBuffer poppable).pushIn phase item minSpace = some (done, c)) :
    ∃ b' poppable', b.push phase item minSpace = some (done, b') ∧ c = b'.toBuffer poppable' := by
  have space : (b.toBuffer poppable).hasSpace minSpace = true ↔ b.maxSize = infinite ∨ b.demand minSpace ≤ b.maxSize := by
    unfold Buffer.hasSpace toBuffer bound demand
    rw [Nat.mod_eq_of_lt small]
    by_cases unbounded : b.maxSize = infinite <;> simp [unbounded]
  unfold Buffer.pushIn at called
  unfold push
  rw [if_neg (Nat.pos_iff_ne_zero.mp positive)]
  split at called
  · cases called
  rename_i room
  rw [if_neg (show ¬ (b.maxPushes ≠ 1 ∧ b.maxPushes ≤ b.new.length) from room)]
  split at called
  · rename_i once
    cases called
    rw [if_pos (show b.maxPushes = 1 ∧ b.new.length = 1 from once)]
    exact ⟨b, poppable, rfl, rfl⟩
  rename_i fresh
  rw [if_neg (show ¬ (b.maxPushes = 1 ∧ b.new.length = 1) from fresh)]
  split at called
  · rename_i fits
    cases called
    rw [if_pos (space.mp fits)]
    split
    · exact ⟨{ b with new := b.new ++ [item] }, poppable, rfl, rfl⟩
    · exact ⟨b, poppable, rfl, rfl⟩
  · rename_i full
    cases called
    rw [if_neg fun fits => full (space.mpr fits)]
    exact ⟨b, poppable, rfl, rfl⟩

/-- The end of a cycle is the update of the source. -/
theorem SimBuffer.update_toBuffer (poppable : b.popped = true → b.data ≠ []) :
    ∃ signals taken b' poppable', b.update = some (signals, taken, b') ∧
      (b.toBuffer poppable).update = b'.toBuffer poppable' := by
  unfold update
  by_cases popped : b.popped = true
  · obtain ⟨first, rest, found⟩ := List.exists_cons_of_ne_nil (poppable popped)
    dsimp only
    rw [if_pos popped, found]
    exact ⟨_, _, { b with data := rest ++ b.new, new := [], popped := false }, nofun, rfl, by
      simp [Buffer.update, toBuffer, popped, found, bound]⟩
  · dsimp only
    rw [if_neg popped]
    rw [Bool.not_eq_true] at popped
    exact ⟨_, _, { b with data := b.data ++ b.new, new := [] }, by simp [popped], rfl, by
      simp [Buffer.update, toBuffer, popped, bound]⟩

end Cycle

section Examples

/-- Two pushes and a pop in one cycle, and another pop. -/
def pushPop : List (BufferEvent Nat) :=
  [.push .commit 5 1, .update, .push .commit 6 1, .pop .commit, .update, .push .check 7 1, .pop .commit, .update]

/-- A push that asks for so much space that the sum is zero again. -/
def pushPastMaximum : List (BufferEvent Nat) := [.push .commit 5 1, .update, .push .commit 6 (2 ^ 64 - 1), .update]

end Examples

end Mgsim.Sim
