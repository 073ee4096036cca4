import Mgsim.Drisc.RAUnit
import Mgsim.Lib.Checked
import Mathlib.Logic.Function.Basic

namespace Mgsim.Drisc
open Mgsim.Lib

/-- One context of this type is free again: `m_free[context]++`. -/
def RAUnit.Free.giveBack (free : Free) : ContextType → Free
  | .normal => { free with normal := free.normal + 1 }
  | .reserved => { free with reserved := free.reserved + 1 }
  | .exclusive => { free with exclusive := free.exclusive + 1 }

/-- A step is put off and repeated (`FAILED`, or a function returns false), an assertion
fails, or an exception is thrown. -/
inductive Failure
  | stalled
  | assertion
  | exception
  deriving DecidableEq

inductive ThreadState
  | empty
  | waiting
  | ready
  | active
  | running
  | suspended
  | terminated
  deriving DecidableEq

/-- The first of a thread's locals, dependents and shareds in the register file;
`none` is `INVALID_REG_INDEX`. -/
structure ThreadRegs where
  locals : Option Nat
  dependents : Option Nat
  shareds : Option Nat
  deriving DecidableEq

/-- What must be over before a thread can be cleaned up. -/
structure ThreadDependencies where
  killed : Bool
  prevCleanedUp : Bool
  numPendingWrites : Nat
  deriving DecidableEq

inductive ThreadDependency
  | outstandingWrites
  | prevCleanedUp
  | terminated
  deriving DecidableEq

structure Thread (t : Target) where
  pc : BitVec 64
  regs : RegType → ThreadRegs
  dependencies : ThreadDependencies
  nextInBlock : Option Nat
  family : Nat
  waitingForWrites : Bool
  index : Integer t
  state : ThreadState

variable {t : Target}

def Thread.initial : Thread t where
  pc := 0
  regs := fun _ => ⟨none, none, none⟩
  dependencies := ⟨false, false, 0⟩
  nextInBlock := none
  family := 0
  waitingForWrites := false
  index := 0
  state := .empty

/-- Nothing that the thread has to wait for before its cleanup is left. -/
def Thread.isDone (thread : Thread t) : Bool :=
  thread.dependencies.numPendingWrites = 0 ∧ thread.dependencies.prevCleanedUp ∧ thread.dependencies.killed

/-- The first switch of `DecreaseThreadDependency`. -/
def ThreadDependencies.decrease (deps : ThreadDependencies) : ThreadDependency → ThreadDependencies
  | .outstandingWrites => { deps with numPendingWrites := deps.numPendingWrites - 1 }
  | .prevCleanedUp => { deps with prevCleanedUp := true }
  | .terminated => { deps with killed := true }

/-- The thread after the end of a dependency. It is woken if it was waiting for its last write. -/
def Thread.decrease (thread : Thread t) (dep : ThreadDependency) : Thread t :=
  let deps := thread.dependencies.decrease dep
  if dep = .outstandingWrites ∧ deps.numPendingWrites = 0 ∧ thread.waitingForWrites then
    { thread with dependencies := deps, waitingForWrites := false, state := .ready }
  else { thread with dependencies := deps }

/-- The thread table; `emptyThreads` is the list of the empty entries that starts at `m_empty`. -/
structure ThreadTable (t : Target) where
  size : Nat
  threads : Nat → Thread t
  emptyThreads : List Nat
  free : RAUnit.Free

namespace ThreadTable

def initial (size : Nat) : ThreadTable t where
  size := size
  threads := fun _ => Thread.initial
  emptyThreads := List.range size
  free := ⟨size - 1, 0, 1⟩

def set (table : ThreadTable t) (tid : Nat) (thread : Thread t) : ThreadTable t :=
  { table with threads := Function.update table.threads tid thread }

theorem set_set (table : ThreadTable t) (tid : Nat) (first second : Thread t) :
    (table.set tid first).set tid second = table.set tid second := by
  simp [set, Function.update_idem]

/-- An empty entry, if the context type has one (else `INVALID_TID`). -/
def popEmpty (table : ThreadTable t) (context : ContextType) : Option (Nat × ThreadTable t) :=
  if table.free.get context = 0 then none
  else match table.emptyThreads with
    | [] => none
    | tid :: rest =>
      some (tid, { table.set tid { table.threads tid with state := .waiting } with
        emptyThreads := rest
        free := table.free.use context })

def pushEmpty (table : ThreadTable t) (tid : Nat) (context : ContextType) : ThreadTable t :=
  { table.set tid { table.threads tid with state := .empty } with
    emptyThreads := tid :: table.emptyThreads
    free := table.free.giveBack context }

/-- One free thread is moved from the normal ones to the reserved ones. A counter that
wraps around is found by `CheckStateSanity`. -/
def reserveThread (table : ThreadTable t) : Except Failure (ThreadTable t) :=
  if table.free.normal = 0 then .error .assertion
  else .ok { table with free := (table.free.use .normal).giveBack .reserved }

def unreserveThread (table : ThreadTable t) : Except Failure (ThreadTable t) :=
  if table.free.reserved = 0 then .error .assertion
  else .ok { table with free := (table.free.use .reserved).giveBack .normal }

end ThreadTable
end Mgsim.Drisc
