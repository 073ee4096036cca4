import Mgsim.Drisc.ThreadTable

namespace Mgsim.Drisc
open Mgsim.Lib

inductive FamilyState
  | empty
  | allocated
  | createQueued
  | creating
  | active
  | terminated
  deriving DecidableEq

/-- The numbers of registers of one type in a thread. -/
structure RegsNo where
  globals : Nat
  shareds : Nat
  locals : Nat
  deriving DecidableEq

/-- The registers of one type of a family; `none` is `INVALID_REG_INDEX`. -/
structure FamilyRegs where
  count : RegsNo
  base : Option Nat
  size : Nat
  lastShareds : Option Nat
  deriving DecidableEq

/-- What must be over before a family has terminated, and before its entry is free again. -/
structure FamilyDependencies where
  allocationDone : Bool
  prevSynchronized : Bool
  detached : Bool
  syncSent : Bool
  numThreadsAllocated : Nat
  numPendingReads : Nat
  deriving DecidableEq

inductive FamilyDependency
  | threadCount
  | outstandingReads
  | prevSynchronized
  | allocationDone
  | syncSent
  | detached
  deriving DecidableEq

/-- The core and the register that a synchronization is written to. -/
structure FamilySync where
  pid : Option Nat
  reg : Nat
  done : Bool
  deriving DecidableEq

/-- A family. `nThreads` shares its place with the limit, which it replaces. -/
structure Family (t : Target) where
  placeSize : Nat
  numCores : Nat
  capability : Nat
  pc : BitVec 64
  physBlockSize : Nat
  start : Integer t
  step : Integer t
  nThreads : Integer t
  dependencies : FamilyDependencies
  link : Option Nat
  hasShareds : Bool
  prevCleanedUp : Bool
  broken : Bool
  sync : FamilySync
  lastAllocated : Option Nat
  regs : RegType → FamilyRegs
  state : FamilyState

namespace FamilyDependency

/-- The dependencies after the end of which the family may have terminated. -/
def endsThreads : FamilyDependency → Bool
  | .threadCount | .allocationDone => true
  | _ => false

/-- The dependencies after the end of which the family may be synchronized. -/
def synchronizes : FamilyDependency → Bool
  | .threadCount | .allocationDone | .prevSynchronized | .outstandingReads => true
  | .syncSent | .detached => false

end FamilyDependency

namespace FamilyDependencies

/-- All threads have been allocated and cleaned up. -/
def isTerminated (deps : FamilyDependencies) : Bool :=
  deps.numThreadsAllocated = 0 ∧ deps.allocationDone

/-- And so have those of the cores before, and no read is under way. -/
def isSynchronized (deps : FamilyDependencies) : Bool :=
  deps.isTerminated ∧ deps.numPendingReads = 0 ∧ deps.prevSynchronized

def isReleasable (deps : FamilyDependencies) : Bool :=
  deps.isSynchronized ∧ deps.detached ∧ deps.syncSent

/-- The first switch of `DecreaseFamilyDependency`. -/
def decrease (deps : FamilyDependencies) : FamilyDependency → Except Failure FamilyDependencies
  | .threadCount =>
    if deps.numThreadsAllocated = 0 then .error .assertion
    else .ok { deps with numThreadsAllocated := deps.numThreadsAllocated - 1 }
  | .outstandingReads =>
    if deps.numPendingReads = 0 then .error .assertion
    else .ok { deps with numPendingReads := deps.numPendingReads - 1 }
  | .prevSynchronized => if deps.prevSynchronized then .error .assertion else .ok { deps with prevSynchronized := true }
  | .allocationDone => if deps.allocationDone then .error .assertion else .ok { deps with allocationDone := true }
  | .syncSent => if deps.syncSent then .error .assertion else .ok { deps with syncSent := true }
  | .detached => if deps.detached then .error .assertion else .ok { deps with detached := true }

end FamilyDependencies

namespace Family
variable {t : Target}

/-- An entry that has not been used yet. -/
def initial : Family t where
  placeSize := 0
  numCores := 0
  capability := 0
  pc := 0
  physBlockSize := 0
  start := 0
  step := 0
  nThreads := 0
  dependencies := ⟨false, false, false, false, 0, 0⟩
  link := none
  hasShareds := false
  prevCleanedUp := false
  broken := false
  sync := ⟨none, 0, false⟩
  lastAllocated := none
  regs := fun _ => ⟨⟨0, 0, 0⟩, none, 0, none⟩
  state := .empty

/-- `InitializeFamily`. -/
def reset (family : Family t) (capability : Nat) : Family t :=
  { family with
    capability := capability
    start := 0
    nThreads := 1
    step := 1
    physBlockSize := 0
    link := none
    sync := { family.sync with done := false, pid := none }
    hasShareds := false
    lastAllocated := none
    prevCleanedUp := false
    broken := false
    dependencies := { family.dependencies with
      allocationDone := false
      numPendingReads := 0
      numThreadsAllocated := 0
      detached := false
      syncSent := true } }

/-- The threads of the family are linked in the order of their cleanup. -/
def isLinked (family : Family t) : Bool := family.hasShareds ∧ family.physBlockSize > 1

theorem isLinked_iff {family : Family t} : family.isLinked = true ↔ family.hasShareds = true ∧ 1 < family.physBlockSize := by
  simp [isLinked]

end Family

/-- The family table. The last entry is the exclusive context. -/
structure FamilyTable (t : Target) where
  size : Nat
  families : Nat → Family t
  free : RAUnit.Free

namespace FamilyTable
variable {t : Target}

def initial (size : Nat) : FamilyTable t := ⟨size, fun _ => Family.initial, ⟨size - 1, 0, 1⟩⟩

def isExclusive (table : FamilyTable t) (fid : Nat) : Bool := fid + 1 = table.size

def set (table : FamilyTable t) (fid : Nat) (family : Family t) : FamilyTable t :=
  { table with families := Function.update table.families fid family }

/-- The entry that an allocation takes: the exclusive one, or the first other one that is empty. -/
def findEmpty (table : FamilyTable t) : ContextType → Option Nat
  | .exclusive => if (table.families (table.size - 1)).state = .empty then some (table.size - 1) else none
  | _ => (List.range (table.size - 1)).find? fun fid => (table.families fid).state = .empty

/-- The entry for a context of this type and the table after its allocation; nothing
without a free context. -/
def allocateFamily (table : FamilyTable t) (context : ContextType) : Except Failure (Option (Nat × FamilyTable t)) :=
  if table.free.get context = 0 then .ok none
  else match table.findEmpty context with
    | none => .error .assertion
    | some fid =>
      .ok (some (fid, { table.set fid { table.families fid with state := .allocated } with
        free := table.free.use context }))

def freeFamily (table : FamilyTable t) (fid : Nat) (context : ContextType) : FamilyTable t :=
  { table.set fid { table.families fid with state := .empty } with free := table.free.giveBack context }

end FamilyTable
end Mgsim.Drisc
