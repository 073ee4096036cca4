import Mgsim.Drisc.FamilyTable
import Mgsim.Lib.Buffer

namespace Mgsim.Drisc
open Mgsim.Lib

/-- A family as the other cores name it; all zero if an allocation has failed. -/
structure Fid where
  pid : Nat
  lfid : Nat
  capability : Nat
  deriving DecidableEq

inductive FamilyProperty
  | start
  | limit
  | step
  | block
  deriving DecidableEq

/-- The messages to the next core that manage a family. -/
inductive LinkMessage (t : Target)
  | allocate (firstFid prevFid size : Nat) (exact suspend : Bool) (completionPid completionReg : Nat)
  | setProperty (fid : Nat) (type : FamilyProperty) (value : Integer t)
  | create (fid numCores : Nat) (address : BitVec 64) (regs : RegType → RegsNo)
  | done (fid : Nat) (broken : Bool)
  | sync (fid completionPid completionReg : Nat)
  | detach (fid : Nat)
  | brk (fid : Nat)

/-- The answer to an allocation, which goes back over the cores that took part in it. -/
structure AllocResponse where
  completionPid : Nat
  completionReg : Nat
  prevFid : Option Nat
  nextFid : Option Nat
  numCores : Nat
  exact : Bool
  deriving DecidableEq

/-- What a completion register is written with. -/
inductive Completion
  | family (fid : Fid)
  | sync (broken : Bool)
  deriving DecidableEq

/-- The delegation messages that the allocator and the network send by themselves. -/
inductive RemoteMessage (t : Target)
  | rawRegister (pid reg : Nat) (value : Completion)
  | create (address : BitVec 64) (fid : Fid) (completionPid : Nat) (completionReg : Option Nat) (parameter index : Integer t)

structure SyncInfo where
  fid : Nat
  pid : Nat
  reg : Nat
  broken : Bool
  deriving DecidableEq

inductive AllocationType
  | normal
  | exact
  | balanced
  | single
  deriving DecidableEq

structure AllocRequest (t : Target) where
  prevFid : Option Nat
  placeSize : Nat
  type : AllocationType
  completionPid : Nat
  completionReg : Option Nat
  bundle : Bool
  pc : BitVec 64
  parameter : Integer t
  index : Integer t

/-- The queue that `DoFamilyAllocate` serves, and the type of its contexts. -/
inductive AllocQueue
  | suspend
  | noSuspend
  | exclusive
  deriving DecidableEq

def AllocQueue.context : AllocQueue → ContextType
  | .exclusive => .exclusive
  | _ => .normal

structure CreateInfo (t : Target) where
  fid : Nat
  completionPid : Nat
  completionReg : Option Nat
  bundle : Bool
  parameter : Integer t
  index : Integer t

inductive CreateState
  | initial
  | loadRegspec
  | loadingLine
  | lineLoaded
  | restricting
  | allocatingRegisters
  | broadcastingCreate
  | activatingFamily
  | notify
  deriving DecidableEq

/-- What happens to the entry of a thread, in this order, for each thread that takes it. -/
inductive Life
  | allocated
  | terminated
  | queued
  | released
  deriving DecidableEq

/-- The allocator of a core with the tables and the network buffers that it works on.
`lives` is a history of the thread entries, which no step reads. -/
structure Allocator (t : Target) where
  pid : Nat
  lineSize : Nat
  threadTable : ThreadTable t
  familyTable : FamilyTable t
  raunit : RAUnit Nat
  alloc : Buffer Nat
  cleanup : Buffer Nat
  creates : Buffer (CreateInfo t)
  createState : CreateState
  allocRequestsSuspend : Buffer (AllocRequest t)
  allocRequestsNoSuspend : Buffer (AllocRequest t)
  allocRequestsExclusive : Buffer (AllocRequest t)
  link : List (LinkMessage t)
  allocResponses : List AllocResponse
  remote : List (RemoteMessage t)
  syncs : Buffer SyncInfo
  lives : Nat → List Life

namespace Allocator
variable {t : Target}

def thread (a : Allocator t) (tid : Nat) : Thread t := a.threadTable.threads tid

def family (a : Allocator t) (fid : Nat) : Family t := a.familyTable.families fid

def setThread (a : Allocator t) (tid : Nat) (thread : Thread t) : Allocator t :=
  { a with threadTable := a.threadTable.set tid thread }

def setFamily (a : Allocator t) (fid : Nat) (family : Family t) : Allocator t :=
  { a with familyTable := a.familyTable.set fid family }

def record (a : Allocator t) (tid : Nat) (event : Life) : Allocator t :=
  { a with lives := Function.update a.lives tid (a.lives tid ++ [event]) }

def sendLink (a : Allocator t) (msg : LinkMessage t) : Allocator t := { a with link := a.link ++ [msg] }

def sendRemote (a : Allocator t) (msg : RemoteMessage t) : Allocator t := { a with remote := a.remote ++ [msg] }

def sendSync (a : Allocator t) (info : SyncInfo) : Except Failure (Allocator t) := do
  let syncs ← orElse .assertion (a.syncs.push info 1)
  pure { a with syncs }

/-- The token goes to the next core, or from the last core to the thread that waits for the family. -/
def forwardToken (a : Allocator t) (fid : Nat) : Except Failure (Allocator t) :=
  let family := a.family fid
  let a := a.setFamily fid { family with sync := { family.sync with done := true } }
  match family.link, family.sync.pid with
  | some link, _ => .ok (a.sendLink (.done link family.broken))
  | none, some pid => a.sendSync ⟨fid, pid, family.sync.reg, family.broken⟩
  | none, none => .ok a

/-- The family's registers and its entry are free again. -/
def releaseFamily (a : Allocator t) (fid : Nat) : Except Failure (Allocator t) :=
  let context := if a.familyTable.isExclusive fid then ContextType.exclusive else .normal
  match a.raunit.free (fun τ => ((a.family fid).regs τ).base) context with
  | .error _ => .error .assertion
  | .ok raunit => .ok { a with raunit, familyTable := a.familyTable.freeFamily fid context }

def decreaseFamilyDependency (a : Allocator t) (fid : Nat) (dep : FamilyDependency) : Except Failure (Allocator t) := do
  let family := a.family fid
  require (family.state ≠ .empty) .assertion
  let deps ← family.dependencies.decrease dep
  let ended := dep.endsThreads && deps.isTerminated
  let a := a.setFamily fid { family with dependencies := deps, state := if ended then .terminated else family.state }
  let a ← applyIf (dep.synchronizes && deps.isSynchronized) (forwardToken · fid) a
  applyIf deps.isReleasable (releaseFamily · fid) a

def onMemoryRead (a : Allocator t) (fid : Nat) : Allocator t :=
  let family := a.family fid
  a.setFamily fid { family with dependencies :=
    { family.dependencies with numPendingReads := family.dependencies.numPendingReads + 1 } }

def pushCleanup (a : Allocator t) (tid : Nat) : Except Failure (Allocator t) := do
  let cleanup ← orElse .stalled (a.cleanup.push tid 1)
  pure ({ a with cleanup }.record tid .queued)

def decreaseThreadDependency (a : Allocator t) (tid : Nat) (dep : ThreadDependency) : Except Failure (Allocator t) :=
  let thread := (a.thread tid).decrease dep
  let a := a.setThread tid thread
  if thread.isDone then a.pushCleanup tid else .ok a

/-- The thread runs in the memory stage, which counts its store. -/
def increaseThreadDependency (a : Allocator t) (tid : Nat) : Allocator t :=
  let thread := a.thread tid
  a.setThread tid { thread with dependencies :=
    { thread.dependencies with numPendingWrites := thread.dependencies.numPendingWrites + 1 } }

def killThread (a : Allocator t) (tid : Nat) : Except Failure (Allocator t) := do
  require ((a.thread tid).state = .running) .assertion
  let a ← (a.record tid .terminated).decreaseThreadDependency tid .terminated
  pure (a.setThread tid { a.thread tid with state := .terminated })

/-- The registers of a thread. A new thread gets its own locals and shareds; a recycled
one keeps its locals, and its dependents become its shareds. -/
def threadRegs (family : Family t) (old : Thread t) (isNewlyAllocated : Bool) (τ : RegType) : ThreadRegs :=
  let regs := family.regs τ
  let count := regs.count
  let locals := regs.base.map fun base =>
    base + family.dependencies.numThreadsAllocated * (count.shareds + count.locals) + count.shareds
  if isNewlyAllocated then ⟨locals, regs.lastShareds, locals.map (· + count.locals)⟩
  else ⟨(old.regs τ).locals, regs.lastShareds, (old.regs τ).dependents⟩

/-- The thread that `AllocateThread` puts into an entry. -/
def newThread (family : Family t) (fid : Nat) (old : Thread t) (isNewlyAllocated : Bool) : Thread t where
  pc := family.pc
  regs := threadRegs family old isNewlyAllocated
  dependencies :=
    { killed := false
      prevCleanedUp := family.prevCleanedUp || !family.hasShareds ||
        family.dependencies.numThreadsAllocated = 0 || family.physBlockSize = 1
      numPendingWrites := 0 }
  nextInBlock := none
  family := fid
  waitingForWrites := false
  index := family.start
  state := .ready

/-- The family after one more of its threads has been put into an entry. -/
def countThread (family : Family t) (tid : Nat) (thread : Thread t) (isNewlyAllocated : Bool) : Family t :=
  { family with
    prevCleanedUp := false
    regs := fun τ => { family.regs τ with lastShareds := (thread.regs τ).shareds }
    dependencies := { family.dependencies with
      numThreadsAllocated := family.dependencies.numThreadsAllocated + if isNewlyAllocated then 1 else 0 }
    lastAllocated := if family.isLinked then some tid else family.lastAllocated
    start := family.start + family.step
    nThreads := family.nThreads - 1 }

/-- The last allocated thread of the block is linked to this one. -/
def linkBehind (a : Allocator t) (lastAllocated : Option Nat) (tid : Nat) : Allocator t :=
  match lastAllocated with
  | none => a
  | some last => a.setThread last { a.thread last with nextInBlock := some tid }

/-- The thread is put into the entry, behind the one that was allocated last. -/
def placeThread (a : Allocator t) (fid tid : Nat) (isNewlyAllocated : Bool) : Allocator t :=
  let family := a.family fid
  let thread := newThread family fid (a.thread tid) isNewlyAllocated
  let a := (a.setThread tid thread).linkBehind family.lastAllocated tid
  (a.setFamily fid (countThread family tid thread isNewlyAllocated)).record tid .allocated

def allocateThread (a : Allocator t) (fid tid : Nat) (isNewlyAllocated : Bool) : Except Failure (Allocator t) := do
  let family := a.family fid
  require (family.nThreads ≠ 0) .assertion
  require (isNewlyAllocated → family.dependencies.numThreadsAllocated < family.physBlockSize) .assertion
  let a := a.placeThread fid tid isNewlyAllocated
  applyIf ((a.family fid).nThreads = 0) (decreaseFamilyDependency · fid .allocationDone) a

/-- A thread that is cleaned up tells the thread behind it in the block, or the family. -/
def tellNext (a : Allocator t) (tid : Nat) : Except Failure (Allocator t) :=
  let thread := a.thread tid
  let family := a.family thread.family
  if family.isLinked then
    match thread.nextInBlock with
    | none => .ok (a.setFamily thread.family { family with prevCleanedUp := true })
    | some next => a.decreaseThreadDependency next .prevCleanedUp
  else .ok a

/-- The cleanup of a thread. Its entry is recycled while its family has threads to run. -/
def cleanUpThread (a : Allocator t) (tid : Nat) : Except Failure (Allocator t) := do
  let fid := (a.thread tid).family
  require ((a.thread tid).state = .terminated) .assertion
  let a ← a.tellNext tid
  let deps := (a.family fid).dependencies
  let a := a.record tid .released
  if deps.allocationDone then
    let context := if a.familyTable.isExclusive fid && deps.numThreadsAllocated = 1 then ContextType.exclusive else .normal
    { a with threadTable := a.threadTable.pushEmpty tid context }.decreaseFamilyDependency fid .threadCount
  else a.allocateThread fid tid false

/-- The allocation of a further thread for the family at the front of `m_alloc`. Only its
first thread comes from a special pool. -/
def allocateInitial (a : Allocator t) (fid : Nat) (alloc : Buffer Nat) : Except Failure (Allocator t) :=
  let family := a.family fid
  let deps := family.dependencies
  if deps.numThreadsAllocated = family.physBlockSize ∨ deps.allocationDone then .ok { a with alloc }
  else if family.nThreads = 0 then a.decreaseFamilyDependency fid .allocationDone
  else
    let first := if a.familyTable.isExclusive fid then ContextType.exclusive else .reserved
    let context := if deps.numThreadsAllocated = 0 then first else .normal
    match a.threadTable.popEmpty context with
    | none => .error (if context = .normal then .stalled else .assertion)
    | some (tid, threadTable) => { a with threadTable }.allocateThread fid tid true

/-- `DoThreadAllocate`: the cleanup takes precedence. -/
def doThreadAllocate (a : Allocator t) : Except Failure (Allocator t) :=
  match a.cleanup.take? with
  | some (tid, cleanup) => { a with cleanup }.cleanUpThread tid
  | none =>
    match a.alloc.take? with
    | some (fid, alloc) => a.allocateInitial fid alloc
    | none => .error .stalled

end Allocator
end Mgsim.Drisc
