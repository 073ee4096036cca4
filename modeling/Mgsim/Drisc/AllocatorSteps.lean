import Mgsim.Drisc.FamilyCreation
import Mgsim.Lib.Run

namespace Mgsim.Drisc
open Mgsim.Lib

/-- The sizes with which a core is made. -/
structure AllocatorConfig where
  pid : Nat
  lineSize : Nat
  numThreads : Nat
  numFamilies : Nat
  allocSize : Nat
  cleanupSize : Nat
  createsSize : Nat
  requestsSize : AllocQueue → Nat

/-- What happens at the allocator of a core. The messages, and what the pipeline and
the caches do with threads, come in any order; what a step is refused for is not part
of a run, since the simulator repeats it. -/
inductive AllocatorEvent (t : Target)
  | boot (pc : BitVec 64) (placeSize : Nat) (startIndex : Integer t) (capability : Nat)
  | request (which : AllocQueue) (request : AllocRequest t)
  | familyAllocate (capability : Nat)
  | allocResponse (msg : AllocResponse)
  | linkMessage (msg : LinkMessage t)
  | setProperty (fid capability : Nat) (type : FamilyProperty) (value : Integer t)
  | create (address : BitVec 64) (capability : Nat) (info : CreateInfo t)
  | familyCreate (hit : Bool) (loaded : RegType → RegsNo)
  | lineLoaded
  | sync (fid capability pid reg : Nat)
  | detach (fid capability : Nat)
  | brk (fid : Nat)
  | syncs
  | threadAllocate
  | schedule (tid : Nat) (state : ThreadState)
  | kill (tid : Nat)
  | store (tid : Nat)
  | storeDone (tid : Nat)
  | barrier (tid : Nat)
  | load (tid : Nat)
  | loadDone (fid : Nat)
  | endCycle

/-- The event serves the cleanup, or gives a family a thread. -/
def AllocatorEvent.allocatesThread {t : Target} : AllocatorEvent t → Bool
  | .threadAllocate => true
  | _ => false

/-- How the scheduling of the threads moves one that is neither empty nor terminated. -/
def ThreadState.mayBecome : ThreadState → ThreadState → Bool
  | .ready, .waiting | .ready, .active | .waiting, .active | .active, .running => true
  | .running, .ready | .running, .suspended | .suspended, .ready => true
  | _, _ => false

namespace Allocator
variable {t : Target}

def initial (config : AllocatorConfig) (raunit : RAUnit Nat) : Allocator t where
  pid := config.pid
  lineSize := config.lineSize
  threadTable := ThreadTable.initial config.numThreads
  familyTable := FamilyTable.initial config.numFamilies
  raunit := raunit
  alloc := .empty (some config.allocSize) 1
  cleanup := .empty (some config.cleanupSize) 4
  creates := .empty (some config.createsSize) 3
  createState := .initial
  allocRequestsSuspend := .empty (some (config.requestsSize .suspend)) 1
  allocRequestsNoSuspend := .empty (some (config.requestsSize .noSuspend)) 1
  allocRequestsExclusive := .empty (some (config.requestsSize .exclusive)) 1
  link := []
  allocResponses := []
  remote := []
  syncs := .empty (some config.numFamilies) 1
  lives := fun _ => []

/-- `AllocateInitialFamily`: the family of the program itself. -/
def allocateInitialFamily (a : Allocator t) (pc : BitVec 64) (placeSize : Nat) (startIndex : Integer t)
    (capability : Nat) : Except Failure (Allocator t) := do
  let (fid, familyTable) ← (a.familyTable.allocateFamily .normal).bind (orElse .exception)
  let family := (familyTable.families fid).reset capability
  let a := { a with familyTable }.setFamily fid { family with
    numCores := 1
    placeSize := placeSize
    nThreads := 1
    physBlockSize := 1
    pc := pc
    state := .active
    start := startIndex
    regs := fun τ => { family.regs τ with count := ⟨0, 0, maxRegs t τ⟩ }
    dependencies := { family.dependencies with prevSynchronized := true, detached := true, syncSent := true } }
  let a ← a.allocateRegisters fid .normal 1
  let threadTable ← a.threadTable.reserveThread
  let alloc ← orElse .stalled (a.alloc.push fid 1)
  pure { a with threadTable, alloc }

/-- The writeback stage suspends a thread at a memory barrier while it has pending writes. -/
def suspendForWrites (a : Allocator t) (tid : Nat) : Except Failure (Allocator t) :=
  let thread := a.thread tid
  if thread.state = .running ∧ thread.dependencies.numPendingWrites ≠ 0 then
    .ok (a.setThread tid { thread with waitingForWrites := true, state := .suspended })
  else .error .stalled

/-- The completion of a store that has been counted. -/
def completeStore (a : Allocator t) (tid : Nat) : Except Failure (Allocator t) := do
  require ((a.thread tid).dependencies.numPendingWrites ≠ 0) .stalled
  a.decreaseThreadDependency tid .outstandingWrites

def schedule (a : Allocator t) (tid : Nat) (state : ThreadState) : Except Failure (Allocator t) :=
  let thread := a.thread tid
  if thread.state.mayBecome state ∧ thread.waitingForWrites = false then .ok (a.setThread tid { thread with state })
  else .error .stalled

/-- What is pushed and popped in a cycle takes effect at its end. -/
def endCycle (a : Allocator t) : Allocator t :=
  { a with
    alloc := a.alloc.update
    cleanup := a.cleanup.update
    creates := a.creates.update
    allocRequestsSuspend := a.allocRequestsSuspend.update
    allocRequestsNoSuspend := a.allocRequestsNoSuspend.update
    allocRequestsExclusive := a.allocRequestsExclusive.update
    syncs := a.syncs.update }

def perform (a : Allocator t) : AllocatorEvent t → Except Failure (Allocator t)
  | .boot pc placeSize startIndex capability => a.allocateInitialFamily pc placeSize startIndex capability
  | .request which request => a.pushRequest which request
  | .familyAllocate capability => a.doFamilyAllocate capability
  | .allocResponse msg => a.doAllocResponse msg
  | .linkMessage msg => a.onLinkMessage msg
  | .setProperty fid capability type value => do
    let _ ← a.getFamilyChecked fid capability
    pure (a.onSetProperty fid type value)
  | .create address capability info => a.queueCreate address capability info
  | .familyCreate hit loaded => a.doFamilyCreate hit loaded
  | .lineLoaded => if a.createState = .loadingLine then .ok a.onICachelineLoaded else .error .assertion
  | .sync fid capability pid reg => do
    let _ ← a.getFamilyChecked fid capability
    a.onSync fid pid reg
  | .detach fid capability => do
    let _ ← a.getFamilyChecked fid capability
    a.onDetach fid
  | .brk fid => a.onBreak fid
  | .syncs => a.doSyncs
  | .threadAllocate => a.doThreadAllocate
  | .schedule tid state => a.schedule tid state
  | .kill tid => a.killThread tid
  | .store tid => if (a.thread tid).state = .running then .ok (a.increaseThreadDependency tid) else .error .stalled
  | .storeDone tid => a.completeStore tid
  | .barrier tid => a.suspendForWrites tid
  | .load tid =>
    if (a.thread tid).state = .running then .ok (a.onMemoryRead (a.thread tid).family) else .error .stalled
  | .loadDone fid => a.decreaseFamilyDependency fid .outstandingReads
  | .endCycle => .ok a.endCycle

def step (a : Allocator t) (e : AllocatorEvent t) : Option (Allocator t) := (a.perform e).toOption

end Allocator
end Mgsim.Drisc
