import Mgsim.Drisc.Allocator

namespace Mgsim.Drisc
open Mgsim.Lib

/-- `CalculateThreadCount`. A step of zero is an error of the program. -/
def calculateThreadCount {t : Target} (start limit step : Integer t) : Except Failure (Integer t) :=
  if step = 0 then .error .exception
  else if (0 : Integer t).slt step then
    let diff := if start.slt limit then limit - start else 0
    .ok ((diff + step - 1) / step)
  else
    let diff := if limit.slt start then start - limit else 0
    .ok ((diff + -step - 1) / -step)

/-- The numbers of registers that a thread may use: `MaxRegs`. -/
def maxRegs (t : Target) : RegType → Nat
  | .integer => 31
  | .float => if t = .mtsparc then 32 else 31

namespace Family
variable {t : Target}

/-- `CalculateDistribution`: the part of the family's threads that this core runs.
`numThreads` is the size of the thread table. -/
def distribute (family : Family t) (pid numThreads : Nat) (nThreads : Integer t) (numCores : Nat) : Family t :=
  let perCore := (nThreads + BitVec.ofNat _ numCores - 1) / BitVec.ofNat _ numCores
  let threadsPerCore := if perCore = 0 then 1 else perCore
  let skipped := if numCores > 1 then threadsPerCore * BitVec.ofNat _ (pid % family.placeSize) else 0
  let remaining := if skipped ≤ nThreads then nThreads - skipped else 0
  let here := if remaining ≤ threadsPerCore then remaining else threadsPerCore
  let blockSize := if family.physBlockSize = 0 then numThreads - 1 else family.physBlockSize
  { family with
    physBlockSize := min blockSize here.toNat
    start := family.start + family.step * skipped
    nThreads := here }

def registerSizes (family : Family t) (physBlockSize : Nat) (τ : RegType) : Nat :=
  let count := (family.regs τ).count
  (count.locals + count.shareds) * physBlockSize + count.globals + count.shareds

/-- The family with the registers that it has got. -/
def withRegisters (family : Family t) (physBlockSize : Nat) (indices : RegType → Option Nat) : Family t :=
  { family with
    physBlockSize := physBlockSize
    regs := fun τ => ⟨(family.regs τ).count, indices τ, family.registerSizes physBlockSize τ, indices τ⟩ }

def setProperty (family : Family t) (type : FamilyProperty) (value : Integer t) : Family t :=
  match type with
  | .start => { family with start := value }
  | .limit => { family with nThreads := value }
  | .step => { family with step := value }
  | .block => { family with physBlockSize := value.toNat % 2 ^ 32 }

end Family

namespace Allocator
variable {t : Target}

def getFamilyChecked (a : Allocator t) (fid capability : Nat) : Except Failure (Family t) :=
  if a.familyTable.size ≤ fid then .error .exception
  else if (a.family fid).state = .empty then .error .exception
  else if capability ≠ (a.family fid).capability then .error .exception
  else .ok (a.family fid)

def isContextAvailable (a : Allocator t) (type : ContextType) : Bool :=
  a.raunit.getNumFreeContexts type > 0 ∧ a.threadTable.free.get type > 0 ∧ a.familyTable.free.get type > 0

/-- A family entry that was part of an allocation, or of a place that the create has made smaller. -/
def releaseContext (a : Allocator t) (fid : Nat) : Except Failure (Allocator t) := do
  let raunit ← (a.raunit.unreserveContext).mapError fun _ => Failure.assertion
  let threadTable ← a.threadTable.unreserveThread
  pure { a with familyTable := a.familyTable.freeFamily fid .normal, raunit, threadTable }

/-- A family entry with what it takes to run it. `capability` is the random one that it gets. -/
def allocateContext (a : Allocator t) (type : ContextType) (prevFid : Option Nat) (placeSize capability : Nat) :
    Except Failure (Option (Nat × Allocator t)) :=
  if !a.isContextAvailable type then .ok none
  else do
    match ← a.familyTable.allocateFamily type with
    | none => .error .assertion
    | some (lfid, familyTable) =>
      let raunit ← applyIf (type ≠ .exclusive) (fun unit => unit.reserveContext.mapError fun _ => .assertion) a.raunit
      let threadTable ← applyIf (type ≠ .exclusive) ThreadTable.reserveThread a.threadTable
      let a := { a with familyTable, raunit, threadTable }
      let family := (a.family lfid).reset capability
      pure (some (lfid, a.setFamily lfid { family with
        placeSize := placeSize
        link := prevFid
        dependencies := { family.dependencies with prevSynchronized := prevFid.isNone } }))

def queue (a : Allocator t) : AllocQueue → Buffer (AllocRequest t)
  | .suspend => a.allocRequestsSuspend
  | .noSuspend => a.allocRequestsNoSuspend
  | .exclusive => a.allocRequestsExclusive

def setQueue (a : Allocator t) (which : AllocQueue) (requests : Buffer (AllocRequest t)) : Allocator t :=
  match which with
  | .suspend => { a with allocRequestsSuspend := requests }
  | .noSuspend => { a with allocRequestsNoSuspend := requests }
  | .exclusive => { a with allocRequestsExclusive := requests }

def chooseQueue (a : Allocator t) : Option AllocQueue :=
  if a.familyTable.free.exclusive ≠ 0 ∧ a.allocRequestsExclusive.front?.isSome then some .exclusive
  else if a.allocRequestsNoSuspend.front?.isSome then some .noSuspend
  else if a.allocRequestsSuspend.front?.isSome then some .suspend
  else none

def pushRequest (a : Allocator t) (which : AllocQueue) (request : AllocRequest t) : Except Failure (Allocator t) := do
  let requests ← orElse .stalled ((a.queue which).push request 1)
  pure (a.setQueue which requests)

/-- The answer to a request that gets no context and does not wait for one. -/
def refuseAllocation (a : Allocator t) (request : AllocRequest t) : Except Failure (Allocator t) :=
  match request.prevFid, request.completionReg with
  | none, some reg => .ok (a.sendRemote (.rawRegister request.completionPid reg (.family ⟨0, 0, 0⟩)))
  | some prev, some reg =>
    .ok { a with allocResponses := a.allocResponses ++
      [⟨request.completionPid, reg, some prev, none, 0, request.type = .exact⟩] }
  | _, none => .error .assertion

/-- The context `lfid` was the last one that the request wanted in the place. -/
def finishAllocation (a : Allocator t) (request : AllocRequest t) (lfid : Nat) : Except Failure (Allocator t) :=
  let family := a.family lfid
  let a := a.setFamily lfid { family with
    numCores := if request.type = .single then 1 else request.placeSize
    link := none }
  let fid : Fid := ⟨a.pid, lfid, family.capability⟩
  if request.bundle then
    .ok (a.sendRemote
      (.create request.pc fid request.completionPid request.completionReg request.parameter request.index))
  else
    match request.prevFid, request.completionReg with
    | none, some reg => .ok (a.sendRemote (.rawRegister request.completionPid reg (.family fid)))
    | some prev, some reg =>
      .ok { a with allocResponses := a.allocResponses ++
        [⟨request.completionPid, reg, some prev, some lfid, request.placeSize, request.type = .exact⟩] }
    | _, none => .error .assertion

/-- The contexts on the other cores of the place come before the answer. -/
def forwardAllocation (a : Allocator t) (request : AllocRequest t) (which : AllocQueue) (lfid : Nat) :
    Except Failure (Allocator t) := do
  let reg ← orElse .assertion request.completionReg
  let exact := request.type = .exact
  pure (a.sendLink
    (.allocate lfid lfid request.placeSize exact (exact && which ≠ .noSuspend) request.completionPid reg))

/-- The context `lfid` has been allocated for the request. -/
def answerAllocation (a : Allocator t) (request : AllocRequest t) (which : AllocQueue) (lfid : Nat) :
    Except Failure (Allocator t) :=
  if request.type = .single ∨ (a.pid + 1) % request.placeSize = 0 then a.finishAllocation request lfid
  else a.forwardAllocation request which lfid

def doFamilyAllocate (a : Allocator t) (capability : Nat) : Except Failure (Allocator t) := do
  let which ← orElse .stalled a.chooseQueue
  let (request, requests) ← orElse .stalled (a.queue which).take?
  match ← a.allocateContext which.context request.prevFid request.placeSize capability with
  | none =>
    if which ≠ .noSuspend then .error .stalled
    else
      require (request.bundle = false) .assertion
      let a ← a.refuseAllocation request
      pure (a.setQueue which requests)
  | some (lfid, a) =>
    let a ← a.answerAllocation request which lfid
    pure (a.setQueue which requests)

/-- `DoAllocResponse`: the allocation is committed on this core, or goes on unwinding. -/
def doAllocResponse (a : Allocator t) (msg : AllocResponse) : Except Failure (Allocator t) := do
  let lfid ← orElse .assertion msg.prevFid
  let family := a.family lfid
  let cores := a.pid % family.placeSize + 1
  let numCores := if msg.numCores = 0 ∧ msg.exact = false ∧ RAUnit.isPowerOfTwo cores then cores else msg.numCores
  let a := a.setFamily lfid { family with link := msg.nextFid, numCores := if numCores = 0 then family.numCores else numCores }
  let a ← applyIf (numCores = 0) (releaseContext · lfid) a
  match family.link with
  | none =>
    require (numCores = 0 → msg.exact) .assertion
    let fid : Fid := if numCores = 0 then ⟨0, 0, 0⟩ else ⟨a.pid, lfid, family.capability⟩
    pure (a.sendRemote (.rawRegister msg.completionPid msg.completionReg (.family fid)))
  | some prev =>
    let nextFid := if numCores = 0 then msg.nextFid else some lfid
    pure { a with allocResponses := a.allocResponses ++ [{ msg with prevFid := some prev, nextFid, numCores }] }

/-- The registers for the largest block of at most this many threads for which there is room. -/
def allocateRegisters (a : Allocator t) (fid : Nat) (context : ContextType) : Nat → Except Failure (Allocator t)
  | 0 => .error .stalled
  | physBlockSize + 1 =>
    let family := a.family fid
    match a.raunit.alloc (family.registerSizes (physBlockSize + 1)) fid context with
    | .ok (raunit, indices) => .ok ({ a with raunit }.setFamily fid (family.withRegisters (physBlockSize + 1) indices))
    | .error .noRoom => a.allocateRegisters fid context physBlockSize
    | .error .assertion => .error .assertion

def activateFamily (a : Allocator t) (fid : Nat) : Except Failure (Allocator t) := do
  let alloc ← orElse .stalled (a.alloc.push fid 1)
  pure ({ a with alloc }.setFamily fid { a.family fid with state := .active })

/-- The create goes on to the next core. A place that ends here has no link any more. -/
def forwardCreate (a : Allocator t) (fid numCores : Nat) : Allocator t :=
  let family := a.family fid
  match family.link with
  | none => a
  | some link =>
    let a := a.sendLink (.create link numCores family.pc fun τ => (family.regs τ).count)
    if numCores = 0 then a.setFamily fid { a.family fid with link := none } else a

/-- `QueueCreate` for a create that comes over the link. -/
def queueLinkCreate (a : Allocator t) (fid numCores : Nat) (address : BitVec 64) (regs : RegType → RegsNo) :
    Except Failure (Allocator t) := do
  let family := a.family fid
  let family := { family with
    pc := address
    state := .createQueued
    regs := fun τ => { family.regs τ with base := none, count := regs τ } }
  let nThreads ← calculateThreadCount family.start family.nThreads family.step
  let family := family.distribute a.pid a.threadTable.size nThreads family.numCores
  let a ← (a.setFamily fid family).allocateRegisters fid .reserved (max 1 family.physBlockSize)
  let a ← a.activateFamily fid
  pure (a.forwardCreate fid (numCores - 1))

/-- `QueueCreate` for a create of this core, or of another one. The control word and the
register counts stand in front of the program. -/
def queueCreate (a : Allocator t) (address : BitVec 64) (capability : Nat) (info : CreateInfo t) :
    Except Failure (Allocator t) := do
  let family ← a.getFamilyChecked info.fid capability
  let creates ← orElse .stalled (a.creates.push info 1)
  let pc := (address &&& -(BitVec.ofNat 64 a.lineSize)) + 8
  pure ({ a with creates }.setFamily info.fid { family with pc, state := .createQueued })

/-- `CREATE_INITIAL`: the number of threads. A bundle runs one thread, at its index. -/
def startCreate (a : Allocator t) (info : CreateInfo t) : Except Failure (Allocator t) := do
  let family := a.family info.fid
  let nThreads ← applyIf (!info.bundle) (fun _ => calculateThreadCount family.start family.nThreads family.step) 1
  let a := a.setFamily info.fid { family with
    start := if info.bundle then info.index else family.start
    nThreads := nThreads
    state := .creating }
  pure { a with createState := if nThreads = 0 then .lineLoaded else .loadRegspec }

/-- `CREATE_LINE_LOADED`: the register counts, which an empty family does not need. -/
def readCounts (a : Allocator t) (fid : Nat) (loaded : RegType → RegsNo) : Except Failure (Allocator t) := do
  let family := a.family fid
  let counts := if family.nThreads = 0 then fun _ => ⟨0, 0, 0⟩ else loaded
  require (∀ τ ∈ [RegType.integer, .float],
    (counts τ).globals + 2 * (counts τ).shareds + (counts τ).locals ≤ maxRegs t τ) .exception
  let a := a.setFamily fid { family with
    regs := fun τ => { family.regs τ with base := none, count := counts τ }
    hasShareds := (counts .integer).shareds > 0 ∨ (counts .float).shareds > 0 }
  pure { a with createState := .restricting }

/-- `CREATE_RESTRICTING`: a family with shareds runs on one core, another one on no more cores than it has threads. -/
def restrictCores (a : Allocator t) (fid : Nat) : Allocator t :=
  let family := a.family fid
  let numCores := if a.familyTable.isExclusive fid ∨ family.hasShareds then 1
    else max 1 (min family.nThreads.toNat family.numCores)
  let family := family.distribute a.pid a.threadTable.size family.nThreads numCores
  { a.setFamily fid { family with numCores } with createState := .allocatingRegisters }

/-- A family with threads is queued for their allocation, one without is done. -/
def startThreads (a : Allocator t) (fid : Nat) : Except Failure (Allocator t) :=
  if (a.family fid).nThreads = 0 then do
    let threadTable ← applyIf (!a.familyTable.isExclusive fid) ThreadTable.unreserveThread a.threadTable
    { a with threadTable }.decreaseFamilyDependency fid .allocationDone
  else a.activateFamily fid

/-- `CREATE_ACTIVATING_FAMILY`. -/
def activateCreated (a : Allocator t) (info : CreateInfo t) : Except Failure (Allocator t) := do
  let family := a.family info.fid
  require (info.bundle → family.nThreads ≠ 0) .assertion
  require (info.bundle → 1 ≤ (family.regs .integer).count.shareds) .exception
  let a := if info.bundle ∧ info.completionReg = none then
      a.setFamily info.fid { family with dependencies := { family.dependencies with detached := true, syncSent := true } }
    else a
  let a ← a.startThreads info.fid
  pure { a with createState := .notify }

/-- `DoFamilyCreate`. The instruction cache has the register counts (`hit`), or
loads their line. -/
def doFamilyCreate (a : Allocator t) (hit : Bool) (loaded : RegType → RegsNo) : Except Failure (Allocator t) := do
  let (info, creates) ← orElse .stalled a.creates.take?
  match a.createState with
  | .initial => a.startCreate info
  | .loadRegspec => pure { a with createState := if hit then .lineLoaded else .loadingLine }
  | .loadingLine => .error .stalled
  | .lineLoaded => a.readCounts info.fid loaded
  | .restricting => pure (a.restrictCores info.fid)
  | .allocatingRegisters =>
    let context := if a.familyTable.isExclusive info.fid then ContextType.exclusive else .reserved
    let a ← a.allocateRegisters info.fid context (max 1 (a.family info.fid).physBlockSize)
    pure { a with createState := .broadcastingCreate }
  | .broadcastingCreate =>
    pure { a.forwardCreate info.fid ((a.family info.fid).numCores - 1) with createState := .activatingFamily }
  | .activatingFamily => a.activateCreated info
  | .notify =>
    let a := match info.completionReg with
      | none => a
      | some reg =>
        a.sendRemote (.rawRegister info.completionPid reg (.family ⟨a.pid, info.fid, (a.family info.fid).capability⟩))
    pure { a with createState := .initial, creates }

/-- The line with the register counts has arrived. -/
def onICachelineLoaded (a : Allocator t) : Allocator t := { a with createState := .lineLoaded }

/-- A property goes on to the other cores of the family. -/
def onSetProperty (a : Allocator t) (fid : Nat) (type : FamilyProperty) (value : Integer t) : Allocator t :=
  let family := a.family fid
  let a := a.setFamily fid (family.setProperty type value)
  match family.link with
  | none => a
  | some link => a.sendLink (.setProperty link type value)

/-- The synchronization is registered on the last core, or answered there if the family is over. -/
def onSync (a : Allocator t) (fid completionPid completionReg : Nat) : Except Failure (Allocator t) :=
  let family := a.family fid
  let unsent := { family.dependencies with syncSent := false }
  match family.link with
  | some link => .ok (a.sendLink (.sync link completionPid completionReg))
  | none =>
    if family.sync.done then
      (a.setFamily fid { family with dependencies := unsent }).sendSync ⟨fid, completionPid, completionReg, family.broken⟩
    else
      .ok (a.setFamily fid { family with
        dependencies := unsent
        sync := { family.sync with pid := some completionPid, reg := completionReg } })

def onDetach (a : Allocator t) (fid : Nat) : Except Failure (Allocator t) := do
  let a ← a.decreaseFamilyDependency fid .detached
  match (a.family fid).link with
  | none => pure a
  | some link => pure (a.sendLink (.detach link))

def onBreak (a : Allocator t) (fid : Nat) : Except Failure (Allocator t) := do
  let a ← applyIf (!(a.family fid).dependencies.allocationDone) (decreaseFamilyDependency · fid .allocationDone) a
  let a := match (a.family fid).link with
    | none => a
    | some link => a.sendLink (.brk link)
  pure (a.setFamily fid { a.family fid with broken := true })

/-- The family has terminated on the cores before this one. -/
def onDone (a : Allocator t) (fid : Nat) (broken : Bool) : Except Failure (Allocator t) :=
  let family := a.family fid
  (a.setFamily fid { family with broken := family.broken || broken }).decreaseFamilyDependency fid .prevSynchronized

/-- `DoSyncs`: a synchronization is sent, and its family no longer waits for that. -/
def doSyncs (a : Allocator t) : Except Failure (Allocator t) := do
  let (info, syncs) ← orElse .stalled a.syncs.take?
  let a := a.sendRemote (.rawRegister info.pid info.reg (.sync info.broken))
  { a with syncs }.decreaseFamilyDependency info.fid .syncSent

/-- A message from the link. -/
def onLinkMessage (a : Allocator t) : LinkMessage t → Except Failure (Allocator t)
  | .allocate _ prevFid size exact suspend completionPid completionReg =>
    a.pushRequest (if suspend then .suspend else .noSuspend)
      ⟨some prevFid, size, if exact then .exact else .normal, completionPid, some completionReg, false, 0, 0, 0⟩
  | .setProperty fid type value => .ok (a.onSetProperty fid type value)
  | .create fid numCores address regs =>
    if numCores = 0 then
      let onward := match (a.family fid).link with
        | none => a
        | some link => a.sendLink (.create link 0 address regs)
      onward.releaseContext fid
    else a.queueLinkCreate fid numCores address regs
  | .done fid broken => a.onDone fid broken
  | .sync fid completionPid completionReg => a.onSync fid completionPid completionReg
  | .detach fid => a.onDetach fid
  | .brk fid => a.onBreak fid

end Allocator
end Mgsim.Drisc
