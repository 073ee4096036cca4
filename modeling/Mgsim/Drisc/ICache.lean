import Mgsim.Drisc.Selector
import Mgsim.Lib.Run
import Mgsim.Lib.Segment

namespace Mgsim.Drisc
open Mgsim.Lib Mgsim.Mmu

namespace ICache

/-- The ends of a list of threads that are linked by `next`. -/
structure ThreadQueue (TID : Type) where
  head : Option TID
  tail : Option TID
  deriving DecidableEq

structure Line (TID : Type) where
  tag : Addr
  data : Nat → Byte
  access : Nat
  waiting : ThreadQueue TID
  references : Nat
  state : LineState
  creation : Bool

end ICache

/-- The instruction cache, with the capacity of its buffers. -/
structure ICache (TID : Type) where
  assoc : Nat
  lineSize : Nat
  selector : BankSelector
  lines : Nat → ICache.Line TID
  outgoing : List Addr
  outgoingSize : Option Nat
  incoming : List Nat
  incomingSize : Option Nat

namespace ICache
variable {TID : Type}

def Line.initial : Line TID := ⟨0, fun _ => 0, 0, ⟨none, none⟩, 0, .empty, false⟩

/-- The constructor. -/
def create (assoc sets lineSize : Nat) (selector : BankSelector) (outgoingSize incomingSize : Option Nat) :
    Except Fault (ICache TID) :=
  if assoc = 0 ∨ assoc &&& (assoc - 1) ≠ 0 then .error (.invalidArgument "Associativity is not a power of two")
  else if sets &&& (sets - 1) ≠ 0 then .error (.invalidArgument "NumSets is not a power of two")
  else if lineSize &&& (lineSize - 1) ≠ 0 then .error (.invalidArgument "CacheLineSize is not a power of two")
  else if lineSize < 8 then .error (.invalidArgument "CacheLineSize cannot be less than a word.")
  else .ok ⟨assoc, lineSize, selector, fun _ => Line.initial, [], outgoingSize, [], incomingSize⟩

def setLine (c : ICache TID) (cid : Nat) (line : Line TID) : ICache TID :=
  { c with lines := Function.update c.lines cid line }

def lineNumber (c : ICache TID) (address : Addr) : Addr := address / BitVec.ofNat 64 c.lineSize

/-- The address of the first byte of a line. -/
def align (c : ICache TID) (address : Addr) : Addr := address - BitVec.ofNat 64 (address.toNat % c.lineSize)

def setLines (c : ICache TID) (setIndex : Nat) : List Nat :=
  (List.range c.assoc).map fun i => setIndex * c.assoc + i

/-- What `FindLine` gives: the line of the address, a line to allocate, or none. -/
inductive Lookup
  | hit (cid : Nat)
  | allocate (cid : Nat)
  | full
  deriving DecidableEq

/-- The loop of `FindLine`, with the empty line and the line to replace found so far. -/
def findLineFrom (c : ICache TID) (tag : Addr) : List Nat → Option Nat → Option Nat → Lookup
  | [], some cid, _ => .allocate cid
  | [], none, some cid => .allocate cid
  | [], none, none => .full
  | cid :: rest, empty, replace =>
    if (c.lines cid).state = .empty then c.findLineFrom tag rest (some cid) replace
    else if (c.lines cid).tag = tag then .hit cid
    else if (c.lines cid).references = 0 ∧
        replace.all (fun old => (c.lines cid).access < (c.lines old).access) then
      c.findLineFrom tag rest empty (some cid)
    else c.findLineFrom tag rest empty replace

def findLine (c : ICache TID) (address : Addr) : Lookup :=
  let (tag, setIndex) := c.selector.map (c.lineNumber address)
  c.findLineFrom tag (c.setLines setIndex) none none

/-- The line that `FindLine` finds. -/
def hit? (c : ICache TID) (address : Addr) : Option Nat :=
  match c.findLine address with
  | .hit cid => some cid
  | _ => none

/-- An invalidated line is empty when its last reference is given back. -/
def Line.release (line : Line TID) : Line TID :=
  { line with
    references := line.references - 1
    state := if line.references - 1 = 0 ∧ line.state = .invalid then .empty else line.state }

/-- There is none when there is no reference to give back. -/
def releaseCacheLine (c : ICache TID) (cid : Nat) : Option (ICache TID) :=
  if (c.lines cid).references = 0 then none else some (c.setLine cid (c.lines cid).release)

/-- What `Fetch` gives: the line, and the thread that was in front of the waiting list. -/
structure Fetched (TID : Type) where
  result : Result
  cid : Nat
  next : Option TID
  cache : ICache TID

/-- A thread is put in front of the waiting list. -/
def ThreadQueue.push (queue : ThreadQueue TID) (tid : TID) : ThreadQueue TID :=
  ⟨some tid, if queue.head.isNone then some tid else queue.tail⟩

/-- A line that a fetch has found, with one more reference. -/
def referencedLine (c : ICache TID) (cid cycleNo : Nat) : Line TID :=
  { c.lines cid with access := cycleNo, references := (c.lines cid).references + 1 }

/-- A hit of `Fetch`. There is none when an assertion fails. -/
def fetchHit (c : ICache TID) (cid cycleNo : Nat) (tid : Option TID) : Option (Fetched TID) :=
  let line := c.referencedLine cid cycleNo
  match (c.lines cid).state with
  | .invalid => some ⟨.failed, cid, tid, c⟩
  | .full => some ⟨.success, cid, tid, c.setLine cid line⟩
  | .loading =>
    match tid with
    | some t => some ⟨.delayed, cid, line.waiting.head, c.setLine cid { line with waiting := line.waiting.push t }⟩
    | none =>
      if line.creation then none else some ⟨.delayed, cid, none, c.setLine cid { line with creation := true }⟩
  | .empty => none

/-- A line that is allocated for an address. -/
def requestedLine (c : ICache TID) (address : Addr) (cid cycleNo : Nat) (tid : Option TID) : Line TID :=
  { c.lines cid with
    tag := (c.selector.map (c.lineNumber address)).1
    access := cycleNo
    waiting := tid.elim (c.lines cid).waiting fun t => ⟨some t, some t⟩
    references := 1
    state := .loading
    creation := tid.isNone }

/-- Whether the outgoing buffer has room. -/
def canRequest (c : ICache TID) : Bool := c.outgoingSize.all fun max => c.outgoing.length < max

def request (c : ICache TID) (address : Addr) (cid cycleNo : Nat) (tid : Option TID) : ICache TID :=
  { c.setLine cid (c.requestedLine address cid cycleNo tid) with outgoing := c.outgoing ++ [address] }

/-- A miss of `Fetch`: the line is requested if the outgoing buffer has room. -/
def fetchMiss (c : ICache TID) (address : Addr) (cid cycleNo : Nat) (tid : Option TID) : Fetched TID :=
  if c.canRequest then ⟨.delayed, cid, none, c.request address cid cycleNo tid⟩ else ⟨.failed, cid, tid, c⟩

/-- `Fetch` for a thread, or for family creation. There is none when the range
crosses a line boundary, or an assertion fails. -/
def fetch (c : ICache TID) (address : Addr) (size cycleNo : Nat) (tid : Option TID) : Option (Fetched TID) :=
  if c.lineSize < address.toNat % c.lineSize + size then none
  else
    match c.findLine (c.align address) with
    | .full => some ⟨.failed, 0, tid, c⟩
    | .hit cid => c.fetchHit cid cycleNo tid
    | .allocate cid => some (c.fetchMiss (c.align address) cid cycleNo tid)

/-- The line that a fetch allocates. -/
def allocated? (c : ICache TID) (address : Addr) : Option Nat :=
  match c.findLine (c.align address) with
  | .allocate cid => if c.canRequest then some cid else none
  | _ => none

/-- The answer of a read, and whether the incoming buffer has taken it. -/
def onMemoryReadCompleted (c : ICache TID) (address : Addr) (data : Nat → Byte) : Bool × ICache TID :=
  match c.hit? address with
  | none => (true, c)
  | some cid =>
    if (c.lines cid).state = .full then (true, c)
    else if c.incomingSize.all fun max => c.incoming.length < max then
      (true, { c.setLine cid { c.lines cid with data } with incoming := c.incoming ++ [cid] })
    else (false, c)

def onMemorySnooped (c : ICache TID) (address : Addr) (data : Nat → Byte) (mask : Nat → Bool) : ICache TID :=
  match c.hit? address with
  | none => c
  | some cid =>
    c.setLine cid { c.lines cid with data := fun i => if mask i then data i else (c.lines cid).data i }

/-- An invalidated line without references is empty; another one is marked. -/
def onMemoryInvalidated (c : ICache TID) (address : Addr) : ICache TID :=
  match c.hit? address with
  | none => c
  | some cid =>
    match (c.lines cid).state with
    | .full => c.setLine cid { c.lines cid with state := if (c.lines cid).references = 0 then .empty else .invalid }
    | .loading => c.setLine cid { c.lines cid with state := .invalid }
    | _ => c

/-- `DoIncoming` on the line in front of the incoming buffer, up to its calls of the allocator. -/
def fill (c : ICache TID) (cid : Nat) : ICache TID :=
  let line := { c.lines cid with state := .full, creation := false }
  c.setLine cid (if line.waiting.head.isSome then { line with waiting := ⟨none, none⟩ } else line)

end ICache

/-- The state of a thread towards the instruction cache: without a line, waiting
for its line (`TST_WAITING`), or with its line (active or running). -/
inductive FetchState
  | ready
  | waiting
  | active
  deriving DecidableEq

structure FetchThread (TID : Type) where
  state : FetchState
  cid : Nat
  next : Option TID
  deriving DecidableEq

/-- The line of the family creation: it has none, waits for it, or has it (`m_createLine`). -/
inductive CreateLine
  | idle
  | loading (cid : Nat)
  | loaded (cid : Nat)
  deriving DecidableEq

def CreateLine.isLoaded : CreateLine → Bool
  | .loaded _ => true
  | _ => false

/-- The cache with the threads and the family creation of its processor. The
last four fields are kept for the statements: how many steps were taken, whether
the data of a line has come since its request, when it was requested, and when the
lines of memory were last invalidated. -/
structure FetchSystem (TID : Type) where
  cache : ICache TID
  thread : TID → FetchThread TID
  createLine : CreateLine
  cycleNo : Nat
  activated : List TID
  time : Nat
  answered : Nat → Bool
  requested : Nat → Nat
  invalidated : Addr → Nat

inductive FetchEvent (TID : Type)
  | activate (tid : TID) (address : Addr)
  | create (address : Addr)
  | created
  | release (tid : TID)
  | readCompleted (address : Addr) (data : Nat → Byte)
  | snooped (address : Addr) (data : Nat → Byte) (mask : Nat → Bool)
  | invalidated (address : Addr)
  | outgoing
  | incoming
  | tick

namespace FetchSystem
variable {TID : Type} [DecidableEq TID]

/-- The size of an instruction. -/
def instructionSize : Nat := 4

/-- The notes about a fetch: the data of an allocated line has not come yet. -/
def noteFetch (s : FetchSystem TID) (address : Addr) : FetchSystem TID :=
  { s with
    answered := (s.cache.allocated? address).elim s.answered fun cid => Function.update s.answered cid false
    requested := (s.cache.allocated? address).elim s.requested fun cid => Function.update s.requested cid s.time }

/-- `DoThreadActivation` for a thread from a ready queue. -/
def activate (s : FetchSystem TID) (tid : TID) (address : Addr) : Option (FetchSystem TID) :=
  (s.cache.fetch address instructionSize s.cycleNo (some tid)).map fun fetched =>
    match fetched.result with
    | .failed => s
    | .delayed =>
      { s.noteFetch address with
        cache := fetched.cache
        thread := Function.update s.thread tid ⟨.waiting, fetched.cid, fetched.next⟩ }
    | .success =>
      { s.noteFetch address with
        cache := fetched.cache
        thread := Function.update s.thread tid ⟨.active, fetched.cid, (s.thread tid).next⟩
        activated := s.activated ++ [tid] }

/-- `DoFamilyCreate` in the state `CREATE_LOAD_REGSPEC`. -/
def create (s : FetchSystem TID) (address : Addr) : Option (FetchSystem TID) :=
  (s.cache.fetch address instructionSize s.cycleNo none).map fun fetched =>
    match fetched.result with
    | .failed => s
    | .delayed => { s.noteFetch address with cache := fetched.cache, createLine := .loading fetched.cid }
    | .success => { s.noteFetch address with cache := fetched.cache, createLine := .loaded fetched.cid }

omit [DecidableEq TID] in
/-- `DoFamilyCreate` in the state `CREATE_LINE_LOADED`, for a family with threads. -/
def created (s : FetchSystem TID) : Option (FetchSystem TID) :=
  match s.createLine with
  | .loaded cid => (s.cache.releaseCacheLine cid).map fun cache => { s with cache, createLine := .idle }
  | _ => none

variable [Fintype TID]

/-- The threads that `QueueThreads` meets between the ends of a waiting list. -/
def queuedThreads (s : FetchSystem TID) (queue : ICache.ThreadQueue TID) : List TID :=
  match queue.head, queue.tail with
  | some head, some tail => walk (fun t => (s.thread t).next.getD t) tail (Fintype.card TID) head
  | _, _ => []

/-- `DoIncoming`: the family creation goes on, and the waiting threads are activated. -/
def incoming (s : FetchSystem TID) : Option (FetchSystem TID) :=
  match s.cache.incoming with
  | [] => none
  | cid :: rest =>
    let line := s.cache.lines cid
    let woken := if line.waiting.head.isSome then s.queuedThreads line.waiting else []
    some { s with
      cache := { s.cache.fill cid with incoming := rest }
      createLine := if line.creation then .loaded cid else s.createLine
      thread := fun t => if t ∈ woken then { s.thread t with state := .active } else s.thread t
      activated := s.activated ++ woken }

/-- The answer of a read; the data has come if the cache has put the line into its buffer. -/
def readCompleted (s : FetchSystem TID) (address : Addr) (data : Nat → Byte) : FetchSystem TID :=
  let cache := (s.cache.onMemoryReadCompleted address data).2
  { s with
    cache
    answered := fun cid => s.answered cid || cid ∈ cache.incoming.drop s.cache.incoming.length }

/-- The state after an event, before its time is counted. -/
def event (s : FetchSystem TID) : FetchEvent TID → Option (FetchSystem TID)
  | .activate tid address => s.activate tid address
  | .create address => s.create address
  | .created => s.created
  | .release tid =>
    (s.cache.releaseCacheLine (s.thread tid).cid).map fun cache =>
      { s with cache, thread := Function.update s.thread tid { s.thread tid with state := .ready } }
  | .readCompleted address data => some (s.readCompleted address data)
  | .snooped address data mask => some { s with cache := s.cache.onMemorySnooped address data mask }
  | .invalidated address =>
    some { s with
      cache := s.cache.onMemoryInvalidated address
      invalidated := Function.update s.invalidated (s.cache.lineNumber address) s.time }
  | .outgoing =>
    match s.cache.outgoing with
    | [] => none
    | _ :: rest => some { s with cache := { s.cache with outgoing := rest } }
  | .incoming => s.incoming
  | .tick => some { s with cycleNo := s.cycleNo + 1 }

def step (s : FetchSystem TID) (e : FetchEvent TID) : Option (FetchSystem TID) :=
  (s.event e).map fun s' => { s' with time := s.time + 1 }

omit [Fintype TID] in
/-- A thread fetches when it has no line, and gives back a line that it has; the
family creation fetches when it has no line. -/
def MayHappen (s : FetchSystem TID) : FetchEvent TID → Prop
  | .activate tid _ => (s.thread tid).state = .ready
  | .create _ => s.createLine = .idle
  | .created => s.createLine.isLoaded
  | .release tid => (s.thread tid).state = .active
  | _ => True

instance (s : FetchSystem TID) (e : FetchEvent TID) : Decidable (s.MayHappen e) :=
  match e with
  | .activate tid _ => inferInstanceAs (Decidable ((s.thread tid).state = .ready))
  | .create _ => inferInstanceAs (Decidable (s.createLine = .idle))
  | .created => inferInstanceAs (Decidable (s.createLine.isLoaded = true))
  | .release tid => inferInstanceAs (Decidable ((s.thread tid).state = .active))
  | .readCompleted .. | .snooped .. | .invalidated _ | .outgoing | .incoming | .tick => .isTrue trivial

omit [Fintype TID] [DecidableEq TID] in
/-- A processor after its reset. -/
def initial (cache : ICache TID) : FetchSystem TID :=
  ⟨cache, fun _ => ⟨.ready, 0, none⟩, .idle, 0, [], 1, fun _ => false, fun _ => 0, fun _ => 0⟩

end FetchSystem

end Mgsim.Drisc
