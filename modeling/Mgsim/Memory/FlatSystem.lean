import Mgsim.Drisc.LineBytes
import Mgsim.Lib.Overlay
import Mgsim.Memory.FlatMemory

namespace Mgsim.Drisc

/-- `INVALID_WCLIENTID`, for the writes that no thread waits for. -/
def invalidWClientId : Nat := 2 ^ 32 - 1

end Mgsim.Drisc

namespace Mgsim.Memory
open Mgsim.Lib Mgsim.Mmu Mgsim.Drisc

/-- A processor behind a data cache, with the completed writes that its allocator has not seen. -/
structure FlatClient where
  core : Tracked
  writeResponses : Buffer Nat

namespace FlatClient

def step (c : FlatClient) (e : Event) : Option FlatClient :=
  (c.core.step e).map fun core => ⟨core, match e with
    | .endCycle => c.writeResponses.update
    | _ => c.writeResponses⟩

/-- `OnMemoryWriteCompleted`. -/
def onMemoryWriteCompleted (c : FlatClient) (wid : Nat) : Option FlatClient :=
  if wid ≠ invalidWClientId then
    (c.writeResponses.push wid 1).map fun writeResponses => { c with writeResponses := writeResponses }
  else some c

/-- `OnMemoryReadCompleted`. -/
def onMemoryReadCompleted (c : FlatClient) (addr : Addr) (data : Nat → Byte) : Option FlatClient :=
  let (accepted, core) := c.core.readCompleted addr data
  if accepted then some { c with core := core } else none

end FlatClient

/-- The data caches of some processors with a flat memory. The clock is that of the memory. -/
structure FlatSystem where
  numClients : Nat
  clients : Nat → FlatClient
  memory : FlatMemory
  now : Nat

inductive FlatEvent
  | client (id : Nat) (e : Event)
  | send (id : Nat)
  | writeResponse (id : Nat)
  | process (process : MemoryProcess) (phase : Phase)
  | endCycle

/-- A run of a process of the memory in a system. -/
structure Ran where
  serves : Bool
  finished : Bool
  system : FlatSystem

namespace FlatSystem

def cache (s : FlatSystem) (id : Nat) : DCache := (s.clients id).core.cache

def setClient (s : FlatSystem) (id : Nat) (client : FlatClient) : FlatSystem :=
  { s with clients := Function.update s.clients id client }

/-- A store is snooped into all clients, the one that sends it too. -/
def snoop (s : FlatSystem) (request : Request) : FlatSystem :=
  { s with clients := fun id =>
      if id < s.numClients then
        { s.clients id with core := (s.clients id).core.snooped request.address request.data request.mask }
      else s.clients id }

/-- `Read` and `Write` of the memory, for a client. -/
def access (s : FlatSystem) (id : Nat) (request : Request) : Option FlatSystem :=
  if request.write then
    (s.memory.addRequest s.now id request).map fun memory => { s.snoop request with memory := memory }
  else (s.memory.addRequest s.now id (readRequest request.address)).map fun memory => { s with memory := memory }

/-- The request that `DoOutgoingRequests` of a client is to send. -/
def sends (s : FlatSystem) (id : Nat) : Option Request := (s.cache id).outgoing.take?.map Prod.fst

/-- `DoOutgoingRequests` of a client. -/
def doOutgoingRequests (s : FlatSystem) (id : Nat) : Option FlatSystem :=
  (s.sends id).bind fun request => (s.access id request).bind fun s =>
    ((s.clients id).step .outgoing).map (s.setClient id)

/-- `DoWriteResponses` of a client, when the allocator takes the completion. -/
def doWriteResponses (s : FlatSystem) (id : Nat) : Option FlatSystem :=
  (s.clients id).writeResponses.take?.map fun (_, writeResponses) =>
    s.setClient id { s.clients id with writeResponses := writeResponses }

/-- The client that an answer is for takes it, or refuses. -/
def deliver (s : FlatSystem) : Answer → Option FlatSystem
  | .readCompleted id addr data => ((s.clients id).onMemoryReadCompleted addr data).map (s.setClient id)
  | .writeCompleted id wid => ((s.clients id).onMemoryWriteCompleted wid).map (s.setClient id)

/-- The kernel runs a process of the memory in a phase. -/
def runProcess (s : FlatSystem) (process : MemoryProcess) (phase : Phase) : Option Ran :=
  (s.memory.run s.now process).map fun out =>
    let after := match out.answer with
      | none => some s
      | some answer => s.deliver answer
    match after with
    | some after =>
      if phase = .commit ∧ out.success then ⟨out.serves, true, { after with memory := out.committed }⟩
      else ⟨out.serves, false, { s with memory := out.left }⟩
    | none => ⟨out.serves, false, { s with memory := out.left }⟩

end FlatSystem

/-- A request with its number among the accepted ones. -/
structure Pending extends ClientRequest where
  number : Nat

/-- A system with its history: the requests that the memory has accepted and not carried out, in their
order, the stores in the order in which they were snooped into the clients, and those in the
order in which they were applied to the backing store. -/
structure Recorded where
  system : FlatSystem
  pending : List Pending
  snooped : List Pending
  applied : List Pending
  accepted : Nat

/-- The requests of which a process of a memory takes the first one. -/
def FlatMemory.lane : FlatMemory → MemoryProcess → Pending → Bool
  | .serial _, _, _ => true
  | .parallel _, .requests port, x => x.client = port
  | .banked m, .bank b, x => m.bankIndex x.request.address = b
  | _, _, _ => false

namespace Recorded

/-- New processors with a new memory. -/
def initial (numClients : Nat) (cores : Nat → Core) (bufferSize : Option Nat) (memory : FlatMemory) : Recorded :=
  ⟨⟨numClients, fun id => ⟨.initial (cores id), .empty bufferSize 1⟩, memory, 0⟩, [], [], [], 0⟩

/-- The request that a run of a process is about. -/
def next (r : Recorded) (process : MemoryProcess) : Option Pending := r.pending.find? (r.system.memory.lane process)

def step (r : Recorded) : FlatEvent → Option Recorded
  | .client id e =>
    if id < r.system.numClients ∧ e.IsLocal then
      ((r.system.clients id).step e).map fun client => { r with system := r.system.setClient id client }
    else none
  | .send id =>
    if id < r.system.numClients then
      (r.system.sends id).bind fun request => (r.system.doOutgoingRequests id).map fun system =>
        let item : Pending := ⟨⟨id, request⟩, r.accepted⟩
        { r with
          system := system
          pending := r.pending ++ [item]
          snooped := if request.write then r.snooped ++ [item] else r.snooped
          accepted := r.accepted + 1 }
    else none
  | .writeResponse id => (r.system.doWriteResponses id).map fun system => { r with system := system }
  | .process process phase =>
    (r.system.runProcess process phase).map fun ran =>
      let served := if ran.serves then (r.next process).toList else []
      { r with
        system := ran.system
        pending := if ran.serves ∧ ran.finished then r.pending.eraseP (r.system.memory.lane process) else r.pending
        applied := r.applied ++ served.filter fun x => x.request.write }
  | .endCycle =>
    some { r with system := { r.system with memory := r.system.memory.update, now := r.system.now + 1 } }

/-- The bytes that a request is about: a store writes them, and the line that awaits a read does not have them. -/
def concerns (r : Recorded) (x : Pending) (i : Nat) : Bool :=
  if x.request.write then (x.request.byte? i).isSome
  else ((r.system.cache x.client).lineOf x.request.address).any fun cid =>
    (((r.system.cache x.client).lines cid).byte? i).isNone

/-- A port of a parallel memory does not overtake a store to a byte of its request that another port still has. -/
def InOrder (r : Recorded) (process : MemoryProcess) : Prop :=
  match r.system.memory with
  | .parallel m => ∀ x ∈ r.next process, ∀ z ∈ r.pending.takeWhile fun z => !r.system.memory.lane process z,
      ∀ i < m.lineSize, r.concerns x i = true → z.request.patch m.lineSize (x.request.address + BitVec.ofNat 64 i) = none
  | _ => True

instance (r : Recorded) (process : MemoryProcess) : Decidable (r.InOrder process) := by
  unfold InOrder
  cases r.system.memory
  · exact instDecidableTrue
  · exact inferInstance
  · exact instDecidableTrue

/-- The steps that keep the caches and the memory in agreement: the sets of each cache stay in order, and
a request that is carried out overtakes no store to its bytes. -/
def Guard (r : Recorded) : FlatEvent → Prop
  | .client id e => SetGuard (r.system.clients id).core e
  | .send id => ∀ request ∈ r.system.sends id, request.write = true → ∀ other < r.system.numClients,
      SetGuard (r.system.clients other).core (.snoop request.address request.data request.mask)
  | .process process phase => ∀ ran ∈ r.system.runProcess process phase, ran.serves = true → r.InOrder process
  | .writeResponse _ | .endCycle => True

instance (r : Recorded) (e : FlatEvent) : Decidable (r.Guard e) := by
  cases e <;> unfold Guard <;> exact inferInstance

/-- No request to the memory is outstanding. -/
def Idle (r : Recorded) : Prop :=
  (∀ id < r.system.numClients, (r.system.cache id).outgoing.contents = []) ∧ r.system.memory.Idle

end Recorded

/-- The stores of a list that write a byte, by their numbers. -/
def storesTo (lineSize : Nat) (a : Addr) (items : List Pending) : List Nat :=
  (items.filter fun x => (x.request.patch lineSize a).isSome).map Pending.number

/-- The caches agree with the backing store: it applies the stores to a byte in the order in which they
are snooped, and when nothing is outstanding it holds the bytes of all full lines. -/
structure Agreement (r : Recorded) : Prop where
  order : ∀ a, (storesTo r.system.memory.lineSize a (r.applied ++ r.pending)).destutter (· ≠ ·) =
    storesTo r.system.memory.lineSize a r.snooped
  bytes : r.Idle → ∀ id < r.system.numClients, ∀ cid, ((r.system.cache id).lines cid).state = .full →
    ∀ i < r.system.memory.lineSize, ((r.system.cache id).lines cid).valid i = true →
      ((r.system.cache id).lines cid).data i = r.system.memory.store ((r.system.cache id).unsplitAddress i
        (cid / (r.system.cache id).assoc) ((r.system.cache id).lines cid).tag)

end Mgsim.Memory
