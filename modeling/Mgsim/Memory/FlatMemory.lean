import Mathlib.Data.Nat.Log
import Mgsim.Drisc.Selector
import Mgsim.Lib.Storage

namespace Mgsim.Memory
open Mgsim.Lib Mgsim.Drisc Mgsim.Mmu

/-- The bytes of the backing store, which are zero until they are written. -/
abbrev Store := Addr → Byte

/-- `VirtualMemory::Read` of a line. -/
def Store.read (store : Store) (address : Addr) (i : Nat) : Byte := store (address + BitVec.ofNat 64 i)

/-- `VirtualMemory::Write` of the bytes in a mask. -/
def Store.write (store : Store) (address : Addr) (data : Nat → Byte) (mask : Nat → Bool) (size : Nat) : Store :=
  fun a => if (a - address).toNat < size ∧ mask (a - address).toNat = true then data (a - address).toNat else store a

/-- A request of a memory client. -/
structure ClientRequest where
  client : Nat
  request : Request

/-- A call of a memory client. -/
inductive Answer
  | readCompleted (client : Nat) (address : Addr) (data : Nat → Byte)
  | writeCompleted (client wid : Nat)

/-- What one run of a process of a memory does. Accesses to the store and some
assignments are made in every phase of the kernel, so that they stay (`left`) when the run is
not committed: because of its phase, because it fails, or because the called client refuses.
`serves` tells that the run accesses the store for its request. -/
structure Outcome (M : Type) where
  left : M
  serves : Bool
  success : Bool
  answer : Option Answer
  committed : M

namespace Outcome
variable {M : Type}

def failed (left : M) : Outcome M := ⟨left, false, false, none, left⟩

/-- A run that does nothing before it is committed. -/
def quiet (m committed : M) : Outcome M := ⟨m, false, true, none, committed⟩

end Outcome

structure SerialMemory where
  lineSize : Nat
  baseRequestTime : Nat
  timePerLine : Nat
  store : Store
  requests : Buffer ClientRequest
  nextdone : Nat

namespace SerialMemory

/-- The part that `Read` and `Write` share. -/
def addRequest (m : SerialMemory) (id : Nat) (request : Request) : Option SerialMemory :=
  (m.requests.push ⟨id, request⟩ 1).map fun requests => { m with requests := requests }

/-- `DoRequests`. -/
def doRequests (m : SerialMemory) (now : Nat) : Option (Outcome SerialMemory) :=
  m.requests.take?.map fun (⟨client, request⟩, requests) =>
    if m.nextdone > 0 then
      if now ≥ m.nextdone then
        if request.write then
          let left := { m with store := m.store.write request.address request.data request.mask m.lineSize }
          ⟨left, true, true, some (.writeCompleted client request.wid), { left with requests := requests, nextdone := 0 }⟩
        else
          ⟨m, true, true, some (.readCompleted client request.address (m.store.read request.address)),
            { m with requests := requests, nextdone := 0 }⟩
      else .quiet m m
    else .quiet m { m with nextdone := now + (m.baseRequestTime + m.timePerLine) }

end SerialMemory

structure ParallelPort where
  requests : Buffer Request
  nextdone : Nat

/-- `ParallelMemory`; a port belongs to the client of its number. -/
structure ParallelMemory where
  numPorts : Nat
  lineSize : Nat
  baseRequestTime : Nat
  timePerLine : Nat
  store : Store
  ports : Nat → ParallelPort

namespace ParallelMemory

def setPort (m : ParallelMemory) (p : Nat) (port : ParallelPort) : ParallelMemory :=
  { m with ports := Function.update m.ports p port }

/-- The part that `Read` and `Write` share. -/
def addRequest (m : ParallelMemory) (id : Nat) (request : Request) : Option ParallelMemory :=
  ((m.ports id).requests.push request 1).map fun requests => m.setPort id { m.ports id with requests := requests }

def getMemoryDelay (m : ParallelMemory) (dataSize : Nat) : Nat :=
  m.baseRequestTime + m.timePerLine * (dataSize + m.lineSize - 1) / m.lineSize

/-- `DoRequests` of a port. -/
def doRequests (m : ParallelMemory) (now p : Nat) : Option (Outcome ParallelMemory) :=
  let port := m.ports p
  port.requests.take?.map fun (request, requests) =>
    if port.nextdone = 0 then .quiet m (m.setPort p { port with nextdone := now + m.getMemoryDelay m.lineSize })
    else if now ≥ port.nextdone then
      if request.write then
        let left := { m with store := m.store.write request.address request.data request.mask m.lineSize }
        ⟨left, true, true, some (.writeCompleted p request.wid), left.setPort p ⟨requests, 0⟩⟩
      else
        ⟨m, true, true, some (.readCompleted p request.address (m.store.read request.address)),
          m.setPort p ⟨requests, 0⟩⟩
    else .quiet m m

end ParallelMemory

/-- A request in a bank, with the cycle in which it arrives or is done. -/
structure BankRequest extends ClientRequest where
  done : Nat

structure Bank where
  incoming : Buffer BankRequest
  outgoing : Buffer BankRequest
  busy : Flag
  request : BankRequest

structure BankedMemory where
  lineSize : Nat
  numBanks : Nat
  baseRequestTime : Nat
  timePerLine : Nat
  selector : BankSelector
  store : Store
  banks : Nat → Bank

namespace BankedMemory

def setBank (m : BankedMemory) (b : Nat) (bank : Bank) : BankedMemory :=
  { m with banks := Function.update m.banks b bank }

/-- The bank of a line address. -/
def bankIndex (m : BankedMemory) (address : Addr) : Nat := (m.selector.map (address / BitVec.ofNat 64 m.lineSize)).2

/-- `GetMessageDelay`: the cycles until the first bits arrive, and those of the body. -/
def getMessageDelay (m : BankedMemory) (bodySize : Nat) : Nat × Nat :=
  (Nat.log 2 m.numBanks, (bodySize + m.lineSize - 1) / m.lineSize + 1)

def getMemoryDelay (m : BankedMemory) (dataSize : Nat) : Nat :=
  m.baseRequestTime + m.timePerLine * (dataSize + m.lineSize - 1) / m.lineSize

/-- `AddRequest` of a bank: a message arrives after the one before it in the queue. -/
def addToQueue (m : BankedMemory) (now : Nat) (queue : Buffer BankRequest) (request : ClientRequest) (data : Bool) :
    Option (Buffer BankRequest) :=
  let delay := m.getMessageDelay (if data then m.lineSize else 0)
  let first := now + delay.1
  let done := match queue.data.getLast? with
    | some last => if first < last.done then last.done else first
    | none => first
  queue.push { request with done := done + delay.2 } 1

/-- The part that `Read` and `Write` share. -/
def addRequest (m : BankedMemory) (now id : Nat) (request : Request) : Option BankedMemory :=
  let b := m.bankIndex request.address
  (m.addToQueue now (m.banks b).incoming ⟨id, request⟩ request.write).map fun incoming =>
    m.setBank b { m.banks b with incoming := incoming }

/-- `DoIncoming`. -/
def doIncoming (m : BankedMemory) (now b : Nat) : Option (Outcome BankedMemory) :=
  let bank := m.banks b
  bank.incoming.take?.map fun (request, incoming) =>
    if now ≥ request.done then
      if bank.busy.isSet then .failed m
      else
        let bank := { bank with request := { request with done := now + m.getMemoryDelay m.lineSize } }
        match bank.busy.set with
        | none => .failed (m.setBank b bank)
        | some busy => ⟨m.setBank b bank, false, true, none, m.setBank b { bank with busy := busy, incoming := incoming }⟩
    else .quiet m m

/-- `DoOutgoing`. -/
def doOutgoing (m : BankedMemory) (now b : Nat) : Option (Outcome BankedMemory) :=
  let bank := m.banks b
  bank.outgoing.take?.map fun (⟨⟨client, request⟩, done⟩, outgoing) =>
    if now ≥ done then
      ⟨m, false, true, some (if request.write then .writeCompleted client request.wid
        else .readCompleted client request.address request.data), m.setBank b { bank with outgoing := outgoing }⟩
    else .quiet m m

/-- The request of a bank after its access to the store. -/
def access (m : BankedMemory) (b : Nat) : BankedMemory :=
  let bank := m.banks b
  let request := bank.request.request
  if request.write then { m with store := m.store.write request.address request.data request.mask m.lineSize }
  else m.setBank b { bank with request := { bank.request with request := { request with
    data := m.store.read request.address } } }

/-- `DoRequest`; `none` for a bank that is idle, or has finished its request in this cycle. -/
def doRequest (m : BankedMemory) (now b : Nat) : Option (Outcome BankedMemory) :=
  let bank := m.banks b
  if ¬ bank.busy.isSet ∨ bank.busy.updated then none
  else if now ≥ bank.request.done then
    let left := m.access b
    let bank := left.banks b
    match left.addToQueue now bank.outgoing bank.request.toClientRequest (!bank.request.request.write), bank.busy.clear with
    | some outgoing, some busy =>
      some ⟨left, true, true, none, left.setBank b { bank with outgoing := outgoing, busy := busy }⟩
    | _, _ => some ⟨left, true, false, none, left⟩
  else some (.quiet m m)

end BankedMemory

/-- The flat memories. -/
inductive FlatMemory
  | serial (m : SerialMemory)
  | parallel (m : ParallelMemory)
  | banked (m : BankedMemory)

/-- The processes of the flat memories. -/
inductive MemoryProcess
  | requests (port : Nat)
  | incoming (bank : Nat)
  | bank (bank : Nat)
  | outgoing (bank : Nat)
  deriving DecidableEq

def Outcome.map {M N : Type} (f : M → N) (out : Outcome M) : Outcome N :=
  ⟨f out.left, out.serves, out.success, out.answer, f out.committed⟩

namespace FlatMemory

def lineSize : FlatMemory → Nat
  | .serial m => m.lineSize
  | .parallel m => m.lineSize
  | .banked m => m.lineSize

def store : FlatMemory → Store
  | .serial m => m.store
  | .parallel m => m.store
  | .banked m => m.store

def addRequest (now id : Nat) (request : Request) : FlatMemory → Option FlatMemory
  | .serial m => (m.addRequest id request).map .serial
  | .parallel m => (m.addRequest id request).map .parallel
  | .banked m => (m.addRequest now id request).map .banked

/-- A run of a process; `none` when the memory has no such process or its queue is empty. -/
def run (now : Nat) : FlatMemory → MemoryProcess → Option (Outcome FlatMemory)
  | .serial m, .requests 0 => (m.doRequests now).map (.map .serial)
  | .parallel m, .requests p => (m.doRequests now p).map (.map .parallel)
  | .banked m, .incoming b => (m.doIncoming now b).map (.map .banked)
  | .banked m, .bank b => (m.doRequest now b).map (.map .banked)
  | .banked m, .outgoing b => (m.doOutgoing now b).map (.map .banked)
  | _, _ => none

/-- The changes of a cycle take effect. -/
def update : FlatMemory → FlatMemory
  | .serial m => .serial { m with requests := m.requests.update }
  | .parallel m => .parallel { m with ports := fun p => { m.ports p with requests := (m.ports p).requests.update } }
  | .banked m => .banked { m with banks := fun b => { m.banks b with
      incoming := (m.banks b).incoming.update, outgoing := (m.banks b).outgoing.update, busy := (m.banks b).busy.update } }

/-- No request is in the memory, and no answer. -/
def Idle : FlatMemory → Prop
  | .serial m => m.requests.contents = []
  | .parallel m => ∀ p < m.numPorts, (m.ports p).requests.contents = []
  | .banked m => ∀ b, (m.banks b).incoming.contents = [] ∧ (m.banks b).busy.new = false ∧
      (m.banks b).outgoing.contents = []

end FlatMemory

inductive MemoryKind
  | serial
  | parallel
  | banked
  deriving DecidableEq

/-- The configuration of a flat memory. -/
structure MemoryConfig where
  kind : MemoryKind
  lineSize : Nat
  baseRequestTime : Nat
  timePerLine : Nat
  bufferSize : Option Nat
  numBanks : Nat
  bankSelector : String

/-- The constructors, for a store in which the program is loaded, and the registration of the clients. -/
def FlatMemory.create (config : MemoryConfig) (numClients : Nat) (store : Store) : Except Fault FlatMemory :=
  match config.kind with
  | .serial => .ok (.serial ⟨config.lineSize, config.baseRequestTime, config.timePerLine, store,
      .empty config.bufferSize 1, 0⟩)
  | .parallel => .ok (.parallel ⟨numClients, config.lineSize, config.baseRequestTime, config.timePerLine, store,
      fun _ => ⟨.empty config.bufferSize 1, 0⟩⟩)
  | .banked => do
    let selector ← BankSelector.makeSelector config.bankSelector config.numBanks
    return .banked ⟨config.lineSize, config.numBanks, config.baseRequestTime, config.timePerLine, selector, store,
      fun _ => ⟨.empty config.bufferSize 1, .empty config.bufferSize 1, .create false, ⟨⟨0, readRequest 0⟩, 0⟩⟩⟩

end Mgsim.Memory
