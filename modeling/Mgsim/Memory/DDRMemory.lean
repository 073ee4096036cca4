import Mgsim.Memory.FlatSystem

namespace Mgsim.Memory
open Mgsim.Lib Mgsim.Mmu Mgsim.Drisc

/-- The timing of a channel, in cycles of its clock, and the bits of its addresses. -/
structure DDRConfig where
  tRCD : Nat
  tRP : Nat
  tCL : Nat
  tWR : Nat
  tCCD : Nat
  tCWL : Nat
  tRAS : Nat
  devicesPerRank : Nat
  bankBits : Nat
  rankBits : Nat
  rowBits : Nat
  columnBits : Nat

namespace DDRConfig

/-- The only length of a burst that is supported. -/
def burstLength : Nat := 8

def columnStart : Nat := 0

def bankStart (config : DDRConfig) : Nat := columnStart + config.columnBits

def rankStart (config : DDRConfig) : Nat := config.bankStart + config.bankBits

def rowStart (config : DDRConfig) : Nat := config.rankStart + config.rankBits

def burstSize (config : DDRConfig) : Nat := config.devicesPerRank * burstLength

end DDRConfig

/-- `INVALID_ROW`. -/
def invalidRow : Nat := 2 ^ 64 - 1

/-- `GET_BITS`, as an `unsigned int`. -/
def getBits (value : Addr) (offset size : Nat) : Nat := (value >>> offset).toNat % 2 ^ size % 2 ^ 32

/-- A request in a channel, of which `offset` bytes have been handled. -/
structure DDRRequest where
  address : Addr
  size : Nat
  offset : Nat
  write : Bool
  done : Nat

structure DDRChannel where
  config : DDRConfig
  currentRow : Nat → Nat
  request : DDRRequest
  pipeline : Buffer DDRRequest
  busy : Flag
  nextCommand : Nat
  nextPrecharge : Nat

namespace DDRChannel

def create (config : DDRConfig) : DDRChannel :=
  ⟨config, fun _ => invalidRow, ⟨0, 0, 0, false, 0⟩, .empty (some config.tCL) 1, .create false, 0, 0⟩

/-- `Read` and `Write`. -/
def accept (channel : DDRChannel) (address : Addr) (size : Nat) (write : Bool) : Option DDRChannel :=
  if channel.busy.isSet then none
  else channel.busy.set.map fun busy =>
    { channel with
      busy := busy
      request := { channel.request with address := address, offset := 0, size := size, write := write } }

/-- `DoRequest`: rows are closed and opened, and then a burst is made. -/
def doRequest (channel : DDRChannel) (now : Nat) : Option DDRChannel :=
  let config := channel.config
  let request := channel.request
  if channel.busy.isSet = false then none
  else if now < channel.nextCommand then some channel
  else
    let whole := request.address + BitVec.ofNat 64 request.offset
    let address := whole / BitVec.ofNat 64 config.devicesPerRank
    let offset := whole.toNat % config.devicesPerRank
    let bank := getBits address config.bankStart config.bankBits
    let rank := getBits address config.rankStart config.rankBits
    let row := getBits address config.rowStart config.rowBits
    let array := rank * 2 ^ config.bankBits + bank
    if channel.currentRow array ≠ row then
      if channel.currentRow array ≠ invalidRow then
        some { channel with
          nextCommand := max channel.nextPrecharge now + config.tRP
          currentRow := Function.update channel.currentRow array invalidRow }
      else
        some { channel with
          nextCommand := now + config.tRCD
          nextPrecharge := now + config.tRAS
          currentRow := Function.update channel.currentRow array row }
    else
      let remainder := request.size - request.offset
      let size := min (config.burstSize - offset) remainder
      if request.write then
        let written := { channel with
          request := { request with offset := request.offset + size }
          nextCommand := now + config.tCWL
          nextPrecharge := now + config.tWR }
        if size < remainder then some written
        else channel.busy.clear.map fun busy => { written with busy := busy }
      else
        let request := { request with offset := request.offset + size, done := now + config.tCL }
        let reading := { channel with request := request, nextCommand := now + config.tCCD }
        if size < remainder then some reading
        else (channel.pipeline.push request 1).bind fun pipeline =>
          channel.busy.clear.map fun busy => { reading with pipeline := pipeline, busy := busy }

def update (channel : DDRChannel) : DDRChannel :=
  { channel with pipeline := channel.pipeline.update, busy := channel.busy.update }

end DDRChannel

/-- `DDRMemory::Interface`. The number of a request among all that have been accepted is not in the code. -/
structure DDRInterface where
  requests : Buffer Pending
  responses : Buffer Pending
  activeRequests : List Pending
  channel : DDRChannel

namespace DDRInterface

def create (outputQueueSize inputQueueSize : Option Nat) (config : DDRConfig) : DDRInterface :=
  ⟨.empty outputQueueSize 1, .empty inputQueueSize 1, [], .create config⟩

def update (iface : DDRInterface) : DDRInterface :=
  { iface with requests := iface.requests.update, responses := iface.responses.update }

end DDRInterface

/-- What does not change in a `DDRMemory`. -/
structure DDRParams where
  numClients : Nat
  numInterfaces : Nat
  lineSize : Nat
  selector : BankSelector

namespace DDRParams

/-- The interface to which `Read` gives an address. -/
def readInterface (params : DDRParams) (address : Addr) : Nat := (params.selector.map address).2

/-- The interface to which `Write` gives an address. -/
def writeInterface (params : DDRParams) (address : Addr) : Nat :=
  (params.selector.map (address / BitVec.ofNat 64 params.lineSize)).2

/-- The assertions of `Read` and `Write`, for a client that is not unregistered. -/
def Accepts (params : DDRParams) (id : Nat) (address : Addr) : Prop :=
  params.lineSize ≠ 0 ∧ address.toNat % params.lineSize = 0 ∧ id < params.numClients

instance (params : DDRParams) (id : Nat) (address : Addr) : Decidable (params.Accepts id address) :=
  inferInstanceAs (Decidable (_ ∧ _ ∧ _))

end DDRParams

structure DDRMemory where
  params : DDRParams
  store : Store
  interfaces : Nat → DDRInterface

namespace DDRMemory

/-- The constructor, for a store in which the program is loaded. -/
def create (numClients numInterfaces lineSize : Nat) (selector : String) (outputQueueSize inputQueueSize : Option Nat)
    (channels : Nat → DDRConfig) (store : Store) : Except Fault DDRMemory := do
  let selector ← BankSelector.makeSelector selector numInterfaces
  return ⟨⟨numClients, numInterfaces, lineSize, selector⟩, store,
    fun i => .create outputQueueSize inputQueueSize (channels i)⟩

def setInterface (m : DDRMemory) (i : Nat) (iface : DDRInterface) : DDRMemory :=
  { m with interfaces := Function.update m.interfaces i iface }

/-- `AddIncomingRequest` of an interface. -/
def addIncomingRequest (m : DDRMemory) (i : Nat) (x : Pending) : Option DDRMemory :=
  if i < m.params.numInterfaces then
    ((m.interfaces i).requests.push x 1).map fun requests => m.setInterface i { m.interfaces i with requests := requests }
  else none

/-- `Read`, when all clients are served in turn. -/
def read (m : DDRMemory) (id : Nat) (address : Addr) (number : Nat) : Option DDRMemory :=
  if m.params.Accepts id address then
    m.addIncomingRequest (m.params.readInterface address) ⟨⟨id, readRequest address⟩, number⟩
  else none

/-- `Write`, when all clients have been snooped. -/
def write (m : DDRMemory) (id : Nat) (address : Addr) (data : Nat → Byte) (mask : Nat → Bool) (wid number : Nat) :
    Option DDRMemory :=
  if m.params.Accepts id address then
    m.addIncomingRequest (m.params.writeInterface address) ⟨⟨id, ⟨true, address, wid, data, mask⟩⟩, number⟩
  else none

/-- `DoRequests` of an interface: the request that it has handled. The client takes the completion of a write. -/
def doRequests (m : DDRMemory) (i : Nat) : Option (Pending × DDRMemory) :=
  let iface := m.interfaces i
  iface.requests.take?.bind fun (x, requests) =>
    (iface.channel.accept x.request.address m.params.lineSize x.request.write).map fun channel =>
      if x.request.write then
        (x, { m.setInterface i { iface with requests := requests, channel := channel } with
          store := m.store.write x.request.address x.request.data x.request.mask m.params.lineSize })
      else
        (x, m.setInterface i { iface with
          requests := requests, channel := channel, activeRequests := iface.activeRequests ++ [x] })

/-- `OnReadCompleted` of an interface. -/
def onReadCompleted (m : DDRMemory) (i : Nat) : Option DDRMemory :=
  let iface := m.interfaces i
  match iface.activeRequests with
  | [] => none
  | x :: rest =>
    (iface.responses.push { x with request := { x.request with data := m.store.read x.request.address } } 1).map
      fun responses => m.setInterface i { iface with responses := responses, activeRequests := rest }

/-- `DoRequest` of the channel of an interface. -/
def doRequest (m : DDRMemory) (i now : Nat) : Option DDRMemory :=
  ((m.interfaces i).channel.doRequest now).map fun channel => m.setInterface i { m.interfaces i with channel := channel }

/-- `DoPipeline` of the channel of an interface. -/
def doPipeline (m : DDRMemory) (i now : Nat) : Option DDRMemory :=
  (m.interfaces i).channel.pipeline.take?.bind fun (request, pipeline) =>
    if now ≥ request.done then
      (m.onReadCompleted i).map fun m' => m'.setInterface i { m'.interfaces i with
        channel := { (m.interfaces i).channel with pipeline := pipeline } }
    else some m

/-- `DoResponses` of an interface: the response that the client takes. -/
def doResponses (m : DDRMemory) (i : Nat) : Option (Pending × DDRMemory) :=
  (m.interfaces i).responses.take?.map fun (x, responses) =>
    (x, m.setInterface i { m.interfaces i with responses := responses })

end DDRMemory

/-- A `DDRMemory` with its history: the store at the start, the requests that have been accepted, those that have been
handled and by which interface, and the reads that have been completed. -/
structure DDRRecord where
  memory : DDRMemory
  initial : Store
  issued : List Pending
  handled : List (Nat × Pending)
  completed : List Pending

/-- What clients and processes do; a channel has a clock of its own. -/
inductive DDREvent
  | read (id : Nat) (address : Addr)
  | write (id : Nat) (address : Addr) (data : Nat → Byte) (mask : Nat → Bool) (wid : Nat)
  | requests (i : Nat)
  | channelRequest (i now : Nat)
  | channelPipeline (i now : Nat)
  | responses (i : Nat)
  | update
  | updateChannel (i : Nat)

namespace DDRRecord

def start (memory : DDRMemory) : DDRRecord := ⟨memory, memory.store, [], [], []⟩

def step (r : DDRRecord) : DDREvent → Option DDRRecord
  | .read id address => (r.memory.read id address r.issued.length).map fun memory =>
      { r with memory := memory, issued := r.issued ++ [⟨⟨id, readRequest address⟩, r.issued.length⟩] }
  | .write id address data mask wid => (r.memory.write id address data mask wid r.issued.length).map fun memory =>
      { r with memory := memory, issued := r.issued ++ [⟨⟨id, ⟨true, address, wid, data, mask⟩⟩, r.issued.length⟩] }
  | .requests i => (r.memory.doRequests i).map fun (x, memory) =>
      { r with memory := memory, handled := r.handled ++ [(i, x)] }
  | .channelRequest i now => (r.memory.doRequest i now).map fun memory => { r with memory := memory }
  | .channelPipeline i now => (r.memory.doPipeline i now).map fun memory => { r with memory := memory }
  | .responses i => (r.memory.doResponses i).map fun (x, memory) =>
      { r with memory := memory, completed := r.completed ++ [x] }
  | .update => some { r with memory := { r.memory with interfaces := fun i => (r.memory.interfaces i).update } }
  | .updateChannel i =>
    let iface := r.memory.interfaces i
    some { r with memory := r.memory.setInterface i { iface with channel := iface.channel.update } }

/-- The lines of two addresses have a byte in common. -/
def Overlap (lineSize : Nat) (first second : Addr) : Prop :=
  ∃ i < lineSize, (first + BitVec.ofNat 64 i - second).toNat < lineSize

instance (lineSize : Nat) (first second : Addr) : Decidable (Overlap lineSize first second) :=
  inferInstanceAs (Decidable (∃ i < lineSize, _))

/-- A line that is both read and written has the same interface on both paths. -/
def Guard (r : DDRRecord) : DDREvent → Prop
  | .read _ address => ∀ w ∈ r.issued, w.request.write = true →
      Overlap r.memory.params.lineSize address w.request.address →
        r.memory.params.readInterface address = r.memory.params.writeInterface w.request.address
  | .write _ address _ _ _ => ∀ x ∈ r.issued, x.request.write = false →
      Overlap r.memory.params.lineSize x.request.address address →
        r.memory.params.readInterface x.request.address = r.memory.params.writeInterface address
  | _ => True

instance (r : DDRRecord) (e : DDREvent) : Decidable (r.Guard e) := by
  cases e <;> unfold Guard <;> exact inferInstance

/-- The writes that have reached the memory, in their order. -/
def applied (r : DDRRecord) : List Pending := (r.handled.map Prod.snd).filter fun x => x.request.write

/-- A read has the byte of the latest of the writes to it that its client has issued before it, or of a write
that reached the memory after that one. -/
def Fresh (r : DDRRecord) (x : Pending) (i : Nat) : Prop :=
  let a := x.request.address + BitVec.ofNat 64 i
  let patch (w : Pending) := w.request.patch r.memory.params.lineSize a
  ∀ w ∈ r.issued, w.client = x.client → w.number < x.number → (patch w).isSome →
    (∀ other ∈ r.issued, other.client = x.client → other.number < x.number → (patch other).isSome →
      other.number ≤ w.number) →
    ∃ before v after, r.applied = before ++ v :: after ∧ (v = w ∨ w ∈ before) ∧ patch v = some (x.request.data i)

end DDRRecord

/-- A `DDRMemory` is a memory. Each line address has one interface, which handles its requests in the order in which
they are issued, and the reads of the clients are completed with fresh bytes. -/
structure IsMemory (r : DDRRecord) : Prop where
  sameInterface : ∀ x ∈ r.handled, ∀ y ∈ r.handled, x.2.request.address = y.2.request.address → x.1 = y.1
  inOrder : ∀ address, (r.handled.map Prod.snd).filter (fun x => x.request.address = address) <+:
    r.issued.filter fun x => x.request.address = address
  answers : ∀ x ∈ r.completed, ∃ read ∈ r.issued, read.request.write = false ∧ x.client = read.client ∧
    x.number = read.number ∧ x.request.address = read.request.address
  fresh : ∀ x ∈ r.completed, ∀ i < r.memory.params.lineSize, r.Fresh x i

end Mgsim.Memory
