import Mgsim.Drisc.LoadPath
import Mgsim.Lib.Buffer
import Mgsim.Lib.Run

namespace Mgsim.Drisc
open Mgsim.Lib Mgsim.Mmu

/-- The `read_request` of an `IOMessage`. The number of its load is not in the code. -/
structure ReadRequest where
  address : Addr
  size : Nat
  number : Nat
  deriving DecidableEq

/-- `IORequest`; messages that are no read requests have no part in a load. -/
structure IORequest where
  device : Nat
  msg : Option ReadRequest
  deriving DecidableEq

/-- `IOResponse`, with the number of the load that it answers. -/
structure IOResponse where
  data : List Byte
  device : Nat
  number : Nat
  deriving DecidableEq

/-- A load that has left the memory stage, and how many of its registers have been written back. -/
structure Latch where
  rc : RegAddr
  rcv : PipeValue
  writebackOffset : Nat
  number : Nat
  deriving DecidableEq

/-- The parts of a core through which the loads from devices pass. -/
structure IOInterface (t : Target) where
  numDevices : Nat
  devAddrBits : Nat
  wbBuffers : Nat → Buffer RegAddr
  incoming : Buffer IOResponse
  outgoing : Buffer IORequest
  latches : List Latch
  regs : RegAddr → RegValue t
  numPendingReads : Nat → Nat

namespace IOInterface
variable {t : Target}

/-- The device of an address of the asynchronous interface. -/
def device (io : IOInterface t) (address : Addr) : Nat := (address >>> io.devAddrBits).toNat

/-- `IOInterface::Read`. `none` where the assertion of `QueueWriteBackAddress` fails. -/
def read (phase : Phase) (dev : Nat) (address : Addr) (size : Nat) (writeback : RegAddr) (number : Nat)
    (io : IOInterface t) : Option (Bool × IOInterface t) :=
  if dev < io.numDevices then
    ((io.wbBuffers dev).pushIn phase writeback 1).bind fun (queued, b) =>
      if queued then
        (io.outgoing.pushIn phase ⟨dev, some ⟨address, size, number⟩⟩ 1).map fun (sent, requests) =>
          (sent, { io with wbBuffers := Function.update io.wbBuffers dev b, outgoing := requests })
      else some (false, io)
  else none

/-- `AsyncIOInterface::Read`; for a device that does not exist it throws. -/
def asyncRead (phase : Phase) (load : Load) (number : Nat) (io : IOInterface t) : Option (Bool × IOInterface t) :=
  if io.numDevices < io.device load.address then none
  else io.read phase (io.device load.address) (load.address &&& ((1 <<< io.devAddrBits) - 1)) load.size load.rc number

/-- What the memory stage passes on for a load from a device. -/
def pendingValue (load : Load) : PipeValue :=
  { PipeValue.makePending load.rcvSize with memory := ⟨none, load.fid, load.size, 0, load.signExtend⟩ }

/-- The memory stage on a load from a device; it stalls where the interface refuses the load. -/
def memoryStage (phase : Phase) (load : Load) (number : Nat) (io : IOInterface t) : Option (Bool × IOInterface t) :=
  (io.asyncRead phase load number).map fun (done, io') =>
    (done, if done = true ∧ phase = .commit then
      { io' with
        latches := io'.latches ++ [⟨load.rc, pendingValue load, 0, number⟩]
        numPendingReads := Function.update io'.numPendingReads load.fid (io'.numPendingReads load.fid + 1) }
      else io')

/-- The writeback stage on the next load: one register a cycle. It waits while the register is the target of another
load. -/
def writeback (io : IOInterface t) : Option (Bool × IOInterface t) :=
  match io.latches with
  | [] => none
  | latch :: rest =>
    let addr : RegAddr := ⟨latch.rc.type, latch.rc.index + latch.writebackOffset⟩
    let old := io.regs addr
    if old.state = .waiting ∧ old.memory.size ≠ 0 then none
    else if (old.state = .empty ∨ old.state = .pending) ∧ old.memory.size ≠ 0 then some (false, io)
    else some (true, { io with
      regs := Function.update io.regs addr (combineWaiting old (writebackValue t latch.rcv latch.writebackOffset))
      latches := if latch.writebackOffset + 1 = latch.rcv.size / t.sizeofInteger then rest
        else { latch with writebackOffset := latch.writebackOffset + 1 } :: rest })

/-- The value of an answer in `DoReceivedReadResponses`. -/
def responseValue (t : Target) (type : RegType) (memory : MemoryRequest) (data : List Byte) : Integer t :=
  let value : Integer t := (unserializeRegister t type data).setWidth _
  if memory.signExtend then
    let shift := (t.sizeofInteger - memory.size) * 8
    (((value <<< shift).setWidth 64).sshiftRight shift).setWidth _
  else value

/-- `DoReceivedReadResponses` on the answer in front, with the register it writes. In a cycle that is not `available` the
write port, the wake-up of threads or the family's counter refuses. -/
def doReceivedReadResponses (available : Bool) (io : IOInterface t) : Option (Option (RegAddr × Integer t) × IOInterface t) :=
  io.incoming.take?.bind fun (response, incoming) =>
    (io.wbBuffers response.device).take?.bind fun (addr, wbq) =>
      let regvalue := io.regs addr
      if available = false ∨ regvalue.state ≠ .pending ∧ regvalue.state ≠ .waiting then some (none, io)
      else
        let memory := regvalue.memory
        if memory.signExtend = true ∧ t.sizeofInteger ≤ memory.size ∨ io.numPendingReads memory.fid = 0 then none
        else
          let value := responseValue t addr.type memory response.data
          some (some (addr, value), { io with
            wbBuffers := Function.update io.wbBuffers response.device wbq
            incoming := incoming
            regs := Function.update io.regs addr (.makeFull value)
            numPendingReads := Function.update io.numPendingReads memory.fid (io.numPendingReads memory.fid - 1) })

/-- What `WriteRegister` and the writeback stage allow the other instructions to write: only a suspended thread enters
the register of a pending load. -/
def Writable (old value : RegValue t) : Prop :=
  if old.state ≠ .full ∧ old.memory.size ≠ 0 then value.state = .waiting ∧ value.memory = old.memory
  else value.memory.size = 0

instance (old value : RegValue t) : Decidable (Writable old value) := by
  unfold Writable
  infer_instance

end IOInterface

/-- An answer that has been written: its load, its device, what it has written, and the family whose outstanding reads it
has decreased. -/
structure Returned (t : Target) where
  number : Nat
  device : Nat
  data : List Byte
  writes : List (RegAddr × Integer t)
  fid : Nat
  deriving DecidableEq

/-- The interface with its devices, which answer their requests in order, the registers that wait for the data cache, and
the loads so far. -/
structure IORecord (t : Target) where
  io : IOInterface t
  devices : Nat → List ReadRequest
  cached : RegAddr → Bool
  loads : List Load
  returned : List (Returned t)

/-- What happens at the interface. The clocks of the core and of the bus are separate. -/
inductive IOEvent (t : Target)
  | load (load : Load)
  | send (device : Nat)
  | doOutgoingRequests (accepted : Bool)
  | answer (device : Nat) (data : List Byte)
  | doReceivedReadResponses (available : Bool)
  | writeback
  | write (addr : RegAddr) (value : RegValue t)
  | cacheLoad (addr : RegAddr) (memory : MemoryRequest)
  | cacheFill (addr : RegAddr) (value : Integer t)
  | update
  | updateOutgoing

namespace IORecord
variable {t : Target}
open IOInterface

/-- An interface with no loads. -/
def start (numDevices devAddrBits : Nat) (wbSize incomingSize outgoingSize : Option Nat) (regs : RegAddr → RegValue t) :
    IORecord t where
  io := ⟨numDevices, devAddrBits, fun _ => .empty wbSize 1, .empty incomingSize 1, .empty outgoingSize 1, [], regs, fun _ => 0⟩
  devices _ := []
  cached _ := false
  loads := []
  returned := []

/-- A device takes a read request. -/
def request (r : IORecord t) (q : IORequest) : Nat → List ReadRequest :=
  match q.msg with
  | none => r.devices
  | some msg => Function.update r.devices q.device (r.devices q.device ++ [msg])

def step (r : IORecord t) : IOEvent t → Option (IORecord t)
  | .load load =>
    if 0 < load.size ∧ load.size ≤ 8 ∧ load.rcvSize = load.registers t * t.sizeofInteger then
      (runProcess (fun phase => memoryStage phase load r.loads.length) r.io).map fun (done, io) =>
        { r with io := io, loads := if done then r.loads ++ [load] else r.loads }
    else none
  | .send device => (r.io.outgoing.pushIn .commit ⟨device, none⟩ 1).map fun (_, requests) =>
      { r with io := { r.io with outgoing := requests } }
  | .doOutgoingRequests accepted => r.io.outgoing.take?.map fun (q, rest) =>
      if accepted then { r with io := { r.io with outgoing := rest }, devices := r.request q } else r
  | .answer device data =>
    match r.devices device with
    | [] => none
    | q :: rest =>
      if data.length = q.size then
        (r.io.incoming.pushIn .commit ⟨data, device, q.number⟩ 1).map fun (done, incoming) =>
          if done then { r with io := { r.io with incoming := incoming }, devices := Function.update r.devices device rest }
          else r
      else none
  | .doReceivedReadResponses available =>
    r.io.incoming.take?.bind fun (response, _) =>
      (r.io.doReceivedReadResponses available).map fun (written, io) =>
        match written with
        | none => r
        | some (addr, value) => { r with
            io := io
            returned := r.returned ++
              [⟨response.number, response.device, response.data, [(addr, value)], (r.io.regs addr).memory.fid⟩] }
  | .writeback => r.io.writeback.map fun (_, io) => { r with io := io }
  | .write addr value =>
    if Writable (r.io.regs addr) value then
      some { r with io := { r.io with regs := Function.update r.io.regs addr value } }
    else none
  | .cacheLoad addr memory =>
    let old := r.io.regs addr
    if (old.state = .full ∨ old.memory.size = 0) ∧ memory.size ≠ 0 then
      let pending := combineWaiting old { RegValue.makeEmpty t with state := .pending, memory := memory }
      some { r with
        io := { r.io with regs := Function.update r.io.regs addr pending }
        cached := Function.update r.cached addr true }
    else none
  | .cacheFill addr value =>
    if r.cached addr then
      some { r with
        io := { r.io with regs := Function.update r.io.regs addr (.makeFull value) }
        cached := Function.update r.cached addr false }
    else none
  | .update => some { r with io := { r.io with
      wbBuffers := fun d => (r.io.wbBuffers d).update
      incoming := r.io.incoming.update } }
  | .updateOutgoing => some { r with io := { r.io with outgoing := r.io.outgoing.update } }

end IORecord
end Mgsim.Drisc
