import Mgsim.Drisc.LoadPath

namespace Mgsim.Drisc
open Mgsim.Mmu

/-- What must not happen in the writeback stage: a failed assertion, and the two
exceptions of the register file for a register that is reset. -/
inductive WritebackFault
  | assertion
  | invalidReset
  | pendingLoadReset
  deriving DecidableEq

/-- `SuspendType`. -/
inductive SuspendType
  | none
  | memoryBarrier
  | missingData
  deriving DecidableEq

/-- The latch before the memory stage. `rrc` tells whether there is a network message. -/
structure ExecuteMemoryLatch where
  tid : Nat
  fid : Nat
  swch : Bool
  kill : Bool
  suspend : SuspendType
  address : Addr
  size : Nat
  signExtend : Bool
  rc : Option RegAddr
  rcv : PipeValue
  rrc : Bool

/-- The latch before the writeback stage. -/
structure MemoryWritebackLatch where
  tid : Nat
  fid : Nat
  swch : Bool
  kill : Bool
  suspend : SuspendType
  rc : Option RegAddr
  rcv : PipeValue
  rrc : Bool

/-- What the data cache or the I/O match unit answers. A dependency that cannot be counted is a failure, too. -/
inductive MemoryAnswer
  | failed
  | active
  | delayed (reg : Option RegAddr)
  | success (data : List Byte)

/-- `MemoryStage::OnCycle`; `none` where the pipeline stalls or is delayed. -/
def memoryStage (t : Target) (lineSize : Nat) (input : ExecuteMemoryLatch) (ioMatch : Bool) (answer : MemoryAnswer) :
    Option PipeValue :=
  if input.size = 0 then some input.rcv
  else if input.rcv.state = .full then
    match answer with
    | .failed | .active => none
    | .delayed _ | .success _ => some { input.rcv with state := .invalid }
  else
    match input.rc with
    | none => some input.rcv
    | some rc =>
      let load : Load := ⟨rc, input.rcv.size, input.address, input.size, input.signExtend, input.fid⟩
      -- the range from which a register is cleared
      if 4 ≤ input.address.toNat ∧ input.address.toNat < 8 then some (.makeEmpty input.rcv.size)
      else
        match answer with
        | .failed | .active => none
        | .delayed reg =>
          some (if ioMatch then { memoryStageDelayed lineSize load none with
            memory := ⟨none, input.fid, input.size, 0, input.signExtend⟩ } else memoryStageDelayed lineSize load reg)
        | .success data => some (memoryStageSuccess t load data)

def ExecuteMemoryLatch.handOver (input : ExecuteMemoryLatch) (rcv : PipeValue) : MemoryWritebackLatch :=
  ⟨input.tid, input.fid, input.swch, input.kill, input.suspend, input.rc, rcv, input.rrc⟩

/-- `RegisterFile::WriteRegister` on one register: the threads that it activates, if there
are any. Without them `activated` does not matter; where they cannot be activated the write is refused. -/
def writeRegister {t : Target} (old data : RegValue t) (fromMemory activated : Bool) :
    Except WritebackFault (Option (Option ThreadQueue)) :=
  if data.state = .invalid then .error .assertion
  else if (data.state = .empty ∨ data.state = .pending) ∧ data.waiting.head ≠ none then .error .assertion
  else if old.state = .full then .ok (some none)
  else if old.state = .waiting ∧ data.state = .empty then .error .invalidReset
  else if old.memory.size ≠ 0 ∧ (data.state = .full ∨ data.memory ≠ old.memory) ∧ fromMemory = false then
    .error .pendingLoadReset
  else if data.state = .full ∧ old.state = .waiting ∧ old.waiting.head ≠ none then
    .ok (if activated then some (some old.waiting) else none)
  else .ok (some none)

/-- What the writeback stage makes of the old and the new value of a register. -/
inductive Merged (t : Target)
  | busy
  | arrived
  | link (value : RegValue t)
  | write (value : RegValue t)

/-- The part of the writeback stage that looks at the old value. -/
def mergeValue {t : Target} (tid : Nat) (suspend : Bool) (old value : RegValue t) : Except WritebackFault (Merged t) :=
  if value.state = .waiting then
    if suspend = false then .error .assertion
    else if old.state = .full then .ok .arrived
    else if value.waiting.head ≠ some tid then .error .assertion
    else if old.state = .waiting ∧ old.waiting.head ≠ none then
      if value.waiting.tail ≠ old.waiting.tail then .error .assertion else .ok (.link value)
    else if value.waiting.tail ≠ some tid then .error .assertion
    else .ok (.link value)
  else if value.state = .pending ∧ old.state = .waiting then
    if old.memory.size ≠ 0 then .error .assertion
    else .ok (.write { value with state := .waiting, waiting := old.waiting })
  else if (old.state = .empty ∨ old.state = .pending) ∧ old.memory.size ≠ 0 then .ok .busy
  else .ok (.write value)

/-- What the other components answer in a cycle of the writeback stage. -/
structure WritebackEnv where
  sent : Bool
  port : Bool
  activated : Bool
  pendingWrites : Bool
  killed : Bool
  suspended : Bool
  rescheduled : Bool

inductive PipeAction
  | stall
  | delay
  | continue
  deriving DecidableEq

/-- The registers, the links of the threads and the writeback stage with its input. `activated`
is a record of the threads that writes have woken up. -/
structure WritebackCore (t : Target) where
  regs : RegAddr → RegValue t
  next : Nat → Option Nat
  waitingForWrites : Nat → Bool
  activated : List ThreadQueue
  stall : Bool
  writebackOffset : Option Nat
  latch : Option MemoryWritebackLatch

namespace WritebackCore
variable {t : Target}

def initial (t : Target) : WritebackCore t := ⟨fun _ => .makeEmpty t, fun _ => none, fun _ => false, [], false, none, none⟩

/-- How far the stage has come in a cycle; without `stall` and `busy` it goes on to the thread. -/
inductive Written (t : Target)
  | stall
  | busy
  | done (core : WritebackCore t) (writebackOffset : Option Nat) (suspend allowReschedule : Bool)

/-- `WriteRegister` for the pipeline; `none` where it is refused. -/
def writePipeline (s : WritebackCore t) (env : WritebackEnv) (addr : RegAddr) (value : RegValue t) :
    Except WritebackFault (Option (WritebackCore t)) :=
  (writeRegister (s.regs addr) value false env.activated).map fun result => result.map fun woken =>
    { s with regs := Function.update s.regs addr value, activated := woken.toList ++ s.activated }

/-- The write of one register. -/
def writeTo (s : WritebackCore t) (env : WritebackEnv) (input : MemoryWritebackLatch) (suspend : Bool) (offset : Nat)
    (addr : RegAddr) (value : RegValue t) : Except WritebackFault (Written t) :=
  let old := s.regs addr
  -- a write that wakes up threads leaves no place for the thread itself
  let allowReschedule := !(value.state = .full && old.state = .waiting)
  let written (core : Option (WritebackCore t)) : Written t :=
    match core with
    | none => .stall
    | some core => .done core (some (offset + 1)) suspend allowReschedule
  if env.port = false then .ok .stall
  else (mergeValue input.tid suspend old value).bind fun
    | .busy => .ok .busy
    | .arrived => .ok (.done s (some (offset + 1)) false true)
    | .link value =>
      ({ s with next := Function.update s.next input.tid old.waiting.head }.writePipeline env addr value).map written
    | .write value => (s.writePipeline env addr value).map written

/-- The writeback of the next register, if there is one. -/
def writeValue (s : WritebackCore t) (env : WritebackEnv) (input : MemoryWritebackLatch) :
    Except WritebackFault (Written t) :=
  let suspend := decide (input.suspend ≠ .none)
  if input.rcv.state ≠ .invalid then
    if input.rcv.size % t.sizeofInteger ≠ 0 then .error .assertion
    else
      let offset := s.writebackOffset.getD 0
      if offset < input.rcv.size / t.sizeofInteger then
        match input.rc with
        | some rc =>
          s.writeTo env input suspend offset ⟨rc.type, rc.index + offset⟩ (writebackValue t input.rcv offset)
        | none => .ok (.done s (some (offset + 1)) suspend true)
      else .ok (.done s (some offset) suspend true)
  else if input.suspend = .memoryBarrier then
    let s := if env.pendingWrites then
      { s with waitingForWrites := Function.update s.waitingForWrites input.tid true } else s
    .ok (.done s s.writebackOffset env.pendingWrites true)
  else .ok (.done s s.writebackOffset suspend true)

/-- The number of the registers that are written, `none` if there is no value. -/
def registers (t : Target) (input : MemoryWritebackLatch) : Option Nat :=
  if input.rcv.state = .invalid then none else some (input.rcv.size / t.sizeofInteger)

/-- The end of `OnCycle`: when all registers have been written the thread goes on, and where that
fails nothing is committed. -/
def finish (s : WritebackCore t) (env : WritebackEnv) (input : MemoryWritebackLatch) (written : WritebackCore t)
    (offset : Option Nat) (suspend allowReschedule : Bool) : Except WritebackFault (PipeAction × WritebackCore t) :=
  let next (success : Bool) : PipeAction × WritebackCore t :=
    if success then (.continue, { written with writebackOffset := none, latch := none }) else (.stall, s)
  if offset ≠ registers t input then .ok (.delay, { written with writebackOffset := offset })
  else if input.swch = false then .ok (next true)
  else if input.kill then if suspend then .error .assertion else .ok (next env.killed)
  else if suspend then .ok (next env.suspended)
  else if allowReschedule then .ok (next env.rescheduled)
  -- the thread is rescheduled in the next cycle
  else .ok (.delay, { written with writebackOffset := offset })

/-- `OnCycle`. -/
def onCycle (s : WritebackCore t) (env : WritebackEnv) (input : MemoryWritebackLatch) :
    Except WritebackFault (PipeAction × WritebackCore t) :=
  if s.stall then .ok (.stall, { s with stall := false })
  else if input.rrc ∧ env.sent = false then .ok (.stall, s)
  else (s.writeValue env input).bind fun
    | .stall => .ok (.stall, s)
    | .busy => .ok (.delay, { s with stall := true })
    | .done written offset suspend allowReschedule => s.finish env input written offset suspend allowReschedule

/-- A full value that is written by another component: by the memory, or by the network or a floating point unit. -/
def receive (s : WritebackCore t) (addr : RegAddr) (value : Integer t) (fromMemory : Bool) : Option (WritebackCore t) :=
  match writeRegister (s.regs addr) (.makeFull value) fromMemory true with
  | .ok (some woken) => some { s with
      regs := Function.update s.regs addr (.makeFull value), activated := woken.toList ++ s.activated }
  | _ => none

/-- `RegisterFile::Clear`. -/
def clear (s : WritebackCore t) (addr : RegAddr) (size : Nat) : WritebackCore t :=
  { s with regs := fun reg => if reg.Within addr size then .makeEmpty t else s.regs reg }

/-- What happens to the registers. The memory stage hands over a value when the writeback stage is free. -/
inductive Event (t : Target)
  | handOver (lineSize : Nat) (input : ExecuteMemoryLatch) (ioMatch : Bool) (answer : MemoryAnswer)
  | cycle (env : WritebackEnv)
  | receive (addr : RegAddr) (value : Integer t) (fromMemory : Bool)
  | clear (addr : RegAddr) (size : Nat)

def step (s : WritebackCore t) : Event t → Option (WritebackCore t)
  | .handOver lineSize input ioMatch answer =>
    if s.latch.isSome then none
    else (memoryStage t lineSize input ioMatch answer).map fun rcv => { s with latch := some (input.handOver rcv) }
  | .cycle env =>
    match s.latch with
    | none => none
    | some input =>
      match s.onCycle env input with
      | .ok (_, s) => some s
      | .error _ => none
  | .receive addr value fromMemory => s.receive addr value fromMemory
  | .clear addr size => some (s.clear addr size)

end WritebackCore

end Mgsim.Drisc
