import Mgsim.Drisc.DCache

namespace Mgsim.Drisc
open Mgsim.Mmu

/-- `EndianToInteger`. -/
def endianToInteger (t : Target) (data : List Byte) : BitVec 64 :=
  if t.isBigEndian then data.foldl (fun value byte => (value <<< 8) + byte.setWidth 64) 0
  else data.foldr (fun byte value => (value <<< 8) + byte.setWidth 64) 0

/-- `MAP_S`: the exponent of an S_Floating as that of a T_Floating. -/
def mapS (exp : BitVec 64) : BitVec 64 :=
  if exp = 0xFF then 0x7FF
  else if exp = 0 then 0
  else if exp &&& 0x80 ≠ 0 then 0x400 ||| (exp &&& 0x7F)
  else 0x380 ||| (exp &&& 0x7F)

/-- `UnserializeRegister`. -/
def unserializeRegister (t : Target) (type : RegType) (data : List Byte) : BitVec 64 :=
  let value := endianToInteger t data
  match type with
  | .integer => if t ≠ .mtsparc ∧ data.length = 4 then (value.setWidth 32).signExtend 64 else value
  | .float =>
    if t = .mtalpha ∧ data.length = 4 then
      (((value >>> 31) &&& 1) <<< 63) ||| (mapS ((value >>> 23) &&& 0xFF) <<< 52) ||| ((value &&& 0x7FFFFF) <<< 29)
    else value

/-- The sign extension of a value of `size` bytes by two shifts. -/
def signExtended (size : Nat) (value : BitVec 64) : BitVec 64 :=
  (value <<< ((8 - size) * 8)).sshiftRight ((8 - size) * 8)

/-- A load in the latch before the memory stage: `Rc`, `Rcv.m_size`, `address`,
`size`, `sign_extend` and `fid`. -/
structure Load where
  rc : RegAddr
  rcvSize : Nat
  address : Addr
  size : Nat
  signExtend : Bool
  fid : Nat
  deriving DecidableEq

/-- The number of registers that a load of `size` bytes fills. -/
def Load.registers (t : Target) (load : Load) : Nat := (load.size + t.sizeofInteger - 1) / t.sizeofInteger

/-- What the decoder promises of a load: one to eight bytes, for an operand of whole registers. -/
structure Load.Decoded (t : Target) (load : Load) : Prop where
  positive : 0 < load.size
  small : load.size ≤ 8
  operand : load.rcvSize = load.registers t * t.sizeofInteger

/-- `m_input.address % m_dcache.GetLineSize()`. -/
def Load.offset (lineSize : Nat) (load : Load) : Nat := load.address.toNat % lineSize

/-- The bytes of a line that a load reads. -/
def Load.bytes (lineSize : Nat) (load : Load) (line : Nat → Byte) : List Byte :=
  (List.range load.size).map fun i => line (load.offset lineSize + i)

/-- The memory stage on a load that hits in the cache. -/
def memoryStageSuccess (t : Target) (load : Load) (data : List Byte) : PipeValue :=
  let value := unserializeRegister t load.rc.type data
  let value := if load.signExtend then signExtended load.size value else value
  ⟨.full, load.rcvSize, multiSet value load.rcvSize, .empty, .none⟩

/-- The memory stage on a load that the cache delays; `reg` is the register
that waited for the line before. -/
def memoryStageDelayed (lineSize : Nat) (load : Load) (reg : Option RegAddr) : PipeValue :=
  { PipeValue.makePending load.rcvSize with
    memory := ⟨reg, load.fid, load.size, load.offset lineSize, load.signExtend⟩ }

/-- The register value that the writeback stage takes from its input. The byte
order is chosen with `#ifdef ARCH_BIG_ENDIAN`, which is defined for every target. -/
def writebackValue (t : Target) (rcv : PipeValue) (writebackOffset : Nat) : RegValue t :=
  match rcv.state with
  | .full => .makeFull (operandWord t rcv.value rcv.size writebackOffset)
  | state =>
    if writebackOffset = 0 then { RegValue.makeEmpty t with state, waiting := rcv.waiting, memory := rcv.memory }
    else { RegValue.makeEmpty t with state }

/-- A pending value that meets a waiting register takes over its threads. -/
def combineWaiting {t : Target} (old value : RegValue t) : RegValue t :=
  if value.state = .pending ∧ old.state = .waiting then { value with state := .waiting, waiting := old.waiting }
  else value

/-- The registers of an operand are `count` registers from `rc` on. -/
def RegAddr.Within (addr rc : RegAddr) (count : Nat) : Prop :=
  addr.type = rc.type ∧ rc.index ≤ addr.index ∧ addr.index < rc.index + count

instance (addr rc : RegAddr) (count : Nat) : Decidable (addr.Within rc count) := inferInstanceAs (Decidable (_ ∧ _ ∧ _))

/-- The writeback stage has written all the registers of its input, one a cycle. -/
def writebackAll (t : Target) (rc : RegAddr) (rcv : PipeValue) (regs : RegAddr → RegValue t) : RegAddr → RegValue t :=
  (List.range (rcv.size / t.sizeofInteger)).foldl (fun regs i =>
    let addr : RegAddr := ⟨rc.type, rc.index + i⟩
    Function.update regs addr (combineWaiting (regs addr) (writebackValue t rcv i))) regs

/-- `WritebackState`. -/
structure WritebackState where
  value : BitVec 64
  addr : Option RegAddr
  next : Option RegAddr
  size : Nat
  offset : Nat
  fid : Nat
  deriving DecidableEq

def WritebackState.initial : WritebackState := ⟨0, none, none, 0, 0, 0⟩

/-- What `DoReadWritebacks` works on: the queue of completed lines, its own
state, the registers, and the families whose outstanding reads it has decreased. -/
structure ReadWritebacks (t : Target) where
  writebacks : List WritebackRequest
  wbstate : WritebackState
  regs : RegAddr → RegValue t
  completed : List Nat

namespace ReadWritebacks
variable {t : Target}

/-- The start of a register write: the value of the load that waits in `state.next`. -/
def begin (s : ReadWritebacks t) (req : WritebackRequest) (state : WritebackState) (reg : RegAddr) :
    Except Fault (Option WritebackState) :=
  let value := s.regs reg
  if value.state = .full ∨ value.memory.size = 0 then .ok none
  else if value.state ≠ .pending ∧ value.state ≠ .waiting then .ok none
  else
    let data := (List.range value.memory.size).map fun i => req.data (value.memory.offset + i)
    let loaded := unserializeRegister t reg.type data
    let size := (value.memory.size + t.sizeofInteger - 1) / t.sizeofInteger
    if value.memory.signExtend ∧ t.sizeofInteger ≤ value.memory.size then .error .assertion
    else if size &&& (size - 1) ≠ 0 then .error .assertion
    else .ok (some { state with
      value := if value.memory.signExtend then signExtended value.memory.size loaded else loaded
      fid := value.memory.fid, addr := some reg, next := value.memory.next, offset := 0, size := size })

/-- The word of a multi-register value that is written now. -/
def word (t : Target) (state : WritebackState) : Integer t :=
  if t.isBigEndian then (state.value >>> ((state.size - 1 - state.offset) * t.sizeofInteger * 8)).setWidth _
  else (state.value >>> (state.offset * t.sizeofInteger * 8)).setWidth _

/-- The register is written. After the last register of a line the request is done. -/
def finish (s : ReadWritebacks t) (rest : List WritebackRequest) (state : WritebackState) (addr : RegAddr) :
    ReadWritebacks t :=
  let regs := Function.update s.regs addr (.makeFull (word t state))
  let state := { state with offset := state.offset + 1, addr := some ⟨addr.type, addr.index + 1⟩ }
  if state.offset = state.size then
    if state.next.isNone then ⟨rest, .initial, regs, s.completed ++ [state.fid]⟩
    else ⟨s.writebacks, state, regs, s.completed ++ [state.fid]⟩
  else ⟨s.writebacks, state, regs, s.completed⟩

/-- The second half of a cycle: the write of one register. -/
def write (s : ReadWritebacks t) (rest : List WritebackRequest) (state : WritebackState) :
    Except Fault (Result × ReadWritebacks t) :=
  if state.size ≤ state.offset then .error .assertion
  else match state.addr with
    | none => .error .assertion
    | some addr => .ok (.success, s.finish rest state addr)

/-- `DoReadWritebacks`. In a cycle that is not `available` the write port, the
wake-up of threads or the family's counter refuses, and nothing changes. -/
def doReadWritebacks (s : ReadWritebacks t) (available : Bool) : Except Fault (Result × ReadWritebacks t) :=
  if !available then .ok (.failed, s)
  else match s.writebacks with
    | [] => .error .assertion
    | req :: rest =>
      if s.wbstate.offset = s.wbstate.size then
        match s.begin req s.wbstate (s.wbstate.next.getD req.waiting) with
        | .error e => .error e
        | .ok none => .ok (.failed, s)
        | .ok (some state) => s.write rest state
      else s.write rest s.wbstate

/-- A number of cycles, each available or not. -/
def cycles (s : ReadWritebacks t) : List Bool → Except Fault (ReadWritebacks t)
  | [] => .ok s
  | available :: rest =>
    match s.doReadWritebacks available with
    | .error e => .error e
    | .ok (_, s) => s.cycles rest

end ReadWritebacks
end Mgsim.Drisc
