namespace Mgsim.Drisc

inductive RegType
  | integer
  | float
  deriving DecidableEq

structure RegAddr where
  type : RegType
  index : Nat
  deriving DecidableEq

/-- The instruction sets for which the simulator is built. -/
inductive Target
  | mtalpha
  | mtsparc
  | mips32
  | mips32el
  | or1k
  deriving DecidableEq

/-- `ARCH_ENDIANNESS == ARCH_BIG_ENDIAN`. -/
def Target.isBigEndian : Target → Bool
  | .mtalpha | .mips32el => false
  | .mtsparc | .mips32 | .or1k => true

/-- `sizeof(Integer)`. -/
def Target.sizeofInteger : Target → Nat
  | .mtalpha => 8
  | .mtsparc | .mips32 | .mips32el | .or1k => 4

abbrev Integer (t : Target) : Type := BitVec (8 * t.sizeofInteger)

inductive RegState
  | invalid
  | empty
  | pending
  | waiting
  | full
  deriving DecidableEq

/-- A list of threads that are linked in the thread table; `none` is `INVALID_TID`. -/
structure ThreadQueue where
  head : Option Nat
  tail : Option Nat
  deriving DecidableEq

/-- The load that a pending register is the target of. -/
structure MemoryRequest where
  next : Option RegAddr
  fid : Nat
  size : Nat
  offset : Nat
  signExtend : Bool
  deriving DecidableEq

/-- A register. Only a full one has a value, and only the others have the
lists, which share their place with the value. -/
structure RegValue (t : Target) where
  state : RegState
  value : Integer t
  waiting : ThreadQueue
  memory : MemoryRequest
  deriving DecidableEq

/-- A register operand on its way through the pipeline, `size` bytes wide. -/
structure PipeValue where
  state : RegState
  size : Nat
  value : BitVec 64
  waiting : ThreadQueue
  memory : MemoryRequest
  deriving DecidableEq

def ThreadQueue.empty : ThreadQueue := ⟨none, none⟩

def MemoryRequest.none : MemoryRequest := ⟨Option.none, 0, 0, 0, false⟩

/-- `MAKE_EMPTY_REG`. -/
def RegValue.makeEmpty (t : Target) : RegValue t := ⟨.empty, 0, .empty, .none⟩

/-- A full register. -/
def RegValue.makeFull {t : Target} (value : Integer t) : RegValue t :=
  { RegValue.makeEmpty t with state := .full, value := value }

/-- `MAKE_EMPTY_PIPEVALUE`. -/
def PipeValue.makeEmpty (size : Nat) : PipeValue := ⟨.empty, size, 0, .empty, .none⟩

/-- `MAKE_PENDING_PIPEVALUE`. -/
def PipeValue.makePending (size : Nat) : PipeValue := ⟨.pending, size, 0, .empty, .none⟩

/-- `MultiInteger::get` and `MultiFloat::toint`; other sizes than these are unreachable. -/
def multiGet (value : BitVec 64) (size : Nat) : BitVec 64 :=
  if size = 8 then value else (value.setWidth 32).setWidth 64

/-- `MultiInteger::set` and `MultiFloat::fromint`. -/
def multiSet (value : BitVec 64) (size : Nat) : BitVec 64 :=
  if size = 8 then value else (value.setWidth 32).setWidth 64

/-- The value of the register with this number in an operand of `size` bytes:
the first register has the highest part. -/
def operandWord (t : Target) (value : BitVec 64) (size number : Nat) : Integer t :=
  (multiGet value size >>> ((size / t.sizeofInteger - 1 - number) * 8 * t.sizeofInteger)).setWidth _

end Mgsim.Drisc
