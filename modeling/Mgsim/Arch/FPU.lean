import Mathlib.Logic.Function.Basic
import Mgsim.Lib.Search
import Mgsim.Drisc.Register

namespace Mgsim.Arch
open Mgsim.Lib Mgsim.Drisc

inductive FPUOperation
  | add | sub | mul | div | sqrt
deriving DecidableEq

/-- What the configuration gives for one unit. -/
structure UnitConf where
  latency : Nat
  pipelined : Bool
  ops : List FPUOperation

/-- The configuration of an FPU. The floating point arithmetic of the host is a parameter: the bits of the result of an
operation, by its size. -/
structure FPUConf (t : Target) where
  units : List UnitConf
  numSources : Nat
  inputQueueSize : Nat
  compute : FPUOperation → Nat → BitVec 64 → BitVec 64 → BitVec 64

variable {t : Target}

/-- The checks of the constructor. -/
def FPUConf.Accepted (c : FPUConf t) : Prop := c.units ≠ [] ∧ ∀ unit ∈ c.units, unit.ops ≠ []

abbrev FPUConf.UnitId (c : FPUConf t) : Type := Fin c.units.length

abbrev FPUConf.SourceId (c : FPUConf t) : Type := Fin c.numSources

/-- `m_mapping`: the units that have an operation. -/
def FPUConf.mapping (c : FPUConf t) (op : FPUOperation) : List c.UnitId :=
  (List.finRange c.units.length).filter fun i => op ∈ (c.units.get i).ops

/-- The number of registers that a value fills. -/
def registers (t : Target) (size : Nat) : Nat := size / t.sizeofInteger

structure Operation where
  op : FPUOperation
  size : Nat
  rav : BitVec 64
  rbv : BitVec 64
  rc : RegAddr
  /-- the number of the operation among those that have been queued -/
  id : Nat

structure OpResult (c : FPUConf t) where
  address : RegAddr
  value : BitVec 64
  source : c.SourceId
  size : Nat
  state : Nat
  index : Nat
  id : Nat

/-- A register that a unit has written. -/
structure FPUWrite (c : FPUConf t) where
  id : Nat
  source : c.SourceId
  address : RegAddr
  value : Integer t
  unit : c.UnitId
  cycle : Nat

/-- Where an operation is. -/
inductive Place (c : FPUConf t)
  | queued (source : c.SourceId)
  | running (unit : c.UnitId)
  | completed

/-- The state of an FPU. The last four fields are a record of what has happened; the code has no such thing. -/
structure FPU (c : FPUConf t) where
  slots : c.UnitId → List (OpResult c)
  inputs : c.SourceId → List Operation
  lastWrite : c.SourceId → Nat
  lastUnit : c.SourceId → Nat
  lastSource : Nat
  active : Bool
  now : Nat
  accepted : List (c.SourceId × Operation)
  writes : List (FPUWrite c)
  place : Nat → Place c
  entered : c.UnitId → List Nat
  left : c.UnitId → List Nat

namespace FPU
variable {c : FPUConf t}

def initial (c : FPUConf t) : FPU c where
  slots _ := []
  inputs _ := []
  lastWrite _ := 0
  lastUnit _ := 0
  lastSource := 0
  active := false
  now := 0
  accepted := []
  writes := []
  place _ := .completed
  entered _ := []
  left _ := []

def push (s : FPU c) (source : c.SourceId) (op : Operation) : FPU c :=
  { s with
    inputs := Function.update s.inputs source (s.inputs source ++ [op])
    accepted := s.accepted ++ [(source, op)]
    place := Function.update s.place op.id (.queued source) }

/-- `QueueOperation`, for what its assertions and its comment allow; `none` where the queue is full. -/
def queueOperation (s : FPU c) (source : c.SourceId) (fop : FPUOperation) (size : Nat) (rav rbv : BitVec 64) (rc : RegAddr) :
    Option (FPU c) :=
  if (size = 4 ∨ size = 8) ∧ size % t.sizeofInteger = 0 ∧ (s.inputs source).length < c.inputQueueSize then
    some (s.push source ⟨fop, size, rav, rbv, rc, s.accepted.length⟩)
  else none

/-- `CalculateResult`, with the source that `DoPipeline` adds. -/
def calculateResult (source : c.SourceId) (op : Operation) : OpResult c where
  address := op.rc
  value := c.compute op.op op.size op.rav op.rbv
  source := source
  size := op.size
  state := 1
  index := 0
  id := op.id

/-- The register that `OnCompletion` writes. Whatever the target, `ARCH_BIG_ENDIAN` is a macro that is defined. -/
def register (res : OpResult c) : RegAddr × Integer t :=
  let index := registers t res.size - 1 - res.index
  (⟨res.address.type, res.address.index + res.index⟩, (res.value >>> (t.sizeofInteger * 8 * index)).setWidth _)

/-- `m_last_write` and `m_last_unit` of a source. -/
def mark (s : FPU c) (unit : c.UnitId) (source : c.SourceId) : FPU c :=
  { s with
    lastWrite := Function.update s.lastWrite source s.now
    lastUnit := Function.update s.lastUnit source unit }

/-- `WriteFPUResult`. -/
def write (s : FPU c) (unit : c.UnitId) (res : OpResult c) : FPU c :=
  { s with writes := s.writes ++ [⟨res.id, res.source, (register res).1, (register res).2, unit, s.now⟩] }

/-- `OnCompletion`, with the answer of the register file. It marks its source in every phase of a cycle. -/
def onCompletion (s : FPU c) (commit ready : Bool) (unit : c.UnitId) (res : OpResult c) : Bool × FPU c :=
  if s.lastWrite res.source = s.now ∧ s.lastUnit res.source ≠ unit then (false, s)
  else
    let s := s.mark unit res.source
    if ready then (true, if commit then s.write unit res else s) else (false, s)

/-- `DoPipeline` on its way, with its counters. -/
structure Pass (c : FPUConf t) where
  fpu : FPU c
  unitsActive : Nat
  unitsFailed : Nat
  unitsFull : Nat
  sourcesActive : Nat
  sourcesFailed : Nat

/-- `p.state++`, on an `unsigned`. -/
def bump (res : OpResult c) : OpResult c := { res with state := (res.state + 1) % 2 ^ 32 }

def setSlots (s : FPU c) (i : c.UnitId) (slots : List (OpResult c)) : FPU c :=
  { s with slots := Function.update s.slots i slots }

/-- The last register of the result at the front has been written. -/
def complete (s : FPU c) (i : c.UnitId) (res : OpResult c) (rest : List (OpResult c)) : FPU c :=
  { s with
    slots := Function.update s.slots i (rest.map bump)
    place := Function.update s.place res.id .completed
    left := Function.update s.left i (s.left i ++ [res.id]) }

/-- The first loop of `DoPipeline`, for one unit. -/
def advanceUnit (commit : Bool) (ready : c.UnitId → Bool) (p : Pass c) (i : c.UnitId) : Pass c :=
  match p.fpu.slots i with
  | [] => p
  | res :: rest =>
    let p := { p with unitsActive := p.unitsActive + 1, unitsFull := p.unitsFull + 1 }
    if res.state = (c.units.get i).latency then
      let (done, s) := onCompletion p.fpu commit (ready i) i res
      if done = false then { p with fpu := s, unitsFailed := p.unitsFailed + 1 }
      else if res.index + 1 = registers t res.size then
        { p with
          fpu := if commit then s.complete i res rest else s
          unitsFull := if rest.isEmpty then p.unitsFull - 1 else p.unitsFull }
      else { p with fpu := if commit then s.setSlots i ({ res with index := res.index + 1 } :: rest) else s }
    else { p with fpu := if commit then p.fpu.setSlots i ((res :: rest).map bump) else p.fpu }

/-- The unit that takes the operations of a source. -/
def unitOf (source : c.SourceId) (op : FPUOperation) : Option c.UnitId :=
  (c.mapping op)[source.val % (c.mapping op).length]?

/-- A unit that cannot take an operation now. -/
def busy (s : FPU c) (i : c.UnitId) : Bool :=
  match (s.slots i).getLast? with
  | none => false
  | some back => !(c.units.get i).pipelined || back.state = 1

/-- The operation at the front of a queue goes to a unit. -/
def accept (s : FPU c) (source : c.SourceId) (i : c.UnitId) (op : Operation) (rest : List Operation) : FPU c :=
  { s with
    slots := Function.update s.slots i (s.slots i ++ [calculateResult source op])
    inputs := Function.update s.inputs source rest
    place := Function.update s.place op.id (.running i)
    entered := Function.update s.entered i (s.entered i ++ [op.id]) }

/-- The second loop of `DoPipeline`, for one source; `none` where no unit has the operation and the host divides by 0. -/
def feedUnit (commit : Bool) (p : Pass c) (source : c.SourceId) : Option (Pass c) :=
  match p.fpu.inputs source with
  | [] => some p
  | op :: rest =>
    let p := { p with sourcesActive := p.sourcesActive + 1 }
    match unitOf source op.op with
    | none => none
    | some i =>
      if p.fpu.busy i then some { p with sourcesFailed := p.sourcesFailed + 1 }
      else some { p with
        fpu := if commit then p.fpu.accept source i op rest else p.fpu
        unitsFull := p.unitsFull + 1 }

/-- The sources in the order in which they have their turn. -/
def rotated (c : FPUConf t) (last : Nat) : List c.SourceId := rotation c.numSources last

/-- The first loop of `DoPipeline`. -/
def advanceUnits (commit : Bool) (ready : c.UnitId → Bool) (s : FPU c) : Pass c :=
  (List.finRange c.units.length).foldl (advanceUnit commit ready) ⟨s, 0, 0, 0, 0, 0⟩

/-- The second loop of `DoPipeline`. -/
def feedUnits (commit : Bool) (p : Pass c) : Option (Pass c) := (rotated c p.fpu.lastSource).foldlM (feedUnit commit) p

/-- `DoPipeline` in the phase that checks or in the one that commits, and whether it succeeds. -/
def doPipeline (commit : Bool) (ready : c.UnitId → Bool) (s : FPU c) : Option (FPU c × Bool) :=
  match feedUnits commit (advanceUnits commit ready s) with
  | none => none
  | some p =>
    let s := if commit then
        { p.fpu with lastSource := (p.fpu.lastSource + 1) % c.numSources, active := 0 < p.unitsFull }
      else p.fpu
    some (s, !(p.unitsFailed = p.unitsActive && p.sourcesFailed = p.sourcesActive))

/-- The process is called while `m_active` is set or an operation waits. -/
def awake (s : FPU c) : Bool := s.active || (List.finRange c.numSources).any fun source => !(s.inputs source).isEmpty

/-- A cycle of the kernel, with the answers of the register files: the process commits if its check succeeds. -/
def cycle (ready : c.UnitId → Bool) (s : FPU c) : Option (FPU c) :=
  if s.awake then
    match doPipeline false ready s with
    | none => none
    | some (checked, false) => some { checked with now := s.now + 1 }
    | some (checked, true) => (doPipeline true ready checked).map fun p => { p.1 with now := s.now + 1 }
  else some { s with now := s.now + 1 }

inductive Event (c : FPUConf t)
  | queue (source : c.SourceId) (fop : FPUOperation) (size : Nat) (rav rbv : BitVec 64) (rc : RegAddr)
  | cycle (ready : c.UnitId → Bool)

def step (s : FPU c) : Event c → Option (FPU c)
  | .queue source fop size rav rbv rc => s.queueOperation source fop size rav rbv rc
  | .cycle ready => s.cycle ready

end FPU
end Mgsim.Arch
