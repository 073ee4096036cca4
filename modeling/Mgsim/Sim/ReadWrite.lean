import Mgsim.Lib.Pointwise
import Mgsim.Lib.SortedMap
import Mgsim.Sim.Ports

namespace Mgsim.Sim
open Mgsim.Lib

/-- `WritePort`, with what `GetIndex` returns: the position that is requested, as long as the request is valid. -/
structure WritePort (ι : Type) where
  index : Option ι
  chosen : Bool

/-- `ArbitratedWritePort`. -/
structure ArbitratedWritePort (α ι : Type) extends SimpleArbitratedPort α, WritePort ι where
  indices : α → Option ι

/-- `DedicatedWritePort`. -/
structure DedicatedWritePort (α ι : Type) extends WritePort ι where
  process : Option α

/-- A pointer to a `WritePort`, which is one of either kind. -/
inductive WritePortRef (ω δ : Type)
  | arbitrated (port : ω)
  | dedicated (port : δ)
  deriving DecidableEq

/-- `ReadWriteStructure` with its ports. -/
structure ReadWriteStructure (α ι ρ ω δ : Type) where
  readPorts : List ρ
  writePorts : List (WritePortRef ω δ)
  arbitratedWritePorts : List ω
  priorities : List (WritePortRef ω δ)
  readPort : ρ → SimpleArbitratedPort α
  arbitratedPort : ω → ArbitratedWritePort α ι
  dedicatedPort : δ → DedicatedWritePort α ι

variable {α ι ρ ω δ : Type}

namespace WritePort

def create : WritePort ι := ⟨none, false⟩

/-- `SetRequestIndex`; `none` where its assertion fails. -/
def setRequestIndex (port : WritePort ι) (index : ι) : Option (WritePort ι) :=
  match port.index with
  | none => some ⟨some index, false⟩
  | some _ => none

def notify (chosen : Bool) : WritePort ι := ⟨none, chosen⟩

end WritePort

namespace ArbitratedWritePort
variable [DecidableEq α]

def create : ArbitratedWritePort α ι := ⟨.create, .create, fun _ => none⟩

def addRequest (port : ArbitratedWritePort α ι) (process : α) (index : ι) (c : CycleNo) :
    Option (ArbitratedWritePort α ι) :=
  (port.toSimpleArbitratedPort.addRequest process c).map fun simple =>
    ⟨simple, port.toWritePort, Function.update port.indices process (some index)⟩

/-- `Arbitrate`; `none` where one of its assertions fails. -/
def arbitrate (port : ArbitratedWritePort α ι) : Option (ArbitratedWritePort α ι) :=
  port.arbitratePriority.bind fun simple =>
    match simple.selected with
    | none => some ⟨simple, port.toWritePort, port.indices⟩
    | some process =>
      (port.indices process).bind fun index =>
        (port.setRequestIndex index).map fun write => ⟨simple, write, port.indices⟩

end ArbitratedWritePort

/-- The calls of `Read` and `Write` on the ports that take part in the arbitration. -/
inductive PortRequest (α ι ρ ω δ : Type)
  | read (port : ρ) (process : α)
  | write (port : ω) (process : α) (index : ι)
  | dedicatedWrite (port : δ) (process : α) (index : ι)

namespace ReadWriteStructure
variable [DecidableEq α] [LinearOrder ι] [DecidableEq ρ] [DecidableEq ω] [DecidableEq δ]

def create : ReadWriteStructure α ι ρ ω δ :=
  ⟨[], [], [], [], fun _ => .create, fun _ => .create, fun _ => ⟨.create, none⟩⟩

variable (s : ReadWriteStructure α ι ρ ω δ)

/-- The constructor of an `ArbitratedReadPort`. -/
def registerReadPort (r : ρ) : Option (ReadWriteStructure α ι ρ ω δ) :=
  if r ∈ s.readPorts then none else some { s with readPorts := s.readPorts ++ [r] }

/-- The constructor of a `DedicatedWritePort`. -/
def registerWritePort (port : WritePortRef ω δ) : Option (ReadWriteStructure α ι ρ ω δ) :=
  if port ∈ s.writePorts then none else some { s with writePorts := s.writePorts ++ [port] }

/-- The constructor of an `ArbitratedWritePort`. -/
def registerArbitratedWritePort (w : ω) : Option (ReadWriteStructure α ι ρ ω δ) :=
  (s.registerWritePort (.arbitrated w)).map fun s => { s with arbitratedWritePorts := s.arbitratedWritePorts ++ [w] }

def addPort (port : WritePortRef ω δ) : Option (ReadWriteStructure α ι ρ ω δ) :=
  if port ∈ s.writePorts ∧ port ∉ s.priorities then some { s with priorities := s.priorities ++ [port] } else none

/-- `AddProcess` of a read port. -/
def addReadProcess (r : ρ) (process : α) : Option (ReadWriteStructure α ι ρ ω δ) :=
  ((s.readPort r).addProcess process).map fun port => { s with readPort := Function.update s.readPort r port }

/-- `AddProcess` of a write port. -/
def addWriteProcess (w : ω) (process : α) : Option (ReadWriteStructure α ι ρ ω δ) :=
  ((s.arbitratedPort w).addProcess process).map fun simple =>
    { s with
      arbitratedPort := Function.update s.arbitratedPort w
        { s.arbitratedPort w with toSimpleArbitratedPort := simple } }

/-- `SetProcess` of a dedicated port. -/
def setProcess (d : δ) (process : α) : ReadWriteStructure α ι ρ ω δ :=
  { s with dedicatedPort := Function.update s.dedicatedPort d { s.dedicatedPort d with process := some process } }

/-- A call in the acquire phase; `none` where an assertion fails. -/
def acquire (c : CycleNo) (s : ReadWriteStructure α ι ρ ω δ) :
    PortRequest α ι ρ ω δ → Option (ReadWriteStructure α ι ρ ω δ)
  | .read r process =>
    if r ∈ s.readPorts ∧ process ∈ (s.readPort r).processes then
      ((s.readPort r).addRequest process c).map fun port => { s with readPort := Function.update s.readPort r port }
    else none
  | .write w process index =>
    if w ∈ s.arbitratedWritePorts ∧ process ∈ (s.arbitratedPort w).processes then
      ((s.arbitratedPort w).addRequest process index c).map fun port =>
        { s with arbitratedPort := Function.update s.arbitratedPort w port }
    else none
  | .dedicatedWrite d process index =>
    if .dedicated d ∈ s.writePorts ∧ (s.dedicatedPort d).process = some process then
      ((s.dedicatedPort d).setRequestIndex index).map fun write =>
        { s with dedicatedPort := Function.update s.dedicatedPort d { s.dedicatedPort d with toWritePort := write } }
    else none

/-- What a call returns in the check and commit phases. -/
def granted : PortRequest α ι ρ ω δ → Bool
  | .read r process => (s.readPort r).selected = some process
  | .write w process _ => (s.arbitratedPort w).chosen && (s.arbitratedPort w).selected = some process
  | .dedicatedWrite d _ _ => (s.dedicatedPort d).chosen

def writePort : WritePortRef ω δ → WritePort ι
  | .arbitrated w => (s.arbitratedPort w).toWritePort
  | .dedicated d => (s.dedicatedPort d).toWritePort

def arbitrateReadPorts : Option (ReadWriteStructure α ι ρ ω δ) :=
  (forEach SimpleArbitratedPort.arbitratePriority s.readPorts s.readPort).map fun table => { s with readPort := table }

def arbitrateWritePorts : Option (ReadWriteStructure α ι ρ ω δ) :=
  (forEach ArbitratedWritePort.arbitrate s.arbitratedWritePorts s.arbitratedPort).map fun table =>
    { s with arbitratedPort := table }

/-- The ports that request each index. -/
def requestPortMap : SortedMap ι (List (WritePortRef ω δ)) :=
  s.writePorts.foldl
    (fun requests port =>
      match (s.writePort port).index with
      | some index => requests.update index [] (· ++ [port])
      | none => requests)
    SortedMap.empty

/-- The port that comes first in the order of the priorities. -/
def selectPort (ports : List (WritePortRef ω δ)) : Option (WritePortRef ω δ) :=
  (least s.priorities.idxOf (fun _ => true) s.priorities.length ports).2

/-- `Notify` of one port. -/
def notify (chosen : Bool) : WritePortRef ω δ → ReadWriteStructure α ι ρ ω δ
  | .arbitrated w =>
    { s with
      arbitratedPort := Function.update s.arbitratedPort w { s.arbitratedPort w with toWritePort := .notify chosen } }
  | .dedicated d =>
    { s with
      dedicatedPort := Function.update s.dedicatedPort d { s.dedicatedPort d with toWritePort := .notify chosen } }

/-- The selection among the ports that request the same index is reported to all of them. -/
def report (ports : List (WritePortRef ω δ)) : ReadWriteStructure α ι ρ ω δ :=
  let selected := s.selectPort ports
  ports.foldl (fun s port => s.notify (selected = some port) port) s

/-- `OnArbitrate`; `none` where an assertion fails. -/
def onArbitrate : Option (ReadWriteStructure α ι ρ ω δ) :=
  s.arbitrateReadPorts.bind fun s =>
    s.arbitrateWritePorts.map fun s => s.requestPortMap.entries.foldl (fun s request => s.report request.2) s

/-- The acquire phase of a cycle, and the arbitration when somebody has asked for it. -/
def cycle (c : CycleNo) (requests : List (PortRequest α ι ρ ω δ)) : Option (ReadWriteStructure α ι ρ ω δ) :=
  (requests.foldlM (acquire c) s).bind fun s => if requests = [] then some s else s.onArbitrate

end ReadWriteStructure

end Mgsim.Sim
