import Mathlib.Data.BitVec
import Mathlib.Data.List.Nodup
import Mgsim.Lib.Search

namespace Mgsim.Sim
open Mgsim.Lib

abbrev CycleNo := BitVec 64

/-- `SimpleArbitratedPort`, over the processes that may access it. -/
structure SimpleArbitratedPort (α : Type) where
  processes : List α
  requests : List α
  lastRequest : CycleNo
  selected : Option α

/-- `CyclicArbitratedPort`. -/
structure CyclicArbitratedPort (α : Type) extends SimpleArbitratedPort α where
  lastSelected : Nat

/-- `PriorityCyclicArbitratedPort`; the inherited processes are the ones with a priority. -/
structure PriorityCyclicArbitratedPort (α : Type) extends CyclicArbitratedPort α where
  cyclicProcesses : List α

variable {α : Type} [DecidableEq α]

namespace SimpleArbitratedPort

def create : SimpleArbitratedPort α := ⟨[], [], -1, none⟩

/-- `AddProcess`; `none` where its assertion fails. -/
def addProcess (port : SimpleArbitratedPort α) (process : α) : Option (SimpleArbitratedPort α) :=
  if process ∈ port.processes then none else some { port with processes := port.processes ++ [process] }

/-- `AddRequest`; a process may come again before the arbitration, in another cycle. -/
def addRequest (port : SimpleArbitratedPort α) (process : α) (c : CycleNo) : Option (SimpleArbitratedPort α) :=
  if process ∈ port.requests then if c = port.lastRequest then none else some port
  else some { port with requests := port.requests ++ [process], lastRequest := c }

section
variable {port after : SimpleArbitratedPort α} {process : α} {c : CycleNo}

theorem addProcess_eq_some (done : port.addProcess process = some after) :
    process ∉ port.processes ∧ after = { port with processes := port.processes ++ [process] } := by
  unfold addProcess at done
  split at done
  · cases done
  · rename_i fresh
    exact ⟨fresh, (Option.some.inj done).symm⟩

/-- A request changes nothing but the requests, and does not get through twice in a cycle. -/
structure Requested (port : SimpleArbitratedPort α) (process : α) (c : CycleNo) (after : SimpleArbitratedPort α) :
    Prop where
  processes : after.processes = port.processes
  selected : after.selected = port.selected
  mem : ∀ p, p ∈ after.requests ↔ p ∈ port.requests ∨ p = process
  nodup : port.requests.Nodup → after.requests.Nodup
  now : process ∉ port.requests ∧ after.lastRequest = c ∨ process ∈ port.requests ∧ c ≠ port.lastRequest

theorem addRequest_eq_some (done : port.addRequest process c = some after) : Requested port process c after := by
  unfold addRequest at done
  split at done
  · rename_i again
    split at done
    · cases done
    · rename_i earlier
      cases done
      exact ⟨rfl, rfl, fun p => ⟨Or.inl, fun found => found.elim id fun same => same ▸ again⟩, id,
        Or.inr ⟨again, earlier⟩⟩
  · rename_i fresh
    cases done
    refine ⟨rfl, rfl, fun p => ?_, fun distinct => ?_, Or.inl ⟨fresh, rfl⟩⟩
    · rw [List.mem_append, List.mem_singleton]
    · rw [← List.concat_eq_append]
      exact distinct.concat fresh

end

/-- The position in the list of the processes is the priority. -/
def priority (port : SimpleArbitratedPort α) (process : α) : Nat := port.processes.idxOf process

/-- `PriorityArbitratedPort::Arbitrate`; `none` where no process gets selected, which is asserted. -/
def arbitratePriority (port : SimpleArbitratedPort α) : Option (SimpleArbitratedPort α) :=
  match port.requests with
  | [] => some { port with selected := none }
  | [process] => some { port with selected := some process, requests := [] }
  | requests =>
    (least port.priority (fun _ => true) port.processes.length requests).2.map fun process =>
      { port with selected := some process, requests := [] }

end SimpleArbitratedPort

/-- The distance of a process from the one that has been selected last. -/
def turnsAway (processes : List α) (lastSelected : Nat) (process : α) : Nat :=
  (processes.idxOf process + processes.length - lastSelected) % processes.length

/-- The loop of both cyclic arbitrations. -/
def nextInTurn (processes : List α) (lastSelected : Nat) (requests : List α) : Nat × Option α :=
  least (turnsAway processes lastSelected) (fun process => turnsAway processes lastSelected process ≠ 0)
    processes.length requests

namespace CyclicArbitratedPort

def create : CyclicArbitratedPort α := ⟨.create, 0⟩

/-- `Arbitrate`; `none` where one of its assertions fails. -/
def arbitrate (port : CyclicArbitratedPort α) : Option (CyclicArbitratedPort α) :=
  if port.lastSelected < port.processes.length then
    match port.requests with
    | [] => some { port with selected := none }
    | [process] =>
      some { port with selected := some process, lastSelected := port.processes.idxOf process, requests := [] }
    | requests =>
      let best := nextInTurn port.processes port.lastSelected requests
      best.2.map fun process =>
        { port with
          selected := some process, lastSelected := (port.lastSelected + best.1) % port.processes.length
          requests := [] }
  else none

end CyclicArbitratedPort

namespace PriorityCyclicArbitratedPort

def create : PriorityCyclicArbitratedPort α := ⟨.create, []⟩

/-- `AddCyclicProcess`, which checks nothing. -/
def addCyclicProcess (port : PriorityCyclicArbitratedPort α) (process : α) : PriorityCyclicArbitratedPort α :=
  { port with cyclicProcesses := port.cyclicProcesses ++ [process] }

/-- `Arbitrate`; `none` where no process gets selected, which is asserted. -/
def arbitrate (port : PriorityCyclicArbitratedPort α) : Option (PriorityCyclicArbitratedPort α) :=
  match port.requests with
  | [] => some { port with selected := none }
  | [process] =>
    let maybeCyclicLast := port.cyclicProcesses.idxOf process
    some { port with
      selected := some process, requests := []
      lastSelected :=
        if maybeCyclicLast < port.cyclicProcesses.length then maybeCyclicLast else port.lastSelected }
  | requests =>
    let sz := port.processes.length
    let best := least port.priority (fun process => port.priority process ≠ sz) sz requests
    if best.1 = sz then
      let best := nextInTurn port.cyclicProcesses port.lastSelected requests
      best.2.map fun process =>
        { port with
          selected := some process, lastSelected := (port.lastSelected + best.1) % port.cyclicProcesses.length
          requests := [] }
    else best.2.map fun process => { port with selected := some process, requests := [] }

end PriorityCyclicArbitratedPort

end Mgsim.Sim
