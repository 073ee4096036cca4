import Mgsim.Ic.Arbiter
import Mgsim.Lib.Progress
import Mgsim.Lib.Run
import Mgsim.Sim.Ports

namespace Mgsim.Sim
open Mgsim.Lib Mgsim.Ic

variable {α : Type} [DecidableEq α]

/-- What happens to a cyclic port. A process is registered before it requests, which is asserted. -/
inductive CyclicEvent (α : Type)
  | addProcess (process : α)
  | request (process : α) (c : CycleNo)
  | arbitrate

/-- The same for a port with priorities; there are two ways to register a process. -/
inductive PriorityCyclicEvent (α : Type)
  | addPriorityProcess (process : α)
  | addCyclicProcess (process : α)
  | request (process : α) (c : CycleNo)
  | arbitrate

def CyclicArbitratedPort.step (port : CyclicArbitratedPort α) : CyclicEvent α → Option (CyclicArbitratedPort α)
  | .addProcess process => (port.addProcess process).map fun simple => { port with toSimpleArbitratedPort := simple }
  | .request process c =>
    if process ∈ port.processes then
      (port.addRequest process c).map fun simple => { port with toSimpleArbitratedPort := simple }
    else none
  | .arbitrate => port.arbitrate

def PriorityCyclicArbitratedPort.step (port : PriorityCyclicArbitratedPort α) :
    PriorityCyclicEvent α → Option (PriorityCyclicArbitratedPort α)
  | .addPriorityProcess process =>
    (port.addProcess process).map fun simple => { port with toSimpleArbitratedPort := simple }
  | .addCyclicProcess process => some (port.addCyclicProcess process)
  | .request process c =>
    if process ∈ port.processes ∨ process ∈ port.cyclicProcesses then
      (port.addRequest process c).map fun simple => { port with toSimpleArbitratedPort := simple }
    else none
  | .arbitrate => port.arbitrate

/-- The process is the next in turn among the ones that request. -/
structure Turn (processes : List α) (lastSelected : Nat) (requests : List α) (process : α) : Prop where
  member : process ∈ requests
  next : Next processes.length lastSelected (requests.map processes.idxOf) (processes.idxOf process)

section Turn
variable {processes requests : List α} {lastSelected : Nat} {process j : α}

theorem turn_single (processes : List α) (lastSelected : Nat) (process : α) :
    Turn processes lastSelected [process] process :=
  ⟨List.mem_singleton_self process, List.mem_singleton_self _, fun two => absurd rfl two, fun _ _ two => absurd rfl two⟩

theorem turnsAway_eq_zero (inside : lastSelected < processes.length) (known : process ∈ processes) :
    turnsAway processes lastSelected process = 0 ↔ processes.idxOf process = lastSelected :=
  distance_eq_zero inside (List.idxOf_lt_length_of_mem known)

/-- Two of the requests have different places in the turn, so that the loop finds one of them. -/
theorem nextInTurn_spec (inside : lastSelected < processes.length) {a b : α} {rest : List α}
    (known : ∀ p ∈ a :: b :: rest, p ∈ processes) (distinct : (a :: b :: rest).Nodup) :
    ∃ p, Turn processes lastSelected (a :: b :: rest) p ∧
      nextInTurn processes lastSelected (a :: b :: rest) = (turnsAway processes lastSelected p, some p) := by
  rcases @least_spec _ (turnsAway processes lastSelected) (fun p => turnsAway processes lastSelected p ≠ 0)
      processes.length (a :: b :: rest) with ⟨_, above⟩ | ⟨p, member, away, _, found, first⟩
  · have last : ∀ p ∈ a :: b :: rest, processes.idxOf p = lastSelected := by
      intro p member
      rw [← turnsAway_eq_zero inside (known p member)]
      by_contra away
      exact absurd (above p member (decide_eq_true away)) (Nat.not_le.mpr (distance_lt inside))
    have same : a = b :=
      (List.idxOf_inj (known a (by simp))).mp ((last a (by simp)).trans (last b (by simp)).symm)
    exact absurd (same ▸ List.mem_cons_self) (List.nodup_cons.mp distinct).1
  · refine ⟨p, ⟨member, List.mem_map_of_mem member, fun _ => of_decide_eq_true away, ?_⟩, found⟩
    intro i request _ awayI
    obtain ⟨q, atQ, rfl⟩ := List.mem_map.mp request
    exact first q atQ (decide_eq_true awayI)

/-- The place of the process that the loop has found becomes the last one. -/
theorem last_add_turnsAway (inside : lastSelected < processes.length) (known : process ∈ processes) :
    (lastSelected + turnsAway processes lastSelected process) % processes.length = processes.idxOf process :=
  add_distance inside (List.idxOf_lt_length_of_mem known)

/-- How far the turn has gone past a process. -/
def turnPast (processes : List α) (lastSelected : Nat) (process : α) : Nat :=
  distance processes.length (processes.idxOf process) lastSelected

theorem turnPast_lt (known : j ∈ processes) : turnPast processes lastSelected j < processes.length :=
  distance_lt (List.idxOf_lt_length_of_mem known)

/-- When another one gets its turn, the turn goes on past a process that waits. -/
theorem Turn.past (turn : Turn processes lastSelected requests process) (inside : lastSelected < processes.length)
    (known : ∀ p ∈ requests, p ∈ processes) (waits : j ∈ requests) (other : j ≠ process) :
    turnPast processes lastSelected j < turnPast processes (processes.idxOf process) j := by
  have place : ∀ p ∈ requests, processes.idxOf p < processes.length :=
    fun p member => List.idxOf_lt_length_of_mem (known p member)
  have knownJ := place j waits
  have knownP := place process turn.member
  have apart : processes.idxOf j ≠ processes.idxOf process :=
    fun same => other ((List.idxOf_inj (known j waits)).mp same)
  unfold turnPast
  rw [distance_eq knownJ inside, distance_eq knownJ knownP]
  by_cases last : processes.idxOf j = lastSelected
  · split_ifs <;> omega
  · have closer := turn.next.closer inside
      (fun i member => by obtain ⟨p, request, rfl⟩ := List.mem_map.mp member; exact place p request)
      (List.mem_map_of_mem waits) apart last
    rw [distance_eq knownP knownJ, distance_eq inside knownJ] at closer
    split_ifs at closer ⊢ <;> omega

/-- A process that is registered later comes after the others. -/
theorem turnPast_append (inside : lastSelected < processes.length) (known : j ∈ processes) :
    turnPast processes lastSelected j ≤ turnPast (processes ++ [process]) lastSelected j := by
  have knownJ := List.idxOf_lt_length_of_mem known
  unfold turnPast
  rw [List.idxOf_append_of_mem known, List.length_append, List.length_singleton, distance_eq knownJ inside,
    distance_eq (by omega) (by omega)]
  split_ifs <;> omega

end Turn

/-- A position in the list of the processes; it starts as 0, before there are any. -/
def InRange (processes : List α) (lastSelected : Nat) : Prop := lastSelected = 0 ∨ lastSelected < processes.length

omit [DecidableEq α] in
theorem InRange.of_mem {processes : List α} {lastSelected : Nat} {process : α} (range : InRange processes lastSelected)
    (known : process ∈ processes) : lastSelected < processes.length :=
  range.elim (fun zero => zero ▸ List.length_pos_of_mem known) id

omit [DecidableEq α] in
theorem InRange.append {processes : List α} {lastSelected : Nat} (range : InRange processes lastSelected)
    (process : α) : InRange (processes ++ [process]) lastSelected := by
  unfold InRange at range ⊢
  rw [List.length_append]
  omega

namespace CyclicArbitratedPort

/-- What holds of a cyclic port at all times. -/
structure Kept (port : CyclicArbitratedPort α) : Prop where
  known : ∀ p ∈ port.requests, p ∈ port.processes
  distinct : port.requests.Nodup
  range : InRange port.processes port.lastSelected

variable {port after : CyclicArbitratedPort α} {process j : α}

/-- `Arbitrate` selects the process that is next in turn, and remembers its place. -/
theorem Kept.arbitrate (kept : Kept port) (some : port.requests ≠ []) :
    ∃ p, Turn port.processes port.lastSelected port.requests p ∧
      port.arbitrate = Option.some { port with
        selected := Option.some p, lastSelected := port.processes.idxOf p, requests := [] } := by
  obtain ⟨known, distinct, range⟩ := kept
  obtain ⟨a, atA⟩ := List.exists_mem_of_ne_nil _ some
  have inside := range.of_mem (known a atA)
  unfold CyclicArbitratedPort.arbitrate
  rw [if_pos inside]
  generalize port.requests = requests at known distinct some
  match requests with
  | [] => exact absurd rfl some
  | [p] => exact ⟨p, turn_single .., rfl⟩
  | a :: b :: rest =>
    obtain ⟨p, turn, found⟩ := nextInTurn_spec inside known distinct
    refine ⟨p, turn, ?_⟩
    dsimp only
    rw [found, last_add_turnsAway inside (known p turn.member)]
    rfl

omit [DecidableEq α] in
theorem kept_create : Kept (create : CyclicArbitratedPort α) := ⟨nofun, List.nodup_nil, Or.inl rfl⟩

theorem Kept.addProcess (kept : Kept port) (done : port.step (.addProcess process) = some after) :
    Kept after ∧ after.lastSelected = port.lastSelected ∧ after.processes = port.processes ++ [process] := by
  obtain ⟨simple, added, rfl⟩ := Option.map_eq_some_iff.mp done
  obtain ⟨-, rfl⟩ := SimpleArbitratedPort.addProcess_eq_some added
  exact ⟨⟨fun p member => List.mem_append_left _ (kept.known p member), kept.distinct, kept.range.append process⟩, rfl, rfl⟩

theorem Kept.request {c : CycleNo} (kept : Kept port) (done : port.step (.request process c) = some after) :
    Kept after ∧ after.lastSelected = port.lastSelected ∧ after.processes = port.processes := by
  change (if process ∈ port.processes then _ else none) = some after at done
  split at done
  · rename_i registered
    obtain ⟨simple, added, rfl⟩ := Option.map_eq_some_iff.mp done
    obtain ⟨processes, -, mem, nodup, -⟩ := SimpleArbitratedPort.addRequest_eq_some added
    refine ⟨⟨fun p member => ?_, nodup kept.distinct, ?_⟩, rfl, processes⟩
    · show p ∈ simple.processes
      rw [processes]
      rcases (mem p).mp member with earlier | rfl
      · exact kept.known p earlier
      · exact registered
    · show InRange simple.processes port.lastSelected
      rw [processes]
      exact kept.range
  · cases done

theorem Kept.arbitrated (kept : Kept port) (done : port.step .arbitrate = some after) :
    Kept after ∧ after.processes = port.processes := by
  change port.arbitrate = _ at done
  by_cases idle : port.requests = []
  · unfold CyclicArbitratedPort.arbitrate at done
    rw [idle] at done
    split at done
    · cases done
      exact ⟨⟨nofun, List.nodup_nil, kept.range⟩, rfl⟩
    · cases done
  · obtain ⟨p, turn, selects⟩ := kept.arbitrate idle
    obtain rfl := Option.some.inj (selects.symm.trans done)
    exact ⟨⟨nofun, List.nodup_nil, Or.inr (List.idxOf_lt_length_of_mem (kept.known p turn.member))⟩, rfl⟩

theorem Kept.step {e : CyclicEvent α} (kept : Kept port) (done : port.step e = some after) : Kept after := by
  cases e with
  | addProcess process => exact (kept.addProcess done).1
  | request process c => exact (kept.request done).1
  | arbitrate => exact (kept.arbitrated done).1

/-- A step that is no arbitration. -/
def Quiet (port after : CyclicArbitratedPort α) : Prop := ∃ e, e ≠ .arbitrate ∧ port.step e = some after

/-- An arbitration that selects another process than one that has requested. -/
def PassesBy (j : α) (port after : CyclicArbitratedPort α) : Prop :=
  port.step .arbitrate = some after ∧ j ∈ port.requests ∧ after.selected ≠ some j

/-- What makes the arbitration of a port fair. -/
structure Fair (port : CyclicArbitratedPort α) : Prop where
  inRange : port.processes ≠ [] → port.lastSelected < port.processes.length
  selects : port.requests ≠ [] → ∃ p ∈ port.requests, ∃ after, port.arbitrate = some after ∧ after.selected = some p
  bypass : ∀ j ∈ port.processes, ∀ k after, Passed Quiet (PassesBy j) port k after → k < after.processes.length

theorem Kept.fair (kept : Kept port) : Fair port where
  inRange some := by
    obtain ⟨p, member⟩ := List.exists_mem_of_ne_nil _ some
    exact kept.range.of_mem member
  selects some := by
    obtain ⟨p, turn, selects⟩ := kept.arbitrate some
    exact ⟨p, turn.member, _, selects, rfl⟩
  bypass j known k after passed := by
    have bound := @Passed.add_gain_le _ _ _ _ _ _ (fun s => turnPast s.processes s.lastSelected j)
      (fun s => Kept s ∧ j ∈ s.processes) passed ⟨kept, known⟩ ?_ ?_
    · have below := @turnPast_lt α _ after.processes after.lastSelected j bound.1.2
      omega
    · rintro s s' ⟨kept, known⟩ ⟨e, quiet, done⟩
      have inside := kept.range.of_mem known
      cases e with
      | addProcess process =>
        obtain ⟨kept', last, processes⟩ := kept.addProcess done
        rw [last, processes]
        exact ⟨⟨kept', List.mem_append_left _ known⟩, turnPast_append inside known⟩
      | request process c =>
        obtain ⟨kept', last, processes⟩ := kept.request done
        rw [last, processes]
        exact ⟨⟨kept', known⟩, Nat.le_refl _⟩
      | arbitrate => exact absurd rfl quiet
    · rintro s s' ⟨kept, known⟩ ⟨done, waits, other⟩
      obtain ⟨kept', processes⟩ := kept.arbitrated done
      obtain ⟨p, turn, selects⟩ := kept.arbitrate (List.ne_nil_of_mem waits)
      obtain rfl := Option.some.inj (selects.symm.trans done)
      exact ⟨⟨kept', known⟩, turn.past (kept.range.of_mem known) kept.known waits fun same => other (congrArg some same.symm)⟩

end CyclicArbitratedPort

namespace PriorityCyclicArbitratedPort

/-- What holds of a port with priorities at all times. -/
structure Kept (port : PriorityCyclicArbitratedPort α) : Prop where
  known : ∀ p ∈ port.requests, p ∈ port.processes ∨ p ∈ port.cyclicProcesses
  distinct : port.requests.Nodup
  range : InRange port.cyclicProcesses port.lastSelected

variable {port after : PriorityCyclicArbitratedPort α} {process j : α}

theorem priority_eq_length (absent : process ∉ port.processes) : port.priority process = port.processes.length :=
  List.idxOf_of_notMem absent

/-- Only a process with a priority has a place before the end. -/
theorem mem_of_priority (place : port.priority process < port.processes.length) : process ∈ port.processes :=
  List.idxOf_lt_length_iff.mp place

/-- When no process with a priority requests, `Arbitrate` selects the one that is next in turn. -/
theorem Kept.arbitrate_cyclic (kept : Kept port) (some : port.requests ≠ [])
    (unprivileged : ∀ p ∈ port.requests, p ∉ port.processes) :
    ∃ p, Turn port.cyclicProcesses port.lastSelected port.requests p ∧
      port.arbitrate = Option.some { port with
        selected := Option.some p, lastSelected := port.cyclicProcesses.idxOf p, requests := [] } := by
  have cyclic : ∀ p ∈ port.requests, p ∈ port.cyclicProcesses :=
    fun p member => (kept.known p member).resolve_left (unprivileged p member)
  obtain ⟨a, atA⟩ := List.exists_mem_of_ne_nil _ some
  have inside := kept.range.of_mem (cyclic a atA)
  have distinct := kept.distinct
  unfold PriorityCyclicArbitratedPort.arbitrate
  generalize requests_def : port.requests = requests at cyclic distinct some unprivileged
  match requests with
  | [] => exact absurd rfl some
  | [p] =>
    refine ⟨p, turn_single .., ?_⟩
    dsimp only
    rw [if_pos (List.idxOf_lt_length_of_mem (cyclic p (List.mem_singleton_self p)))]
  | a :: b :: rest =>
    obtain ⟨p, turn, found⟩ := nextInTurn_spec inside cyclic distinct
    refine ⟨p, turn, ?_⟩
    have noPriority : (least port.priority (fun process => port.priority process ≠ port.processes.length)
        port.processes.length (a :: b :: rest)).1 = port.processes.length := by
      rcases @least_spec _ port.priority (fun process => port.priority process ≠ port.processes.length)
          port.processes.length (a :: b :: rest) with ⟨none, -⟩ | ⟨q, member, -, below, -⟩
      · rw [none]
      · exact absurd (mem_of_priority below) (unprivileged q member)
    dsimp only
    rw [if_pos noPriority, found, last_add_turnsAway inside (cyclic p turn.member)]
    rfl

/-- Whoever requests, one of them gets selected. -/
theorem Kept.arbitrate (kept : Kept port) (some : port.requests ≠ []) :
    ∃ p ∈ port.requests, ∃ last, InRange port.cyclicProcesses last ∧
      port.arbitrate = Option.some { port with selected := Option.some p, lastSelected := last, requests := [] } := by
  by_cases privileged : ∃ q ∈ port.requests, q ∈ port.processes
  · obtain ⟨q, atQ, priorityQ⟩ := privileged
    unfold PriorityCyclicArbitratedPort.arbitrate
    generalize port.requests = requests at atQ
    match requests with
    | [p] =>
      refine ⟨p, List.mem_singleton_self p, _, ?_, rfl⟩
      split
      · rename_i cyclic
        exact Or.inr cyclic
      · exact kept.range
    | a :: b :: rest =>
      rcases @least_spec _ port.priority (fun process => port.priority process ≠ port.processes.length)
          port.processes.length (a :: b :: rest) with ⟨-, above⟩ | ⟨p, member, -, below, found, -⟩
      · have place : port.priority q < port.processes.length := List.idxOf_lt_length_of_mem priorityQ
        exact absurd (above q atQ (decide_eq_true (Nat.ne_of_lt place))) (Nat.not_le.mpr place)
      · refine ⟨p, member, port.lastSelected, kept.range, ?_⟩
        dsimp only
        rw [found, if_neg (Nat.ne_of_lt below)]
        rfl
  · have unprivileged : ∀ p ∈ port.requests, p ∉ port.processes :=
      fun p member priority => privileged ⟨p, member, priority⟩
    obtain ⟨p, turn, selects⟩ := kept.arbitrate_cyclic some unprivileged
    have cyclic := (kept.known p turn.member).resolve_left (unprivileged p turn.member)
    exact ⟨p, turn.member, _, Or.inr (List.idxOf_lt_length_of_mem cyclic), selects⟩

omit [DecidableEq α] in
theorem kept_create : Kept (create : PriorityCyclicArbitratedPort α) := ⟨nofun, List.nodup_nil, Or.inl rfl⟩

theorem Kept.addPriorityProcess (kept : Kept port) (done : port.step (.addPriorityProcess process) = some after) :
    Kept after ∧ after.lastSelected = port.lastSelected ∧ after.cyclicProcesses = port.cyclicProcesses := by
  obtain ⟨simple, added, rfl⟩ := Option.map_eq_some_iff.mp done
  obtain ⟨-, rfl⟩ := SimpleArbitratedPort.addProcess_eq_some added
  exact ⟨⟨fun p member => (kept.known p member).imp (List.mem_append_left _) id, kept.distinct, kept.range⟩, rfl, rfl⟩

omit [DecidableEq α] in
theorem Kept.addCyclicProcess (kept : Kept port) : Kept (port.addCyclicProcess process) where
  known p member := (kept.known p member).imp id (List.mem_append_left _)
  distinct := kept.distinct
  range := kept.range.append process

theorem Kept.request {c : CycleNo} (kept : Kept port) (done : port.step (.request process c) = some after) :
    Kept after ∧ after.lastSelected = port.lastSelected ∧ after.cyclicProcesses = port.cyclicProcesses := by
  change (if process ∈ port.processes ∨ process ∈ port.cyclicProcesses then _ else none) = some after at done
  split at done
  · rename_i registered
    obtain ⟨simple, added, rfl⟩ := Option.map_eq_some_iff.mp done
    obtain ⟨processes, -, mem, nodup, -⟩ := SimpleArbitratedPort.addRequest_eq_some added
    refine ⟨⟨fun p member => ?_, nodup kept.distinct, kept.range⟩, rfl, rfl⟩
    show p ∈ simple.processes ∨ p ∈ port.cyclicProcesses
    rw [processes]
    rcases (mem p).mp member with earlier | rfl
    · exact kept.known p earlier
    · exact registered
  · cases done

theorem Kept.arbitrated (kept : Kept port) (done : port.step .arbitrate = some after) :
    Kept after ∧ after.cyclicProcesses = port.cyclicProcesses := by
  change port.arbitrate = _ at done
  by_cases idle : port.requests = []
  · unfold PriorityCyclicArbitratedPort.arbitrate at done
    rw [idle] at done
    cases done
    exact ⟨⟨nofun, List.nodup_nil, kept.range⟩, rfl⟩
  · obtain ⟨p, -, last, range, selects⟩ := kept.arbitrate idle
    obtain rfl := Option.some.inj (selects.symm.trans done)
    exact ⟨⟨nofun, List.nodup_nil, range⟩, rfl⟩

theorem Kept.step {e : PriorityCyclicEvent α} (kept : Kept port) (done : port.step e = some after) : Kept after := by
  cases e with
  | addPriorityProcess process => exact (kept.addPriorityProcess done).1
  | addCyclicProcess process =>
    obtain rfl := Option.some.inj done
    exact kept.addCyclicProcess
  | request process c => exact (kept.request done).1
  | arbitrate => exact (kept.arbitrated done).1

/-- A step that is no arbitration. -/
def Quiet (port after : PriorityCyclicArbitratedPort α) : Prop := ∃ e, e ≠ .arbitrate ∧ port.step e = some after

/-- An arbitration in which no process with a priority takes part, and that
selects another process than one that has requested. -/
def PassesBy (j : α) (port after : PriorityCyclicArbitratedPort α) : Prop :=
  port.step .arbitrate = some after ∧ j ∈ port.requests ∧ (∀ p ∈ port.requests, p ∉ port.processes) ∧
    after.selected ≠ some j

/-- What makes the arbitration among the cyclic processes of a port fair. -/
structure Fair (port : PriorityCyclicArbitratedPort α) : Prop where
  inRange : port.cyclicProcesses ≠ [] → port.lastSelected < port.cyclicProcesses.length
  selects : port.requests ≠ [] → ∃ p ∈ port.requests, ∃ after, port.arbitrate = some after ∧ after.selected = some p
  bypass : ∀ j ∈ port.cyclicProcesses, ∀ k after, Passed Quiet (PassesBy j) port k after →
    k < after.cyclicProcesses.length

theorem Kept.fair (kept : Kept port) : Fair port where
  inRange some := by
    obtain ⟨p, member⟩ := List.exists_mem_of_ne_nil _ some
    exact kept.range.of_mem member
  selects some := by
    obtain ⟨p, member, last, -, selects⟩ := kept.arbitrate some
    exact ⟨p, member, _, selects, rfl⟩
  bypass j known k after passed := by
    have bound := @Passed.add_gain_le _ _ _ _ _ _ (fun s => turnPast s.cyclicProcesses s.lastSelected j)
      (fun s => Kept s ∧ j ∈ s.cyclicProcesses) passed ⟨kept, known⟩ ?_ ?_
    · have below := @turnPast_lt α _ after.cyclicProcesses after.lastSelected j bound.1.2
      omega
    · rintro s s' ⟨kept, known⟩ ⟨e, quiet, done⟩
      cases e with
      | addPriorityProcess process =>
        obtain ⟨kept', last, processes⟩ := kept.addPriorityProcess done
        rw [last, processes]
        exact ⟨⟨kept', known⟩, Nat.le_refl _⟩
      | addCyclicProcess process =>
        obtain rfl := Option.some.inj done
        exact ⟨⟨kept.addCyclicProcess, List.mem_append_left _ known⟩, turnPast_append (kept.range.of_mem known) known⟩
      | request process c =>
        obtain ⟨kept', last, processes⟩ := kept.request done
        rw [last, processes]
        exact ⟨⟨kept', known⟩, Nat.le_refl _⟩
      | arbitrate => exact absurd rfl quiet
    · rintro s s' ⟨kept, known⟩ ⟨done, waits, unprivileged, other⟩
      obtain ⟨kept', processes⟩ := kept.arbitrated done
      obtain ⟨p, turn, selects⟩ := kept.arbitrate_cyclic (List.ne_nil_of_mem waits) unprivileged
      obtain rfl := Option.some.inj (selects.symm.trans done)
      have cyclic : ∀ p ∈ s.requests, p ∈ s.cyclicProcesses :=
        fun p member => (kept.known p member).resolve_left (unprivileged p member)
      exact ⟨⟨kept', known⟩, turn.past (kept.range.of_mem known) cyclic waits fun same => other (congrArg some same.symm)⟩

end PriorityCyclicArbitratedPort

/-- Cyclic arbitration passes nobody by as often as there are processes, in whatever
way processes are registered, requests come in and the port is arbitrated. -/
theorem bounded_bypass :
    (∀ events (port : CyclicArbitratedPort α),
      Run CyclicArbitratedPort.step (fun _ _ => True) .create events port → port.Fair) ∧
    ∀ events (port : PriorityCyclicArbitratedPort α),
      Run PriorityCyclicArbitratedPort.step (fun _ _ => True) .create events port → port.Fair :=
  ⟨fun _ _ run => (run.invariant CyclicArbitratedPort.kept_create fun _ _ _ kept _ done => kept.step done).fair,
    fun _ _ run =>
      (run.invariant PriorityCyclicArbitratedPort.kept_create fun _ _ _ kept _ done => kept.step done).fair⟩

/-- Two processes that both request. -/
def twoRequests : List (CyclicEvent Bool) :=
  [.addProcess false, .addProcess true, .request false 0, .request true 0]

theorem bounded_bypass_two :
    ∃ port, execute CyclicArbitratedPort.step (CyclicArbitratedPort.create : CyclicArbitratedPort Bool) twoRequests = some port ∧
      port.requests = [false, true] ∧ port.Fair :=
  ⟨_, rfl, rfl, bounded_bypass.1 twoRequests _ (run_of_execute (fun _ _ _ => trivial) rfl)⟩

end Mgsim.Sim
