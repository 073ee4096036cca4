import Mgsim.Sim.ReadWrite

namespace Mgsim.Sim
open Mgsim.Lib

/-- The first in a list of those that request something. -/
structure Wins {α : Type} [DecidableEq α] (order : List α) (requests : α → Prop) (a : α) : Prop where
  member : requests a
  first : ∀ b, requests b → order.idxOf a ≤ order.idxOf b

section Wins
variable {α : Type} [DecidableEq α]

theorem Wins.unique {order : List α} {requests : α → Prop} {a b : α} (wins : Wins order requests a)
    (wins' : Wins order requests b) (known : a ∈ order) : a = b :=
  (List.idxOf_inj known).mp (Nat.le_antisymm (wins.first b wins'.member) (wins'.first a wins.member))

/-- The loop that looks for the least position finds the first one. -/
theorem least_wins {order items : List α} (known : ∀ a ∈ items, a ∈ order) (some : items ≠ []) :
    ∃ a, Wins order (· ∈ items) a ∧
      least order.idxOf (fun _ => true) order.length items = (order.idxOf a, Option.some a) := by
  rcases @least_spec _ order.idxOf (fun _ => true) order.length items with ⟨-, above⟩ | ⟨a, member, -, -, found, first⟩
  · obtain ⟨a, member⟩ := List.exists_mem_of_ne_nil _ some
    exact absurd (above a member rfl) (Nat.not_le.mpr (List.idxOf_lt_length_of_mem (known a member)))
  · exact ⟨a, ⟨member, fun b member => first b member rfl⟩, found⟩

/-- `PriorityArbitratedPort::Arbitrate` selects the first of the processes that have requested. -/
theorem SimpleArbitratedPort.arbitratePriority_spec {port : SimpleArbitratedPort α}
    (known : ∀ p ∈ port.requests, p ∈ port.processes) :
    ∃ selected, (∀ p, selected = some p ↔ Wins port.processes (· ∈ port.requests) p) ∧
      port.arbitratePriority = some { port with selected := selected, requests := [] } := by
  obtain ⟨processes, requests, lastRequest, before⟩ := port
  dsimp only at known ⊢
  match requests with
  | [] => exact ⟨none, fun p => ⟨nofun, fun wins => nomatch wins.member⟩, rfl⟩
  | [a] =>
    have first : Wins processes (· ∈ [a]) a := ⟨List.mem_singleton_self a, fun b member => by rw [List.mem_singleton.mp member]⟩
    exact ⟨some a, fun p => ⟨fun same => Option.some.inj same ▸ first,
      fun wins => congrArg some (List.mem_singleton.mp wins.member).symm⟩, rfl⟩
  | a :: b :: rest =>
    obtain ⟨p, wins, found⟩ := least_wins known (List.cons_ne_nil a _)
    refine ⟨some p, fun q => ⟨fun same => Option.some.inj same ▸ wins,
      fun wins' => congrArg some (wins.unique wins' (known p wins.member))⟩, ?_⟩
    unfold SimpleArbitratedPort.arbitratePriority SimpleArbitratedPort.priority
    dsimp only
    rw [found]
    rfl

end Wins

variable {α ι ρ ω δ : Type}

namespace ReadWriteStructure
variable {s a after : ReadWriteStructure α ι ρ ω δ} {c : CycleNo} {requests more : List (PortRequest α ι ρ ω δ)}
variable {r : ρ} {w : ω} {d : δ} {p : α} {i : ι}

/-- Between the cycles no request waits for the arbitration. -/
structure Settled (s : ReadWriteStructure α ι ρ ω δ) : Prop where
  readDistinct : s.readPorts.Nodup
  arbitratedDistinct : s.arbitratedWritePorts.Nodup
  registered : ∀ w ∈ s.arbitratedWritePorts, .arbitrated w ∈ s.writePorts
  readIdle : ∀ r, (s.readPort r).requests = []
  writeIdle : ∀ w, (s.arbitratedPort w).requests = []
  arbitratedIdle : ∀ w, (s.arbitratedPort w).index = none
  dedicatedIdle : ∀ d, (s.dedicatedPort d).index = none

section Ports
variable (s requests)

/-- What the calls in the acquire phase leave in a read port for the arbitration. -/
structure ReadState (r : ρ) (port : SimpleArbitratedPort α) : Prop where
  processes : port.processes = (s.readPort r).processes
  waiting : ∀ p, p ∈ port.requests ↔ .read r p ∈ requests
  known : ∀ p, .read r p ∈ requests → r ∈ s.readPorts ∧ p ∈ (s.readPort r).processes

/-- What they leave in an arbitrated write port. -/
structure WriteState (c : CycleNo) (w : ω) (port : ArbitratedWritePort α ι) : Prop where
  processes : port.processes = (s.arbitratedPort w).processes
  waiting : ∀ p, p ∈ port.requests ↔ ∃ i, .write w p i ∈ requests
  known : ∀ p i, .write w p i ∈ requests → w ∈ s.arbitratedWritePorts ∧ p ∈ (s.arbitratedPort w).processes
  indices : ∀ p i, .write w p i ∈ requests → port.indices p = some i
  now : port.requests ≠ [] → port.lastRequest = c
  idle : port.index = none

/-- What they leave in a dedicated write port. -/
structure DedicatedState (d : δ) (port : DedicatedWritePort α ι) : Prop where
  process : port.process = (s.dedicatedPort d).process
  index : ∀ i, port.index = some i ↔ ∃ p, .dedicatedWrite d p i ∈ requests
  known : ∀ p i, .dedicatedWrite d p i ∈ requests →
    .dedicated d ∈ s.writePorts ∧ (s.dedicatedPort d).process = some p

/-- What they leave in the structure. -/
structure Acquired (c : CycleNo) (a : ReadWriteStructure α ι ρ ω δ) : Prop where
  readPorts : a.readPorts = s.readPorts
  writePorts : a.writePorts = s.writePorts
  arbitratedWritePorts : a.arbitratedWritePorts = s.arbitratedWritePorts
  priorities : a.priorities = s.priorities
  read : ∀ r, ReadState s requests r (a.readPort r)
  write : ∀ w, WriteState s requests c w (a.arbitratedPort w)
  dedicated : ∀ d, DedicatedState s requests d (a.dedicatedPort d)

end Ports

section Ports
variable {port : SimpleArbitratedPort α}

theorem ReadState.congr (state : ReadState s requests r port) (same : ∀ p, .read r p ∈ more ↔ .read r p ∈ requests) :
    ReadState s more r port :=
  ⟨state.processes, fun p => (state.waiting p).trans (same p).symm, fun p member => state.known p ((same p).mp member)⟩

theorem WriteState.congr {port : ArbitratedWritePort α ι} (state : WriteState s requests c w port)
    (same : ∀ p i, .write w p i ∈ more ↔ .write w p i ∈ requests) : WriteState s more c w port where
  processes := state.processes
  waiting p := (state.waiting p).trans (exists_congr fun i => (same p i).symm)
  known p i member := state.known p i ((same p i).mp member)
  indices p i member := state.indices p i ((same p i).mp member)
  now := state.now
  idle := state.idle

theorem DedicatedState.congr {port : DedicatedWritePort α ι} (state : DedicatedState s requests d port)
    (same : ∀ p i, .dedicatedWrite d p i ∈ more ↔ .dedicatedWrite d p i ∈ requests) : DedicatedState s more d port where
  process := state.process
  index i := (state.index i).trans (exists_congr fun p => (same p i).symm)
  known p i member := state.known p i ((same p i).mp member)

theorem DedicatedState.next {port : DedicatedWritePort α ι} {write : WritePort ι} (state : DedicatedState s requests d port)
    (registered : .dedicated d ∈ s.writePorts) (known : port.process = some p)
    (done : port.setRequestIndex i = some write) :
    DedicatedState s (requests ++ [.dedicatedWrite d p i]) d { port with toWritePort := write } := by
  unfold WritePort.setRequestIndex at done
  split at done
  · rename_i idle
    cases done
    have unused : ∀ q j, .dedicatedWrite d q j ∉ requests := fun q j member => by
      have busy := (state.index j).mpr ⟨q, member⟩
      rw [idle] at busy
      cases busy
    refine ⟨state.process, fun j => ?_, fun q j member => ?_⟩
    · simp [unused, eq_comm]
    · rcases List.mem_append.mp member with before | new
      · exact absurd before (unused q j)
      · cases List.mem_singleton.mp new
        exact ⟨registered, state.process ▸ known⟩
  · cases done

variable [DecidableEq α]

theorem ReadState.next {simple : SimpleArbitratedPort α} (state : ReadState s requests r port)
    (registered : r ∈ s.readPorts) (known : p ∈ port.processes) (done : port.addRequest p c = some simple) :
    ReadState s (requests ++ [.read r p]) r simple := by
  obtain ⟨processes, -, members, -, -⟩ := SimpleArbitratedPort.addRequest_eq_some done
  rw [state.processes] at known
  refine ⟨processes.trans state.processes, fun q => ?_, fun q member => ?_⟩
  · rw [members, state.waiting]
    simp
  · rcases List.mem_append.mp member with earlier | now
    · exact state.known q earlier
    · cases List.mem_singleton.mp now
      exact ⟨registered, known⟩

theorem WriteState.next {port port' : ArbitratedWritePort α ι} (state : WriteState s requests c w port)
    (registered : w ∈ s.arbitratedWritePorts) (known : p ∈ port.processes) (done : port.addRequest p i c = some port') :
    WriteState s (requests ++ [.write w p i]) c w port' := by
  obtain ⟨simple, added, rfl⟩ := Option.map_eq_some_iff.mp done
  obtain ⟨processes, -, members, -, ⟨first, now⟩ | ⟨again, earlier⟩⟩ := SimpleArbitratedPort.addRequest_eq_some added
  · rw [state.processes] at known
    refine ⟨processes.trans state.processes, fun q => ?_, fun q j member => ?_, fun q j member => ?_, fun _ => now, state.idle⟩
    · show q ∈ simple.requests ↔ _
      rw [members, state.waiting]
      simp [exists_or]
    · rcases List.mem_append.mp member with before | new
      · exact state.known q j before
      · cases List.mem_singleton.mp new
        exact ⟨registered, known⟩
    · show Function.update port.indices p (some i) q = some j
      rcases List.mem_append.mp member with before | new
      · have other : q ≠ p := fun same => first ((state.waiting p).mpr ⟨j, same ▸ before⟩)
        rw [Function.update_of_ne other]
        exact state.indices q j before
      · cases List.mem_singleton.mp new
        exact Function.update_self ..
  · exact absurd (state.now (List.ne_nil_of_mem again)).symm earlier

end Ports

theorem Settled.acquired (settled : Settled s) (c : CycleNo) : Acquired s [] c s where
  readPorts := rfl
  writePorts := rfl
  arbitratedWritePorts := rfl
  priorities := rfl
  read r := ⟨rfl, fun p => by rw [settled.readIdle r]; exact iff_of_false nofun nofun, nofun⟩
  write w := ⟨rfl, fun p => by rw [settled.writeIdle w]; exact iff_of_false nofun nofun, nofun, nofun,
    fun some => absurd (settled.writeIdle w) some, settled.arbitratedIdle w⟩
  dedicated d := ⟨rfl, fun i => by
    rw [settled.dedicatedIdle d]
    exact iff_of_false nofun nofun, nofun⟩

section Contention
variable [DecidableEq α] (s requests)

/-- The process that comes first among those that request a read port. -/
def ReadWinner (r : ρ) : α → Prop := Wins (s.readPort r).processes fun p => .read r p ∈ requests

/-- The process that comes first among those that request a write port. -/
def PortWinner (w : ω) : α → Prop := Wins (s.arbitratedPort w).processes fun p => ∃ i, .write w p i ∈ requests

/-- A port requests an index, for the process that has won it. -/
def PortRequests : WritePortRef ω δ → ι → Prop
  | .arbitrated w, i => ∃ p, PortWinner s requests w p ∧ .write w p i ∈ requests
  | .dedicated d, i => ∃ p, .dedicatedWrite d p i ∈ requests

/-- What the arbitration among the processes leaves in a read port. -/
structure ReadResult (r : ρ) (port : SimpleArbitratedPort α) : Prop where
  served : port.requests = []
  selected : r ∈ s.readPorts → ∀ p, port.selected = some p ↔ ReadWinner s requests r p

/-- What it leaves in an arbitrated write port. -/
structure WriteResult (w : ω) (port : ArbitratedWritePort α ι) : Prop where
  served : port.requests = []
  selected : w ∈ s.arbitratedWritePorts → ∀ p, port.selected = some p ↔ PortWinner s requests w p
  index : ∀ i, port.index = some i ↔ PortRequests s requests (.arbitrated w) i
  known : ∀ p i, .write w p i ∈ requests → w ∈ s.arbitratedWritePorts

end Contention

section Contention
variable [DecidableEq α] {port : SimpleArbitratedPort α}

theorem ReadState.arbitrate (state : ReadState s requests r port) :
    ∃ after, port.arbitratePriority = some after ∧ ReadResult s requests r after := by
  obtain ⟨selected, wins, done⟩ := @SimpleArbitratedPort.arbitratePriority_spec _ _ port fun p member => by
    rw [state.processes]
    exact (state.known p ((state.waiting p).mp member)).2
  refine ⟨_, done, rfl, fun _ p => (wins p).trans ?_⟩
  rw [state.processes]
  simp only [state.waiting]
  exact Iff.rfl

theorem ReadState.idle (state : ReadState s requests r port) (unregistered : r ∉ s.readPorts) :
    ReadResult s requests r port where
  served := List.eq_nil_iff_forall_not_mem.mpr fun p member =>
    unregistered (state.known p ((state.waiting p).mp member)).1
  selected registered := absurd registered unregistered

theorem WriteState.arbitrate {port : ArbitratedWritePort α ι} (state : WriteState s requests c w port) :
    ∃ after, port.arbitrate = some after ∧ WriteResult s requests w after := by
  have known : ∀ p ∈ port.requests, p ∈ port.processes := fun p member => by
    obtain ⟨i, request⟩ := (state.waiting p).mp member
    rw [state.processes]
    exact (state.known p i request).2
  obtain ⟨selected, wins, done⟩ := SimpleArbitratedPort.arbitratePriority_spec known
  have winner : ∀ p, selected = some p ↔ PortWinner s requests w p := fun p => (wins p).trans (by
    rw [state.processes]
    simp only [state.waiting]
    exact Iff.rfl)
  unfold ArbitratedWritePort.arbitrate
  rw [done, Option.bind_some]
  cases selected with
  | none =>
    refine ⟨_, rfl, rfl, fun _ => winner, fun i => ?_, fun p i member => (state.known p i member).1⟩
    show port.index = some i ↔ _
    rw [state.idle]
    exact iff_of_false nofun fun ⟨p, wins, _⟩ => nomatch (winner p).mpr wins
  | some p =>
    have first := (winner p).mp rfl
    obtain ⟨i, request⟩ := first.member
    have requested := state.indices p i request
    have set : port.setRequestIndex i = some ⟨some i, false⟩ := by
      unfold WritePort.setRequestIndex
      rw [state.idle]
    refine ⟨⟨{ port.toSimpleArbitratedPort with selected := some p, requests := [] }, ⟨some i, false⟩, port.indices⟩, ?_,
      rfl, fun _ => winner, fun j => ?_, fun p i member => (state.known p i member).1⟩
    · dsimp only
      rw [requested, Option.bind_some, set]
      rfl
    · constructor
      · rintro same
        cases same
        exact ⟨p, first, request⟩
      · rintro ⟨q, wins, request'⟩
        cases (winner q).mpr wins
        exact (state.indices p j request').symm.trans requested |>.symm ▸ rfl

theorem WriteState.contended {port : ArbitratedWritePort α ι} (state : WriteState s requests c w port)
    (unregistered : w ∉ s.arbitratedWritePorts) : WriteResult s requests w port where
  served := List.eq_nil_iff_forall_not_mem.mpr fun p member => by
    obtain ⟨i, request⟩ := (state.waiting p).mp member
    exact unregistered (state.known p i request).1
  selected registered := absurd registered unregistered
  index i := by
    rw [state.idle]
    exact iff_of_false nofun fun ⟨p, _, request⟩ => unregistered (state.known p i request).1
  known p i member := (state.known p i member).1

end Contention

variable [DecidableEq α] [DecidableEq ρ] [DecidableEq ω] [DecidableEq δ]

/-- A call changes the port that is called. -/
theorem Acquired.next {request : PortRequest α ι ρ ω δ} (acquired : Acquired s requests c a)
    (done : a.acquire c request = some after) : Acquired s (requests ++ [request]) c after := by
  obtain ⟨readPorts, writePorts, arbitratedWritePorts, priorities, read, write, dedicated⟩ := acquired
  cases request with
  | read r p =>
    change (if _ then _ else none) = _ at done
    split at done
    · rename_i known
      obtain ⟨port, added, rfl⟩ := Option.map_eq_some_iff.mp done
      refine ⟨readPorts, writePorts, arbitratedWritePorts, priorities, ?_, fun w => (write w).congr (by simp),
        fun d => (dedicated d).congr (by simp)⟩
      exact (Function.forall_update_iff _ _).mpr ⟨(read r).next (readPorts ▸ known.1) known.2 added,
        fun r' other => (read r').congr (by simp [other])⟩
    · cases done
  | write w p i =>
    change (if _ then _ else none) = _ at done
    split at done
    · rename_i known
      obtain ⟨port, added, rfl⟩ := Option.map_eq_some_iff.mp done
      refine ⟨readPorts, writePorts, arbitratedWritePorts, priorities, fun r => (read r).congr (by simp), ?_,
        fun d => (dedicated d).congr (by simp)⟩
      exact (Function.forall_update_iff _ _).mpr ⟨(write w).next (arbitratedWritePorts ▸ known.1) known.2 added,
        fun w' other => (write w').congr (by simp [other])⟩
    · cases done
  | dedicatedWrite d p i =>
    change (if _ then _ else none) = _ at done
    split at done
    · rename_i known
      obtain ⟨port, added, rfl⟩ := Option.map_eq_some_iff.mp done
      refine ⟨readPorts, writePorts, arbitratedWritePorts, priorities, fun r => (read r).congr (by simp),
        fun w => (write w).congr (by simp), ?_⟩
      exact (Function.forall_update_iff _ _).mpr ⟨(dedicated d).next (writePorts ▸ known.1) known.2 added,
        fun d' other => (dedicated d').congr (by simp [other])⟩
    · cases done

theorem Settled.acquire (settled : Settled s) (done : requests.foldlM (acquire c) s = some a) : Acquired s requests c a := by
  induction requests using List.reverseRecOn generalizing a with
  | nil =>
    cases Option.some.inj done
    exact settled.acquired c
  | append_singleton rest request ih =>
    rw [List.foldlM_append] at done
    obtain ⟨middle, before, last⟩ := Option.bind_eq_some_iff.mp done
    refine (ih before).next ?_
    simpa using last

section Arbitration
variable (s requests)

/-- The port that comes first among those that request an index. -/
def IndexWinner (i : ι) : WritePortRef ω δ → Prop := Wins s.priorities fun port => PortRequests s requests port i

/-- What it leaves in the structure: no port has more than one process. -/
structure Contended (m : ReadWriteStructure α ι ρ ω δ) : Prop where
  readPorts : m.readPorts = s.readPorts
  writePorts : m.writePorts = s.writePorts
  arbitratedWritePorts : m.arbitratedWritePorts = s.arbitratedWritePorts
  priorities : m.priorities = s.priorities
  read : ∀ r, ReadResult s requests r (m.readPort r)
  write : ∀ w, WriteResult s requests w (m.arbitratedPort w)
  dedicated : ∀ d, DedicatedState s requests d (m.dedicatedPort d)

end Arbitration

omit [DecidableEq δ] in
/-- The arbitration among the processes fails in none of its assertions. -/
theorem Acquired.contended (acquired : Acquired s requests c a) (settled : Settled s) :
    ∃ m, (a.arbitrateReadPorts.bind fun s => s.arbitrateWritePorts) = some m ∧ Contended s requests m := by
  obtain ⟨readPorts, writePorts, arbitratedWritePorts, priorities, read, write, dedicated⟩ := acquired
  obtain ⟨reads, readDone, atRead, otherRead⟩ := @forEach_spec _ _ _ SimpleArbitratedPort.arbitratePriority
    _ a.readPort (ReadResult s requests) settled.readDistinct fun r _ => (read r).arbitrate
  obtain ⟨writes, writeDone, atWrite, otherWrite⟩ := @forEach_spec _ _ _ ArbitratedWritePort.arbitrate
    _ a.arbitratedPort (WriteResult s requests) settled.arbitratedDistinct fun w _ => (write w).arbitrate
  refine ⟨{ a with readPort := reads, arbitratedPort := writes }, ?_, readPorts, writePorts, arbitratedWritePorts,
    priorities, fun r => ?_, fun w => ?_, dedicated⟩
  · unfold arbitrateReadPorts arbitrateWritePorts
    rw [readPorts, readDone, Option.map_some, Option.bind_some]
    dsimp only
    rw [arbitratedWritePorts, writeDone]
    rfl
  · by_cases registered : r ∈ s.readPorts
    · exact atRead r registered
    · show ReadResult s requests r (reads r)
      rw [otherRead r registered]
      exact (read r).idle registered
  · by_cases registered : w ∈ s.arbitratedWritePorts
    · exact atWrite w registered
    · show WriteResult s requests w (writes w)
      rw [otherWrite w registered]
      exact (write w).contended registered

end ReadWriteStructure

end Mgsim.Sim
