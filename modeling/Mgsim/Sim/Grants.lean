import Mgsim.Lib.Run
import Mgsim.Sim.PortWinners

namespace Mgsim.Sim
open Mgsim.Lib

variable {α ι ρ ω δ : Type}

namespace ReadWriteStructure
variable [DecidableEq α] [DecidableEq ρ] [DecidableEq ω] [DecidableEq δ]
variable {s a after : ReadWriteStructure α ι ρ ω δ} {c : CycleNo} {requests : List (PortRequest α ι ρ ω δ)}
variable {w : ω} {d : δ} {p : α} {i : ι}

/-- A report changes nothing but the requests of the ports and what has been chosen. -/
structure Reported (m after : ReadWriteStructure α ι ρ ω δ) : Prop where
  readPorts : after.readPorts = m.readPorts
  writePorts : after.writePorts = m.writePorts
  arbitratedWritePorts : after.arbitratedWritePorts = m.arbitratedWritePorts
  priorities : after.priorities = m.priorities
  read : after.readPort = m.readPort
  write : ∀ w, (after.arbitratedPort w).toSimpleArbitratedPort = (m.arbitratedPort w).toSimpleArbitratedPort

variable {m : ReadWriteStructure α ι ρ ω δ} {chosen : Bool} {port port' : WritePortRef ω δ}

omit [DecidableEq α] [DecidableEq ρ] [DecidableEq ω] [DecidableEq δ] in
theorem Reported.refl (m : ReadWriteStructure α ι ρ ω δ) : Reported m m := ⟨rfl, rfl, rfl, rfl, rfl, fun _ => rfl⟩

omit [DecidableEq α] [DecidableEq ρ] [DecidableEq ω] [DecidableEq δ] in
theorem Reported.trans (first : Reported m a) (second : Reported a after) : Reported m after where
  readPorts := second.readPorts.trans first.readPorts
  writePorts := second.writePorts.trans first.writePorts
  arbitratedWritePorts := second.arbitratedWritePorts.trans first.arbitratedWritePorts
  priorities := second.priorities.trans first.priorities
  read := second.read.trans first.read
  write w := (second.write w).trans (first.write w)

omit [DecidableEq α] [DecidableEq ρ] in
theorem reported_notify (m : ReadWriteStructure α ι ρ ω δ) (chosen : Bool) (port : WritePortRef ω δ) :
    Reported m (m.notify chosen port) := by
  cases port with
  | arbitrated w =>
    refine ⟨rfl, rfl, rfl, rfl, rfl, fun w' => ?_⟩
    show (Function.update m.arbitratedPort w _ w').toSimpleArbitratedPort = _
    by_cases same : w' = w
    · rw [same, Function.update_self]
    · rw [Function.update_of_ne same]
  | dedicated d => exact ⟨rfl, rfl, rfl, rfl, rfl, fun _ => rfl⟩

omit [DecidableEq α] [DecidableEq ρ] in
theorem writePort_notify : (m.notify chosen port).writePort port' = if port' = port then .notify chosen else m.writePort port' := by
  cases port with
  | arbitrated w =>
    cases port' with
    | arbitrated w' =>
      show (Function.update m.arbitratedPort w _ w').toWritePort = _
      by_cases same : w' = w
      · rw [same, Function.update_self, if_pos rfl]
      · rw [Function.update_of_ne same, if_neg (by simp [same])]
        rfl
    | dedicated d => rfl
  | dedicated d =>
    cases port' with
    | arbitrated w => rfl
    | dedicated d' =>
      show (Function.update m.dedicatedPort d _ d').toWritePort = _
      by_cases same : d' = d
      · rw [same, Function.update_self, if_pos rfl]
      · rw [Function.update_of_ne same, if_neg (by simp [same])]
        rfl

omit [DecidableEq α] [DecidableEq ρ] in
/-- All ports that request an index hear which of them has been selected. -/
theorem report_spec (m : ReadWriteStructure α ι ρ ω δ) (ports : List (WritePortRef ω δ)) :
    Reported m (m.report ports) ∧ ∀ port, (m.report ports).writePort port =
      if port ∈ ports then .notify (m.selectPort ports = some port) else m.writePort port := by
  unfold report
  generalize m.selectPort ports = selected
  induction ports using List.reverseRecOn with
  | nil => exact ⟨.refl m, fun port => rfl⟩
  | append_singleton rest last ih =>
    obtain ⟨reported, value⟩ := ih
    dsimp only at reported value ⊢
    rw [List.foldl_append, List.foldl_cons, List.foldl_nil]
    refine ⟨reported.trans (reported_notify ..), fun port => ?_⟩
    rw [writePort_notify, value]
    by_cases same : port = last
    · rw [if_pos same, same, if_pos (by simp)]
    · simp only [if_neg same, List.mem_append, List.mem_singleton, or_iff_left same]

omit [DecidableEq α] [DecidableEq ρ] in
theorem selectPort_congr (reported : Reported m after) (ports : List (WritePortRef ω δ)) :
    after.selectPort ports = m.selectPort ports := by
  unfold selectPort
  rw [reported.priorities]

omit [DecidableEq α] [DecidableEq ρ] in
/-- Every port hears about the selection among some ports that it is one of. -/
theorem reports_spec {β : Type} (m : ReadWriteStructure α ι ρ ω δ) (entries : List (β × List (WritePortRef ω δ))) :
    Reported m (entries.foldl (fun s request => s.report request.2) m) ∧ ∀ port,
      (∃ e ∈ entries, port ∈ e.2 ∧ (entries.foldl (fun s request => s.report request.2) m).writePort port =
        .notify (m.selectPort e.2 = some port)) ∨
      (∀ e ∈ entries, port ∉ e.2) ∧
        (entries.foldl (fun s request => s.report request.2) m).writePort port = m.writePort port := by
  induction entries using List.reverseRecOn with
  | nil => exact ⟨.refl m, fun port => Or.inr ⟨nofun, rfl⟩⟩
  | append_singleton rest last ih =>
    obtain ⟨reported, value⟩ := ih
    rw [List.foldl_append, List.foldl_cons, List.foldl_nil]
    obtain ⟨reported', value'⟩ := report_spec (rest.foldl (fun s request => s.report request.2) m) last.2
    refine ⟨reported.trans reported', fun port => ?_⟩
    rw [value', selectPort_congr reported]
    by_cases here : port ∈ last.2
    · exact Or.inl ⟨last, by simp, here, if_pos here⟩
    · rw [if_neg here]
      rcases value port with ⟨e, member, atE, same⟩ | ⟨absent, same⟩
      · exact Or.inl ⟨e, List.mem_append_left _ member, atE, same⟩
      · refine Or.inr ⟨fun e member => ?_, same⟩
        rcases List.mem_append.mp member with earlier | new
        · exact absent e earlier
        · exact List.mem_singleton.mp new ▸ here

variable [LinearOrder ι]

omit [DecidableEq α] [DecidableEq ρ] [DecidableEq ω] [DecidableEq δ] in
/-- An index stands in the map with all ports that request it. -/
theorem get?_requestPortMap (m : ReadWriteStructure α ι ρ ω δ) (i : ι) :
    m.requestPortMap.get? i =
      let ports := m.writePorts.filter fun port => (m.writePort port).index = some i
      if ports = [] then none else some ports := by
  unfold requestPortMap
  induction m.writePorts using List.reverseRecOn with
  | nil => exact SortedMap.get?_empty i
  | append_singleton rest last ih =>
    dsimp only at ih ⊢
    rw [List.foldl_append, List.foldl_cons, List.foldl_nil, List.filter_append]
    cases requested : (m.writePort last).index with
    | none =>
      dsimp only
      rw [ih, List.filter_singleton]
      simp [requested]
    | some j =>
      dsimp only
      rw [SortedMap.get?_update, List.filter_singleton, requested]
      by_cases same : i = j
      · rw [if_pos same, ← same, ih]
        split
        · rename_i empty
          simp [empty]
        · simp
      · rw [if_neg same, ih]
        simp [Ne.symm same]

omit [DecidableEq α] [DecidableEq ρ] [DecidableEq ω] [DecidableEq δ] in
theorem mem_requestPortMap {e : ι × List (WritePortRef ω δ)} (member : e ∈ m.requestPortMap.entries) :
    e.2 = m.writePorts.filter fun port => (m.writePort port).index = some e.1 := by
  have found := get?_requestPortMap m e.1
  rw [SortedMap.get?_eq_some.mpr member] at found
  dsimp only at found
  split at found
  · cases found
  · exact Option.some.inj found

omit [DecidableEq α] [DecidableEq ρ] [DecidableEq ω] [DecidableEq δ] in
theorem exists_requestPortMap (registered : port ∈ m.writePorts) (request : (m.writePort port).index = some i) :
    ∃ e ∈ m.requestPortMap.entries, port ∈ e.2 := by
  have member : port ∈ m.writePorts.filter fun port => (m.writePort port).index = some i :=
    List.mem_filter.mpr ⟨registered, decide_eq_true request⟩
  have found := get?_requestPortMap m i
  dsimp only at found
  rw [if_neg (List.ne_nil_of_mem member)] at found
  exact ⟨_, SortedMap.get?_eq_some.mp found, member⟩

/-- The ports that have a request for an index. -/
def portsOf (m : ReadWriteStructure α ι ρ ω δ) (i : ι) : List (WritePortRef ω δ) :=
  m.writePorts.filter fun port => (m.writePort port).index = some i

section Reports
variable (contended : Contended s requests m)
include contended

omit [DecidableEq ρ] [DecidableEq ω] [DecidableEq δ] [LinearOrder ι] in
theorem Contended.index : (m.writePort port).index = some i ↔ PortRequests s requests port i := by
  cases port with
  | arbitrated w => exact (contended.write w).index i
  | dedicated d => exact (contended.dedicated d).index i

omit [DecidableEq ρ] [DecidableEq ω] [DecidableEq δ] [LinearOrder ι] in
theorem Contended.registered (settled : Settled s) (request : PortRequests s requests port i) : port ∈ s.writePorts := by
  cases port with
  | arbitrated w =>
    obtain ⟨p, -, request⟩ := request
    exact settled.registered w ((contended.write w).known p i request)
  | dedicated d =>
    obtain ⟨p, request⟩ := request
    exact ((contended.dedicated d).known p i request).1

omit [DecidableEq ρ] [DecidableEq ω] [DecidableEq δ] in
theorem Contended.mem_portsOf (settled : Settled s) : port ∈ m.portsOf i ↔ PortRequests s requests port i := by
  unfold portsOf
  rw [List.mem_filter, decide_eq_true_iff, contended.index]
  exact ⟨And.right, fun request => ⟨contended.writePorts ▸ contended.registered settled request, request⟩⟩

omit [DecidableEq ρ] in
/-- Where all ports have a priority, the first of those that request an index gets it. -/
theorem Contended.selectPort (settled : Settled s) (all : ∀ port ∈ s.writePorts, port ∈ s.priorities)
    (request : PortRequests s requests port i) :
    ∃ winner, IndexWinner s requests i winner ∧ m.selectPort (m.portsOf i) = some winner := by
  have members : ∀ port, port ∈ m.portsOf i ↔ PortRequests s requests port i := fun _ => contended.mem_portsOf settled
  obtain ⟨winner, wins, found⟩ := @least_wins _ _ m.priorities (m.portsOf i)
    (fun port member => contended.priorities ▸ all port (contended.registered settled ((members port).mp member)))
    (List.ne_nil_of_mem ((members port).mpr request))
  simp only [members, contended.priorities] at wins
  refine ⟨winner, wins, ?_⟩
  unfold ReadWriteStructure.selectPort
  rw [found]

omit [DecidableEq ρ] in
/-- Every port that has a request hears of its selection, and no request is left. -/
theorem Contended.reports (settled : Settled s) :
    ∃ after, m.requestPortMap.entries.foldl (fun s request => s.report request.2) m = after ∧ Reported m after ∧
      (∀ port i, PortRequests s requests port i →
        (after.writePort port).chosen = decide (m.selectPort (m.portsOf i) = some port)) ∧
      ∀ port, (after.writePort port).index = none := by
  obtain ⟨reported, value⟩ := reports_spec m m.requestPortMap.entries
  refine ⟨_, rfl, reported, fun port i request => ?_, fun port => ?_⟩
  · have requested := contended.index.mpr request
    rcases value port with ⟨e, member, atE, same⟩ | ⟨absent, -⟩
    · have ports := mem_requestPortMap member
      rw [ports, List.mem_filter, decide_eq_true_iff, requested] at atE
      rw [same, ports, ← Option.some.inj atE.2]
      rfl
    · obtain ⟨e, member, atE⟩ := exists_requestPortMap (contended.writePorts ▸ contended.registered settled request) requested
      exact absurd atE (absent e member)
  · rcases value port with ⟨e, -, -, same⟩ | ⟨absent, same⟩
    · rw [same]
      rfl
    · rw [same]
      cases requested : (m.writePort port).index with
      | none => rfl
      | some i =>
        obtain ⟨e, member, atE⟩ := exists_requestPortMap
          (contended.writePorts ▸ contended.registered settled (contended.index.mp requested)) requested
        exact absurd atE (absent e member)

end Reports

/-- What a request asks to write. -/
def target : PortRequest α ι ρ ω δ → Option ι
  | .read .. => none
  | .write _ _ i => some i
  | .dedicatedWrite _ _ i => some i

/-- What the arbitration of a cycle leaves to the check and commit phases. -/
structure Arbitrates (s : ReadWriteStructure α ι ρ ω δ) (requests : List (PortRequest α ι ρ ω δ))
    (after : ReadWriteStructure α ι ρ ω δ) : Prop where
  readSelected : ∀ r ∈ s.readPorts, ∀ p, (after.readPort r).selected = some p ↔ ReadWinner s requests r p
  writeSelected : ∀ w ∈ s.arbitratedWritePorts, ∀ p, (after.arbitratedPort w).selected = some p ↔ PortWinner s requests w p
  chosen : ∀ port i, PortRequests s requests port i →
    ((after.writePort port).chosen = true ↔ IndexWinner s requests i port)
  one : ∀ i, (∃ port, PortRequests s requests port i) →
    ∃! port, PortRequests s requests port i ∧ (after.writePort port).chosen = true
  read : ∀ r p, .read r p ∈ requests → (after.granted (.read r p) = true ↔ ReadWinner s requests r p)
  write : ∀ w p i, .write w p i ∈ requests →
    (after.granted (.write w p i) = true ↔ PortWinner s requests w p ∧ IndexWinner s requests i (.arbitrated w))
  dedicatedWrite : ∀ d p i, .dedicatedWrite d p i ∈ requests →
    (after.granted (.dedicatedWrite d p i) = true ↔ IndexWinner s requests i (.dedicated d))
  served : ∀ port i, PortRequests s requests port i →
    ∃ request ∈ requests, target request = some i ∧ after.granted request = true
  exclusive : ∀ request ∈ requests, ∀ request' ∈ requests, ∀ i, target request = some i → target request' = some i →
    after.granted request = true → after.granted request' = true → request = request'

theorem onArbitrate_eq (a : ReadWriteStructure α ι ρ ω δ) :
    a.onArbitrate = (a.arbitrateReadPorts.bind fun s => s.arbitrateWritePorts).map fun m =>
      m.requestPortMap.entries.foldl (fun s request => s.report request.2) m := by
  rw [Option.map_bind]
  rfl

theorem Acquired.arbitrates (acquired : Acquired s requests c a) (settled : Settled s)
    (all : ∀ port ∈ s.writePorts, port ∈ s.priorities) :
    ∃ after, a.onArbitrate = some after ∧ Arbitrates s requests after := by
  obtain ⟨m, done, contended⟩ := acquired.contended settled
  obtain ⟨after, reports, reported, told, -⟩ := contended.reports settled
  have readSelected : ∀ r ∈ s.readPorts, ∀ p, (after.readPort r).selected = some p ↔ ReadWinner s requests r p := by
    intro r registered
    rw [reported.read]
    exact (contended.read r).selected registered
  have writeSelected : ∀ w ∈ s.arbitratedWritePorts, ∀ p,
      (after.arbitratedPort w).selected = some p ↔ PortWinner s requests w p := by
    intro w registered
    rw [reported.write]
    exact (contended.write w).selected registered
  have chosen : ∀ port i, PortRequests s requests port i →
      ((after.writePort port).chosen = true ↔ IndexWinner s requests i port) := by
    intro port i request
    obtain ⟨winner, wins, selected⟩ := contended.selectPort settled all request
    rw [told port i request, selected, decide_eq_true_iff, Option.some_inj]
    constructor
    · rintro rfl
      exact wins
    · exact fun wins' => wins.unique wins' (all winner (contended.registered settled wins.member))
  have write : ∀ w p i, .write w p i ∈ requests →
      (after.granted (.write w p i) = true ↔ PortWinner s requests w p ∧ IndexWinner s requests i (.arbitrated w)) := by
    intro w p i request
    show (((after.writePort (.arbitrated w)).chosen && decide _) = true) ↔ _
    rw [Bool.and_eq_true, decide_eq_true_iff,
      writeSelected w ((contended.write w).known p i request), and_comm]
    exact and_congr_right fun wins => chosen (.arbitrated w) i ⟨p, wins, request⟩
  have dedicatedWrite : ∀ d p i, .dedicatedWrite d p i ∈ requests →
      (after.granted (.dedicatedWrite d p i) = true ↔ IndexWinner s requests i (.dedicated d)) :=
    fun d p i request => chosen (.dedicated d) i ⟨p, request⟩
  refine ⟨after, ?_, readSelected, writeSelected, chosen, ?_, ?_, write, dedicatedWrite, ?_, ?_⟩
  · rw [onArbitrate_eq, done, Option.map_some, reports]
  · rintro i ⟨port, request⟩
    obtain ⟨winner, wins, -⟩ := contended.selectPort settled all request
    refine ⟨winner, ⟨wins.member, (chosen winner i wins.member).mpr wins⟩, fun other ⟨request', selected⟩ => ?_⟩
    exact ((chosen other i request').mp selected).unique wins (all other (contended.registered settled request'))
  · intro r p request
    show decide _ = true ↔ _
    rw [decide_eq_true_iff]
    exact readSelected r ((acquired.read r).known p request).1 p
  · intro port i request
    obtain ⟨winner, wins, -⟩ := contended.selectPort settled all request
    cases winner with
    | arbitrated w =>
      obtain ⟨p, first, member⟩ := wins.member
      exact ⟨_, member, rfl, (write w p i member).mpr ⟨first, wins⟩⟩
    | dedicated d =>
      obtain ⟨p, member⟩ := wins.member
      exact ⟨_, member, rfl, (dedicatedWrite d p i member).mpr wins⟩
  · have same : ∀ {i port port'}, IndexWinner s requests i port → IndexWinner s requests i port' → port = port' :=
      fun wins wins' => wins.unique wins' (all _ (contended.registered settled wins.member))
    intro request member request' member' i target target' granted granted'
    cases request with
    | read r p => cases target
    | write w p j =>
      cases target
      obtain ⟨first, wins⟩ := (write w p i member).mp granted
      cases request' with
      | read r p' => cases target'
      | write w' p' j' =>
        cases target'
        obtain ⟨first', wins'⟩ := (write w' p' i member').mp granted'
        cases same wins wins'
        rw [first.unique first' ((acquired.write w).known p i member).2]
      | dedicatedWrite d p' j' =>
        cases target'
        cases same wins ((dedicatedWrite d p' i member').mp granted')
    | dedicatedWrite d p j =>
      cases target
      have wins := (dedicatedWrite d p i member).mp granted
      cases request' with
      | read r p' => cases target'
      | write w' p' j' =>
        cases target'
        cases same wins ((write w' p' i member').mp granted').2
      | dedicatedWrite d' p' j' =>
        cases target'
        cases same wins ((dedicatedWrite d' p' i member').mp granted')
        have owner := ((acquired.dedicated d).known p i member).2
        rw [((acquired.dedicated d).known p' i member').2] at owner
        rw [Option.some.inj owner]

theorem Acquired.settled (acquired : Acquired s requests c a) (settled : Settled s) (done : a.onArbitrate = some after) :
    Settled after := by
  obtain ⟨m, arbitrated, contended⟩ := acquired.contended settled
  obtain ⟨_, reports, reported, -, idle⟩ := contended.reports settled
  rw [onArbitrate_eq, arbitrated, Option.map_some, reports] at done
  cases done
  constructor
  · rw [reported.readPorts, contended.readPorts]
    exact settled.readDistinct
  · rw [reported.arbitratedWritePorts, contended.arbitratedWritePorts]
    exact settled.arbitratedDistinct
  · rw [reported.arbitratedWritePorts, contended.arbitratedWritePorts, reported.writePorts, contended.writePorts]
    exact settled.registered
  · intro r
    rw [reported.read]
    exact (contended.read r).served
  · intro w
    rw [reported.write]
    exact (contended.write w).served
  · exact fun w => idle (.arbitrated w)
  · exact fun d => idle (.dedicated d)

theorem Settled.cycle (settled : Settled s) (done : s.cycle c requests = some after) : Settled after := by
  obtain ⟨a, acquired, done⟩ := Option.bind_eq_some_iff.mp done
  split at done
  · rename_i none
    subst none
    cases Option.some.inj acquired
    cases Option.some.inj done
    exact settled
  · exact (settled.acquire acquired).settled settled done

/-- How a structure is set up and used. -/
inductive Event (α ι ρ ω δ : Type)
  | registerReadPort (r : ρ)
  | registerDedicatedWritePort (d : δ)
  | registerArbitratedWritePort (w : ω)
  | addPort (port : WritePortRef ω δ)
  | addReadProcess (r : ρ) (process : α)
  | addWriteProcess (w : ω) (process : α)
  | setProcess (d : δ) (process : α)
  | cycle (c : CycleNo) (requests : List (PortRequest α ι ρ ω δ))

def step (s : ReadWriteStructure α ι ρ ω δ) : Event α ι ρ ω δ → Option (ReadWriteStructure α ι ρ ω δ)
  | .registerReadPort r => s.registerReadPort r
  | .registerDedicatedWritePort d => s.registerWritePort (.dedicated d)
  | .registerArbitratedWritePort w => s.registerArbitratedWritePort w
  | .addPort port => s.addPort port
  | .addReadProcess r process => s.addReadProcess r process
  | .addWriteProcess w process => s.addWriteProcess w process
  | .setProcess d process => some (s.setProcess d process)
  | .cycle c requests => s.cycle c requests

omit [DecidableEq α] [DecidableEq ρ] [DecidableEq ω] [DecidableEq δ] [LinearOrder ι] in
theorem settled_create : Settled (create : ReadWriteStructure α ι ρ ω δ) :=
  ⟨.nil, .nil, nofun, fun _ => rfl, fun _ => rfl, fun _ => rfl, fun _ => rfl⟩

omit [DecidableEq α] [DecidableEq ρ] [LinearOrder ι] in
theorem registerWritePort_eq_some (done : s.registerWritePort port = some after) :
    port ∉ s.writePorts ∧ after = { s with writePorts := s.writePorts ++ [port] } := by
  unfold registerWritePort at done
  split at done
  · cases done
  · rename_i fresh
    exact ⟨fresh, (Option.some.inj done).symm⟩

theorem nodup_snoc {β : Type} {l : List β} {b : β} (distinct : l.Nodup) (fresh : b ∉ l) : (l ++ [b]).Nodup := by
  rw [← List.concat_eq_append]
  exact distinct.concat fresh

theorem Settled.step {e : Event α ι ρ ω δ} (settled : Settled s) (done : s.step e = some after) : Settled after := by
  cases e with
  | registerReadPort r =>
    change (if _ then _ else _) = _ at done
    split at done
    · cases done
    · rename_i fresh
      cases done
      exact { settled with readDistinct := nodup_snoc settled.readDistinct fresh }
  | registerDedicatedWritePort d =>
    obtain ⟨-, rfl⟩ := registerWritePort_eq_some done
    exact { settled with registered := fun w member => List.mem_append_left _ (settled.registered w member) }
  | registerArbitratedWritePort w =>
    obtain ⟨s', registered, rfl⟩ := Option.map_eq_some_iff.mp done
    obtain ⟨fresh, rfl⟩ := registerWritePort_eq_some registered
    refine { settled with
      arbitratedDistinct := nodup_snoc settled.arbitratedDistinct fun old => fresh (settled.registered w old)
      registered := fun w' member => ?_ }
    rcases List.mem_append.mp member with earlier | new
    · exact List.mem_append_left _ (settled.registered w' earlier)
    · exact List.mem_append_right _ (by rw [List.mem_singleton.mp new]; exact List.mem_singleton_self _)
  | addPort port =>
    change (if _ then _ else _) = _ at done
    split at done
    · cases done
      exact { settled with }
    · cases done
  | addReadProcess r process =>
    obtain ⟨port, added, rfl⟩ := Option.map_eq_some_iff.mp done
    obtain ⟨-, rfl⟩ := SimpleArbitratedPort.addProcess_eq_some added
    refine { settled with readIdle := ?_ }
    exact (Function.forall_update_iff _ fun _ (port : SimpleArbitratedPort α) => port.requests = []).mpr
      ⟨settled.readIdle r, fun r' _ => settled.readIdle r'⟩
  | addWriteProcess w process =>
    obtain ⟨simple, added, rfl⟩ := Option.map_eq_some_iff.mp done
    obtain ⟨-, rfl⟩ := SimpleArbitratedPort.addProcess_eq_some added
    refine { settled with writeIdle := ?_, arbitratedIdle := ?_ }
    · exact (Function.forall_update_iff _ fun _ (port : ArbitratedWritePort α ι) => port.requests = []).mpr
        ⟨settled.writeIdle w, fun w' _ => settled.writeIdle w'⟩
    · exact (Function.forall_update_iff _ fun _ (port : ArbitratedWritePort α ι) => port.index = none).mpr
        ⟨settled.arbitratedIdle w, fun w' _ => settled.arbitratedIdle w'⟩
  | setProcess d process =>
    cases Option.some.inj done
    refine { settled with dedicatedIdle := ?_ }
    exact (Function.forall_update_iff _ fun _ (port : DedicatedWritePort α ι) => port.index = none).mpr
      ⟨settled.dedicatedIdle d, fun d' _ => settled.dedicatedIdle d'⟩
  | cycle c requests => exact settled.cycle done

/-- Where every write port has a priority, the arbitration of a cycle gives each port to the
first of its processes, and each index to the first of its ports. -/
theorem arbitrates_of_run {events : List (Event α ι ρ ω δ)} (run : Run step (fun _ _ => True) create events s)
    (all : ∀ port ∈ s.writePorts, port ∈ s.priorities) (requests : List (PortRequest α ι ρ ω δ)) (some : requests ≠ [])
    (c : CycleNo) (a : ReadWriteStructure α ι ρ ω δ) (acquired : requests.foldlM (acquire c) s = Option.some a) :
    ∃ after, s.cycle c requests = Option.some after ∧ Arbitrates s requests after := by
  have settled := run.invariant settled_create fun _ _ _ kept _ done => kept.step done
  obtain ⟨after, done, arbitrates⟩ := (settled.acquire acquired).arbitrates settled all
  refine ⟨after, ?_, arbitrates⟩
  unfold cycle
  rw [acquired, Option.bind_some, if_neg some, done]

/-- A dedicated port that goes before an arbitrated one with two processes. -/
def twoPorts : List (Event Nat Nat Unit Unit Unit) :=
  [.registerDedicatedWritePort (), .registerArbitratedWritePort (), .addPort (.dedicated ()), .addPort (.arbitrated ()),
    .setProcess () 0, .addWriteProcess () 1, .addWriteProcess () 2]

/-- All of them write to the same index. -/
def threeWrites : List (PortRequest Nat Nat Unit Unit Unit) := [.write () 2 7, .write () 1 7, .dedicatedWrite () 0 7]

theorem arbitrates_of_run_two :
    ∃ s after, execute step create twoPorts = some s ∧ s.cycle 3 threeWrites = some after ∧
      Arbitrates s threeWrites after := by
  obtain ⟨after, done, arbitrates⟩ := arbitrates_of_run
    (run_of_execute (fun _ _ _ => trivial) (rfl : execute step create twoPorts = some _))
    (fun _ member => member) threeWrites (by decide) 3 _ rfl
  exact ⟨_, after, rfl, done, arbitrates⟩

end ReadWriteStructure

end Mgsim.Sim
