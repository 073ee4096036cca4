import Mathlib.Algebra.Order.BigOperators.Group.Finset
import Mgsim.Ic.Drain

namespace Mgsim.Ic
open Mgsim.Lib IcRecord
variable {M : Type} {size : Nat → Option Nat} {r r' : IcRecord M} {s p : Nat} {m : OutgoingMessage M}

/-- How many messages wait to be sent. -/
def IcRecord.total (r : IcRecord M) : Nat := ∑ s ∈ Finset.range r.ic.stack.senders, (r.ic.sources s).contents.length

theorem left_le : (r.left s).length ≤ (r.ic.sources s).contents.length := by
  unfold IcRecord.left
  split
  · rw [List.length_tail]
    exact Nat.sub_le ..
  · exact Nat.le_refl _

theorem left_lt (front : r.front s = some m) (sends : (r.wins s m && r.fits m) = true) :
    (r.left s).length < (r.ic.sources s).contents.length := by
  obtain ⟨rest, contents⟩ := contents_of_front front
  unfold IcRecord.left
  rw [front, Option.any_some, sends, if_pos rfl, contents]
  exact Nat.lt_succ_self _

namespace Cycled

theorem total_le (cycled : Cycled r r') : r'.total ≤ r.total := by
  unfold IcRecord.total
  rw [cycled.stack]
  refine Finset.sum_le_sum fun s _ => ?_
  rw [cycled.sources]
  exact left_le

/-- When somebody sends a message, fewer wait. -/
theorem total_lt (cycled : Cycled r r') (inside : s < r.ic.stack.senders) (front : r.front s = some m)
    (sends : (r.wins s m && r.fits m) = true) : r'.total < r.total := by
  unfold IcRecord.total
  rw [cycled.stack]
  refine Finset.sum_lt_sum (fun s _ => ?_) ⟨s, Finset.mem_range.mpr inside, ?_⟩
  · rw [cycled.sources]
    exact left_le
  · rw [cycled.sources]
    exact left_lt front sends

/-- Who does not send keeps the message. -/
theorem front_stays (cycled : Cycled r r') (front : r.front s = some m) (stays : (r.wins s m && r.fits m) = false) :
    r'.front s = some m := by
  have same : (r'.ic.sources s).contents = (r.ic.sources s).contents := by
    rw [cycled.sources]
    unfold IcRecord.left
    rw [front, Option.any_some, stays]
    rfl
  unfold IcRecord.front
  rw [same]
  exact front

theorem front_none (cycled : Cycled r r') (front : r.front s = none) : r'.front s = none := by
  have same : (r'.ic.sources s).contents = (r.ic.sources s).contents := by
    rw [cycled.sources]
    unfold IcRecord.left
    rw [front]
    rfl
  unfold IcRecord.front
  rw [same]
  exact front

end Cycled

namespace Live

/-- A port that is requested selects the request that is next in turn. -/
theorem selects (live : Live size r) (requested : s ∈ r.requestsAt p) :
    ∃ i, r.portAfter p = ⟨i, some i⟩ ∧ Next r.ic.stack.senders (r.ic.ports p).lastSelected (r.requestsAt p) i := by
  have known (i : Nat) (member : i ∈ r.requestsAt p) : i < r.ic.stack.senders :=
    (mem_waiting.mp (mem_requestsAt.mp member).1).1
  have some : r.requestsAt p ≠ [] := fun none => by
    rw [none] at requested
    cases requested
  have inside := live.turn (Nat.zero_lt_of_lt (known s requested)) p
  obtain ⟨i, selected, next⟩ := Port.arbitrate_spec inside some known nodup_requestsAt
  refine ⟨i, ?_, next⟩
  unfold IcRecord.portAfter
  rw [if_neg some]
  exact selected

theorem contents_nil (live : Live size r) (none : r.waiting = []) (s : Nat) : (r.ic.sources s).contents = [] := by
  cases contents : (r.ic.sources s).contents with
  | nil => rfl
  | cons m rest =>
    have inside := (live.valid s m (by rw [contents]; exact List.mem_cons_self)).1
    have front : r.front s = some m := by
      unfold IcRecord.front
      rw [contents]
      rfl
    have member := mem_waiting.mpr ⟨inside, m, front⟩
    rw [none] at member
    cases member

end Live

theorem empty_waiting (empty : r.Empty) : r.waiting = [] := by
  refine List.eq_nil_iff_forall_not_mem.mpr fun s member => ?_
  obtain ⟨_, m, front⟩ := mem_waiting.mp member
  obtain ⟨rest, contents⟩ := contents_of_front front
  rw [empty.1 s] at contents
  cases contents

/-- Once nothing waits to be sent, the receivers take the rest. -/
theorem Cycled.empty (cycled : Cycled r r') (live : Live size r) (none : r.waiting = []) : r'.Empty := by
  refine ⟨fun s => ?_, cycled.taken none⟩
  rw [cycled.sources]
  unfold IcRecord.left
  rw [live.contents_nil none s]
  split <;> rfl

/-- In all cycles that follow, somebody who waits is in turn. -/
def InTurnAlong (r : IcRecord M) : Prop := ∀ n after, r.cycles n = some after → after.InTurn

theorem InTurnAlong.next (turns : InTurnAlong r) (cycle : r.cycle = some r') : InTurnAlong r' := by
  intro n after reached
  refine turns (n + 1) after ?_
  unfold IcRecord.cycles
  rw [cycle]
  exact reached

theorem cycles_next {n : Nat} {after : IcRecord M} (cycle : r.cycle = some r') (rest : r'.cycles n = some after) :
    r.cycles (n + 1) = some after := by
  unfold IcRecord.cycles
  rw [cycle]
  exact rest

theorem cycles_trans {n k : Nat} {after : IcRecord M} (first : r.cycles n = some r') (rest : r'.cycles k = some after) :
    r.cycles (n + k) = some after := by
  induction n generalizing r with
  | zero =>
    cases first
    rw [Nat.zero_add]
    exact rest
  | succ n ih =>
    obtain ⟨middle, cycle, later⟩ := Option.bind_eq_some_iff.mp first
    rw [Nat.add_right_comm]
    exact cycles_next cycle (ih later)

/-- Some cycles after which fewer messages wait. -/
def Progresses (size : Nat → Option Nat) (r : IcRecord M) : Prop :=
  ∃ n after, r.cycles n = some after ∧ Live size after ∧ InTurnAlong after ∧ after.total < r.total

/-- How long a sender has to wait for a port at most. -/
def rank (r : IcRecord M) (p s : Nat) : Nat :=
  if s = (r.ic.ports p).lastSelected then r.ic.stack.senders
  else distance r.ic.stack.senders (r.ic.ports p).lastSelected s

/-- A sender that needs a single port gets it some time, as the arbiter is cyclic. -/
theorem Live.progress_single {rankNow : Nat} (bound : rank r p s = rankNow) (live : Live size r) (turns : InTurnAlong r)
    (front : r.front s = some m) (single : r.ic.stack.portsOf m = [p]) : Progresses size r := by
  induction rankNow using Nat.strong_induction_on generalizing r with
  | _ rankNow ih =>
    obtain ⟨r', cycle, live', cycled⟩ := cycle_spec live
    have known := live.valid_front front
    have waits : s ∈ r.waiting := mem_waiting.mpr ⟨known.1, m, front⟩
    have requested : s ∈ r.requestsAt p := mem_requestsAt.mpr ⟨waits, m, front, by rw [single]; exact List.mem_singleton_self p⟩
    have port : p ∈ r.ic.stack.ports := ports_of_valid known.2 (by rw [single]; exact List.mem_singleton_self p)
    have fit : r.fits m = true := (turns 0 r rfl).fit s m front
    obtain ⟨i, selected, next⟩ := live.selects requested
    have wins : r.wins s m = decide (i = s) := by
      unfold IcRecord.wins
      rw [single, List.all_cons, List.all_nil, Bool.and_true, selected]
      simp only [Option.some.injEq]
    by_cases own : i = s
    · refine ⟨1, r', cycles_next cycle rfl, live', turns.next cycle, cycled.total_lt known.1 front ?_⟩
      rw [wins, fit, decide_eq_true own]
      rfl
    · have stays : r'.front s = some m := cycled.front_stays front (by rw [wins, decide_eq_false own]; rfl)
      have other : s ≠ i := fun same => own same.symm
      have requests (j : Nat) (member : j ∈ r.requestsAt p) : j < r.ic.stack.senders :=
        (mem_waiting.mp (mem_requestsAt.mp member).1).1
      have inside := live.turn (Nat.zero_lt_of_lt known.1) p
      have closer : rank r' p s < rankNow := by
        rw [← bound]
        unfold rank
        rw [cycled.ports p port, selected, cycled.stack, if_neg other]
        split
        · exact distance_lt (requests i next.member)
        · rename_i notLast
          exact next.closer inside requests requested other notLast
      obtain ⟨n, after, reached, liveAfter, turnsAfter, fewer⟩ :=
        ih _ closer rfl live' (turns.next cycle) stays (by rw [cycled.stack]; exact single)
      exact ⟨n + 1, after, cycles_next cycle reached, liveAfter, turnsAfter, Nat.lt_of_lt_of_le fewer cycled.total_le⟩

theorem Live.progress (live : Live size r) (turns : InTurnAlong r) (some : r.waiting ≠ []) : Progresses size r := by
  have here := turns 0 r rfl
  rcases here.turn some with ⟨s, waits, m, front, single⟩ | ⟨s, waits, wins⟩
  · have ports : ∃ p, r.ic.stack.portsOf m = [p] := by
      unfold Stack.portsOf
      cases r.ic.stack.medium with
      | shared => exact ⟨0, rfl⟩
      | endPoints => exact ⟨m.dst, if_neg (by rw [single]; exact Bool.false_ne_true)⟩
    obtain ⟨p, ports⟩ := ports
    exact live.progress_single rfl turns front ports
  · obtain ⟨inside, m, front⟩ := mem_waiting.mp waits
    obtain ⟨r', cycle, live', cycled⟩ := cycle_spec live
    refine ⟨1, r', cycles_next cycle rfl, live', turns.next cycle, cycled.total_lt inside front ?_⟩
    rw [wins m front, here.fit s m front]
    rfl

/-- When somebody who waits is in turn in all cycles, everything is delivered. -/
theorem Live.drains_of_turns (live : Live size r) (turns : InTurnAlong r) : r.Drains := by
  induction waits : r.total using Nat.strong_induction_on generalizing r with
  | _ count ih =>
    by_cases none : r.waiting = []
    · obtain ⟨r', cycle, _, cycled⟩ := cycle_spec live
      exact ⟨1, r', cycles_next cycle rfl, cycled.empty live none⟩
    · obtain ⟨n, middle, reached, live', turns', fewer⟩ := live.progress turns none
      obtain ⟨k, after, later, empty⟩ := ih middle.total (waits ▸ fewer) live' turns' rfl
      exact ⟨n + k, after, cycles_trans reached later, empty⟩

/-- Arbiters that are out of phase stay so: when nobody who waits is in turn, nothing is sent, and nobody is in turn in
the next cycle either. -/
theorem Cycled.stuck (cycled : Cycled r r') (live : Live size r) (live' : Live size r') (out : ¬ r.InTurn) : ¬ r'.InTurn := by
  intro turn'
  by_cases fit : ∀ s, ∀ m ∈ r.front s, r.fits m = true
  swap
  · push Not at fit
    obtain ⟨s, m, front, large⟩ := fit
    have sizes (t : Nat) : (r'.ic.destinations t).maxSize = (r.ic.destinations t).maxSize :=
      (live'.sizes t).2.trans (live.sizes t).2.symm
    have stays := cycled.front_stays front (by rw [Bool.eq_false_iff.mpr large, Bool.and_false])
    exact large ((fits_congr cycled.stack sizes m).symm.trans (turn'.fit s m stays))
  have stuck : ¬ (r.waiting ≠ [] → (∃ s ∈ r.waiting, ∃ m ∈ r.front s, m.broadcast = false) ∨
      ∃ s ∈ r.waiting, ∀ m ∈ r.front s, r.wins s m = true) := fun turn => out ⟨fit, turn⟩
  push Not at stuck
  obtain ⟨some, broadcasts, loses⟩ := stuck
  -- Nothing is sent, so the next cycle sees the same requests.
  have fronts : r'.front = r.front := by
    funext s
    cases front : r.front s with
    | none => exact cycled.front_none front
    | some m =>
      have waits := mem_waiting.mpr ⟨(live.valid_front front).1, m, front⟩
      obtain ⟨_, same, lost⟩ := loses s waits
      cases front.symm.trans same
      exact cycled.front_stays front (by rw [Bool.eq_false_iff.mpr lost, Bool.false_and])
  have waiting : r'.waiting = r.waiting := by
    unfold IcRecord.waiting
    rw [cycled.stack, fronts]
  obtain ⟨ports, all⟩ : ∃ ports, ∀ s ∈ r.waiting, ∀ m ∈ r.front s, r.ic.stack.portsOf m = ports := by
    unfold Stack.portsOf
    cases r.ic.stack.medium with
    | shared => exact ⟨[0], fun _ _ _ _ => rfl⟩
    | endPoints => exact ⟨_, fun s waits m front => if_pos (Bool.eq_true_of_not_eq_false (broadcasts s waits m front))⟩
  have requests (p : Nat) (port : p ∈ ports) : r.requestsAt p = r.waiting := by
    refine List.filter_eq_self.mpr fun s waits => ?_
    obtain ⟨_, m, front⟩ := mem_waiting.mp waits
    rw [front, Option.any_some, all s waits m front]
    exact decide_eq_true port
  have requests' (p : Nat) : r'.requestsAt p = r.requestsAt p := by
    unfold IcRecord.requestsAt
    rw [waiting, fronts, cycled.stack]
  have known (s : Nat) (waits : s ∈ r.waiting) : s < r.ic.stack.senders := (mem_waiting.mp waits).1
  -- Somebody loses in this cycle at two ports that select different senders, who wins at all ports in the next one.
  rcases turn'.turn (by rw [waiting]; exact some) with ⟨s, waits, m, front, single⟩ | ⟨s, waits, wins⟩
  · rw [waiting] at waits
    rw [fronts] at front
    exact broadcasts s waits m front single
  rw [waiting] at waits
  rw [fronts] at wins
  obtain ⟨m, front, lost⟩ := loses s waits
  have everywhere := List.all_eq_true.mp (wins m front)
  rw [cycled.stack, all s waits m front] at everywhere
  have winner (p : Nat) (port : p ∈ ports) : ∃ i ∈ r.waiting, r.portAfter p = ⟨i, Option.some i⟩ ∧
      Next r.ic.stack.senders i r.waiting s := by
    have requested : s ∈ r.requestsAt p := by
      rw [requests p port]
      exact waits
    obtain ⟨i, selected, next⟩ := live.selects requested
    have requested' : s ∈ r'.requestsAt p := by
      rw [requests']
      exact requested
    obtain ⟨k, selected', next'⟩ := live'.selects requested'
    have chosen := of_decide_eq_true (everywhere p port)
    rw [selected'] at chosen
    rw [requests p port] at next
    refine ⟨i, next.member, selected, ?_⟩
    rw [cycled.stack, requests', requests p port, cycled.ports p (ports_of_valid (live.valid_front front).2
      (by rw [all s waits m front]; exact port)), selected, Option.some.inj chosen] at next'
    exact next'
  have disagree (u : Nat) (waits' : u ∈ r.waiting) : ∃ q ∈ ports, (r.portAfter q).selected ≠ Option.some u := by
    obtain ⟨m', front', lost'⟩ := loses u waits'
    unfold IcRecord.wins at lost'
    rw [all u waits' m' front', ne_eq, List.all_eq_true] at lost'
    push Not at lost'
    obtain ⟨q, port, other⟩ := lost'
    exact ⟨q, port, fun same => other (decide_eq_true same)⟩
  obtain ⟨p, port, _⟩ := disagree s waits
  obtain ⟨i, member, _, next⟩ := winner p port
  obtain ⟨q, port', other⟩ := disagree i member
  obtain ⟨k, member', selected', next'⟩ := winner q port'
  have apart : i ≠ k := fun same => other (by rw [selected', same])
  exact next.injective next' known member member' apart rfl

theorem Live.not_drains (live : Live size r) (out : ¬ r.InTurn) : ¬ r.Drains := by
  rintro ⟨n, after, reached, empty⟩
  induction n generalizing r with
  | zero =>
    cases reached
    refine out ⟨fun s m front => ?_, fun some => absurd (empty_waiting empty) some⟩
    obtain ⟨rest, contents⟩ := contents_of_front front
    rw [empty.1 s] at contents
    cases contents
  | succ n ih =>
    obtain ⟨r', cycle, later⟩ := Option.bind_eq_some_iff.mp reached
    obtain ⟨_, same, live', cycled⟩ := cycle_spec live
    cases cycle.symm.trans same
    exact ih live' (cycled.stuck live live' out) later

theorem Live.drains_next (live : Live size r) (drains : r.Drains) (cycle : r.cycle = some r') : r'.Drains := by
  obtain ⟨n, after, reached, empty⟩ := drains
  cases n with
  | zero =>
    cases reached
    obtain ⟨_, same, _, cycled⟩ := cycle_spec live
    cases cycle.symm.trans same
    exact ⟨0, r', rfl, cycled.empty live (empty_waiting empty)⟩
  | succ n =>
    unfold IcRecord.cycles at reached
    rw [cycle] at reached
    exact ⟨n, after, reached, empty⟩

theorem Live.drains_iff (live : Live size r) : r.Drains ↔ InTurnAlong r := by
  refine ⟨fun drains n after reached => ?_, live.drains_of_turns⟩
  induction n generalizing r with
  | zero =>
    cases reached
    by_contra out
    exact live.not_drains out drains
  | succ n ih =>
    obtain ⟨r', cycle, later⟩ := Option.bind_eq_some_iff.mp reached
    obtain ⟨_, same, live', _⟩ := cycle_spec live
    cases cycle.symm.trans same
    exact ih live' (live.drains_next drains cycle) later

/-- Every message that has been accepted is under way in order or has been delivered, and all of them are delivered some
time exactly when somebody who waits is in turn in all cycles that follow. -/
theorem delivery {stack : Stack} {sourceSize destinationSize : Nat → Option Nat} {events : List (IcEvent M)}
    (run : Run IcRecord.step (fun _ _ => True) (.start stack sourceSize destinationSize) events r) :
    Delivers r ∧ (r.Drains ↔ InTurnAlong r) := by
  have live : Live destinationSize r :=
    run.invariant (.start stack sourceSize destinationSize) fun _ _ _ live _ called => live.step called
  exact ⟨live.books.delivers, live.drains_iff⟩

/-- On a shared medium somebody is always in turn. -/
theorem Live.inTurn_shared (live : Live size r) (shared : r.ic.stack.medium = .shared) (sized : ∀ t, size t ≠ some 0) :
    r.InTurn := by
  have ports (m : OutgoingMessage M) : r.ic.stack.portsOf m = [0] := by
    unfold Stack.portsOf
    rw [shared]
  refine ⟨fun s m _ => ?_, fun some => Or.inr ?_⟩
  · refine List.all_eq_true.mpr fun t _ => ?_
    unfold Interconnect.fitsAt
    rw [(live.sizes t).2, decide_eq_true (sized t), Bool.or_true]
  · obtain ⟨s, waits⟩ := List.exists_mem_of_ne_nil _ some
    obtain ⟨_, m, front⟩ := mem_waiting.mp waits
    have requested : s ∈ r.requestsAt 0 := mem_requestsAt.mpr ⟨waits, m, front, by rw [ports]; exact List.mem_singleton_self 0⟩
    obtain ⟨i, selected, next⟩ := live.selects requested
    refine ⟨i, (mem_requestsAt.mp next.member).1, fun m' _ => ?_⟩
    unfold IcRecord.wins
    rw [ports, List.all_cons, List.all_nil, Bool.and_true, selected]
    exact decide_eq_true rfl

theorem Live.turns_shared (live : Live size r) (shared : r.ic.stack.medium = .shared) (sized : ∀ t, size t ≠ some 0) :
    InTurnAlong r := by
  intro n after reached
  induction n generalizing r with
  | zero =>
    cases reached
    exact live.inTurn_shared shared sized
  | succ n ih =>
    obtain ⟨r', cycle, later⟩ := Option.bind_eq_some_iff.mp reached
    obtain ⟨_, same, live', cycled⟩ := cycle_spec live
    cases cycle.symm.trans same
    exact ih live' (by rw [cycled.stack]; exact shared) later

section Examples

/-- Two buffered senders and two buffered receivers. -/
def twoByTwo (medium : Medium) : Stack := ⟨medium, 2, 2, fun _ => true, fun _ => true, fun _ => true⟩

def twoBroadcasts : List (IcEvent Nat) :=
  [.send 0 true 0 10 fun _ => true, .send 1 true 0 20 fun _ => true, .updateSource 0, .updateSource 1]

theorem delivery_twoBroadcasts :
    ∃ r, execute IcRecord.step (.start (twoByTwo .shared) (fun _ => some 2) fun _ => some 2) twoBroadcasts = some r ∧
      Delivers r ∧ r.Drains := by
  have done : (execute IcRecord.step (.start (twoByTwo .shared) (fun _ => some 2) fun _ => some 2) twoBroadcasts).map
      (fun r => r.ic.stack.medium) = some .shared := by
    decide +kernel
  obtain ⟨r, executed, shared⟩ := Option.map_eq_some_iff.mp done
  have run : Run IcRecord.step (fun _ _ => True) (.start (twoByTwo .shared) (fun _ => some 2) fun _ => some 2)
      twoBroadcasts r := run_of_execute (fun _ _ _ => trivial) executed
  have live : Live (fun _ => some 2) r := run.invariant (.start _ _ _) fun _ _ _ live _ called => live.step called
  obtain ⟨delivers, drains⟩ := delivery run
  exact ⟨r, executed, delivers, drains.mpr (live.turns_shared shared fun _ => by decide)⟩

/-- A message of the second sender moves the turn of one of two arbiters, before both senders broadcast. -/
def outOfPhase : List (IcEvent Nat) :=
  [.send 1 false 1 7 fun _ => true, .updateSource 1, .arbitrate 1 [1], .doSend 1 fun _ => true, .updateSource 1,
    .updateDestination 1, .doReceive 1 true, .updateDestination 1] ++ twoBroadcasts

/-- The two broadcasts block each other for ever. -/
theorem broadcasts_never_delivered :
    ∃ r, execute IcRecord.step (.start (twoByTwo .endPoints) (fun _ => some 2) fun _ => some 2) outOfPhase = some r ∧
      r.accepted.map (fun m => (m.broadcast, m.msg.payload)) = [(false, 7), (true, 10), (true, 20)] ∧ ¬ r.Drains := by
  have done : (execute IcRecord.step (.start (twoByTwo .endPoints) (fun _ => some 2) fun _ => some 2) outOfPhase).map
      (fun r => (r.accepted.map (fun m => (m.broadcast, m.msg.payload)), r.waiting,
        r.waiting.map fun s => (r.front s).map fun m => (m.broadcast, r.wins s m))) =
      some ([(false, 7), (true, 10), (true, 20)], [0, 1], [some (true, false), some (true, false)]) := by
    decide +kernel
  obtain ⟨r, executed, seen⟩ := Option.map_eq_some_iff.mp done
  obtain ⟨accepted, seen⟩ := Prod.mk.inj seen
  obtain ⟨waiting, fronts⟩ := Prod.mk.inj seen
  have run : Run IcRecord.step (fun _ _ => True) (.start (twoByTwo .endPoints) (fun _ => some 2) fun _ => some 2)
      outOfPhase r := run_of_execute (fun _ _ _ => trivial) executed
  have live : Live (fun _ => some 2) r := run.invariant (.start _ _ _) fun _ _ _ live _ called => live.step called
  have front (s : Nat) (waits : s ∈ r.waiting) :
      (r.front s).map (fun m => (m.broadcast, r.wins s m)) = some (true, false) := by
    have all : ∀ seen ∈ r.waiting.map fun s => (r.front s).map fun m => (m.broadcast, r.wins s m),
        seen = some (true, false) := by
      rw [fronts]
      decide
    exact all _ (List.mem_map_of_mem waits)
  refine ⟨r, executed, accepted, live.not_drains fun turn => ?_⟩
  rcases turn.turn (by rw [waiting]; exact List.cons_ne_nil _ _) with ⟨s, waits, m, here, single⟩ | ⟨s, waits, wins⟩
  · have seen := front s waits
    rw [Option.mem_def.mp here, Option.map_some] at seen
    rw [single] at seen
    cases seen
  · obtain ⟨m, here, seen⟩ := Option.map_eq_some_iff.mp (front s waits)
    rw [wins m here] at seen
    exact nomatch (Prod.mk.inj seen).2

end Examples

end Mgsim.Ic
