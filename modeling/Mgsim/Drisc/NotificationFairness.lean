import Mathlib.Data.Fintype.Card
import Mgsim.Lib.Run
import Mgsim.Ic.Arbiter
import Mgsim.Drisc.NotificationDelivery

namespace Mgsim.Drisc.NotificationMultiplexer
open Mgsim.Lib Mgsim.Ic

variable {t : Target} {n : Nat} {s s' : NotificationMultiplexer t n} {k : Fin n}

section Order
variable {last a b c : Nat}

theorem distance_add (insideLast : last < n) (insideA : a < n) (insideB : b < n)
    (before : distance n last a ≤ distance n last b) : distance n a b + distance n last a = distance n last b := by
  rw [distance_eq insideLast insideA, distance_eq insideLast insideB] at before
  rw [distance_eq insideA insideB, distance_eq insideLast insideA, distance_eq insideLast insideB]
  split at before <;> split at before <;> split <;> omega

theorem distance_injective (insideA : a < n) (insideB : b < n) (insideC : c < n) (same : distance n a c = distance n b c) :
    a = b := by
  rw [distance_eq insideA insideC, distance_eq insideB insideC] at same
  split at same <;> split at same <;> omega

/-- The channel that a search finds lies before every other at which it would stop. -/
theorem distance_le_of_search {j x : Fin n} (inside : s.lastNotified < n) (found : s.search = some j) (stops : s.stops x = true) :
    distance n s.lastNotified j ≤ distance n s.lastNotified x := by
  have first := (find?_rotation found).2 x stops
  rwa [Nat.mod_eq_of_lt inside] at first

/-- The channels that have been served while a channel is ready lie one after the other before it. -/
structure Ordered (s : NotificationMultiplexer t n) (k : Fin n) : Prop where
  range : s.lastNotified < n
  ready : s.passed k ≠ [] → s.ready k = true
  nearer : (s.passed k).Pairwise fun x y : Fin n => distance n y k < distance n x k
  last : ∀ x ∈ s.passed k, x ≠ k ∧ distance n s.lastNotified k ≤ distance n x k

theorem Ordered.nodup (ordered : Ordered s k) : (s.passed k).Nodup := by
  refine List.Pairwise.imp (fun {x y} less => ?_) ordered.nearer
  rintro rfl
  exact Nat.lt_irrefl _ less

/-- Fewer channels than there are have been served. -/
theorem Ordered.length_lt (ordered : Ordered s k) : (s.passed k).length < n := by
  have distinct : (k :: s.passed k).Nodup := List.nodup_cons.2 ⟨fun member => (ordered.last k member).1 rfl, ordered.nodup⟩
  have bound := List.Nodup.length_le_card distinct
  rw [Fintype.card_fin, List.length_cons] at bound
  exact bound

/-- The channel that was served last is not to be served again while another one is ready since then. -/
def Turn (s : NotificationMultiplexer t n) : Event t n → Prop
  | .doReceivedNotifications true => ∀ last : Fin n, last.val = s.lastNotified → s.stops last = true → ∀ k, last ∉ s.passed k
  | _ => True

theorem Quiet.ordered (quiet : Quiet s s') (ordered : Ordered s k) : Ordered s' k := by
  obtain ⟨_, last, passed, ready⟩ := quiet
  constructor
  · rw [last]
    exact ordered.range
  · rw [passed, ready]
    exact ordered.ready
  · rw [passed]
    exact ordered.nearer
  · rw [passed, last]
    exact ordered.last

theorem stops_of_ready (ready : s.ready k = true) : s.stops k = true := by
  rw [NotificationMultiplexer.ready, Bool.and_eq_true] at ready
  rw [stops, if_pos ready.1, ready.2, Bool.or_true]

theorem Serves.ordered {j : Fin n} {service : Service t} (serves : Serves s s' j service) (ordered : Ordered s k)
    (found : s.search = some j) (turn : s.Turn (.doReceivedNotifications true)) : Ordered s' k := by
  have passed : s'.passed k = if k = j ∨ s.ready k = false then [] else s.passed k ++ [j] := by rw [serves.passed]
  have range : s'.lastNotified < n := by
    rw [serves.last]
    exact j.isLt
  by_cases skipped : k = j ∨ s.ready k = false
  · rw [if_pos skipped] at passed
    refine ⟨range, fun some => absurd passed some, ?_, fun x member => ?_⟩
    · rw [passed]
      exact List.Pairwise.nil
    · rw [passed] at member
      cases member
  · rw [if_neg skipped] at passed
    obtain ⟨other, isReady⟩ := not_or.1 skipped
    have isReady : s.ready k = true := by simpa using isReady
    have first := distance_add ordered.range j.isLt k.isLt (distance_le_of_search ordered.range found (stops_of_ready isReady))
    have nearer : ∀ x ∈ s.passed k, distance n j k < distance n x k := by
      intro x member
      obtain ⟨_, behind⟩ := ordered.last x member
      by_cases again : j.val = s.lastNotified
      · refine Nat.lt_of_le_of_ne (by rwa [again]) fun same => ?_
        obtain rfl := Fin.ext (distance_injective j.isLt x.isLt k.isLt same)
        exact turn j again (find?_rotation found).1 k member
      · have away : distance n s.lastNotified j ≠ 0 := fun zero => again ((distance_eq_zero ordered.range j.isLt).1 zero)
        omega
    refine ⟨range, fun _ => (serves.ready k).trans isReady, ?_, fun x member => ?_⟩
    · rw [passed, List.pairwise_append]
      refine ⟨ordered.nearer, List.pairwise_singleton _ _, fun x member y single => ?_⟩
      rw [List.mem_singleton.1 single]
      exact nearer x member
    · rw [passed] at member
      rw [serves.last]
      rcases List.mem_append.1 member with old | new
      · exact ⟨(ordered.last x old).1, (nearer x old).le⟩
      · rw [List.mem_singleton.1 new]
        exact ⟨Ne.symm other, le_rfl⟩

theorem Ordered.step {event : Event t n} (kept : Kept s) (ordered : Ordered s k) (turn : s.Turn event)
    (done : s.step event = some s') : Ordered s' k := by
  cases event with
  | configureChannel which mode =>
    cases done
    exact (configureChannel_quiet s which mode).ordered ordered
  | setWriteBackAddress which addr => exact (setWriteBackAddress_spec done).1.ordered ordered
  | onInterruptRequestReceived which => exact (onInterruptRequestReceived_spec done).1.ordered ordered
  | onNotificationReceived which tag => exact (onNotificationReceived_spec done).1.ordered ordered
  | doReceivedNotifications available =>
    obtain ⟨_, ⟨rfl, _⟩ | ⟨j, service, found, rfl, serves⟩⟩ := doReceivedNotifications_spec kept done
    · exact ⟨ordered.range, ordered.ready, ordered.nearer, ordered.last⟩
    · exact serves.ordered ordered found turn
  | update =>
    cases done
    by_cases still : s.update.ready k = true
    · have passed : s.update.passed k = s.passed k := if_pos still
      constructor
      · exact ordered.range
      · exact fun _ => still
      · rw [passed]
        exact ordered.nearer
      · rw [passed]
        exact ordered.last
    · have passed : s.update.passed k = [] := if_neg still
      refine ⟨ordered.range, fun some => absurd passed some, ?_, fun x member => ?_⟩
      · rw [passed]
        exact List.Pairwise.nil
      · rw [passed] at member
        cases member

theorem Ordered.initial (queueSize : Option Nat) (k : Fin n) : Ordered (initial t n queueSize) k :=
  ⟨Nat.zero_lt_of_lt k.isLt, fun some => absurd rfl some, List.Pairwise.nil, fun x member => by cases member⟩

end Order

section Progress

/-- A channel is ready, and not being served in this cycle. -/
def Awaits (s : NotificationMultiplexer t n) (k : Fin n) : Prop := s.ready k = true ∧ (s.writebacks k).cleared = false

def Event.acts : Event t n → Bool
  | .doReceivedNotifications available => available
  | _ => false

/-- What is ready at the end of a cycle is ready in the next one, unless it has been served. -/
theorem ready_update {called : Bool} (kept : (s.channel k).Kept called) (ready : s.ready k = true)
    (uncleared : (s.writebacks k).cleared = false) : s.update.ready k = true := by
  rw [NotificationMultiplexer.ready, Bool.and_eq_true, Option.isSome_iff_ne_none] at ready
  obtain ⟨unpopped, set⟩ := kept.untouched ready.2 uncleared
  have listener : (s.writebacks k).update.value.isSome = true := by
    rw [Register.update, uncleared]
    split
    · assumption
    · exact Option.isSome_iff_ne_none.2 ready.2
  have event : ((s.interrupts k).update.isSet || !(s.notifications k).update.data.isEmpty) = true := by
    rw [pending, Bool.or_eq_true] at ready
    rcases ready.1 with interrupt | notification
    · rw [show (s.interrupts k).update.isSet = true from set interrupt, Bool.true_or]
    · have data : (s.notifications k).update.data = (s.notifications k).data ++ (s.notifications k).pushed :=
        if_neg (by rw [show (s.notifications k).popped = false from unpopped]; decide)
      rw [Bool.not_eq_true', List.isEmpty_eq_false_iff] at notification
      rw [data, Bool.or_eq_true, Bool.not_eq_true', List.isEmpty_eq_false_iff]
      exact Or.inr (List.append_ne_nil_of_left_ne_nil notification _)
  show (_ && _) = true
  rw [Bool.and_eq_true]
  exact ⟨event, listener⟩

/-- A step serves a channel that is ready, or passes it by, or makes no difference to it. -/
theorem Awaits.step {event : Event t n} (kept : Kept s) (awaits : Awaits s k) (done : s.step event = some s') :
    (s.served k).length < (s'.served k).length ∨
      (s'.served k).length = (s.served k).length ∧ Awaits s' k ∧
        (s'.passed k).length = (s.passed k).length + if event.acts then 1 else 0 := by
  obtain ⟨ready, uncleared⟩ := awaits
  have quiet {which : Fin n} {c : Channel t} (quiet : Quiet s s') (changes : Changes s s' which c)
      (same : c.served = s.served which ∧ c.writeback.cleared = (s.writebacks which).cleared) (silent : event.acts = false) :
      (s'.served k).length = (s.served k).length ∧ Awaits s' k ∧
        (s'.passed k).length = (s.passed k).length + if event.acts then 1 else 0 := by
    have parts : (s'.channel k).served = (s.channel k).served ∧
        (s'.channel k).writeback.cleared = (s.channel k).writeback.cleared := by
      by_cases here : k = which
      · subst here
        rw [changes.here]
        exact same
      · rw [changes.others k here]
        exact ⟨rfl, rfl⟩
    refine ⟨congrArg List.length parts.1, ⟨(quiet.ready k).trans ready, parts.2.trans uncleared⟩, ?_⟩
    rw [quiet.passed, silent]
    rfl
  cases event with
  | configureChannel which mode =>
    cases done
    exact Or.inr ⟨rfl, ⟨ready, uncleared⟩, rfl⟩
  | setWriteBackAddress which addr =>
    obtain ⟨calm, register, _, written, changes⟩ := setWriteBackAddress_spec done
    exact Or.inr (quiet calm changes ⟨rfl, (Register.contents_write written).2.2.1⟩ rfl)
  | onInterruptRequestReceived which =>
    obtain ⟨calm, rfl | ⟨flag, _, changes⟩⟩ := onInterruptRequestReceived_spec done
    · exact Or.inr ⟨rfl, ⟨ready, uncleared⟩, rfl⟩
    · exact Or.inr (quiet calm changes ⟨rfl, rfl⟩ rfl)
  | onNotificationReceived which tag =>
    obtain ⟨calm, rfl | ⟨_, queue, _, changes⟩⟩ := onNotificationReceived_spec done
    · exact Or.inr ⟨rfl, ⟨ready, uncleared⟩, rfl⟩
    · exact Or.inr (quiet calm changes ⟨rfl, rfl⟩ rfl)
  | doReceivedNotifications available =>
    obtain ⟨_, ⟨rfl, idle⟩ | ⟨j, service, _, rfl, serves⟩⟩ := doReceivedNotifications_spec kept done
    · have silent : available = false := by
        refine idle.resolve_left fun none => ?_
        exact absurd (stops_of_ready ready) (by simpa using List.find?_eq_none.1 none k (mem_rotation _ k))
      rw [silent]
      exact Or.inr ⟨rfl, ⟨ready, uncleared⟩, rfl⟩
    · obtain ⟨writeback, interrupt, queue, _, changes⟩ := serves.attended
      by_cases same : k = j
      · subst same
        have served : s'.served k = s.served k ++ [service] := congrArg Channel.served changes.here
        rw [served, List.length_append]
        exact Or.inl (Nat.lt_succ_self _)
      · have parts := changes.others k same
        refine Or.inr ⟨congrArg (fun c => c.served.length) parts, ⟨(serves.ready k).trans ready,
          (congrArg (fun c => c.writeback.cleared) parts).trans uncleared⟩, ?_⟩
        have passed : s'.passed k = s.passed k ++ [j] := by
          rw [serves.passed]
          exact if_neg (by simp [same, ready])
        rw [passed, List.length_append]
        rfl
  | update =>
    cases done
    have still := ready_update (kept k) ready uncleared
    have passed : s.update.passed k = s.passed k := if_pos still
    refine Or.inr ⟨rfl, ⟨still, rfl⟩, ?_⟩
    rw [passed]
    rfl

theorem served_le {event : Event t n} (kept : Kept s) (done : s.step event = some s') (k : Fin n) :
    (s.served k).length ≤ (s'.served k).length := by
  have frame {which : Fin n} {c : Channel t} (changes : Changes s s' which c)
      (more : (s.served which).length ≤ c.served.length) : (s.served k).length ≤ (s'.served k).length := by
    by_cases here : k = which
    · subst here
      exact more.trans_eq (congrArg (fun c => c.served.length) changes.here).symm
    · exact (congrArg (fun c => c.served.length) (changes.others k here)).ge
  cases event with
  | configureChannel which mode =>
    cases done
    exact le_rfl
  | setWriteBackAddress which addr =>
    obtain ⟨_, register, _, _, changes⟩ := setWriteBackAddress_spec done
    exact frame changes le_rfl
  | onInterruptRequestReceived which =>
    obtain ⟨_, rfl | ⟨flag, _, changes⟩⟩ := onInterruptRequestReceived_spec done
    · exact le_rfl
    · exact frame changes le_rfl
  | onNotificationReceived which tag =>
    obtain ⟨_, rfl | ⟨_, queue, _, changes⟩⟩ := onNotificationReceived_spec done
    · exact le_rfl
    · exact frame changes le_rfl
  | doReceivedNotifications available =>
    obtain ⟨_, ⟨rfl, _⟩ | ⟨j, service, _, _, serves⟩⟩ := doReceivedNotifications_spec kept done
    · exact le_rfl
    · obtain ⟨writeback, interrupt, queue, _, changes⟩ := serves.attended
      refine frame changes ?_
      rw [List.length_append]
      exact Nat.le_add_right _ _
  | update =>
    cases done
    exact le_rfl

/-- A channel that is ready has been served after so many calls of the process as there are channels. -/
theorem served_of_awaits {more : List (Event t n)} (kept : Kept s) (ordered : ∀ k, Ordered s k) (awaits : Awaits s k)
    (run : Run step Turn s more s') (enough : n ≤ more.countP Event.acts) : (s.served k).length < (s'.served k).length := by
  have progress : Kept s' ∧ (∀ k, Ordered s' k) ∧ ((s.served k).length < (s'.served k).length ∨
      (s'.served k).length = (s.served k).length ∧ Awaits s' k ∧ more.countP Event.acts ≤ (s'.passed k).length) := by
    clear enough
    induction run with
    | start => exact ⟨kept, ordered, Or.inr ⟨rfl, awaits, Nat.zero_le _⟩⟩
    | @next events state event after _ turn done ih =>
      obtain ⟨kept, ordered, progress⟩ := ih
      refine ⟨kept.step done, fun k => (ordered k).step kept turn done, ?_⟩
      rcases progress with served | ⟨same, awaits, passed⟩
      · exact Or.inl (served.trans_le (served_le kept done k))
      · rcases awaits.step kept done with served | ⟨same', awaits', passed'⟩
        · exact Or.inl (same ▸ served)
        · refine Or.inr ⟨same'.trans same, awaits', ?_⟩
          rw [List.countP_append, List.countP_singleton, passed']
          exact Nat.add_le_add_right passed _
  obtain ⟨_, ordered, served | ⟨_, _, passed⟩⟩ := progress
  · exact served
  · have bound := (ordered k).length_lt
    omega

end Progress

/-- Where it is not the turn of the channel that was served last, and this channel is served, it is served twice while another
one is ready. -/
theorem passed_twice (kept : Kept s) (ordered : ∀ k, Ordered s k) (done : s.doReceivedNotifications true = some s')
    (unfair : ¬ s.Turn (.doReceivedNotifications true)) : ∃ k, ¬ (s'.passed k).Nodup := by
  simp only [Turn, not_forall, not_not] at unfair
  obtain ⟨last, atLast, stops, k, again⟩ := unfair
  have ready := (ordered k).ready (List.ne_nil_of_mem again)
  have other := ((ordered k).last last again).1
  obtain ⟨_, ⟨_, idle⟩ | ⟨j, service, found, _, serves⟩⟩ := doReceivedNotifications_spec kept done
  · have none := idle.resolve_right (by decide)
    exact absurd stops (by simpa using List.find?_eq_none.1 none last (mem_rotation _ last))
  · have first := distance_le_of_search (ordered k).range found stops
    rw [(distance_eq_zero (ordered k).range last.isLt).2 atLast, Nat.le_zero, distance_eq_zero (ordered k).range j.isLt,
      ← atLast] at first
    obtain rfl := Fin.ext first
    have passed : s'.passed k = s.passed k ++ [j] := by
      rw [serves.passed]
      exact if_neg (by simp [Ne.symm other, ready])
    refine ⟨k, ?_⟩
    rw [passed]
    exact fun distinct => (List.nodup_append.1 distinct).2.2 j again j List.mem_cons_self rfl

/-- What the process promises: no channel loses anything, and while a channel is ready no other one is served twice. -/
structure Fair (s : NotificationMultiplexer t n) : Prop where
  lossless : ∀ i, (s.channel i).Lossless
  once : ∀ k, (s.passed k).Nodup

/-- Every notification of a channel that stays enabled is delivered once and in order, whatever happens in between. While the
channel that was served last only gets its next turn when nobody has been waiting for his since then, no channel is served
twice while another one is ready; and at no other time is this so. -/
theorem notification_delivery {queueSize : Option Nat} {events : List (Event t n)}
    (run : Run step Turn (initial t n queueSize) events s) :
    Fair s ∧ (∀ k, Awaits s k → ∀ more s', Run step Turn s more s' → n ≤ more.countP Event.acts →
        (s.served k).length < (s'.served k).length) ∧
      ∀ event s', s.step event = some s' → (Fair s' ↔ s.Turn event) := by
  obtain ⟨kept, ordered⟩ := run.invariant (I := fun s => Kept s ∧ ∀ k, Ordered s k)
    ⟨Kept.initial queueSize, Ordered.initial queueSize⟩
    fun s e s' holds turn done => ⟨holds.1.step done, fun k => (holds.2 k).step holds.1 turn done⟩
  refine ⟨⟨fun i => (kept i).toLossless, fun k => (ordered k).nodup⟩,
    fun k awaits more s' run enough => served_of_awaits kept ordered awaits run enough, fun event s' done => ⟨fun fair => ?_,
      fun turn => ⟨fun i => (kept.step done i).toLossless, fun k => ((ordered k).step kept turn done).nodup⟩⟩⟩
  by_contra unfair
  cases event with
  | doReceivedNotifications available =>
    cases available with
    | false => exact unfair trivial
    | true =>
      obtain ⟨k, twice⟩ := passed_twice kept ordered done unfair
      exact twice (fair.once k)
  | configureChannel which mode => exact unfair trivial
  | setWriteBackAddress which addr => exact unfair trivial
  | onInterruptRequestReceived which => exact unfair trivial
  | onNotificationReceived which tag => exact unfair trivial
  | update => exact unfair trivial

/-- The first of two channels, and the second. -/
def firstChannel : Fin 2 := ⟨0, Nat.two_pos⟩

def secondChannel : Fin 2 := ⟨1, Nat.one_lt_two⟩

/-- A notification and a listener for it. -/
def notified : List (Event .mtalpha 2) :=
  [.configureChannel firstChannel 1, .setWriteBackAddress firstChannel ⟨.integer, 3⟩,
    .onNotificationReceived firstChannel 5, .update]

theorem notification_delivery_one : ∃ s, Run step Turn (initial .mtalpha 2 none) (notified ++ [.doReceivedNotifications true]) s ∧
    s.served 0 = [⟨some ⟨.integer, 3⟩, 5, some 5⟩] ∧ Fair s := by
  have allowed : ∀ e ∈ notified, ∀ s, Turn s e := by simp [notified, Turn]
  have run := run_of_execute allowed (show execute step (initial .mtalpha 2 none) notified = some _ from rfl)
  have turn : ∀ s, execute step (initial .mtalpha 2 none) notified = some s → Turn s (.doReceivedNotifications true) := by
    intro s done
    cases done
    unfold Turn
    decide
  have served := Run.next run (turn _ rfl) (show step _ (.doReceivedNotifications true) = some _ from rfl)
  exact ⟨_, served, by decide, (notification_delivery served).1⟩

/-- The steps that lead to a second service of channel 0. A refused service of channel 1, which is ready all the time, gives
the listener of channel 0 the time to come back. -/
def overtaken : List (Event .mtalpha 2) :=
  [.configureChannel firstChannel 1, .configureChannel secondChannel 1,
    .setWriteBackAddress firstChannel ⟨.integer, 3⟩, .onNotificationReceived firstChannel 5,
    .setWriteBackAddress secondChannel ⟨.integer, 4⟩, .onNotificationReceived secondChannel 6, .update,
    .doReceivedNotifications true, .update, .doReceivedNotifications false,
    .setWriteBackAddress firstChannel ⟨.integer, 3⟩, .onNotificationReceived firstChannel 7, .update,
    .doReceivedNotifications true]

theorem served_twice : ¬ ∀ (t : Target) (n : Nat) (queueSize : Option Nat) (events : List (Event t n))
    (s : NotificationMultiplexer t n), Run step (fun _ _ => True) (initial t n queueSize) events s → Fair s := by
  intro all
  have run := run_of_execute (fun _ _ _ => trivial) (show execute step (initial .mtalpha 2 none) overtaken = some _ from rfl)
  have once := (all _ _ _ _ _ run).once 1
  exact absurd once (by decide)

end Mgsim.Drisc.NotificationMultiplexer
