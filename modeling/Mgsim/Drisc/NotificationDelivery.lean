import Mgsim.Drisc.NotificationMultiplexer

namespace Mgsim.Drisc.NotificationMultiplexer
open Mgsim.Lib

variable {t : Target} {n : Nat} {s s' : NotificationMultiplexer t n} {i : Fin n}

section Attend
variable {queue : Buffer (Integer t)} {writeback writeback' : Register RegAddr} {interrupt interrupt' : Flag}
  {queue' : Buffer (Integer t)} {service : Service t}

theorem takeFront_contents (fresh : queue.popped = false) :
    queue.contents = (takeFront queue).1.toList ++ (takeFront queue).2.contents := by
  unfold takeFront
  split
  · next nonempty =>
    rw [Buffer.contents, Buffer.contents, fresh]
    simp only [Buffer.pop, Bool.false_eq_true, if_false, if_true, Option.toList_some, List.singleton_append]
    rw [← List.cons_append, List.cons_head_tail]
  · rfl

theorem takeFront_data : (takeFront queue).2.data = queue.data := by
  unfold takeFront
  split
  · rfl
  · rfl

theorem put_isSet (flag : Flag) (value : Bool) : (flag.put value).isSet = flag.isSet := by
  cases updated : flag.updated with
  | false => rw [Flag.put_fresh updated]
  | true => rw [Flag.put_updated updated]

/-- What a service takes from the storages of its channel. -/
structure Attended (writeback : Register RegAddr) (interrupt : Flag) (queue : Buffer (Integer t)) (service : Service t)
    (writeback' : Register RegAddr) (interrupt' : Flag) (queue' : Buffer (Integer t)) : Prop where
  listener : writeback.contents = service.listener.toList ++ writeback'.contents
  tag : queue.contents = service.tag.toList ++ queue'.contents
  value : writeback'.value = writeback.value
  written : writeback'.written = writeback.written
  isSet : interrupt'.isSet = interrupt.isSet
  data : queue'.data = queue.data
  cleared : writeback.value ≠ none → writeback'.cleared = true
  delivered : ∀ addr v, writeback.value = some addr → service.tag = some v → service = ⟨some addr, v, some v⟩

theorem attend_spec (fresh : writeback.cleared = false) (unpopped : queue.popped = false)
    (done : attend writeback interrupt queue = some (service, writeback', interrupt', queue')) :
    Attended writeback interrupt queue service writeback' interrupt' queue' := by
  unfold attend at done
  split at done
  · next empty =>
    cases done
    exact ⟨rfl, takeFront_contents unpopped, rfl, rfl, put_isSet .., takeFront_data, fun full => absurd empty full,
      fun addr v full => by rw [empty] at full; cases full⟩
  · next addr full =>
    rw [Register.clear_of_value fresh full, Option.map_some] at done
    have listener : writeback.contents = addr :: ({ writeback with cleared := true } : Register RegAddr).contents := by
      rw [Register.contents, Register.contents, fresh, full]
      rfl
    split at done
    · cases done
      exact ⟨listener, rfl, rfl, rfl, put_isSet .., rfl, fun _ => rfl, fun addr v _ none => by cases none⟩
    · cases done
      refine ⟨listener, takeFront_contents unpopped, rfl, rfl, rfl, takeFront_data, fun _ => rfl, fun addr v same tag => ?_⟩
      cases Option.some.inj (full.symm.trans same)
      dsimp only at tag
      rw [tag]
      rfl

end Attend

/-- The parts of the state that belong to a channel. -/
structure Channel (t : Target) where
  writeback : Register RegAddr
  mask : Bool
  interrupt : Flag
  queue : Buffer (Integer t)
  accepted : List (Integer t)
  registered : List RegAddr
  served : List (Service t)
  enabledFrom : Nat

def channel (s : NotificationMultiplexer t n) (i : Fin n) : Channel t :=
  ⟨s.writebacks i, s.mask i, s.interrupts i, s.notifications i, s.accepted i, s.registered i, s.served i, s.enabledFrom i⟩

/-- Nothing is lost of what a channel has accepted: the notifications are taken in their order, the listeners are called in
theirs, and while the channel has stayed enabled each notification that has been taken is in the register of a listener. -/
structure Channel.Lossless (c : Channel t) : Prop where
  inOrder : c.accepted = c.served.filterMap Service.tag ++ c.queue.contents
  listeners : c.registered = c.served.filterMap Service.listener ++ c.writeback.contents
  delivered : ∀ m service, c.enabledFrom ≤ m → (c.served.filter fun x => x.tag.isSome)[m]? = some service →
    ∃ addr tag, service = ⟨some addr, tag, some tag⟩

/-- What holds of a channel at all times. -/
structure Channel.Kept (called : Bool) (c : Channel t) : Prop extends c.Lossless where
  idle : called = false → c.writeback.cleared = false ∧ c.queue.popped = false
  untouched : c.writeback.value ≠ none → c.writeback.cleared = false →
    c.queue.popped = false ∧ (c.interrupt.isSet = true → c.interrupt.new = true)
  waits : c.writeback.written ≠ none → c.writeback.value = none
  disabled : c.mask = false → c.enabledFrom = c.accepted.length

theorem length_filter_tag (services : List (Service t)) :
    (services.filter fun x => x.tag.isSome).length = (services.filterMap Service.tag).length := by
  induction services with
  | nil => rfl
  | cons service services ih =>
    rcases tag : service.tag with _ | v
    · rw [List.filter_cons_of_neg (by simp [tag]), List.filterMap_cons_none tag, ih]
    · rw [List.filter_cons_of_pos (by simp [tag]), List.filterMap_cons_some tag, List.length_cons, List.length_cons, ih]

theorem filterMap_single {α β : Type} (f : α → Option β) (x : α) : [x].filterMap f = (f x).toList := by
  cases found : f x with
  | none => exact List.filterMap_cons_none found
  | some y => exact List.filterMap_cons_some found

namespace Channel.Kept
variable {c : Channel t} {called : Bool}

theorem accepted_length (kept : c.Kept called) :
    c.accepted.length = (c.served.filter fun x => x.tag.isSome).length + c.queue.contents.length := by
  rw [kept.inOrder, List.length_append, length_filter_tag]

theorem disable (kept : c.Kept called) : Channel.Kept called { c with mask := false, enabledFrom := c.accepted.length } := by
  refine ⟨⟨kept.inOrder, kept.listeners, fun m service later tagged => ?_⟩, kept.idle, kept.untouched, kept.waits, fun _ => rfl⟩
  have bound := (List.getElem?_eq_some_iff.1 tagged).1
  have length := kept.accepted_length
  dsimp only at later bound
  omega

theorem enable (kept : c.Kept called) : Channel.Kept called { c with mask := true } :=
  ⟨⟨kept.inOrder, kept.listeners, kept.delivered⟩, kept.idle, kept.untouched, kept.waits, fun off => by cases off⟩

theorem listen (kept : c.Kept called) {addr : RegAddr} {register : Register RegAddr} (empty : c.writeback.value = none)
    (written : c.writeback.write addr = some register) :
    Channel.Kept called { c with writeback := register, registered := c.registered ++ [addr] } := by
  obtain ⟨contents, value, cleared, _⟩ := Register.contents_write written
  refine ⟨⟨kept.inOrder, ?_, kept.delivered⟩, fun idle => ?_, fun full => ?_, fun _ => value.trans empty, kept.disabled⟩
  · dsimp only
    rw [contents, kept.listeners, List.append_assoc]
  · dsimp only
    rw [cleared]
    exact kept.idle idle
  · exact absurd (value.trans empty) full

theorem interrupted (kept : c.Kept called) {flag : Flag} (set : c.interrupt.set = some flag) :
    Channel.Kept called { c with interrupt := flag } := by
  obtain ⟨_, rfl⟩ := Flag.assign_eq_some set
  exact ⟨⟨kept.inOrder, kept.listeners, kept.delivered⟩, kept.idle,
    fun full cleared => ⟨(kept.untouched full cleared).1, fun _ => rfl⟩, kept.waits, kept.disabled⟩

theorem notified (kept : c.Kept called) (enabled : c.mask = true) {tag : Integer t} {queue : Buffer (Integer t)}
    (pushed : c.queue.push tag 1 = some queue) :
    Channel.Kept called { c with queue := queue, accepted := c.accepted ++ [tag] } := by
  have popped := Buffer.popped_push pushed
  refine ⟨⟨?_, kept.listeners, kept.delivered⟩, fun idle => ?_, fun full cleared => ?_, kept.waits, fun off => ?_⟩
  · dsimp only
    rw [Buffer.contents_push pushed, kept.inOrder, List.append_assoc]
  · dsimp only
    rw [popped]
    exact kept.idle idle
  · dsimp only
    rw [popped]
    exact kept.untouched full cleared
  · exact absurd (enabled.symm.trans off) (by decide)

theorem update (kept : c.Kept called) : Channel.Kept false { c with
    writeback := c.writeback.update
    interrupt := c.interrupt.update
    queue := c.queue.update } := by
  refine ⟨⟨?_, ?_, kept.delivered⟩, fun _ => ⟨rfl, rfl⟩, fun _ _ => ⟨rfl, fun set => set⟩, fun written => absurd rfl written,
    kept.disabled⟩
  · exact kept.inOrder.trans (congrArg _ (Buffer.contents_update _).symm)
  · exact kept.listeners.trans (congrArg _ (Register.contents_update kept.waits).symm)

theorem call (kept : c.Kept called) : c.Kept true :=
  ⟨kept.toLossless, fun idle => (by cases idle), kept.untouched, kept.waits, kept.disabled⟩

/-- A channel is served, either to a listener or because it is disabled. -/
theorem attend (kept : c.Kept false) (stops : c.writeback.value = none → c.mask = false) {service : Service t}
    {writeback : Register RegAddr} {interrupt : Flag} {queue : Buffer (Integer t)}
    (done : attend c.writeback c.interrupt c.queue = some (service, writeback, interrupt, queue)) :
    Channel.Kept true { c with
      writeback := writeback
      interrupt := interrupt
      queue := queue
      served := c.served ++ [service] } := by
  obtain ⟨fresh, unpopped⟩ := kept.idle rfl
  have spec := attend_spec fresh unpopped done
  refine ⟨⟨?_, ?_, fun m other later tagged => ?_⟩, fun idle => (by cases idle), fun full cleared => ?_, fun written => ?_,
    kept.disabled⟩
  · dsimp only
    rw [kept.inOrder, spec.tag, List.filterMap_append, List.append_assoc, filterMap_single]
  · dsimp only
    rw [kept.listeners, spec.listener, List.filterMap_append, List.append_assoc, filterMap_single]
  · dsimp only at later tagged
    rw [List.filter_append] at tagged
    rcases Nat.lt_or_ge m (c.served.filter fun x => x.tag.isSome).length with old | new
    · rw [List.getElem?_append_left old] at tagged
      exact kept.delivered m other later tagged
    · rw [List.getElem?_append_right new] at tagged
      have bound := (List.getElem?_eq_some_iff.1 tagged).1.trans_le (List.length_filter_le _ _)
      rw [List.length_singleton] at bound
      have member := List.mem_of_getElem? tagged
      rw [List.mem_filter, List.mem_singleton] at member
      obtain ⟨rfl, some⟩ := member
      obtain ⟨v, tag⟩ := Option.isSome_iff_exists.1 some
      have enabled : c.mask ≠ false := by
        intro off
        have length := kept.accepted_length
        rw [← kept.disabled off, spec.tag, tag] at length
        simp only [Option.toList_some, List.length_append, List.length_singleton] at length
        omega
      obtain ⟨addr, value⟩ := Option.ne_none_iff_exists'.1 fun none => enabled (stops none)
      exact ⟨addr, v, spec.delivered addr v value tag⟩
  · dsimp only at full cleared
    rw [spec.cleared (spec.value ▸ full)] at cleared
    cases cleared
  · dsimp only at written ⊢
    rw [spec.written] at written
    rw [spec.value]
    exact kept.waits written

end Channel.Kept

/-- What holds of all channels. -/
def Kept (s : NotificationMultiplexer t n) : Prop := ∀ i, (s.channel i).Kept s.called

/-- A step that is about one channel. -/
structure Changes (s s' : NotificationMultiplexer t n) (which : Fin n) (c : Channel t) : Prop where
  here : s'.channel which = c
  others : ∀ i ≠ which, s'.channel i = s.channel i

theorem Changes.kept {which : Fin n} {c : Channel t} (changes : Changes s s' which c) (kept : Kept s)
    (here : c.Kept s'.called) (others : ∀ i ≠ which, (s.channel i).Kept s'.called) : Kept s' := by
  intro i
  by_cases same : i = which
  · rw [same, changes.here]
    exact here
  · rw [changes.others i same]
    exact others i same

/-- What a step in the middle of a cycle leaves as it is. -/
structure Quiet (s s' : NotificationMultiplexer t n) : Prop where
  called : s'.called = s.called
  last : s'.lastNotified = s.lastNotified
  passed : s'.passed = s.passed
  ready : ∀ i, s'.ready i = s.ready i

section Steps

theorem configureChannel_quiet (s : NotificationMultiplexer t n) (which : Fin n) (mode : Integer t) :
    Quiet s (s.configureChannel which mode) := ⟨rfl, rfl, rfl, fun _ => rfl⟩

theorem Kept.configureChannel (kept : Kept s) (which : Fin n) (mode : Integer t) : Kept (s.configureChannel which mode) := by
  have others : ∀ i ≠ which, (s.configureChannel which mode).channel i = s.channel i := by
    intro i other
    simp only [channel, NotificationMultiplexer.configureChannel, Function.update_of_ne other]
    split
    · rw [Function.update_of_ne other]
    · rfl
  by_cases off : mode = 0
  · refine Changes.kept (c := { s.channel which with mask := false, enabledFrom := (s.accepted which).length }) ⟨?_, others⟩ kept
      (kept which).disable fun i _ => kept i
    simp only [channel, NotificationMultiplexer.configureChannel, Function.update_self, off, if_true, ne_eq, not_true,
      decide_false]
  · refine Changes.kept (c := { s.channel which with mask := true }) ⟨?_, others⟩ kept (kept which).enable fun i _ => kept i
    simp only [channel, NotificationMultiplexer.configureChannel, Function.update_self, off, if_false, ne_eq,
      not_false_eq_true, decide_true]

theorem setWriteBackAddress_spec {which : Fin n} {addr : RegAddr} (done : s.setWriteBackAddress which addr = some s') :
    Quiet s s' ∧ ∃ register, (s.writebacks which).value = none ∧ (s.writebacks which).write addr = some register ∧
      Changes s s' which { s.channel which with writeback := register, registered := s.registered which ++ [addr] } := by
  unfold setWriteBackAddress at done
  split at done
  · cases done
  · next empty =>
    obtain ⟨register, written, rfl⟩ := Option.map_eq_some_iff.1 done
    refine ⟨⟨rfl, rfl, rfl, fun i => ?_⟩, register, Option.not_isSome_iff_eq_none.1 empty, written, ?_, fun i other => ?_⟩
    · by_cases same : i = which
      · subst same
        simp only [ready, pending, Function.update_self, (Register.contents_write written).2.1]
      · simp only [ready, pending, Function.update_of_ne same]
    · simp only [channel, Function.update_self]
    · simp only [channel, Function.update_of_ne other]

theorem onInterruptRequestReceived_spec {which : Fin n} (done : s.onInterruptRequestReceived which = some s') :
    Quiet s s' ∧ (s' = s ∨ ∃ flag, (s.interrupts which).set = some flag ∧
      Changes s s' which { s.channel which with interrupt := flag }) := by
  unfold onInterruptRequestReceived at done
  split at done
  · obtain ⟨flag, set, rfl⟩ := Option.map_eq_some_iff.1 done
    refine ⟨⟨rfl, rfl, rfl, fun i => ?_⟩, Or.inr ⟨flag, set, ?_, fun i other => ?_⟩⟩
    · by_cases same : i = which
      · subst same
        obtain ⟨_, rfl⟩ := Flag.assign_eq_some set
        simp only [ready, pending, Function.update_self]
      · simp only [ready, pending, Function.update_of_ne same]
    · simp only [channel, Function.update_self]
    · simp only [channel, Function.update_of_ne other]
  · cases done
    exact ⟨⟨rfl, rfl, rfl, fun _ => rfl⟩, Or.inl rfl⟩

theorem onNotificationReceived_spec {which : Fin n} {tag : Integer t} (done : s.onNotificationReceived which tag = some s') :
    Quiet s s' ∧ (s' = s ∨ s.mask which = true ∧ ∃ queue, (s.notifications which).push tag 1 = some queue ∧
      Changes s s' which { s.channel which with queue := queue, accepted := s.accepted which ++ [tag] }) := by
  unfold onNotificationReceived at done
  split at done
  · next enabled =>
    obtain ⟨queue, pushed, rfl⟩ := Option.map_eq_some_iff.1 done
    refine ⟨⟨rfl, rfl, rfl, fun i => ?_⟩, Or.inr ⟨enabled, queue, pushed, ?_, fun i other => ?_⟩⟩
    · by_cases same : i = which
      · subst same
        simp only [ready, pending, Function.update_self, Buffer.data_push pushed]
      · simp only [ready, pending, Function.update_of_ne same]
    · simp only [channel, Function.update_self]
    · simp only [channel, Function.update_of_ne other]
  · cases done
    exact ⟨⟨rfl, rfl, rfl, fun _ => rfl⟩, Or.inl rfl⟩

/-- The process serves a channel. -/
structure Serves (s s' : NotificationMultiplexer t n) (j : Fin n) (service : Service t) : Prop where
  called : s'.called = true
  last : s'.lastNotified = j
  passed : s'.passed = fun k => if k = j ∨ s.ready k = false then [] else s.passed k ++ [j]
  ready : ∀ i, s'.ready i = s.ready i
  attended : ∃ writeback interrupt queue,
    attend (s.writebacks j) (s.interrupts j) (s.notifications j) = some (service, writeback, interrupt, queue) ∧
      Changes s s' j { s.channel j with
        writeback := writeback
        interrupt := interrupt
        queue := queue
        served := s.served j ++ [service] }

theorem serve_spec (kept : Kept s) (uncalled : s.called = false) {j : Fin n} (done : s.serve j = some s') :
    ∃ service, Serves s s' j service := by
  obtain ⟨⟨service, writeback, interrupt, queue⟩, attended, rfl⟩ := Option.map_eq_some_iff.1 done
  obtain ⟨fresh, unpopped⟩ := (kept j).idle uncalled
  have spec := attend_spec fresh unpopped attended
  refine ⟨service, rfl, rfl, rfl, fun i => ?_, writeback, interrupt, queue, attended, ?_, fun i other => ?_⟩
  · by_cases same : i = j
    · subst same
      simp only [ready, pending, Function.update_self, spec.value, spec.isSet, spec.data, channel]
    · simp only [ready, pending, Function.update_of_ne same]
  · simp only [channel, Function.update_self]
  · simp only [channel, Function.update_of_ne other]

/-- What the process does. -/
theorem doReceivedNotifications_spec (kept : Kept s) {available : Bool} (done : s.doReceivedNotifications available = some s') :
    s.called = false ∧ (s' = { s with called := true } ∧ (s.search = none ∨ available = false) ∨
      ∃ j service, s.search = some j ∧ available = true ∧ Serves s s' j service) := by
  unfold doReceivedNotifications at done
  split at done
  · cases done
  · next uncalled =>
    have uncalled : s.called = false := by simpa using uncalled
    refine ⟨uncalled, ?_⟩
    split at done
    · next none =>
      cases done
      exact Or.inl ⟨rfl, Or.inl none⟩
    · next j found =>
      cases available with
      | false =>
        cases done
        exact Or.inl ⟨rfl, Or.inr rfl⟩
      | true =>
        obtain ⟨service, serves⟩ := serve_spec kept uncalled done
        exact Or.inr ⟨j, service, found, rfl, serves⟩

/-- A search stops at a channel without a listener only when it is disabled. -/
theorem disabled_of_stops (stops : s.stops i = true) (alone : (s.writebacks i).value = none) : s.mask i = false := by
  unfold NotificationMultiplexer.stops at stops
  rw [alone] at stops
  split at stops
  · simpa using stops
  · simp at stops

theorem Kept.step {event : Event t n} (kept : Kept s) (done : s.step event = some s') : Kept s' := by
  cases event with
  | configureChannel which mode =>
    cases done
    exact kept.configureChannel which mode
  | setWriteBackAddress which addr =>
    obtain ⟨quiet, register, empty, written, changes⟩ := setWriteBackAddress_spec done
    refine changes.kept kept ?_ fun i _ => quiet.called ▸ kept i
    rw [quiet.called]
    exact (kept which).listen empty written
  | onInterruptRequestReceived which =>
    obtain ⟨quiet, rfl | ⟨flag, set, changes⟩⟩ := onInterruptRequestReceived_spec done
    · exact kept
    · refine changes.kept kept ?_ fun i _ => quiet.called ▸ kept i
      rw [quiet.called]
      exact (kept which).interrupted set
  | onNotificationReceived which tag =>
    obtain ⟨quiet, rfl | ⟨enabled, queue, pushed, changes⟩⟩ := onNotificationReceived_spec done
    · exact kept
    · refine changes.kept kept ?_ fun i _ => quiet.called ▸ kept i
      rw [quiet.called]
      exact (kept which).notified enabled pushed
  | doReceivedNotifications available =>
    obtain ⟨uncalled, ⟨rfl, _⟩ | ⟨j, service, found, _, serves⟩⟩ := doReceivedNotifications_spec kept done
    · exact fun i => (kept i).call
    · obtain ⟨writeback, interrupt, queue, attended, changes⟩ := serves.attended
      refine changes.kept kept ?_ fun i _ => serves.called ▸ (kept i).call
      rw [serves.called]
      have idle := kept j
      rw [uncalled] at idle
      exact idle.attend (disabled_of_stops (find?_rotation found).1) attended
  | update =>
    cases done
    exact fun i => (kept i).update

theorem Kept.initial (queueSize : Option Nat) : Kept (initial t n queueSize) := by
  intro i
  refine ⟨⟨rfl, rfl, fun m service _ tagged => ?_⟩, fun _ => ⟨rfl, rfl⟩, fun full => absurd rfl full, fun written => absurd rfl written,
    fun _ => rfl⟩
  simp [channel, NotificationMultiplexer.initial] at tagged

end Steps

end Mgsim.Drisc.NotificationMultiplexer
