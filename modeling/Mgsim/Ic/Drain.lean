import Mgsim.Ic.Delivery

namespace Mgsim.Ic
open Mgsim.Lib
variable {M : Type}

/-- Whether a receiver has room when nothing waits for it. -/
def Interconnect.fitsAt (ic : Interconnect M) (t : Nat) : Bool :=
  !ic.stack.destinationBuffered t || decide ((ic.destinations t).maxSize ≠ some 0)

/-- The ports of a medium. -/
def Stack.ports (stack : Stack) : List Nat :=
  match stack.medium with
  | .shared => [0]
  | .endPoints => List.range stack.receivers

namespace IcRecord

/-- The first message that waits in the buffer of a sender. -/
def front (r : IcRecord M) (s : Nat) : Option (OutgoingMessage M) := (r.ic.sources s).contents.head?

/-- The senders in whose buffers messages wait. -/
def waiting (r : IcRecord M) : List Nat := (List.range r.ic.stack.senders).filter fun s => (r.front s).isSome

/-- The requests for a port, when all waiting senders make theirs. -/
def requestsAt (r : IcRecord M) (p : Nat) : List Nat :=
  r.waiting.filter fun s => (r.front s).any fun m => decide (p ∈ r.ic.stack.portsOf m)

/-- A port after the arbitration of all waiting senders. -/
def portAfter (r : IcRecord M) (p : Nat) : Port :=
  if r.requestsAt p = [] then r.ic.ports p else (r.ic.ports p).arbitrate r.ic.stack.senders (r.requestsAt p)

/-- Whether a sender wins all ports for a message. -/
def wins (r : IcRecord M) (s : Nat) (m : OutgoingMessage M) : Bool :=
  (r.ic.stack.portsOf m).all fun p => (r.portAfter p).selected = some s

/-- Whether a message can be taken by all its receivers: none of them has a buffer of size zero. -/
def fits (r : IcRecord M) (m : OutgoingMessage M) : Bool := (r.ic.stack.targets m).all r.ic.fitsAt

/-- What is left in the buffer of a sender after a cycle. -/
def left (r : IcRecord M) (s : Nat) : List (OutgoingMessage M) :=
  if (r.front s).any fun m => r.wins s m && r.fits m then (r.ic.sources s).contents.tail else (r.ic.sources s).contents

/-- A receiver takes all that waits for it. -/
def flush (r : IcRecord M) (t : Nat) : List (IcEvent M) :=
  .updateDestination t ::
    (List.replicate (r.ic.destinations t).contents.length [.doReceive t true, .updateDestination t]).flatten

/-- A cycle in which the receivers take all that waits for them, no client sends a message, and all waiting senders
request their ports. -/
def cycleEvents (r : IcRecord M) : List (IcEvent M) :=
  (List.range r.ic.stack.receivers).flatMap r.flush ++
    (List.range r.ic.stack.senders).map .updateSource ++
      (r.ic.stack.ports.filter fun p => r.requestsAt p ≠ []).map (fun p => .arbitrate p (r.requestsAt p)) ++
        r.waiting.map fun s => .doSend s fun _ => true

def cycle (r : IcRecord M) : Option (IcRecord M) := execute step r r.cycleEvents

def cycles : Nat → IcRecord M → Option (IcRecord M)
  | 0, r => some r
  | n + 1, r => r.cycle.bind (cycles n)

/-- Nothing is under way. -/
def Empty (r : IcRecord M) : Prop :=
  (∀ s, (r.ic.sources s).contents = []) ∧ ∀ t, (r.ic.destinations t).contents = []

/-- All messages are delivered some time, when the receivers take what is for them and nothing more is sent. -/
def Drains (r : IcRecord M) : Prop := ∃ n after, cycles n r = some after ∧ after.Empty

/-- The messages at the front of the buffers can be taken by their receivers, and when only broadcasts wait to be sent, one
of their senders is next in turn at all its ports. -/
structure InTurn (r : IcRecord M) : Prop where
  fit : ∀ s, ∀ m ∈ r.front s, r.fits m = true
  turn : r.waiting ≠ [] →
    (∃ s ∈ r.waiting, ∃ m ∈ r.front s, m.broadcast = false) ∨ ∃ s ∈ r.waiting, ∀ m ∈ r.front s, r.wins s m = true

end IcRecord

/-- What every event keeps, with the sizes of the buffers and the turns of the ports. -/
structure Live (size : Nat → Option Nat) (r : IcRecord M) : Prop where
  books : Books r
  sizes : ∀ t, (r.ic.destinations t).maxPushes = 1 ∧ (r.ic.destinations t).maxSize = size t
  turn : 0 < r.ic.stack.senders → ∀ p, (r.ic.ports p).lastSelected < r.ic.stack.senders
  valid : ∀ s, ∀ m ∈ (r.ic.sources s).contents,
    s < r.ic.stack.senders ∧ (m.broadcast = true ∨ m.dst < r.ic.stack.receivers)
  outside : ∀ t, r.ic.stack.receivers ≤ t → (r.ic.destinations t).contents = []

namespace Live
variable {size : Nat → Option Nat} {r r' : IcRecord M} {s t : Nat}
open Interconnect

theorem start (stack : Stack) (sourceSize destinationSize : Nat → Option Nat) :
    Live destinationSize (.start stack sourceSize destinationSize : IcRecord M) :=
  ⟨.start stack sourceSize destinationSize, fun _ => ⟨rfl, rfl⟩, fun some _ => some, fun _ _ => nofun, fun _ _ => rfl⟩

theorem targets_lt {stack : Stack} {m : OutgoingMessage M} (valid : m.broadcast = true ∨ m.dst < stack.receivers)
    (target : t ∈ stack.targets m) : t < stack.receivers := by
  unfold Stack.targets at target
  split at target
  · exact List.mem_range.mp (List.mem_filter.mp target).1
  · rename_i single
    rw [List.mem_singleton.mp target]
    exact valid.resolve_left single

theorem gets (live : Live size r) {ic' : Interconnect M} {m : OutgoingMessage M}
    (valid : m.broadcast = true ∨ m.dst < r.ic.stack.receivers) (gets : Gets r.ic ic' m.msg (r.ic.stack.targets m)) :
    (∀ t, (ic'.destinations t).maxPushes = 1 ∧ (ic'.destinations t).maxSize = size t) ∧
      (0 < ic'.stack.senders → ∀ p, (ic'.ports p).lastSelected < ic'.stack.senders) ∧
      ∀ t, ic'.stack.receivers ≤ t → (ic'.destinations t).contents = [] := by
  refine ⟨fun t => ?_, ?_, fun t beyond => ?_⟩
  · rw [(gets.sizes t).1, (gets.sizes t).2]
    exact live.sizes t
  · rw [gets.stack, gets.ports]
    exact live.turn
  · rw [gets.stack] at beyond
    rw [gets.others t fun target => Nat.not_lt.mpr beyond (targets_lt valid target)]
    exact live.outside t beyond

/-- The buffers of senders change. -/
theorem ofSources (live : Live size r) (books : Books r') {b : Buffer (OutgoingMessage M)} (same : r'.ic = r.ic.setSource s b)
    (valid : ∀ m ∈ b.contents, s < r.ic.stack.senders ∧ (m.broadcast = true ∨ m.dst < r.ic.stack.receivers)) : Live size r' := by
  refine ⟨books, ?_, ?_, fun u m member => ?_, ?_⟩
  · rw [same]
    exact live.sizes
  · rw [same]
    exact live.turn
  · rw [same] at member ⊢
    unfold setSource at member
    dsimp only at member
    by_cases here : u = s
    · rw [here, Function.update_self] at member
      rw [here]
      exact valid m member
    · rw [Function.update_of_ne here] at member
      exact live.valid u m member
  · rw [same]
    exact live.outside

/-- The buffer of a receiver loses messages. -/
theorem ofDestination (live : Live size r) (books : Books r') {b : Buffer (Message M)} {received : Nat → List (Message M)}
    (same : r'.ic = { r.ic.setDestination t b with received := received })
    (sizes : b.maxPushes = (r.ic.destinations t).maxPushes ∧ b.maxSize = (r.ic.destinations t).maxSize)
    (fewer : (r.ic.destinations t).contents = [] → b.contents = []) : Live size r' := by
  have destinations (u : Nat) : r'.ic.destinations u = if u = t then b else r.ic.destinations u := by
    rw [same]
    unfold setDestination
    dsimp only
    by_cases here : u = t
    · rw [here, Function.update_self, if_pos rfl]
    · rw [Function.update_of_ne here, if_neg here]
  refine ⟨books, fun u => ?_, ?_, ?_, fun u beyond => ?_⟩
  · rw [destinations]
    split
    · rename_i here
      rw [sizes.1, sizes.2, here]
      exact live.sizes t
    · exact live.sizes u
  · rw [same]
    exact live.turn
  · rw [same]
    exact live.valid
  · have beyond : r.ic.stack.receivers ≤ u := by
      rw [same] at beyond
      exact beyond
    rw [destinations]
    split
    · rename_i here
      exact fewer (live.outside t (here ▸ beyond))
    · exact live.outside u beyond

theorem arbitrate_turn {senders : Nat} {port : Port} {requests : List Nat} (turn : port.lastSelected < senders)
    (distinct : requests.Nodup) (known : ∀ s ∈ requests, s < senders) :
    (port.arbitrate senders requests).lastSelected < senders := by
  by_cases none : requests = []
  · rw [none]
    exact turn
  · obtain ⟨i, selected, next⟩ := Port.arbitrate_spec turn none known distinct
    rw [selected]
    exact known i next.member

theorem step {e : IcEvent M} (live : Live size r) (called : r.step e = some r') : Live size r' := by
  have books := live.books.step called
  obtain ⟨⟨done, after⟩, stepped, rfl⟩ := Option.map_eq_some_iff.mp called
  dsimp only at books ⊢
  cases e with
  | arbitrate p requests =>
    unfold IcRecord.step? at stepped
    dsimp only at stepped
    split at stepped
    · rename_i known
      cases stepped
      refine ⟨books, live.sizes, fun some q => ?_, live.valid, live.outside⟩
      unfold Interconnect.arbitrate
      dsimp only
      by_cases here : q = p
      · rw [here, Function.update_self]
        exact arbitrate_turn (live.turn some p) known.1 known.2
      · rw [Function.update_of_ne here]
        exact live.turn some q
    · cases stepped
  | send s broadcast dst payload accepts =>
    unfold IcRecord.step? at stepped
    dsimp only at stepped
    split at stepped
    swap
    · cases stepped
    rename_i known
    have valid : (r.outgoing s broadcast dst payload).broadcast = true ∨
        (r.outgoing s broadcast dst payload).dst < r.ic.stack.receivers := by
      unfold IcRecord.outgoing
      cases broadcast with
      | true => exact Or.inl rfl
      | false => exact known.2
    obtain ⟨⟨sent, ic'⟩, ran, same⟩ := Option.map_eq_some_iff.mp stepped
    cases same
    rcases runProcess_cases (fun _ _ => sourceSend_check) ran with ⟨rfl, rfl⟩ | ⟨rfl, committed⟩
    · exact live
    unfold sourceSend at committed
    split at committed
    · obtain ⟨⟨pushed, b⟩, done, same⟩ := Option.map_eq_some_iff.mp committed
      cases same
      refine live.ofSources books rfl fun m member => ?_
      rw [Buffer.pushIn_commit done, Buffer.contents_pushed] at member
      rcases List.mem_append.mp member with earlier | new
      · exact live.valid s m earlier
      · rw [List.mem_singleton.mp new]
        exact ⟨known.1, valid⟩
    · have gets := (mediumSend_commit committed).2
      obtain ⟨sizes, turn, outside⟩ := live.gets valid gets
      refine ⟨books, sizes, turn, ?_, outside⟩
      dsimp only
      rw [gets.stack, gets.sources]
      exact live.valid
  | doSend s accepts =>
    obtain ⟨⟨sent, ic'⟩, ran, same⟩ := Option.map_eq_some_iff.mp stepped
    cases same
    rcases runProcess_cases (fun _ _ => doSend_check) ran with ⟨rfl, rfl⟩ | ⟨rfl, committed⟩
    · exact live
    obtain ⟨⟨m, rest⟩, taken, later⟩ := Option.bind_eq_some_iff.mp committed
    obtain ⟨⟨sent, middle⟩, delivered, same⟩ := Option.map_eq_some_iff.mp later
    obtain ⟨rfl, same⟩ := Prod.mk.inj same
    rw [if_pos ⟨rfl, rfl⟩] at same
    subst same
    obtain ⟨front, -⟩ := Buffer.take?_eq_some taken
    have gets := (mediumSend_commit delivered).2
    have known := live.valid s m (by rw [front]; exact List.mem_cons_self)
    obtain ⟨sizes, turn, outside⟩ := live.gets known.2 gets
    refine ⟨books, sizes, turn, fun u x member => ?_, outside⟩
    have stack : (middle.setSource s rest).stack = r.ic.stack := gets.stack
    dsimp only
    rw [stack]
    have member : x ∈ ((middle.setSource s rest).sources u).contents := member
    unfold setSource at member
    dsimp only at member
    by_cases here : u = s
    · rw [here, Function.update_self] at member
      rw [here]
      refine live.valid s x ?_
      rw [front]
      exact List.mem_cons_of_mem _ member
    · rw [Function.update_of_ne here, gets.sources] at member
      exact live.valid u x member
  | doReceive t accepts =>
    obtain ⟨⟨received, ic'⟩, ran, same⟩ := Option.map_eq_some_iff.mp stepped
    cases same
    rcases runProcess_cases (fun _ _ => doReceive_check) ran with ⟨rfl, rfl⟩ | ⟨rfl, committed⟩
    · exact live
    obtain ⟨⟨msg, rest⟩, taken, same⟩ := Option.map_eq_some_iff.mp committed
    obtain ⟨rfl, same⟩ := Prod.mk.inj same
    rw [if_pos ⟨rfl, rfl⟩] at same
    subst same
    obtain ⟨front, -⟩ := Buffer.take?_eq_some taken
    refine live.ofDestination (t := t) (b := rest) books rfl (Buffer.take?_shape taken).2.2 fun none => ?_
    rw [front] at none
    cases none
  | updateSource s =>
    cases stepped
    refine live.ofSources books rfl fun m member => ?_
    rw [Buffer.contents_update] at member
    exact live.valid s m member
  | updateDestination t =>
    cases stepped
    refine live.ofDestination (t := t) (b := (r.ic.destinations t).update) books rfl ⟨rfl, rfl⟩ fun none => ?_
    rw [Buffer.contents_update]
    exact none

end Live

theorem Live.execute {size : Nat → Option Nat} {r r' : IcRecord M} {events : List (IcEvent M)} (live : Live size r)
    (done : execute IcRecord.step r events = some r') : Live size r' := by
  induction events generalizing r with
  | nil =>
    cases done
    exact live
  | cons e rest ih =>
    obtain ⟨middle, stepped, later⟩ := Option.bind_eq_some_iff.mp done
    exact ih (live.step stepped) later

section Flush
variable {r r' : IcRecord M} {t : Nat}
open Interconnect

/-- Nothing is in a buffer, and nothing is about to be. -/
structure Clear {α : Type} (b : Buffer α) : Prop where
  data : b.data = []
  pushed : b.pushed = []
  popped : b.popped = false

/-- Some receivers have taken all that waited for them. -/
structure Flushes (list : List Nat) (r r' : IcRecord M) : Prop where
  stack : r'.ic.stack = r.ic.stack
  sources : r'.ic.sources = r.ic.sources
  ports : r'.ic.ports = r.ic.ports
  clear : ∀ t ∈ list, Clear (r'.ic.destinations t)
  others : ∀ t, t ∉ list → r'.ic.destinations t = r.ic.destinations t

theorem flush_rounds (count : Nat) (pushed : (r.ic.destinations t).pushed = []) (fresh : (r.ic.destinations t).popped = false)
    (length : (r.ic.destinations t).data.length = count) :
    ∃ r', execute IcRecord.step r (List.replicate count [.doReceive t true, .updateDestination t]).flatten = some r' ∧
      Flushes [t] r r' := by
  induction count generalizing r with
  | zero =>
    refine ⟨r, rfl, rfl, rfl, rfl, fun u here => ?_, fun _ _ => rfl⟩
    rw [List.mem_singleton.mp here]
    exact ⟨List.length_eq_zero_iff.mp length, pushed, fresh⟩
  | succ count ih =>
    obtain ⟨msg, later, data⟩ := List.exists_cons_of_length_eq_add_one length
    obtain ⟨rest, taken⟩ := Buffer.take?_of_data fresh data
    obtain ⟨sameData, samePushed, -⟩ := Buffer.take?_shape taken
    have popped := (Buffer.popped_of_take? taken).2
    have received : r.step (.doReceive t true) =
        some { r with ic := (r.ic.take t msg).setDestination t rest } := by
      unfold IcRecord.step IcRecord.step? runProcess doReceive
      simp [taken]
    let next : IcRecord M := { r with ic := ((r.ic.take t msg).setDestination t rest).setDestination t rest.update }
    have updated : IcRecord.step { r with ic := (r.ic.take t msg).setDestination t rest } (.updateDestination t) =
        some next := by
      have own : ((r.ic.take t msg).setDestination t rest).destinations t = rest := Function.update_self ..
      unfold IcRecord.step IcRecord.step?
      dsimp only
      rw [own]
      rfl
    have own : next.ic.destinations t = rest.update := Function.update_self ..
    have others (u : Nat) (apart : u ≠ t) : next.ic.destinations u = r.ic.destinations u :=
      (Function.update_of_ne apart ..).trans (Function.update_of_ne apart ..)
    have shorter : (next.ic.destinations t).data = later := by
      rw [own]
      unfold Buffer.update
      dsimp only
      rw [if_pos popped, sameData, samePushed, data, pushed]
      exact List.append_nil _
    obtain ⟨after, executed, flushes⟩ := ih (r := next) (own ▸ rfl) (own ▸ rfl) (by
      rw [shorter]
      rw [data] at length
      exact Nat.succ.inj length)
    refine ⟨after, ?_, flushes.stack, flushes.sources, flushes.ports, flushes.clear, fun u apart => ?_⟩
    · rw [List.replicate_succ, List.flatten_cons, execute_append]
      simp only [Mgsim.Lib.execute, received, updated, Option.bind_some]
      exact executed
    · exact (flushes.others u apart).trans (others u fun here => apart (List.mem_singleton.mpr here))

theorem flush_one (r₀ : IcRecord M) (same : r.ic.destinations t = r₀.ic.destinations t) :
    ∃ r', execute IcRecord.step r (r₀.flush t) = some r' ∧ Flushes [t] r r' := by
  let next : IcRecord M := { r with ic := r.ic.setDestination t (r.ic.destinations t).update }
  have own : next.ic.destinations t = (r.ic.destinations t).update := Function.update_self ..
  have data : (r.ic.destinations t).update.data = (r.ic.destinations t).contents := by
    have whole := Buffer.contents_update (r.ic.destinations t)
    have none : (r.ic.destinations t).update.contents = (r.ic.destinations t).update.data := List.append_nil _
    rw [← none, whole]
  obtain ⟨after, executed, flushes⟩ := flush_rounds (r := next) (t := t) (r₀.ic.destinations t).contents.length
    (own ▸ rfl) (own ▸ rfl) (by rw [own, data, same])
  refine ⟨after, ?_, flushes.stack, flushes.sources, flushes.ports, flushes.clear, fun u apart => ?_⟩
  · unfold IcRecord.flush
    rw [Mgsim.Lib.execute]
    exact executed
  · refine (flushes.others u apart).trans (Function.update_of_ne ?_ ..)
    exact fun here => apart (List.mem_singleton.mpr here)

theorem flush_all (r₀ : IcRecord M) (list : List Nat) (distinct : list.Nodup)
    (same : ∀ t ∈ list, r.ic.destinations t = r₀.ic.destinations t) :
    ∃ r', execute IcRecord.step r (list.flatMap r₀.flush) = some r' ∧ Flushes list r r' := by
  induction list generalizing r with
  | nil => exact ⟨r, rfl, rfl, rfl, rfl, nofun, fun _ _ => rfl⟩
  | cons t rest ih =>
    obtain ⟨fresh, distinct⟩ := List.nodup_cons.mp distinct
    obtain ⟨middle, first, one⟩ := flush_one r₀ (same t List.mem_cons_self)
    have other (u : Nat) (member : u ∈ rest) : u ∉ [t] := by
      intro here
      rw [List.mem_singleton.mp here] at member
      exact fresh member
    obtain ⟨after, later, more⟩ := ih distinct fun u member =>
      (one.others u (other u member)).trans (same u (List.mem_cons_of_mem _ member))
    refine ⟨after, ?_, more.stack.trans one.stack, more.sources.trans one.sources, more.ports.trans one.ports,
      fun u member => ?_, fun u apart => ?_⟩
    · rw [List.flatMap_cons, execute_append, first]
      exact later
    · rcases List.mem_cons.mp member with rfl | member
      · rw [more.others u fresh]
        exact one.clear u (List.mem_singleton_self u)
      · exact more.clear u member
    · rw [List.mem_cons, not_or] at apart
      exact (more.others u apart.2).trans (one.others u fun here => apart.1 (List.mem_singleton.mp here))

end Flush

section Rounds
variable {r r' : IcRecord M} {s t p : Nat}
open Interconnect

/-- The buffers of some senders are updated. -/
theorem update_all (list : List Nat) (distinct : list.Nodup) :
    ∃ r', execute IcRecord.step r (list.map .updateSource) = some r' ∧ r'.ic.stack = r.ic.stack ∧
      r'.ic.ports = r.ic.ports ∧ r'.ic.destinations = r.ic.destinations ∧
        ∀ s, r'.ic.sources s = if s ∈ list then (r.ic.sources s).update else r.ic.sources s := by
  induction list generalizing r with
  | nil => exact ⟨r, rfl, rfl, rfl, rfl, fun _ => rfl⟩
  | cons s rest ih =>
    obtain ⟨fresh, distinct⟩ := List.nodup_cons.mp distinct
    obtain ⟨after, later, stack, ports, destinations, sources⟩ :=
      ih (r := { r with ic := r.ic.setSource s (r.ic.sources s).update }) distinct
    refine ⟨after, later, stack, ports, destinations, fun u => ?_⟩
    rw [sources]
    unfold setSource
    dsimp only
    by_cases here : u = s
    · rw [here, Function.update_self, if_neg fresh, if_pos List.mem_cons_self]
    · rw [Function.update_of_ne here]
      simp [here]

/-- Some ports are arbitrated. -/
theorem arbitrate_all (requests : Nat → List Nat) (list : List Nat) (distinct : list.Nodup)
    (known : ∀ p ∈ list, (requests p).Nodup ∧ ∀ s ∈ requests p, s < r.ic.stack.senders) :
    ∃ r', execute IcRecord.step r (list.map fun p => .arbitrate p (requests p)) = some r' ∧ r'.ic.stack = r.ic.stack ∧
      r'.ic.sources = r.ic.sources ∧ r'.ic.destinations = r.ic.destinations ∧
        ∀ p, r'.ic.ports p =
          if p ∈ list then (r.ic.ports p).arbitrate r.ic.stack.senders (requests p) else r.ic.ports p := by
  induction list generalizing r with
  | nil => exact ⟨r, rfl, rfl, rfl, rfl, fun _ => rfl⟩
  | cons p rest ih =>
    obtain ⟨fresh, distinct⟩ := List.nodup_cons.mp distinct
    obtain ⟨after, later, stack, sources, destinations, ports⟩ :=
      ih (r := { r with ic := r.ic.arbitrate p (requests p) }) distinct fun q member => known q (List.mem_cons_of_mem _ member)
    refine ⟨after, ?_, stack, sources, destinations, fun q => ?_⟩
    · have stepped : r.step (.arbitrate p (requests p)) = some { r with ic := r.ic.arbitrate p (requests p) } := by
        unfold IcRecord.step IcRecord.step?
        dsimp only
        rw [if_pos (known p List.mem_cons_self)]
        rfl
      rw [List.map_cons, Mgsim.Lib.execute, stepped]
      exact later
    · rw [ports]
      unfold Interconnect.arbitrate
      dsimp only
      by_cases here : q = p
      · rw [here, Function.update_self, if_neg fresh, if_pos List.mem_cons_self]
      · rw [Function.update_of_ne here]
        simp [here]

/-- A receiver for which nothing waits answers whether it has room for a message. -/
theorem deliver_clear {ic : Interconnect M} (msg : Message M) (clear : Clear (ic.destinations t))
    (one : (ic.destinations t).maxPushes = 1) : ic.deliver .check (fun _ => true) msg t = some (ic.fitsAt t, ic) := by
  have space : (ic.destinations t).hasSpace 1 = decide ((ic.destinations t).maxSize ≠ some 0) := by
    unfold Buffer.hasSpace
    rw [clear.data, clear.pushed]
    cases (ic.destinations t).maxSize with
    | none => rfl
    | some max =>
      rw [Option.all_some, Bool.eq_iff_iff, decide_eq_true_iff, decide_eq_true_iff, ne_eq, Option.some.injEq]
      simp only [List.length_nil]
      omega
  unfold deliver fitsAt
  cases ic.stack.destinationBuffered t with
  | false => rfl
  | true =>
    rw [if_pos rfl, Buffer.pushIn, if_neg fun both => both.1 one, if_neg fun both => by simp [clear.pushed] at both, space]
    cases decide ((ic.destinations t).maxSize ≠ some 0) <;>
      simp only [Bool.false_eq_true, if_true, if_false, reduceCtorEq, Option.map_some, setDestination_self, Bool.not_true,
        Bool.false_or]

theorem deliverAll_clear {ic : Interconnect M} (msg : Message M) (list : List Nat)
    (clear : ∀ t ∈ list, Clear (ic.destinations t) ∧ (ic.destinations t).maxPushes = 1) :
    deliverAll .check (fun _ => true) msg list ic = some (list.all ic.fitsAt, ic) := by
  induction list with
  | nil => rfl
  | cons t rest ih =>
    obtain ⟨first, one⟩ := clear t List.mem_cons_self
    unfold deliverAll
    rw [deliver_clear msg first one, Option.bind_some]
    dsimp only
    rw [ih fun u member => clear u (List.mem_cons_of_mem _ member)]
    rfl

theorem mediumSend_clear {ic : Interconnect M} {m : OutgoingMessage M} (acquired : ic.acquired s m = true)
    (valid : m.broadcast = true ∨ m.dst < ic.stack.receivers)
    (clear : ∀ t ∈ ic.stack.targets m, Clear (ic.destinations t) ∧ (ic.destinations t).maxPushes = 1) :
    mediumSend .check (fun _ => true) s m ic = some ((ic.stack.targets m).all ic.fitsAt, ic) := by
  unfold mediumSend wireSend
  rw [if_pos acquired]
  unfold Stack.targets at clear ⊢
  split
  · rename_i broadcast
    rw [if_pos broadcast] at clear
    exact deliverAll_clear m.msg _ clear
  · rename_i single
    rw [if_neg single] at clear
    obtain ⟨first, one⟩ := clear m.dst (List.mem_singleton_self _)
    rw [if_pos (valid.resolve_left single), deliver_clear m.msg first one, List.all_cons, List.all_nil, Bool.and_true]

/-- A receiver with room takes a message. -/
theorem deliver_room {ic : Interconnect M} (msg : Message M)
    (room : ic.stack.destinationBuffered t = true → (ic.destinations t).RoomFor 1) :
    ∃ ic', ic.deliver .commit (fun _ => true) msg t = some (true, ic') ∧ ic'.stack = ic.stack ∧
      ∀ u, u ≠ t → ic'.destinations u = ic.destinations u := by
  unfold deliver
  split
  · rename_i buffered
    rw [(room buffered).pushIn]
    exact ⟨_, rfl, rfl, fun u other => Function.update_of_ne other ..⟩
  · exact ⟨_, rfl, rfl, fun _ _ => rfl⟩

theorem deliverAll_room (msg : Message M) (list : List Nat) (distinct : list.Nodup) {ic : Interconnect M}
    (room : ∀ t ∈ list, ic.stack.destinationBuffered t = true → (ic.destinations t).RoomFor 1) :
    ∃ ic', deliverAll .commit (fun _ => true) msg list ic = some (true, ic') := by
  induction list generalizing ic with
  | nil => exact ⟨ic, rfl⟩
  | cons t rest ih =>
    obtain ⟨fresh, distinct⟩ := List.nodup_cons.mp distinct
    obtain ⟨middle, delivered, stack, others⟩ := deliver_room msg (room t List.mem_cons_self)
    obtain ⟨after, later⟩ := ih distinct fun u member => by
      rw [stack, others u fun here => fresh (here ▸ member)]
      exact room u (List.mem_cons_of_mem _ member)
    refine ⟨after, ?_⟩
    unfold deliverAll
    rw [delivered]
    dsimp only [Option.bind_some]
    rw [later]
    rfl

theorem mediumSend_room {ic : Interconnect M} {m : OutgoingMessage M} (acquired : ic.acquired s m = true)
    (valid : m.broadcast = true ∨ m.dst < ic.stack.receivers)
    (room : ∀ t ∈ ic.stack.targets m, ic.stack.destinationBuffered t = true → (ic.destinations t).RoomFor 1) :
    ∃ ic', mediumSend .commit (fun _ => true) s m ic = some (true, ic') := by
  unfold mediumSend wireSend
  rw [if_pos acquired]
  unfold Stack.targets at room
  split
  · rename_i broadcast
    rw [if_pos broadcast] at room
    exact deliverAll_room m.msg _ (List.nodup_range.filter _) room
  · rename_i single
    rw [if_neg single] at room
    rw [if_pos (valid.resolve_left single)]
    obtain ⟨ic', delivered, -⟩ := deliver_room m.msg (room m.dst (List.mem_singleton_self _))
    exact ⟨ic', delivered⟩

theorem roomFor_of_clear {ic : Interconnect M} (clear : Clear (ic.destinations t)) (one : (ic.destinations t).maxPushes = 1)
    (fits : ic.fitsAt t = true) (buffered : ic.stack.destinationBuffered t = true) : (ic.destinations t).RoomFor 1 := by
  unfold fitsAt at fits
  rw [buffered, Bool.not_true, Bool.false_or, decide_eq_true_iff] at fits
  unfold Buffer.RoomFor Buffer.hasSpace
  rw [if_pos one, clear.pushed, clear.data]
  refine ⟨by simp, ?_⟩
  cases size : (ic.destinations t).maxSize with
  | none => rfl
  | some max =>
    have positive : max ≠ 0 := fun zero => fits (by rw [size, zero])
    simp only [Option.all_some, List.length_nil, decide_eq_true_iff]
    omega

/-- A sender that has acquired its ports sends its first message to receivers that have room. -/
theorem doSend_room {m : OutgoingMessage M} {rest : Buffer (OutgoingMessage M)}
    (taken : (r.ic.sources s).take? = some (m, rest)) (acquired : r.ic.acquired s m = true)
    (valid : m.broadcast = true ∨ m.dst < r.ic.stack.receivers)
    (clear : ∀ t ∈ r.ic.stack.targets m, Clear (r.ic.destinations t) ∧ (r.ic.destinations t).maxPushes = 1)
    (fits : r.fits m = true) :
    ∃ ic', r.step (.doSend s fun _ => true) = some { r with ic := ic'.setSource s rest } ∧
      Gets r.ic ic' m.msg (r.ic.stack.targets m) := by
  have check := mediumSend_clear acquired valid clear
  rw [show (r.ic.stack.targets m).all r.ic.fitsAt = true from fits] at check
  obtain ⟨ic', commit⟩ := mediumSend_room acquired valid fun t target =>
    roomFor_of_clear (clear t target).1 (clear t target).2 (List.all_eq_true.mp fits t target)
  refine ⟨ic', ?_, (mediumSend_commit commit).2⟩
  unfold IcRecord.step IcRecord.step? runProcess doSend
  dsimp only
  rw [taken]
  simp [check, commit, taken]

/-- A sender that has not acquired its ports, or whose receivers have no room, does nothing. -/
theorem doSend_refused {m : OutgoingMessage M} {rest : Buffer (OutgoingMessage M)}
    (taken : (r.ic.sources s).take? = some (m, rest)) (valid : m.broadcast = true ∨ m.dst < r.ic.stack.receivers)
    (clear : r.ic.acquired s m = true →
      ∀ t ∈ r.ic.stack.targets m, Clear (r.ic.destinations t) ∧ (r.ic.destinations t).maxPushes = 1)
    (lost : (r.ic.acquired s m && r.fits m) = false) : r.step (.doSend s fun _ => true) = some r := by
  have check : mediumSend .check (fun _ => true) s m r.ic = some (false, r.ic) := by
    cases acquired : r.ic.acquired s m with
    | false =>
      unfold mediumSend
      rw [acquired]
      rfl
    | true =>
      rw [acquired, Bool.true_and] at lost
      rw [mediumSend_clear acquired valid (clear acquired)]
      exact congrArg some (Prod.ext lost rfl)
  unfold IcRecord.step IcRecord.step? runProcess doSend
  simp [taken, check]

theorem mem_waiting : s ∈ r.waiting ↔ s < r.ic.stack.senders ∧ ∃ m, r.front s = some m := by
  unfold IcRecord.waiting
  rw [List.mem_filter, List.mem_range, Option.isSome_iff_exists]

theorem mem_requestsAt : s ∈ r.requestsAt p ↔ s ∈ r.waiting ∧ ∃ m, r.front s = some m ∧ p ∈ r.ic.stack.portsOf m := by
  unfold IcRecord.requestsAt
  rw [List.mem_filter, Option.any_eq_true]
  simp only [decide_eq_true_iff]

theorem nodup_waiting : r.waiting.Nodup := List.nodup_range.filter _

theorem nodup_requestsAt : (r.requestsAt p).Nodup := nodup_waiting.filter _

theorem contents_of_front {m : OutgoingMessage M} (front : r.front s = some m) :
    ∃ rest, (r.ic.sources s).contents = m :: rest := by
  unfold IcRecord.front at front
  cases found : (r.ic.sources s).contents with
  | nil =>
    rw [found] at front
    cases front
  | cons first rest =>
    rw [found] at front
    cases front
    exact ⟨rest, rfl⟩

theorem Live.valid_front (live : Live size r) {m : OutgoingMessage M} (front : r.front s = some m) :
    s < r.ic.stack.senders ∧ (m.broadcast = true ∨ m.dst < r.ic.stack.receivers) := by
  obtain ⟨rest, contents⟩ := contents_of_front front
  exact live.valid s m (by rw [contents]; exact List.mem_cons_self)

theorem ports_of_valid {stack : Stack} {m : OutgoingMessage M} (valid : m.broadcast = true ∨ m.dst < stack.receivers)
    (port : p ∈ stack.portsOf m) : p ∈ stack.ports := by
  unfold Stack.portsOf at port
  unfold Stack.ports
  cases medium : stack.medium with
  | shared =>
    rw [medium] at port
    exact port
  | endPoints =>
    rw [medium] at port
    dsimp only at port ⊢
    split at port
    · exact (List.mem_filter.mp port).1
    · rename_i single
      rw [List.mem_singleton.mp port]
      exact List.mem_range.mpr (valid.resolve_left single)

/-- Two senders that win have no receiver in common. -/
theorem wins_apart {m m' : OutgoingMessage M} {s' : Nat} (first : r.wins s m = true) (second : r.wins s' m' = true)
    (apart : s ≠ s') (target : t ∈ r.ic.stack.targets m) : t ∉ r.ic.stack.targets m' := by
  intro target'
  have both (p : Nat) (one : p ∈ r.ic.stack.portsOf m) (two : p ∈ r.ic.stack.portsOf m') : False := by
    have selected := of_decide_eq_true (List.all_eq_true.mp first p one)
    have selected' := of_decide_eq_true (List.all_eq_true.mp second p two)
    exact apart (Option.some.inj (selected.symm.trans selected'))
  cases medium : r.ic.stack.medium with
  | shared => exact both 0 (by simp [Stack.portsOf, medium]) (by simp [Stack.portsOf, medium])
  | endPoints =>
    have ports (x : OutgoingMessage M) : r.ic.stack.portsOf x = r.ic.stack.targets x := by
      unfold Stack.portsOf Stack.targets
      rw [medium]
    exact both t (ports m ▸ target) (ports m' ▸ target')

theorem fits_congr {r₀ : IcRecord M} (stack : r.ic.stack = r₀.ic.stack)
    (sizes : ∀ t, (r.ic.destinations t).maxSize = (r₀.ic.destinations t).maxSize) (m : OutgoingMessage M) :
    r.fits m = r₀.fits m := by
  have same : r.ic.fitsAt = r₀.ic.fitsAt := by
    funext t
    unfold fitsAt
    rw [stack, sizes]
  unfold IcRecord.fits
  rw [stack, same]

/-- The waiting senders that have won send their messages. -/
theorem send_all {r₀ : IcRecord M} (live : Live size r₀) (list : List Nat) (distinct : list.Nodup)
    (waits : ∀ s ∈ list, s ∈ r₀.waiting) (stack : r.ic.stack = r₀.ic.stack)
    (sizes : ∀ t, (r.ic.destinations t).maxSize = (r₀.ic.destinations t).maxSize)
    (ports : ∀ p ∈ r₀.ic.stack.ports, r.ic.ports p = r₀.portAfter p)
    (sources : ∀ s ∈ list, r.ic.sources s = (r₀.ic.sources s).update)
    (clear : ∀ s ∈ list, ∀ m, r₀.front s = some m → r₀.wins s m = true →
      ∀ t ∈ r₀.ic.stack.targets m, Clear (r.ic.destinations t) ∧ (r.ic.destinations t).maxPushes = 1) :
    ∃ r', execute IcRecord.step r (list.map fun s => .doSend s fun _ => true) = some r' ∧ r'.ic.stack = r.ic.stack ∧
      r'.ic.ports = r.ic.ports ∧ (∀ s, s ∉ list → r'.ic.sources s = r.ic.sources s) ∧
        ∀ s ∈ list, (r'.ic.sources s).contents = r₀.left s := by
  induction list generalizing r with
  | nil => exact ⟨r, rfl, rfl, rfl, fun _ _ => rfl, nofun⟩
  | cons s rest ih =>
    obtain ⟨fresh, distinct⟩ := List.nodup_cons.mp distinct
    obtain ⟨_, m, front⟩ := mem_waiting.mp (waits s List.mem_cons_self)
    obtain ⟨later, contents⟩ := contents_of_front front
    have valid := (live.valid_front front).2
    have own := sources s List.mem_cons_self
    have data : (r.ic.sources s).data = m :: later := by
      have none : (r₀.ic.sources s).update.contents = (r₀.ic.sources s).update.data := List.append_nil _
      rw [own, ← none, Buffer.contents_update, contents]
    obtain ⟨b, taken⟩ := Buffer.take?_of_data (own ▸ rfl) data
    have acquired : r.ic.acquired s m = r₀.wins s m := by
      unfold acquired IcRecord.wins
      rw [stack, Bool.eq_iff_iff, List.all_eq_true, List.all_eq_true]
      refine forall₂_congr fun p port => ?_
      rw [ports p (ports_of_valid valid port)]
    have fits := fits_congr stack sizes m
    have own_clear (won : r₀.wins s m = true) (t : Nat) (target : t ∈ r.ic.stack.targets m) :=
      clear s List.mem_cons_self m front won t (stack ▸ target)
    have notLast (u : Nat) (member : u ∈ rest) : u ≠ s := by
      rintro rfl
      exact fresh member
    cases sends : r₀.wins s m && r₀.fits m with
    | false =>
      obtain ⟨after, later, stack', ports', others, done⟩ := ih distinct (fun u member => waits u (List.mem_cons_of_mem _ member))
        stack sizes ports (fun u member => sources u (List.mem_cons_of_mem _ member))
        fun u member => clear u (List.mem_cons_of_mem _ member)
      refine ⟨after, ?_, stack', ports', fun u apart => others u fun member => apart (List.mem_cons_of_mem _ member),
        fun u member => ?_⟩
      · rw [List.map_cons, Mgsim.Lib.execute, doSend_refused taken (stack ▸ valid)
          (fun won => own_clear (acquired ▸ won)) (by rw [acquired, fits, sends])]
        exact later
      · rcases List.mem_cons.mp member with rfl | member
        · rw [others u fresh, own, Buffer.contents_update]
          unfold IcRecord.left
          rw [front, Option.any_some, sends]
          rfl
        · exact done u member
    | true =>
      obtain ⟨won, fit⟩ := (Bool.and_eq_true _ _).mp sends
      obtain ⟨ic', sent, gets⟩ := doSend_room taken (acquired.trans won) (stack ▸ valid) (own_clear won) (fits.trans fit)
      have queue (u : Nat) (apart : u ≠ s) : (ic'.setSource s b).sources u = r.ic.sources u :=
        (Function.update_of_ne apart ..).trans (congrFun gets.sources u)
      obtain ⟨after, later', stack', ports', others, done⟩ := ih (r := { r with ic := ic'.setSource s b }) distinct
        (fun u member => waits u (List.mem_cons_of_mem _ member)) (gets.stack.trans stack)
        (fun t => (gets.sizes t).2.trans (sizes t)) (fun p port => (congrFun gets.ports p).trans (ports p port))
        (fun u member => (queue u (notLast u member)).trans (sources u (List.mem_cons_of_mem _ member)))
        fun u member m' front' won' t target => by
          have notHere : t ∉ r.ic.stack.targets m := by
            rw [stack]
            exact wins_apart won' won (notLast u member) target
          show Clear (ic'.destinations t) ∧ (ic'.destinations t).maxPushes = 1
          rw [gets.others t notHere]
          exact clear u (List.mem_cons_of_mem _ member) m' front' won' t target
      refine ⟨after, ?_, stack'.trans gets.stack, ports'.trans gets.ports, fun u apart => ?_, fun u member => ?_⟩
      · rw [List.map_cons, Mgsim.Lib.execute, sent]
        exact later'
      · rw [List.mem_cons, not_or] at apart
        exact (others u apart.2).trans (queue u apart.1)
      · rcases List.mem_cons.mp member with rfl | member
        · have last : (ic'.setSource u b).sources u = b := Function.update_self ..
          rw [others u fresh, last]
          have whole := (Buffer.take?_eq_some taken).1
          rw [own, Buffer.contents_update] at whole
          unfold IcRecord.left
          rw [front, Option.any_some, sends, if_pos rfl, whole]
          rfl
        · exact done u member

/-- What a cycle does. -/
structure Cycled (r r' : IcRecord M) : Prop where
  stack : r'.ic.stack = r.ic.stack
  ports : ∀ p ∈ r.ic.stack.ports, r'.ic.ports p = r.portAfter p
  sources : ∀ s, (r'.ic.sources s).contents = r.left s
  taken : r.waiting = [] → ∀ t, (r'.ic.destinations t).contents = []

theorem cycle_spec (live : Live size r) : ∃ r', r.cycle = some r' ∧ Live size r' ∧ Cycled r r' := by
  obtain ⟨r₁, flushed, flushes⟩ := flush_all (r := r) r (List.range r.ic.stack.receivers) List.nodup_range fun _ _ => rfl
  obtain ⟨r₂, updated, stack₂, ports₂, destinations₂, sources₂⟩ :=
    update_all (r := r₁) (List.range r.ic.stack.senders) List.nodup_range
  have known (p : Nat) : (r.requestsAt p).Nodup ∧ ∀ s ∈ r.requestsAt p, s < r₂.ic.stack.senders := by
    refine ⟨nodup_requestsAt, fun s member => ?_⟩
    rw [stack₂, flushes.stack]
    exact (mem_waiting.mp (mem_requestsAt.mp member).1).1
  have distinct : (r.ic.stack.ports.filter fun p => r.requestsAt p ≠ []).Nodup := by
    have all : r.ic.stack.ports.Nodup := by
      unfold Stack.ports
      split
      · exact List.nodup_cons.mpr ⟨List.not_mem_nil, .nil⟩
      · exact List.nodup_range
    exact all.filter _
  obtain ⟨r₃, arbitrated, stack₃, sources₃, destinations₃, ports₃⟩ :=
    arbitrate_all (r := r₂) r.requestsAt _ distinct fun p _ => known p
  have live₃ : Live size r₃ := ((live.execute flushed).execute updated).execute arbitrated
  have stack : r₃.ic.stack = r.ic.stack := stack₃.trans (stack₂.trans flushes.stack)
  have ports (p : Nat) (port : p ∈ r.ic.stack.ports) : r₃.ic.ports p = r.portAfter p := by
    rw [ports₃, ports₂, flushes.ports, stack₂, flushes.stack]
    unfold IcRecord.portAfter
    by_cases none : r.requestsAt p = []
    · rw [if_pos none, if_neg]
      exact fun member => of_decide_eq_true (List.mem_filter.mp member).2 none
    · rw [if_neg none, if_pos (List.mem_filter.mpr ⟨port, decide_eq_true none⟩)]
  have sources (s : Nat) (member : s ∈ r.waiting) : r₃.ic.sources s = (r.ic.sources s).update := by
    rw [sources₃, sources₂, flushes.sources, if_pos (List.mem_range.mpr (mem_waiting.mp member).1)]
  have destinations (t : Nat) : r₃.ic.destinations t = r₁.ic.destinations t := by
    rw [destinations₃, destinations₂]
  obtain ⟨r₄, sent, stack₄, ports₄, others₄, sources₄⟩ := send_all live r.waiting nodup_waiting (fun _ => id) stack
    (fun t => (live₃.sizes t).2.trans (live.sizes t).2.symm) ports sources fun s member m front _ t target => by
      have inside := Live.targets_lt (live.valid_front front).2 target
      refine ⟨?_, (live₃.sizes t).1⟩
      rw [destinations]
      exact flushes.clear t (List.mem_range.mpr inside)
  have done : r.cycle = some r₄ := by
    unfold IcRecord.cycle IcRecord.cycleEvents
    rw [execute_append, execute_append, execute_append, flushed, Option.bind_some, updated, Option.bind_some, arbitrated]
    exact sent
  refine ⟨r₄, done, live₃.execute sent, stack₄.trans stack, fun p port => ?_, fun s => ?_, fun idle t => ?_⟩
  · rw [ports₄]
    exact ports p port
  · by_cases member : s ∈ r.waiting
    · exact sources₄ s member
    · rw [others₄ s member, sources₃, sources₂, flushes.sources]
      have none : r.front s = none ∨ (r.ic.sources s).contents = [] := by
        cases front : r.front s with
        | none => exact Or.inl rfl
        | some m => exact absurd (mem_waiting.mpr ⟨(live.valid_front front).1, m, front⟩) member
      have left : r.left s = (r.ic.sources s).contents := by
        unfold IcRecord.left
        rcases none with none | none
        · rw [none]
          rfl
        · rw [none]
          split <;> rfl
      rw [left]
      split
      · exact Buffer.contents_update _
      · rfl
  · rw [idle] at sent
    cases sent
    by_cases inside : t < r.ic.stack.receivers
    · have clear := flushes.clear t (List.mem_range.mpr inside)
      rw [destinations]
      unfold Buffer.contents
      rw [clear.data, clear.pushed]
      split <;> rfl
    · exact live₃.outside t (by rw [stack]; exact Nat.not_lt.mp inside)

end Rounds

end Mgsim.Ic
