import Mathlib.Algebra.Ring.Nat
import Mgsim.Dev.RPC
import Mathlib.Tactic.Common

namespace Mgsim.Dev
open Mgsim.Lib

/-- The address and the data of one DCA write. -/
abbrev Write := BitVec 64 × List Byte

/-- The bytes of a block of data, each with its address. -/
def placed (base : BitVec 64) (data : List Byte) : List (BitVec 64 × Byte) :=
  data.mapIdx fun i byte => (base + BitVec.ofNat 64 i, byte)

/-- The writes lie within lines and write these bytes, each once. -/
structure Writes (lineSize : BitVec 64) (bytes : List (BitVec 64 × Byte)) (writes : List Write) : Prop where
  within : ∀ write ∈ writes, write.1.toNat % lineSize.toNat + write.2.length ≤ lineSize.toNat
  exact : writes.flatMap (fun write => placed write.1 write.2) = bytes

/-- What is to be written of a result: nothing at address 0. -/
def resultBytes (base : BitVec 64) (data : List Byte) : List (BitVec 64 × Byte) :=
  if base = 0 then [] else placed base data

def sentWrites (device : Nat) (writes : List Write) : List BusEvent :=
  writes.map fun write => .sent (.writeRequest device write.1 write.2)

/-- After any writes, one flush and its answer. -/
def flushAfter (device : Nat) (writes : List Write) : List BusEvent :=
  if writes = [] then [] else [.sent (.readRequest device 0 0), .answered]

/-- What the bus sees for one request: the writes of both results and, if there
are any, one flush and its answer. -/
def Served (lineSize : BitVec 64) (res : ProcessResponse) (events : List BusEvent) : Prop :=
  ∃ writes1 writes2, Writes lineSize (resultBytes res.res1BaseAddress res.data1) writes1 ∧
    Writes lineSize (resultBytes res.res2BaseAddress res.data2) writes2 ∧
    events = sentWrites res.dcaDeviceId (writes1 ++ writes2) ++ flushAfter res.dcaDeviceId (writes1 ++ writes2)

def BusEvent.notification? : BusEvent → Option IOMessage
  | .sent (.notification device channel tag) => some (.notification device channel tag)
  | _ => none

namespace RPCState

/-- The notifications that were sent, in order. -/
def notified (s : RPCState) : List IOMessage := s.log.filterMap BusEvent.notification?

/-- The other events on the bus. -/
def transfers (s : RPCState) : List BusEvent := s.log.filter fun event => event.notification?.isNone

/-- The requests are served in queue order, the front one in part, and exactly
the served ones are notified or wait for it. In every state this holds of the log
so far, so no notification comes before the answer of its flush. -/
def Delivered (s : RPCState) : Prop :=
  ∃ (served : List (ProcessResponse × List BusEvent)) (current : List BusEvent),
    s.requests = served.map Prod.fst ++ s.rpc.completed ∧
    (∀ request ∈ served, Served s.rpc.lineSize request.1 request.2) ∧
    s.transfers = (served.map Prod.snd).flatten ++ current ∧
    (s.rpc.completed = [] → current = []) ∧
    (∀ res ∈ s.rpc.completed.head?, ∃ rest, Served s.rpc.lineSize res (current ++ rest)) ∧
    s.notified ++ s.rpc.notifications.map (·.message) = served.map fun request => request.1.notification.message

/-- The cycles that the front request still needs. -/
def frontWork (s : RPCState) (res : ProcessResponse) : Nat :=
  match res.shortcut s.rpc.writebackState with
  | .writing1 => res.data1.length - s.rpc.currentResponseOffset + res.data2.length + 4
  | .writing2 => res.data2.length - s.rpc.currentResponseOffset + 4
  | .barrier => 4
  | .finalize => s.unanswered + 2

/-- A bound on the work that is left. -/
def work (s : RPCState) : Nat :=
  (match s.rpc.completed with
    | [] => 0
    | res :: rest => s.frontWork res + (rest.map fun res => res.data1.length + res.data2.length + 4).sum) +
  s.rpc.notifications.length

/-- A request is never stuck: the process can run, or the flush is on the bus.
Each cycle gets some work done unless the bus or the queue of notifications refuses. -/
structure Live (s : RPCState) : Prop where
  ready : s.rpc.completed ≠ [] → 0 < s.unanswered ∨ 0 < s.rpc.activations
  writes : ∀ accepted, 0 < s.rpc.activations → ∃ s', step s (.writeResponse accepted) = some s' ∧
    (accepted = true → hasSpace s.rpc.notificationsSize s.rpc.notifications = true → s'.work < s.work)
  flushes : 0 < s.unanswered → ∃ s', step s .flushResponse = some s' ∧ s'.work < s.work
  notifies : ∀ accepted, s.rpc.notifications ≠ [] → ∃ s', step s (.sendCompletionNotifications accepted) = some s' ∧
    (accepted = true → s'.work < s.work)

end RPCState

section Writing
variable {lineSize base : BitVec 64} {data : List Byte} {offset : Nat} {writes : List Write}

theorem placed_append (first second : List Byte) :
    placed base (first ++ second) = placed base first ++ placed (base + BitVec.ofNat 64 first.length) second := by
  rw [placed, List.mapIdx_append]
  refine congrArg₂ _ rfl (List.mapIdx_eq_mapIdx_iff.mpr fun i _ => ?_)
  rw [Nat.add_comm i, BitVec.ofNat_add, BitVec.add_assoc]

theorem Writes.nil : Writes lineSize [] [] := ⟨by simp, rfl⟩

theorem writes_ignored (ignored : (data.length == 0 || base == 0) = true) :
    Writes lineSize (resultBytes base data) [] := by
  refine ⟨by simp, ?_⟩
  rw [Bool.or_eq_true, beq_iff_eq, beq_iff_eq] at ignored
  rcases ignored with empty | zero
  · rw [List.eq_nil_of_length_eq_zero empty, resultBytes]
    split <;> rfl
  · rw [resultBytes, if_pos zero]
    rfl

theorem resultBytes_of_used (used : (data.length == 0 || base == 0) = false) :
    resultBytes base data = placed base data ∧ 0 < data.length := by
  rw [Bool.or_eq_false_iff, beq_eq_false_iff_ne, beq_eq_false_iff_ne] at used
  exact ⟨if_neg used.2, Nat.pos_of_ne_zero used.1⟩

/-- One more write, which starts where the writes so far end. -/
theorem Writes.next (size : Nat) (sofar : Writes lineSize (placed base (data.take offset)) writes)
    (fits : offset + size ≤ data.length)
    (inside : (base + BitVec.ofNat 64 offset).toNat % lineSize.toNat + size ≤ lineSize.toNat) :
    Writes lineSize (placed base (data.take (offset + size)))
      (writes ++ [(base + BitVec.ofNat 64 offset, (data.drop offset).take size)]) := by
  have before : (data.take offset).length = offset := List.length_take_of_le (by omega)
  have length : ((data.drop offset).take size).length = size := by
    rw [List.length_take, List.length_drop]
    omega
  constructor
  · intro write member
    rcases List.mem_append.mp member with old | new
    · exact sofar.within write old
    · rw [List.mem_singleton] at new
      subst new
      rw [length]
      exact inside
  · rw [List.flatMap_append, sofar.exact, List.take_add, placed_append, before]
    simp

theorem lineSize_pos (positive : lineSize ≠ 0) : 0 < lineSize.toNat :=
  Nat.pos_of_ne_zero fun zero => positive (BitVec.eq_of_toNat_eq zero)

/-- The bytes that are left can be written, at worst one by one. -/
theorem Writes.complete (positive : lineSize ≠ 0) (sofar : Writes lineSize (placed base (data.take offset)) writes)
    (within : offset ≤ data.length) : ∃ more, Writes lineSize (placed base data) (writes ++ more) := by
  induction remaining : data.length - offset generalizing offset writes with
  | zero =>
    rw [List.take_of_length_le (by omega)] at sofar
    exact ⟨[], by rwa [List.append_nil]⟩
  | succ remaining ih =>
    have lines : 0 < lineSize.toNat := lineSize_pos positive
    have inside := Nat.mod_lt (base + BitVec.ofNat 64 offset).toNat lines
    obtain ⟨more, all⟩ := ih (sofar.next 1 (by omega) inside) (by omega) (by omega)
    exact ⟨_, by rwa [List.append_assoc] at all⟩

theorem RPCInterface.transferSize_spec (rpc : RPCInterface) (positive : rpc.lineSize ≠ 0) (voffset : BitVec 64)
    {total : Nat} (left : rpc.currentResponseOffset < total) :
    0 < rpc.transferSize total voffset ∧ rpc.currentResponseOffset + rpc.transferSize total voffset ≤ total ∧
      rpc.transferSize total voffset ≤ rpc.lineSize.toNat ∧
      voffset.toNat % rpc.lineSize.toNat + rpc.transferSize total voffset ≤ rpc.lineSize.toNat := by
  have lines : 0 < rpc.lineSize.toNat := lineSize_pos positive
  have inside := Nat.mod_lt voffset.toNat lines
  unfold transferSize
  omega

end Writing

/-- How far the front request is, with its events so far. -/
inductive Progress (s : RPCState) (res : ProcessResponse) : List BusEvent → Prop
  | writing1 {writes} : s.rpc.writebackState = .writing1 → res.ignored1 = false → s.unanswered = 0 →
      s.rpc.activations = 1 → s.rpc.currentResponseOffset < res.data1.length →
      Writes s.rpc.lineSize (placed res.res1BaseAddress (res.data1.take s.rpc.currentResponseOffset)) writes →
      Progress s res (sentWrites res.dcaDeviceId writes)
  | writing2 {writes1 writes2} : res.shortcut s.rpc.writebackState = .writing2 → res.ignored2 = false →
      s.unanswered = 0 → s.rpc.activations = 1 → s.rpc.currentResponseOffset < res.data2.length →
      Writes s.rpc.lineSize (resultBytes res.res1BaseAddress res.data1) writes1 →
      Writes s.rpc.lineSize (placed res.res2BaseAddress (res.data2.take s.rpc.currentResponseOffset)) writes2 →
      Progress s res (sentWrites res.dcaDeviceId (writes1 ++ writes2))
  | barrier {writes1 writes2} : s.rpc.writebackState = .barrier → s.unanswered = 0 → s.rpc.activations = 1 →
      Writes s.rpc.lineSize (resultBytes res.res1BaseAddress res.data1) writes1 →
      Writes s.rpc.lineSize (resultBytes res.res2BaseAddress res.data2) writes2 → writes1 ++ writes2 ≠ [] →
      Progress s res (sentWrites res.dcaDeviceId (writes1 ++ writes2))
  | skipped : s.rpc.writebackState = .writing1 → res.ignored1 = true → res.ignored2 = true → s.unanswered = 0 →
      s.rpc.activations = 1 → Progress s res []
  | flushing {writes1 writes2} : s.rpc.writebackState = .finalize → s.unanswered = 1 → s.rpc.activations = 0 →
      Writes s.rpc.lineSize (resultBytes res.res1BaseAddress res.data1) writes1 →
      Writes s.rpc.lineSize (resultBytes res.res2BaseAddress res.data2) writes2 → writes1 ++ writes2 ≠ [] →
      Progress s res (sentWrites res.dcaDeviceId (writes1 ++ writes2) ++ [.sent (.readRequest res.dcaDeviceId 0 0)])
  | flushed {writes1 writes2} : s.rpc.writebackState = .finalize → s.unanswered = 0 → s.rpc.activations = 1 →
      Writes s.rpc.lineSize (resultBytes res.res1BaseAddress res.data1) writes1 →
      Writes s.rpc.lineSize (resultBytes res.res2BaseAddress res.data2) writes2 → writes1 ++ writes2 ≠ [] →
      Progress s res (sentWrites res.dcaDeviceId (writes1 ++ writes2) ++
        [.sent (.readRequest res.dcaDeviceId 0 0), .answered])

/-- The device without a request. -/
structure Idle (s : RPCState) : Prop where
  writing : s.rpc.writebackState = .writing1
  offset : s.rpc.currentResponseOffset = 0
  answered : s.unanswered = 0
  inactive : s.rpc.activations = 0

/-- What every step keeps. -/
structure Kept (s : RPCState) (served : List (ProcessResponse × List BusEvent)) (current : List BusEvent) : Prop where
  lines : s.rpc.lineSize ≠ 0
  requests : s.requests = served.map Prod.fst ++ s.rpc.completed
  finished : ∀ request ∈ served, Served s.rpc.lineSize request.1 request.2
  transfers : s.transfers = (served.map Prod.snd).flatten ++ current
  notified : s.notified ++ s.rpc.notifications.map (·.message) = served.map fun request => request.1.notification.message
  idle : s.rpc.completed = [] → Idle s ∧ current = []
  front : ∀ res rest, s.rpc.completed = res :: rest → Progress s res current

section Steps
variable {s : RPCState} {res : ProcessResponse} {rest : List ProcessResponse} {current : List BusEvent}
  {past : List (ProcessResponse × List BusEvent)}

theorem Progress.start (writing : s.rpc.writebackState = .writing1) (offset : s.rpc.currentResponseOffset = 0)
    (answered : s.unanswered = 0) (active : s.rpc.activations = 1) : Progress s res [] := by
  cases first : res.ignored1 with
  | false =>
    have used := resultBytes_of_used first
    refine @Progress.writing1 s res [] writing first answered active (offset ▸ used.2) ?_
    rw [offset]
    exact Writes.nil
  | true =>
    cases second : res.ignored2 with
    | false =>
      have used := resultBytes_of_used second
      refine @Progress.writing2 s res [] [] ?_ second answered active (offset ▸ used.2)
        (writes_ignored first) ?_
      · rw [writing]
        simp [ProcessResponse.shortcut, first, second]
      · rw [offset]
        exact Writes.nil
    | true => exact .skipped writing first second answered active

theorem served_of_split {lineSize : BitVec 64} {writes1 writes2 sofar more : List Write}
    (first : Writes lineSize (resultBytes res.res1BaseAddress res.data1) writes1)
    (second : Writes lineSize (resultBytes res.res2BaseAddress res.data2) writes2)
    (split : writes1 ++ writes2 = sofar ++ more) :
    ∃ rest, Served lineSize res (sentWrites res.dcaDeviceId sofar ++ rest) := by
  refine ⟨sentWrites res.dcaDeviceId more ++ flushAfter res.dcaDeviceId (writes1 ++ writes2), writes1, writes2,
    first, second, ?_⟩
  rw [← List.append_assoc, split, sentWrites, sentWrites, sentWrites, List.map_append]

/-- The other parts of the state do not matter to the front request. -/
theorem Progress.congr {s' : RPCState} (progress : Progress s res current) (lines : s'.rpc.lineSize = s.rpc.lineSize)
    (state : s'.rpc.writebackState = s.rpc.writebackState)
    (offset : s'.rpc.currentResponseOffset = s.rpc.currentResponseOffset)
    (active : s'.rpc.activations = s.rpc.activations) (answered : s'.unanswered = s.unanswered) :
    Progress s' res current := by
  cases progress with
  | writing1 writing used zero one left sofar =>
    exact .writing1 (state.trans writing) used (answered.trans zero) (active.trans one) (offset ▸ left)
      (by rwa [lines, offset])
  | writing2 writing used zero one left first sofar =>
    exact .writing2 (state ▸ writing) used (answered.trans zero) (active.trans one) (offset ▸ left) (lines ▸ first)
      (by rwa [lines, offset])
  | barrier waiting zero one first second some =>
    exact .barrier (state.trans waiting) (answered.trans zero) (active.trans one) (lines ▸ first) (lines ▸ second) some
  | skipped writing first second zero one =>
    exact .skipped (state.trans writing) first second (answered.trans zero) (active.trans one)
  | flushing waiting one zero first second some =>
    exact .flushing (state.trans waiting) (answered.trans one) (active.trans zero) (lines ▸ first) (lines ▸ second) some
  | flushed waiting zero one first second some =>
    exact .flushed (state.trans waiting) (answered.trans zero) (active.trans one) (lines ▸ first) (lines ▸ second) some

/-- The events so far can be completed to what the request needs. -/
theorem Progress.completable (lines : s.rpc.lineSize ≠ 0) (progress : Progress s res current) :
    ∃ rest, Served s.rpc.lineSize res (current ++ rest) := by
  cases progress with
  | writing1 _ used _ _ left sofar =>
    obtain ⟨more, all⟩ := sofar.complete lines (Nat.le_of_lt left)
    rw [← (resultBytes_of_used used).1] at all
    have second : ∃ writes2, Writes s.rpc.lineSize (resultBytes res.res2BaseAddress res.data2) writes2 := by
      cases ignored : res.ignored2 with
      | true => exact ⟨[], writes_ignored ignored⟩
      | false =>
        rw [(resultBytes_of_used ignored).1]
        exact @Writes.complete s.rpc.lineSize res.res2BaseAddress res.data2 0 [] lines Writes.nil (Nat.zero_le _)
    obtain ⟨writes2, others⟩ := second
    exact served_of_split all others (List.append_assoc _ _ _)
  | writing2 _ used _ _ left first sofar =>
    obtain ⟨more, all⟩ := sofar.complete lines (Nat.le_of_lt left)
    rw [← (resultBytes_of_used used).1] at all
    exact served_of_split first all (List.append_assoc _ _ _).symm
  | barrier _ _ _ first second _ => exact served_of_split first second (List.append_nil _).symm
  | skipped _ first second _ _ => exact ⟨[], [], [], writes_ignored first, writes_ignored second, rfl⟩
  | @flushing writes1 writes2 _ _ _ first second some =>
    refine ⟨[.answered], writes1, writes2, first, second, ?_⟩
    rw [flushAfter, if_neg some, List.append_assoc]
    rfl
  | @flushed writes1 writes2 _ _ _ first second some =>
    refine ⟨[], writes1, writes2, first, second, ?_⟩
    rw [flushAfter, if_neg some, List.append_nil]

/-- When the notification is due, the request is served. -/
theorem Progress.served (progress : Progress s res current) (due : res.shortcut s.rpc.writebackState = .finalize)
    (answered : s.unanswered = 0) : Served s.rpc.lineSize res current := by
  cases progress with
  | writing1 writing used => simp [ProcessResponse.shortcut, writing, used] at due
  | writing2 writing => simp [writing] at due
  | barrier waiting => simp [ProcessResponse.shortcut, waiting] at due
  | skipped _ first second => exact ⟨[], [], writes_ignored first, writes_ignored second, rfl⟩
  | flushing _ sent => omega
  | @flushed writes1 writes2 _ _ _ first second some =>
    refine ⟨writes1, writes2, first, second, ?_⟩
    rw [flushAfter, if_neg some]

theorem Kept.delivered (kept : Kept s past current) : s.Delivered := by
  refine ⟨past, current, kept.requests, kept.finished, kept.transfers, fun empty => (kept.idle empty).2, ?_, kept.notified⟩
  intro res member
  obtain ⟨rest, front⟩ := List.head?_eq_some_iff.mp member
  exact (kept.front res rest front).completable kept.lines

theorem transfers_send (rpc : RPCInterface) (messages : List IOMessage)
    (transfers : ∀ message ∈ messages, (BusEvent.sent message).notification? = none) :
    (s.send rpc messages).transfers = s.transfers ++ messages.map .sent ∧
      (s.send rpc messages).notified = s.notified := by
  have all : ∀ event ∈ messages.map BusEvent.sent, event.notification? = none := by
    intro event member
    obtain ⟨message, sent, rfl⟩ := List.mem_map.mp member
    exact transfers message sent
  have kept : (messages.map BusEvent.sent).filter (fun event => event.notification?.isNone) = messages.map .sent :=
    List.filter_eq_self.mpr fun event member => by rw [all event member]; rfl
  constructor
  · rw [RPCState.transfers, RPCState.send, List.filter_append, kept]
    rfl
  · rw [RPCState.notified, RPCState.send, List.filterMap_append, List.filterMap_eq_nil_iff.mpr all, List.append_nil]
    rfl

/-- A cycle of the front request that sends transfers. -/
theorem Kept.advance {rpc : RPCInterface} {messages : List IOMessage} (kept : Kept s past current)
    (front : s.rpc.completed = res :: rest) (lines : rpc.lineSize = s.rpc.lineSize)
    (queue : rpc.completed = s.rpc.completed) (waiting : rpc.notifications = s.rpc.notifications)
    (transfers : ∀ message ∈ messages, (BusEvent.sent message).notification? = none)
    (progress : Progress (s.send rpc messages) res (current ++ messages.map .sent)) :
    Kept (s.send rpc messages) past (current ++ messages.map .sent) := by
  obtain ⟨sent, notified⟩ := transfers_send (s := s) rpc messages transfers
  exact {
    lines := by rw [RPCState.send, lines]; exact kept.lines
    requests := by rw [RPCState.send, queue]; exact kept.requests
    finished := by rw [RPCState.send, lines]; exact kept.finished
    transfers := by rw [sent, kept.transfers, List.append_assoc]
    notified := by rw [notified, RPCState.send, waiting]; exact kept.notified
    idle := fun empty => absurd (queue.symm.trans empty) (by rw [front]; exact List.cons_ne_nil _ _)
    front := fun res' rest' front' => by
      have same := front.symm.trans (queue.symm.trans front')
      cases same
      exact progress }

theorem send_nothing (s : RPCState) : s.send s.rpc [] = s := by
  simp [RPCState.send]

theorem work_of_front (front : s.rpc.completed = res :: rest) : s.work =
    s.frontWork res + (rest.map fun res => res.data1.length + res.data2.length + 4).sum + s.rpc.notifications.length := by
  rw [RPCState.work, front]

/-- A result with data that is written in one more message. -/
theorem Kept.write {base : BitVec 64} {data : List Byte} {writes : List Write} (kept : Kept s past current)
    (small : s.rpc.lineSize.toNat ≤ maxIOOperationSize) (left : s.rpc.currentResponseOffset < data.length)
    (sofar : Writes s.rpc.lineSize (placed base (data.take s.rpc.currentResponseOffset)) writes)
    (res : ProcessResponse) (second : ResponseWritebackState) :
    ∃ size write, 0 < size ∧
      Writes s.rpc.lineSize (placed base (data.take (s.rpc.currentResponseOffset + size))) (writes ++ [write]) ∧
      s.rpc.writeResult res second base data true =
        if s.rpc.currentResponseOffset + size < data.length then
          some ({ s.rpc with currentResponseOffset := s.rpc.currentResponseOffset + size },
            [.writeRequest res.dcaDeviceId write.1 write.2])
        else if second = .writing1 ∧ res.ignored2 = false then
          some ({ s.rpc with currentResponseOffset := 0, writebackState := .writing2 },
            [.writeRequest res.dcaDeviceId write.1 write.2])
        else some ({ s.rpc with writebackState := .barrier }, [.writeRequest res.dcaDeviceId write.1 write.2]) := by
  obtain ⟨positive, fits, short, inside⟩ := s.rpc.transferSize_spec kept.lines
    (base + BitVec.ofNat 64 s.rpc.currentResponseOffset) left
  refine ⟨_, _, positive, sofar.next _ fits inside, ?_⟩
  rw [RPCInterface.writeResult, if_neg (by decide), if_neg (by omega)]

/-- What a step from here keeps, and whether it gets work done. -/
def Advances (s : RPCState) (event : RPCEvent) (works : Prop) : Prop :=
  ∃ s' past current, s.step event = some s' ∧ Kept s' past current ∧ (works → s'.work < s.work)

theorem Kept.refused {event : RPCEvent} {works : Prop} (kept : Kept s past current)
    (same : s.step event = some (s.send s.rpc [])) (idle : ¬ works) : Advances s event works :=
  ⟨s, past, current, by rw [same, send_nothing], kept, fun useful => absurd useful idle⟩

/-- A cycle that sends a transfer for the front request. -/
theorem Kept.cycle {rpc : RPCInterface} {message : IOMessage} {works : Prop} (kept : Kept s past current)
    (front : s.rpc.completed = res :: rest) (cycle : s.rpc.doWriteResponse true = some (rpc, [message]))
    (lines : rpc.lineSize = s.rpc.lineSize) (queue : rpc.completed = s.rpc.completed)
    (waiting : rpc.notifications = s.rpc.notifications) (transfer : (BusEvent.sent message).notification? = none)
    (progress : Progress (s.send rpc [message]) res (current ++ [.sent message]))
    (less : (s.send rpc [message]).frontWork res < s.frontWork res) : Advances s (.writeResponse true) works := by
  have taken : s.step (.writeResponse true) = some (s.send rpc [message]) := by
    rw [RPCState.step, cycle]
    rfl
  refine ⟨_, past, _, taken, kept.advance front lines queue waiting (by simpa using transfer) progress, fun _ => ?_⟩
  rw [work_of_front front, work_of_front (queue.trans front)]
  have same : (s.send rpc [message]).rpc.notifications.length = s.rpc.notifications.length := congrArg _ waiting
  omega

theorem sentWrites_next (device : Nat) (writes : List Write) (write : Write) :
    sentWrites device (writes ++ [write]) =
      sentWrites device writes ++ [.sent (.writeRequest device write.1 write.2)] := by
  rw [sentWrites, List.map_append]
  rfl

theorem Kept.writing1 {writes : List Write} (kept : Kept s past (sentWrites res.dcaDeviceId writes))
    (small : s.rpc.lineSize.toNat ≤ maxIOOperationSize) (front : s.rpc.completed = res :: rest)
    (writing : s.rpc.writebackState = .writing1) (used : res.ignored1 = false) (answered : s.unanswered = 0)
    (active : s.rpc.activations = 1) (left : s.rpc.currentResponseOffset < res.data1.length)
    (sofar : Writes s.rpc.lineSize (placed res.res1BaseAddress (res.data1.take s.rpc.currentResponseOffset)) writes)
    (works : Prop) : Advances s (.writeResponse true) works := by
  obtain ⟨size, write, positive, next, result⟩ := kept.write small left sofar res .writing1
  have state : res.shortcut s.rpc.writebackState = .writing1 := by simp [ProcessResponse.shortcut, writing, used]
  have cycle : s.rpc.doWriteResponse true = s.rpc.writeResult res .writing1 res.res1BaseAddress res.data1 true := by
    rw [RPCInterface.doWriteResponse, front]
    simp only [state]
  rw [result] at cycle
  by_cases more : s.rpc.currentResponseOffset + size < res.data1.length
  · rw [if_pos more] at cycle
    refine kept.cycle front cycle rfl rfl rfl rfl ?_ ?_
    · rw [← sentWrites_next]
      exact .writing1 writing used answered active more next
    · simp only [RPCState.frontWork, RPCState.send, state]
      omega
  · have whole : res.data1.take (s.rpc.currentResponseOffset + size) = res.data1 :=
      List.take_of_length_le (by omega)
    rw [whole, ← (resultBytes_of_used used).1] at next
    rw [if_neg more] at cycle
    cases ignored : res.ignored2 with
    | false =>
      rw [if_pos ⟨rfl, ignored⟩] at cycle
      have nonempty := (resultBytes_of_used ignored).2
      have after : res.shortcut .writing2 = .writing2 := by simp [ProcessResponse.shortcut, ignored]
      refine kept.cycle front cycle rfl rfl rfl rfl ?_ ?_
      · rw [← sentWrites_next, ← List.append_nil (writes ++ [write])]
        exact .writing2 after ignored answered active nonempty next Writes.nil
      · simp only [RPCState.frontWork, RPCState.send, state, after]
        omega
    | true =>
      rw [if_neg (by simp [ignored])] at cycle
      refine kept.cycle front cycle rfl rfl rfl rfl ?_ ?_
      · rw [← sentWrites_next, ← List.append_nil (writes ++ [write])]
        exact .barrier rfl answered active next (writes_ignored ignored) (by simp)
      · have after : res.shortcut .barrier = .barrier := rfl
        simp only [RPCState.frontWork, RPCState.send, state, after]
        omega

theorem Kept.writing2 {writes1 writes2 : List Write}
    (kept : Kept s past (sentWrites res.dcaDeviceId (writes1 ++ writes2)))
    (small : s.rpc.lineSize.toNat ≤ maxIOOperationSize) (front : s.rpc.completed = res :: rest)
    (state : res.shortcut s.rpc.writebackState = .writing2) (used : res.ignored2 = false) (answered : s.unanswered = 0)
    (active : s.rpc.activations = 1) (left : s.rpc.currentResponseOffset < res.data2.length)
    (first : Writes s.rpc.lineSize (resultBytes res.res1BaseAddress res.data1) writes1)
    (sofar : Writes s.rpc.lineSize (placed res.res2BaseAddress (res.data2.take s.rpc.currentResponseOffset)) writes2)
    (works : Prop) : Advances s (.writeResponse true) works := by
  obtain ⟨size, write, positive, next, result⟩ := kept.write small left sofar res .writing2
  have cycle : s.rpc.doWriteResponse true = s.rpc.writeResult res .writing2 res.res2BaseAddress res.data2 true := by
    rw [RPCInterface.doWriteResponse, front]
    simp only [state]
  rw [result] at cycle
  by_cases more : s.rpc.currentResponseOffset + size < res.data2.length
  · rw [if_pos more] at cycle
    refine kept.cycle front cycle rfl rfl rfl rfl ?_ ?_
    · rw [← sentWrites_next, List.append_assoc]
      exact .writing2 state used answered active more first next
    · simp only [RPCState.frontWork, RPCState.send, state]
      omega
  · have whole : res.data2.take (s.rpc.currentResponseOffset + size) = res.data2 :=
      List.take_of_length_le (by omega)
    rw [whole, ← (resultBytes_of_used used).1] at next
    rw [if_neg more, if_neg (fun both => by cases both.1)] at cycle
    refine kept.cycle front cycle rfl rfl rfl rfl ?_ ?_
    · rw [← sentWrites_next, List.append_assoc]
      exact .barrier rfl answered active first next (by simp)
    · have after : res.shortcut .barrier = .barrier := rfl
      simp only [RPCState.frontWork, RPCState.send, state, after]
      omega

theorem Kept.barrier {writes1 writes2 : List Write}
    (kept : Kept s past (sentWrites res.dcaDeviceId (writes1 ++ writes2)))
    (front : s.rpc.completed = res :: rest) (waiting : s.rpc.writebackState = .barrier) (answered : s.unanswered = 0)
    (active : s.rpc.activations = 1) (first : Writes s.rpc.lineSize (resultBytes res.res1BaseAddress res.data1) writes1)
    (second : Writes s.rpc.lineSize (resultBytes res.res2BaseAddress res.data2) writes2)
    (some : writes1 ++ writes2 ≠ []) (works : Prop) : Advances s (.writeResponse true) works := by
  have state : res.shortcut s.rpc.writebackState = .barrier := by rw [waiting]; rfl
  have cycle : s.rpc.doWriteResponse true = .some ({ s.rpc with
      writebackState := .finalize, activations := s.rpc.activations - 1 }, [.readRequest res.dcaDeviceId 0 0]) := by
    rw [RPCInterface.doWriteResponse, front]
    simp only [state, if_true, front]
  refine kept.cycle front cycle rfl rfl rfl rfl ?_ ?_
  · refine .flushing rfl ?_ ?_ first second some
    · simp [RPCState.send, answered, RPCState.isFlush]
    · simp [RPCState.send, active]
  · have after : res.shortcut .finalize = .finalize := rfl
    simp only [RPCState.frontWork, RPCState.send, state, after, answered]
    exact show 0 + 1 + 2 < 4 by decide

theorem work_start_le {completed : List ProcessResponse} (queue : s.rpc.completed = completed)
    (writing : s.rpc.writebackState = .writing1) (answered : s.unanswered = 0) :
    s.work ≤ (completed.map fun res => res.data1.length + res.data2.length + 4).sum + s.rpc.notifications.length := by
  cases completed with
  | nil =>
    rw [RPCState.work, queue]
    exact Nat.le_refl _
  | cons res rest =>
    have first : s.frontWork res ≤ res.data1.length + res.data2.length + 4 := by
      rw [RPCState.frontWork, writing, answered]
      cases res.shortcut .writing1 <;> simp only <;> omega
    rw [work_of_front queue, List.map_cons, List.sum_cons]
    omega

/-- The notification of a served request. -/
theorem Kept.finalize (kept : Kept s past current) (front : s.rpc.completed = res :: rest)
    (state : res.shortcut s.rpc.writebackState = .finalize) (answered : s.unanswered = 0)
    (active : s.rpc.activations = 1) (accepted works : Bool)
    (room : works = true → hasSpace s.rpc.notificationsSize s.rpc.notifications = true) :
    Advances s (.writeResponse accepted) (works = true) := by
  have cycle : s.rpc.doWriteResponse accepted = if hasSpace s.rpc.notificationsSize s.rpc.notifications then
      .some ({ s.rpc with
        writebackState := .writing1
        currentResponseOffset := 0
        completed := rest
        notifications := s.rpc.notifications ++ [res.notification]
        activations := if rest = [] then s.rpc.activations - 1 else s.rpc.activations }, [])
      else .some (s.rpc, []) := by
    rw [RPCInterface.doWriteResponse, front]
    simp only [state]
  cases space : hasSpace s.rpc.notificationsSize s.rpc.notifications with
  | false =>
    rw [space, if_neg (by decide)] at cycle
    refine kept.refused (by rw [RPCState.step, cycle]; rfl) fun useful => ?_
    rw [room useful] at space
    cases space
  | true =>
    rw [space, if_pos rfl] at cycle
    refine ⟨_, past ++ [(res, current)], [], by rw [RPCState.step, cycle]; rfl, ?_, fun _ => ?_⟩
    · have done := (kept.front res rest front).served state answered
      exact {
        lines := kept.lines
        requests := by
          simp only [RPCState.send, List.map_append, List.map_cons, List.map_nil, List.append_assoc,
            List.singleton_append]
          rw [kept.requests, front]
        finished := fun request member => by
          rcases List.mem_append.mp member with old | new
          · exact kept.finished request old
          · rw [List.mem_singleton] at new
            subst new
            exact done
        transfers := by
          simpa [RPCState.send, RPCState.transfers] using kept.transfers
        notified := by
          have notified := kept.notified
          simp only [RPCState.notified, RPCState.send, List.map_nil, List.append_nil, List.map_append,
            List.map_cons] at notified ⊢
          rw [← notified, List.append_assoc]
        idle := fun empty => by
          replace empty : rest = [] := empty
          exact ⟨⟨rfl, rfl, answered, by simp [RPCState.send, empty, active]⟩, rfl⟩
        front := fun next others more => by
          replace more : rest = next :: others := more
          exact .start rfl rfl answered (by simp [RPCState.send, more, active]) }
    · have before : s.frontWork res = 2 := by
        simp only [RPCState.frontWork, state, answered]
      refine Nat.lt_of_le_of_lt (work_start_le rfl rfl answered) ?_
      rw [work_of_front front, before]
      simp only [RPCState.send, List.length_append, List.length_singleton]
      omega

/-- A cycle of `p_writeResponse`. -/
theorem Kept.writeResponse (kept : Kept s past current) (small : s.rpc.lineSize.toNat ≤ maxIOOperationSize)
    (active : 0 < s.rpc.activations) (accepted : Bool) : Advances s (.writeResponse accepted)
      (accepted = true ∧ hasSpace s.rpc.notificationsSize s.rpc.notifications = true) := by
  cases queue : s.rpc.completed with
  | nil =>
    have inactive := (kept.idle queue).1.inactive
    omega
  | cons res rest =>
    have progress := kept.front res rest queue
    cases state : res.shortcut s.rpc.writebackState with
    | finalize =>
      have due : s.unanswered = 0 ∧ s.rpc.activations = 1 := by
        cases progress with
        | writing1 writing used => simp [ProcessResponse.shortcut, writing, used] at state
        | writing2 writing => simp [writing] at state
        | barrier waiting => simp [ProcessResponse.shortcut, waiting] at state
        | skipped _ _ _ answered active => exact ⟨answered, active⟩
        | flushing _ _ inactive => omega
        | flushed _ answered active => exact ⟨answered, active⟩
      obtain ⟨s', past', current', taken, kept', less⟩ := kept.finalize queue state due.1 due.2 accepted
        (hasSpace s.rpc.notificationsSize s.rpc.notifications) id
      exact ⟨s', past', current', taken, kept', fun both => less both.2⟩
    | _ =>
      cases accepted with
      | false =>
        refine kept.refused ?_ (by simp)
        rw [RPCState.step, RPCInterface.doWriteResponse, queue]
        simp [state, RPCInterface.writeResult]
      | true =>
        cases progress with
        | writing1 writing used answered active left sofar =>
          exact kept.writing1 small queue writing used answered active left sofar _
        | writing2 state used answered active left first sofar =>
          exact kept.writing2 small queue state used answered active left first sofar _
        | barrier waiting answered active first second some =>
          exact kept.barrier queue waiting answered active first second some _
        | skipped writing first second => simp [ProcessResponse.shortcut, writing, first, second] at state
        | flushing waiting => simp [ProcessResponse.shortcut, waiting] at state
        | flushed waiting => simp [ProcessResponse.shortcut, waiting] at state

theorem Kept.flushResponse (kept : Kept s past current) (outstanding : 0 < s.unanswered) :
    Advances s .flushResponse True := by
  cases queue : s.rpc.completed with
  | nil =>
    have answered := (kept.idle queue).1.answered
    omega
  | cons res rest =>
    have progress := kept.front res rest queue
    cases progress with
    | writing1 _ _ answered => omega
    | writing2 _ _ answered => omega
    | barrier _ answered => omega
    | skipped _ _ _ answered => omega
    | flushed _ answered => omega
    | @flushing writes1 writes2 waiting one inactive first second some =>
      have state : res.shortcut s.rpc.writebackState = .finalize := by rw [waiting]; rfl
      refine ⟨⟨{ s.rpc with activations := s.rpc.activations + 1 }, s.requests, s.log ++ [.answered], s.unanswered - 1⟩,
        past, sentWrites res.dcaDeviceId (writes1 ++ writes2) ++ [.sent (.readRequest res.dcaDeviceId 0 0), .answered],
        ?_, ?_, fun _ => ?_⟩
      · rw [RPCState.step, RPCInterface.onFlushResponse, if_pos waiting]
        rfl
      · exact {
          lines := kept.lines
          requests := kept.requests
          finished := kept.finished
          transfers := by
            have sofar := kept.transfers
            simp only [RPCState.transfers, List.filter_append] at sofar ⊢
            rw [sofar]
            simp [BusEvent.notification?]
          notified := by
            rw [← kept.notified]
            simp [RPCState.notified, BusEvent.notification?]
          idle := fun empty => by
            rw [queue] at empty
            cases empty
          front := fun res' rest' front => by
            rw [queue] at front
            cases front
            exact .flushed waiting (by simp [one]) (by simp [inactive]) first second some }
      · simp only [RPCState.work, RPCState.frontWork, queue, state, one]
        omega

theorem Kept.sendCompletionNotifications (kept : Kept s past current) (waiting : s.rpc.notifications ≠ [])
    (accepted : Bool) : Advances s (.sendCompletionNotifications accepted) (accepted = true) := by
  obtain ⟨req, others, queue⟩ := List.exists_cons_of_ne_nil waiting
  cases accepted with
  | false =>
    refine kept.refused ?_ (by decide)
    rw [RPCState.step, RPCInterface.doSendCompletionNotifications, queue]
    rfl
  | true =>
    refine ⟨s.send { s.rpc with notifications := others } [req.message], past, current, ?_, ?_, fun _ => ?_⟩
    · rw [RPCState.step, RPCInterface.doSendCompletionNotifications, queue]
      rfl
    · have same : (BusEvent.sent req.message).notification? = some req.message := rfl
      exact {
        lines := kept.lines
        requests := kept.requests
        finished := kept.finished
        transfers := by
          rw [← kept.transfers]
          simp [RPCState.transfers, RPCState.send, same]
        notified := by
          have sofar := kept.notified
          rw [queue] at sofar
          rw [← sofar]
          simp [RPCState.notified, RPCState.send, same]
        idle := fun empty => by
          obtain ⟨⟨writing, offset, answered, inactive⟩, none⟩ := kept.idle empty
          exact ⟨⟨writing, offset, answered, inactive⟩, none⟩
        front := fun res rest front => (kept.front res rest front).congr rfl rfl rfl rfl rfl }
    · cases front : s.rpc.completed with
      | nil => simp [RPCState.work, RPCState.send, front, queue]
      | cons res rest =>
        have noFlush : [req.message].countP RPCState.isFlush = 0 := rfl
        simp only [RPCState.work, RPCState.frontWork, RPCState.send, front, queue, noFlush, List.length_cons]
        exact Nat.add_lt_add_left (Nat.lt_succ_self _) _

theorem Kept.complete (kept : Kept s past current) (res : ProcessResponse) :
    ∃ s', s.step (.complete res) = some s' ∧ Kept s' past current := by
  cases space : hasSpace s.rpc.completedSize s.rpc.completed with
  | false => exact ⟨s, by rw [RPCState.step, space]; rfl, kept⟩
  | true =>
    refine ⟨{ s with rpc := s.rpc.complete res, requests := s.requests ++ [res] }, by rw [RPCState.step, space]; rfl, ?_⟩
    have requests : s.requests ++ [res] = past.map Prod.fst ++ (s.rpc.completed ++ [res]) := by
      rw [kept.requests, List.append_assoc]
    refine ⟨kept.lines, requests, kept.finished, kept.transfers, kept.notified, fun empty => ?_, fun first rest front => ?_⟩
    · exact absurd empty (List.append_ne_nil_of_right_ne_nil _ (List.cons_ne_nil _ _))
    · cases queue : s.rpc.completed with
      | nil =>
        obtain ⟨⟨writing, offset, answered, inactive⟩, none⟩ := kept.idle queue
        rw [none]
        exact .start writing offset answered (by simp [RPCInterface.complete, queue, inactive])
      | cons old others =>
        have same : first = old := by
          simp only [RPCInterface.complete, queue, List.cons_append, List.cons.injEq] at front
          exact front.1.symm
        rw [same]
        exact (kept.front old others queue).congr rfl rfl rfl (by simp [RPCInterface.complete, queue]) rfl

/-- What every step that can happen keeps. -/
theorem Kept.step {event : RPCEvent} {s' : RPCState} (kept : Kept s past current)
    (small : s.rpc.lineSize.toNat ≤ maxIOOperationSize) (may : s.MayHappen event) (taken : s.step event = some s') :
    ∃ past current, Kept s' past current := by
  have advances {works : Prop} (does : Advances s event works) : ∃ past current, Kept s' past current := by
    obtain ⟨after, past, current, taken', kept', _⟩ := does
    cases taken.symm.trans taken'
    exact ⟨past, current, kept'⟩
  cases event with
  | complete res =>
    obtain ⟨after, taken', kept'⟩ := kept.complete res
    cases taken.symm.trans taken'
    exact ⟨past, current, kept'⟩
  | writeResponse accepted => exact advances (kept.writeResponse small may accepted)
  | sendCompletionNotifications accepted => exact advances (kept.sendCompletionNotifications may accepted)
  | flushResponse => exact advances (kept.flushResponse may)

theorem Kept.live (kept : Kept s past current) (small : s.rpc.lineSize.toNat ≤ maxIOOperationSize) : s.Live := by
  constructor
  · intro some
    obtain ⟨res, rest, queue⟩ := List.exists_cons_of_ne_nil some
    cases kept.front res rest queue with
    | writing1 _ _ _ active => omega
    | writing2 _ _ _ active => omega
    | barrier _ _ active => omega
    | skipped _ _ _ _ active => omega
    | flushing _ one => omega
    | flushed _ _ active => omega
  · intro accepted active
    obtain ⟨s', _, _, taken, _, less⟩ := kept.writeResponse small active accepted
    exact ⟨s', taken, fun free room => less ⟨free, room⟩⟩
  · intro outstanding
    obtain ⟨s', _, _, taken, _, less⟩ := kept.flushResponse outstanding
    exact ⟨s', taken, less trivial⟩
  · intro accepted waiting
    obtain ⟨s', _, _, taken, _, less⟩ := kept.sendCompletionNotifications waiting accepted
    exact ⟨s', taken, less⟩

theorem writeResult_lineSize {rpc rpc' : RPCInterface} {second : ResponseWritebackState} {base : BitVec 64}
    {data : List Byte} {accepted : Bool} {messages : List IOMessage}
    (cycle : rpc.writeResult res second base data accepted = some (rpc', messages)) : rpc'.lineSize = rpc.lineSize := by
  simp only [RPCInterface.writeResult] at cycle
  split at cycle
  · cases cycle
    rfl
  · split at cycle
    · cases cycle
    · split at cycle
      · cases cycle
        rfl
      · split at cycle
        all_goals
          cases cycle
          rfl

theorem doWriteResponse_lineSize {rpc rpc' : RPCInterface} {accepted : Bool} {messages : List IOMessage}
    (cycle : rpc.doWriteResponse accepted = some (rpc', messages)) : rpc'.lineSize = rpc.lineSize := by
  unfold RPCInterface.doWriteResponse at cycle
  split at cycle
  · cases cycle
  · split at cycle
    · exact writeResult_lineSize cycle
    · exact writeResult_lineSize cycle
    all_goals
      split at cycle
      all_goals
        cases cycle
        rfl

theorem step_lineSize {event : RPCEvent} {s' : RPCState} (taken : s.step event = some s') :
    s'.rpc.lineSize = s.rpc.lineSize := by
  cases event with
  | complete res =>
    simp only [RPCState.step] at taken
    split at taken
    all_goals
      cases taken
      rfl
  | writeResponse accepted =>
    obtain ⟨⟨rpc, messages⟩, cycle, rfl⟩ := Option.map_eq_some_iff.mp taken
    exact doWriteResponse_lineSize cycle
  | sendCompletionNotifications accepted =>
    obtain ⟨⟨rpc, messages⟩, cycle, rfl⟩ := Option.map_eq_some_iff.mp taken
    unfold RPCInterface.doSendCompletionNotifications at cycle
    split at cycle
    · cases cycle
    · split at cycle
      all_goals
        cases cycle
        rfl
  | flushResponse =>
    obtain ⟨rpc, cycle, rfl⟩ := Option.map_eq_some_iff.mp taken
    unfold RPCInterface.onFlushResponse at cycle
    split at cycle
    · cases cycle
      rfl
    · cases cycle

end Steps

section Delivery
variable {lineSize : BitVec 64} {completedSize notificationsSize : Option Nat} {s s₀ : RPCState}

theorem create_ok (made : RPCState.create lineSize completedSize notificationsSize = .ok s₀) :
    lineSize ≠ 0 ∧ s₀ = ⟨⟨lineSize, completedSize, notificationsSize, [], [], .writing1, 0, 0⟩, [], [], 0⟩ := by
  unfold RPCState.create RPCInterface.create at made
  split at made
  · cases made
  · rename_i lines
    cases made
    exact ⟨lines, rfl⟩

theorem kept_create (made : RPCState.create lineSize completedSize notificationsSize = .ok s₀) : Kept s₀ [] [] := by
  obtain ⟨lines, rfl⟩ := create_ok made
  exact {
    lines := lines
    requests := rfl
    finished := by simp
    transfers := rfl
    notified := rfl
    idle := fun _ => ⟨⟨rfl, rfl, rfl, rfl⟩, rfl⟩
    front := fun _ _ front => by cases front }

/-- With lines that fit in a message, every run keeps the invariant. -/
theorem kept_run {events : List RPCEvent} (made : RPCState.create lineSize completedSize notificationsSize = .ok s₀)
    (small : lineSize.toNat ≤ maxIOOperationSize) (run : Run RPCState.step RPCState.MayHappen s₀ events s) :
    s.rpc.lineSize = lineSize ∧ ∃ past current, Kept s past current := by
  refine run.invariant (I := fun s => s.rpc.lineSize = lineSize ∧ ∃ past current, Kept s past current) ?_ ?_
  · obtain ⟨_, rfl⟩ := create_ok made
    exact ⟨rfl, [], [], kept_create made⟩
  · intro s event s' ⟨same, past, current, kept⟩ may taken
    exact ⟨(step_lineSize taken).trans same, kept.step (same ▸ small) may taken⟩

/-- A result of one whole line. -/
def lineResponse (lineSize : BitVec 64) : ProcessResponse :=
  ⟨0, lineSize, 0, 0, 0, List.replicate lineSize.toNat 0, []⟩

/-- A line that is longer than the data of a message stops the device. -/
theorem lineResponse_stuck (lines : lineSize ≠ 0) (long : maxIOOperationSize < lineSize.toNat) {rpc : RPCInterface}
    (same : rpc.lineSize = lineSize) (front : rpc.completed = [lineResponse lineSize])
    (writing : rpc.writebackState = .writing1) (offset : rpc.currentResponseOffset = 0) :
    rpc.doWriteResponse true = none := by
  have length : (lineResponse lineSize).data1.length = lineSize.toNat := List.length_replicate
  have used : (lineResponse lineSize).ignored1 = false := by
    rw [ProcessResponse.ignored1, length, Bool.or_eq_false_iff, beq_eq_false_iff_ne, beq_eq_false_iff_ne]
    exact ⟨Nat.ne_of_gt (lineSize_pos lines), lines⟩
  have state : (lineResponse lineSize).shortcut rpc.writebackState = .writing1 := by
    simp [ProcessResponse.shortcut, writing, used]
  have whole : rpc.transferSize (lineResponse lineSize).data1.length
      ((lineResponse lineSize).res1BaseAddress + BitVec.ofNat 64 rpc.currentResponseOffset) = lineSize.toNat := by
    rw [RPCInterface.transferSize, length, same, offset, BitVec.add_zero,
      show (lineResponse lineSize).res1BaseAddress = lineSize from rfl, Nat.mod_self]
    omega
  rw [RPCInterface.doWriteResponse, front]
  simp only [state]
  rw [RPCInterface.writeResult, if_neg (by decide), if_pos]
  exact whole ▸ long

/-- Every run delivers all results exactly when a line fits in an I/O message. -/
theorem results_delivered_iff (lineSize : BitVec 64) :
    (∀ completedSize notificationsSize s₀ events s,
      RPCState.create lineSize completedSize notificationsSize = .ok s₀ →
      Run RPCState.step RPCState.MayHappen s₀ events s → s.Delivered ∧ s.Live) ↔
    lineSize.toNat ≤ maxIOOperationSize := by
  constructor
  · intro delivers
    by_contra long
    have lines : lineSize ≠ 0 := by
      rintro rfl
      exact long (Nat.zero_le _)
    have made : RPCState.create lineSize none none =
        .ok ⟨⟨lineSize, none, none, [], [], .writing1, 0, 0⟩, [], [], 0⟩ := by
      rw [RPCState.create, RPCInterface.create, if_neg lines]
      rfl
    have run : Run RPCState.step RPCState.MayHappen ⟨⟨lineSize, none, none, [], [], .writing1, 0, 0⟩, [], [], 0⟩
        ([] ++ [.complete (lineResponse lineSize)]) _ := .next .start trivial rfl
    obtain ⟨s', taken, _⟩ := (delivers none none _ _ _ made run).2.writes true Nat.one_pos
    rw [RPCState.step, lineResponse_stuck lines (Nat.lt_of_not_le long) rfl rfl rfl rfl] at taken
    cases taken
  · intro small completedSize notificationsSize s₀ events s made run
    obtain ⟨same, past, current, kept⟩ := kept_run made small run
    exact ⟨kept.delivered, kept.live (same ▸ small)⟩

/-- A result of 128 bytes at address 128 with lines of 128 bytes. -/
theorem long_line_stuck : ∃ s₀ s, RPCState.create 128 none none = .ok s₀ ∧
    Run RPCState.step RPCState.MayHappen s₀ [.complete (lineResponse 128)] s ∧
    s.step (.writeResponse true) = none ∧ ¬ s.Live := by
  have stuck : RPCState.step ⟨⟨128, none, none, [lineResponse 128], [], .writing1, 0, 1⟩, [lineResponse 128], [], 0⟩
      (.writeResponse true) = none := by
    rw [RPCState.step, lineResponse_stuck (by decide) (by decide) rfl rfl rfl rfl]
    rfl
  refine ⟨_, _, rfl, .next .start trivial rfl, stuck, fun live => ?_⟩
  obtain ⟨s', taken, _⟩ := live.writes true Nat.one_pos
  cases stuck.symm.trans taken

end Delivery

end Mgsim.Dev
