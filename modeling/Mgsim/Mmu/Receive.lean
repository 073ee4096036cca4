import Mgsim.Lib.Storage
import Mgsim.Lib.Run
import Mgsim.Lib.Checked
import Mgsim.Mmu.TlbUnique

namespace Mgsim.Mmu
open Mgsim.Lib

/-- The receiving side of a TLB. The three lists record the writes that it has accepted, the words that
`doReceive` has taken, and the messages that its handler has been given. -/
structure Receiver where
  tlb : Tlb
  fifoIn : Buffer IoMsg
  receiving : Flag
  mgtMsgBuffer : MgtMsg
  accepted : List IoMsg
  offered : List IoMsg
  handled : List MgtMsg

/-- `change` is what the other processes of the core do with the TLB in the meantime. -/
inductive ReceiverEvent
  | write (sender : BitVec 32) (address : BitVec 64) (data : BitVec 64)
  | receive
  | change (tlb : Tlb)
  | endCycle

/-- One word of a message that comes in two halves, or a message of one word. -/
def assembleWord (state : MgtMsg × List MgtMsg) (item : IoMsg) : MgtMsg × List MgtMsg :=
  let (buffer, messages) := state
  let addr := item.addr.chan.toNat / 8
  if addr = 0 then (⟨item.payload, buffer.part1⟩, messages ++ [⟨item.payload, buffer.part1⟩])
  else if addr = 1 then (⟨buffer.part0, item.payload⟩, messages)
  else (buffer, messages ++ [⟨item.payload, 0⟩])

/-- The messages that a sequence of words stands for, and the words of the last one that is not complete. -/
def assemble (items : List IoMsg) : MgtMsg × List MgtMsg := items.foldl assembleWord (⟨0, 0⟩, [])

namespace Receiver

def create (tlb : Tlb) (inFifoSize : Option Nat) : Receiver :=
  ⟨tlb, .empty inFifoSize 1, .create false, ⟨0, 0⟩, [], [], []⟩

/-- `handleMgtMsg`: `none` when the message has to be tried again. -/
def handleMgtMsg (s : Receiver) (msg : MgtMsg) : Except Fault (Option Receiver) :=
  let s := { s with handled := s.handled ++ [msg] }
  if msg.get .type = MgtMsgType.refill.value then
    (s.tlb.onStoreMsg msg).map fun done => done.map fun out => { s with tlb := out.2 }
  else if msg.get .type = MgtMsgType.invalidate.value then
    (s.tlb.onInvalidateMsg msg).map fun tlb => some { s with tlb := tlb }
  else if msg.get .type = MgtMsgType.set.value then
    (s.tlb.onPropertyMsg msg).map fun tlb => some { s with tlb := tlb }
  else .error .unreachable

/-- The item that `doReceive` has taken. The second half of a `SET` message is not initialised, and not read. -/
def offer (s : Receiver) (item : IoMsg) : Except Fault (Option Receiver) :=
  let s := { s with offered := s.offered ++ [item] }
  let addr := item.addr.chan.toNat / 8
  if addr ≤ 1 then
    if item.addr.devid ≠ s.tlb.mgtAddr.devid then .error .assertion
    else if addr = 0 then
      let msg : MgtMsg := ⟨item.payload, s.mgtMsgBuffer.part1⟩
      { s with mgtMsgBuffer := msg }.handleMgtMsg msg
    else .ok (some { s with mgtMsgBuffer := ⟨s.mgtMsgBuffer.part0, item.payload⟩ })
  else if addr = 2 then
    let singleMessage : MgtMsg := ⟨item.payload, 0⟩
    if singleMessage.get .type ≠ MgtMsgType.set.value then .error .assertion else s.handleMgtMsg singleMessage
  else .error .unreachable

/-- `doReceive`: `none` when it fails and is run again in the next cycle. -/
def doReceive (s : Receiver) : Except Fault (Option Receiver) :=
  if s.fifoIn.data.isEmpty then .ok (s.receiving.clear.map fun flag => { s with receiving := flag })
  else match s.fifoIn.take? with
    | none => .ok none
    | some (item, fifo) => { s with fifoIn := fifo }.offer item

/-- `OnWriteRequestReceived`: `none` when the write is refused. The result of `Set` is not looked at. -/
def onWriteRequestReceived (s : Receiver) (sender : BitVec 32) (address data : BitVec 64) : Option Receiver :=
  let msg : IoMsg := ⟨⟨sender, address.setWidth 32⟩, data⟩
  (s.fifoIn.push msg 1).map fun fifo =>
    { s with fifoIn := fifo, receiving := s.receiving.set.getD s.receiving, accepted := s.accepted ++ [msg] }

/-- One event that happens. The process `p_receive` runs only while its flag is set. -/
def step (s : Receiver) : ReceiverEvent → Option Receiver
  | .write sender address data => s.onWriteRequestReceived sender address data
  | .receive => if s.receiving.isSet then s.doReceive.toOption.join else none
  | .change tlb => some { s with tlb := tlb }
  | .endCycle => some { s with fifoIn := s.fifoIn.update, receiving := s.receiving.update }

/-- No write is accepted in a cycle in which the flag has been cleared already. -/
def NotCleared (s : Receiver) : ReceiverEvent → Prop
  | .write _ _ _ => ¬ (s.receiving.updated = true ∧ s.receiving.new = false)
  | _ => True

/-- The start of a cycle. -/
structure Fresh (s : Receiver) : Prop where
  pushed : s.fifoIn.pushed = []
  popped : s.fifoIn.popped = false
  updated : s.receiving.updated = false

/-- Some cycles in a row, in each of which `doReceive` has succeeded if its flag is set. -/
inductive Turns (allowed : Receiver → ReceiverEvent → Prop) : Nat → Receiver → Receiver → Prop
  | none {s} : Turns allowed 0 s s
  | next {n s middle after events} : Run step allowed s events middle → .endCycle ∉ events →
      (s.receiving.isSet = true → .receive ∈ events) →
      Turns allowed n { middle with fifoIn := middle.fifoIn.update, receiving := middle.receiving.update } after →
      Turns allowed (n + 1) s after

/-- Messages are not slept on, and are offered in order, once, and after as many cycles as there are words before them. -/
structure Delivers (allowed : Receiver → ReceiverEvent → Prop) (s : Receiver) : Prop where
  awake : s.fifoIn.contents ≠ [] → s.receiving.isSet = true ∨ s.receiving.new = true
  inOrder : s.offered ++ s.fifoIn.contents = s.accepted
  assembled : (s.mgtMsgBuffer, s.handled) = assemble s.offered
  active : s.Fresh → ∀ item rest, s.fifoIn.contents = item :: rest →
    s.receiving.isSet = true ∧ s.fifoIn.front? = some item
  eventually : s.Fresh → ∀ n after, Turns allowed n s after → s.offered ++ s.fifoIn.contents.take n <+: after.offered

section
variable {s after : Receiver} {item : IoMsg} {msg : MgtMsg} {events : List ReceiverEvent}

theorem assemble_append (items : List IoMsg) (item : IoMsg) :
    assemble (items ++ [item]) = assembleWord (assemble items) item := by
  rw [assemble, List.foldl_append]
  rfl

theorem handleMgtMsg_eq_ok (done : s.handleMgtMsg msg = .ok (some after)) :
    ∃ tlb, after = { s with handled := s.handled ++ [msg], tlb := tlb } := by
  unfold handleMgtMsg at done
  dsimp only at done
  split at done
  · cases stored : s.tlb.onStoreMsg msg with
    | error fault =>
      rw [stored] at done
      cases done
    | ok out =>
      rw [stored] at done
      cases out with
      | none => cases done
      | some out =>
        cases done
        exact ⟨_, rfl⟩
  split at done
  · cases freed : s.tlb.onInvalidateMsg msg with
    | error fault =>
      rw [freed] at done
      cases done
    | ok tlb =>
      rw [freed] at done
      cases done
      exact ⟨_, rfl⟩
  split at done
  · cases changed : s.tlb.onPropertyMsg msg with
    | error fault =>
      rw [changed] at done
      cases done
    | ok tlb =>
      rw [changed] at done
      cases done
      exact ⟨_, rfl⟩
  · cases done

/-- What taking a word changes. -/
structure Took (s : Receiver) (item : IoMsg) (after : Receiver) : Prop where
  fifoIn : after.fifoIn = s.fifoIn
  receiving : after.receiving = s.receiving
  accepted : after.accepted = s.accepted
  offered : after.offered = s.offered ++ [item]
  assembled : (after.mgtMsgBuffer, after.handled) = assembleWord (s.mgtMsgBuffer, s.handled) item

theorem offer_eq_ok (done : s.offer item = .ok (some after)) : s.Took item after := by
  unfold offer at done
  dsimp only at done
  split at done
  · rename_i half
    split at done
    · cases done
    split at done
    · rename_i zero
      obtain ⟨tlb, rfl⟩ := handleMgtMsg_eq_ok done
      exact ⟨rfl, rfl, rfl, rfl, by simp only [assembleWord, zero, if_true]⟩
    · rename_i other
      have one : item.addr.chan.toNat / 8 = 1 := by omega
      cases done
      exact ⟨rfl, rfl, rfl, rfl, by simp only [assembleWord, one, if_true, if_neg (by decide : ¬ (1 : Nat) = 0)]⟩
  · split at done
    · rename_i two
      split at done
      · cases done
      · obtain ⟨tlb, rfl⟩ := handleMgtMsg_eq_ok done
        exact ⟨rfl, rfl, rfl, rfl, by
          simp only [assembleWord, two, if_neg (by decide : ¬ (2 : Nat) = 0), if_neg (by decide : ¬ (2 : Nat) = 1)]⟩
    · cases done

/-- What a run of `doReceive` that succeeds can do. -/
inductive Received (s : Receiver) : Receiver → Prop
  | cleared : s.fifoIn.data = [] → s.receiving.updated = false →
      Received s { s with receiving := { s.receiving with new := false, updated := true } }
  | took {item : IoMsg} {fifo : Buffer IoMsg} {after : Receiver} : s.fifoIn.take? = some (item, fifo) →
      { s with fifoIn := fifo }.Took item after → Received s after

theorem doReceive_eq_ok (done : s.doReceive = .ok (some after)) : s.Received after := by
  unfold doReceive at done
  split at done
  · rename_i empty
    cases cleared : s.receiving.clear with
    | none =>
      rw [cleared] at done
      cases done
    | some flag =>
      rw [cleared] at done
      obtain ⟨fresh, rfl⟩ := Flag.assign_eq_some cleared
      cases done
      exact .cleared (List.isEmpty_iff.mp empty) fresh
  · split at done
    · cases done
    · rename_i item fifo taken
      exact .took taken (offer_eq_ok done)

theorem step_receive (taken : s.step .receive = some after) : s.receiving.isSet = true ∧ s.Received after := by
  unfold step at taken
  dsimp only at taken
  split at taken
  · rename_i active
    refine ⟨active, ?_⟩
    cases done : s.doReceive with
    | error fault =>
      rw [done] at taken
      cases taken
    | ok out =>
      rw [done] at taken
      cases out with
      | none => cases taken
      | some out =>
        cases taken
        exact doReceive_eq_ok done
  · cases taken

/-- The flag and the queue agree on whether there is something to receive. -/
structure Kept (s : Receiver) : Prop where
  idle : s.receiving.updated = false → s.receiving.new = s.receiving.isSet
  pushed : s.fifoIn.pushed ≠ [] → s.receiving.updated = true
  awake : s.fifoIn.contents ≠ [] → s.receiving.new = true
  inOrder : s.offered ++ s.fifoIn.contents = s.accepted
  assembled : (s.mgtMsgBuffer, s.handled) = assemble s.offered

theorem create_kept (tlb : Tlb) (inFifoSize : Option Nat) : (create tlb inFifoSize).Kept where
  idle _ := rfl
  pushed nonempty := absurd rfl nonempty
  awake nonempty := absurd rfl nonempty
  inOrder := rfl
  assembled := rfl

theorem Kept.write {sender : BitVec 32} {address data : BitVec 64} (kept : s.Kept)
    (allowed : s.NotCleared (.write sender address data))
    (done : s.onWriteRequestReceived sender address data = some after) : after.Kept := by
  obtain ⟨fifo, pushed, rfl⟩ := Option.map_eq_some_iff.mp done
  have contents := Buffer.contents_push pushed
  have flag : (s.receiving.set.getD s.receiving).updated = true ∧ (s.receiving.set.getD s.receiving).new = true := by
    cases changed : s.receiving.set with
    | none =>
      have updated := Flag.assign_eq_none changed
      refine ⟨updated, ?_⟩
      by_contra cleared
      exact allowed ⟨updated, by simpa using cleared⟩
    | some flag =>
      obtain ⟨_, rfl⟩ := Flag.assign_eq_some changed
      exact ⟨rfl, rfl⟩
  refine ⟨fun fresh => ?_, fun _ => flag.1, fun _ => flag.2, ?_, kept.assembled⟩
  · rw [flag.1] at fresh
    cases fresh
  · rw [contents, ← List.append_assoc, kept.inOrder]

theorem contents_nil_of_quiet {b : Buffer IoMsg} (empty : b.data = []) (quiet : b.pushed = []) : b.contents = [] := by
  simp [Buffer.contents, empty, quiet]

theorem pushed_take {b b' : Buffer IoMsg} (taken : b.take? = some (item, b')) :
    b'.pushed = b.pushed ∧ b'.data = b.data ∧ b.popped = false ∧ b'.popped = true ∧ b.data.head? = some item := by
  unfold Buffer.take? at taken
  split at taken
  · cases taken
  · rename_i first
    split at taken
    · cases taken
    · rename_i found
      cases taken
      exact ⟨rfl, rfl, by simpa using first, rfl, by rw [found]; rfl⟩

theorem Kept.receive (kept : s.Kept) (received : s.Received after) : after.Kept := by
  cases received with
  | cleared empty fresh =>
    have quiet : s.fifoIn.pushed = [] := by
      by_contra nonempty
      rw [kept.pushed nonempty] at fresh
      cases fresh
    refine ⟨nofun, fun _ => rfl, fun nonempty => ?_, kept.inOrder, kept.assembled⟩
    exact absurd (contents_nil_of_quiet empty quiet) nonempty
  | @took item fifo after taken took =>
    obtain ⟨contents, _⟩ := Buffer.take?_eq_some taken
    have pushed := (pushed_take taken).1
    have fifoIn : after.fifoIn = fifo := took.fifoIn
    have receiving : after.receiving = s.receiving := took.receiving
    have offered : after.offered = s.offered ++ [item] := took.offered
    have accepted : after.accepted = s.accepted := took.accepted
    refine ⟨?_, ?_, fun _ => ?_, ?_, ?_⟩
    · rw [receiving]
      exact kept.idle
    · rw [fifoIn, receiving, pushed]
      exact kept.pushed
    · rw [receiving]
      exact kept.awake (by rw [contents]; exact List.cons_ne_nil _ _)
    · rw [fifoIn, offered, accepted, ← kept.inOrder, contents, List.append_assoc, List.singleton_append]
    · rw [took.assembled, offered, assemble_append, ← kept.assembled]

theorem Kept.endCycle (kept : s.Kept) :
    ({ s with fifoIn := s.fifoIn.update, receiving := s.receiving.update } : Receiver).Kept where
  idle _ := rfl
  pushed nonempty := absurd rfl nonempty
  awake nonempty := by
    rw [show ({ s with fifoIn := s.fifoIn.update, receiving := s.receiving.update } : Receiver).fifoIn.contents =
      s.fifoIn.contents from Buffer.contents_update _] at nonempty
    exact kept.awake nonempty
  inOrder := by
    rw [show ({ s with fifoIn := s.fifoIn.update, receiving := s.receiving.update } : Receiver).fifoIn.contents =
      s.fifoIn.contents from Buffer.contents_update _]
    exact kept.inOrder
  assembled := kept.assembled

theorem Kept.step {e : ReceiverEvent} (kept : s.Kept) (allowed : s.NotCleared e) (taken : s.step e = some after) :
    after.Kept := by
  cases e with
  | write sender address data => exact kept.write allowed taken
  | receive => exact kept.receive (step_receive taken).2
  | change tlb =>
    cases taken
    exact ⟨kept.idle, kept.pushed, kept.awake, kept.inOrder, kept.assembled⟩
  | endCycle =>
    cases taken
    exact kept.endCycle

theorem Received.offered (received : s.Received after) : s.offered <+: after.offered := by
  cases received with
  | cleared _ _ => exact List.prefix_refl _
  | took taken took =>
    rw [took.offered]
    exact List.prefix_append _ _

theorem step_offered {e : ReceiverEvent} (taken : s.step e = some after) : s.offered <+: after.offered := by
  cases e with
  | write sender address data =>
    obtain ⟨fifo, _, rfl⟩ := Option.map_eq_some_iff.mp taken
    exact List.prefix_refl _
  | receive => exact (step_receive taken).2.offered
  | change tlb =>
    cases taken
    exact List.prefix_refl _
  | endCycle =>
    cases taken
    exact List.prefix_refl _

theorem offered_of_run {allowed : Receiver → ReceiverEvent → Prop} (run : Run Receiver.step allowed s events after) :
    s.offered <+: after.offered := by
  induction run with
  | start => exact List.prefix_refl _
  | next _ _ taken ih => exact ih.trans (step_offered taken)

/-- In one cycle the front word is taken when `doReceive` succeeds, and no other one is. -/
theorem cycle_of_run {allowed : Receiver → ReceiverEvent → Prop} {rest : List IoMsg}
    (run : Run Receiver.step allowed s events after) (inCycle : .endCycle ∉ events)
    (data : s.fifoIn.data = item :: rest) (first : s.fifoIn.popped = false) :
    after.fifoIn.data = item :: rest ∧
      ((.receive ∉ events ∧ after.fifoIn.popped = false ∧ after.offered = s.offered) ∨
        (after.fifoIn.popped = true ∧ after.offered = s.offered ++ [item])) := by
  induction run with
  | start => exact ⟨data, Or.inl ⟨by simp, first, rfl⟩⟩
  | @next events middle e after _ _ taken ih =>
    have earlier : ReceiverEvent.endCycle ∉ events := fun member => inCycle (List.mem_append_left _ member)
    obtain ⟨data', stage⟩ := ih earlier
    cases e with
    | write sender address value =>
      obtain ⟨fifo, pushed, rfl⟩ := Option.map_eq_some_iff.mp taken
      have same : fifo.data = middle.fifoIn.data ∧ fifo.popped = middle.fifoIn.popped := by
        unfold Buffer.push at pushed
        split at pushed
        · cases pushed
          exact ⟨rfl, rfl⟩
        · cases pushed
      refine ⟨same.1.trans data', ?_⟩
      rcases stage with ⟨notYet, fresh, offered⟩ | ⟨popped, offered⟩
      · exact Or.inl ⟨by simp [notYet], same.2.trans fresh, offered⟩
      · exact Or.inr ⟨same.2.trans popped, offered⟩
    | receive =>
      cases (step_receive taken).2 with
      | cleared empty _ =>
        rw [data'] at empty
        cases empty
      | @took item' fifo after taken took =>
        obtain ⟨_, dataFifo, fresh, popped, head⟩ := pushed_take taken
        rw [data'] at head
        cases head
        rcases stage with ⟨_, _, offered⟩ | ⟨popped', _⟩
        · have fifoIn : after.fifoIn = fifo := took.fifoIn
          refine ⟨by rw [fifoIn, dataFifo, data'], Or.inr ⟨by rw [fifoIn, popped], ?_⟩⟩
          rw [took.offered, offered]
        · rw [fresh] at popped'
          cases popped'
    | change tlb =>
      cases taken
      refine ⟨data', ?_⟩
      rcases stage with ⟨notYet, fresh, offered⟩ | later
      · exact Or.inl ⟨by simp [notYet], fresh, offered⟩
      · exact Or.inr later
    | endCycle => exact absurd (List.mem_append_right _ List.mem_cons_self) inCycle

theorem Fresh.contents (fresh : s.Fresh) : s.fifoIn.contents = s.fifoIn.data := by
  simp [Buffer.contents, fresh.pushed, fresh.popped]

theorem Kept.isSet (kept : s.Kept) (fresh : s.Fresh) (waits : s.fifoIn.contents ≠ []) : s.receiving.isSet = true :=
  (kept.idle fresh.updated).symm.trans (kept.awake waits)

/-- After `n` cycles the first `n` words that were waiting have been offered. -/
theorem Kept.turns {n : Nat} (turns : Turns NotCleared n s after) : s.Kept → s.Fresh →
    s.offered ++ s.fifoIn.contents.take n <+: after.offered := by
  induction turns with
  | none =>
    intro _ _
    rw [List.take_zero, List.append_nil]
  | @next n s middle after events run inCycle ran _ ih =>
    intro kept fresh
    have ended := Kept.endCycle (run.invariant kept fun _ _ _ kept allowed taken => kept.step allowed taken)
    have rest := ih ended ⟨rfl, rfl, rfl⟩
    have contents : ({ middle with fifoIn := middle.fifoIn.update, receiving := middle.receiving.update } :
      Receiver).fifoIn.contents = middle.fifoIn.contents := Buffer.contents_update _
    rw [contents] at rest
    cases waiting : s.fifoIn.contents with
    | nil =>
      rw [List.take_nil, List.append_nil]
      exact (offered_of_run run).trans ((List.prefix_append _ _).trans rest)
    | cons item later =>
      have member := ran (kept.isSet fresh (by rw [waiting]; exact List.cons_ne_nil _ _))
      rw [fresh.contents] at waiting
      obtain ⟨data, stage⟩ := cycle_of_run run inCycle waiting fresh.popped
      obtain ⟨popped, offered⟩ := stage.resolve_left fun never => never.1 member
      have left : middle.fifoIn.contents = later ++ middle.fifoIn.pushed := by
        simp [Buffer.contents, popped, data]
      rw [show ({ middle with fifoIn := middle.fifoIn.update, receiving := middle.receiving.update } :
        Receiver).offered = middle.offered from rfl, offered, left, List.take_append, ← List.append_assoc] at rest
      rw [List.take_succ_cons, List.append_cons]
      exact (List.prefix_append _ _).trans rest

theorem Kept.delivers (kept : s.Kept) : s.Delivers NotCleared where
  awake waits := Or.inr (kept.awake waits)
  inOrder := kept.inOrder
  assembled := kept.assembled
  active fresh item rest waits := by
    refine ⟨kept.isSet fresh (by rw [waits]; exact List.cons_ne_nil _ _), ?_⟩
    rw [fresh.contents] at waits
    simp [Buffer.front?, fresh.popped, waits]
  eventually fresh n after turns := kept.turns turns fresh

/-- The TLB delivers its messages in every run in which no write comes after the flag has been cleared in its cycle. -/
theorem delivers_of_run {tlb : Tlb} {inFifoSize : Option Nat}
    (run : Run Receiver.step NotCleared (create tlb inFifoSize) events s) : s.Delivers NotCleared :=
  (run.invariant (create_kept tlb inFifoSize) fun _ _ _ kept allowed taken => kept.step allowed taken).delivers

end

section OneCycle

/-- The word that enables the TLB, sent to its third register. -/
def enableWrite : ReceiverEvent := .write 0 16 Tlb.enableMsg.part0

def notCleared (s : Receiver) : ReceiverEvent → Bool
  | .write _ _ _ => !(s.receiving.updated && !s.receiving.new)
  | _ => true

theorem notCleared_of_check (s : Receiver) (e : ReceiverEvent) (accepted : s.notCleared e = true) : s.NotCleared e := by
  cases e with
  | write sender address data =>
    rintro ⟨updated, cleared⟩
    rw [notCleared, updated, cleared] at accepted
    cases accepted
  | receive => trivial
  | change tlb => trivial
  | endCycle => trivial

/-- A write that is received in the next cycle enables the TLB. -/
theorem delivers_of_run_enable : ∃ start s, Tlb.create 3 Tlb.defaultConfig 5 = .ok start ∧
    Run Receiver.step NotCleared (create start (some 10)) [enableWrite, .endCycle, .receive, .endCycle] s ∧
      s.tlb.enabled = true ∧ s.Delivers NotCleared := by
  have whole : ((Tlb.create 3 Tlb.defaultConfig 5).toOption.bind fun start =>
      (execute (checked notCleared Receiver.step) (create start (some 10))
        [enableWrite, .endCycle, .receive, .endCycle]).map fun s => s.tlb.enabled) = some true := by
    decide +kernel
  obtain ⟨start, created, whole⟩ := Option.bind_eq_some_iff.mp whole
  obtain ⟨s, done, enabled⟩ := Option.map_eq_some_iff.mp whole
  have run := run_of_checked notCleared_of_check done
  exact ⟨start, s, toOption_eq_some created, run, enabled, delivers_of_run run⟩

/-- The second write comes after `doReceive` has cleared the flag, and is slept on. -/
theorem slept_on_write : ∃ start s, Tlb.create 3 Tlb.defaultConfig 5 = .ok start ∧
    Run Receiver.step (fun _ _ => True) (create start (some 10))
      [enableWrite, .endCycle, .receive, .endCycle, .receive, enableWrite, .endCycle] s ∧
      ¬ s.Delivers fun _ _ => True := by
  have whole : ((Tlb.create 3 Tlb.defaultConfig 5).toOption.bind fun start =>
      (execute Receiver.step (create start (some 10))
        [enableWrite, .endCycle, .receive, .endCycle, .receive, enableWrite, .endCycle]).map fun s =>
          decide (s.fifoIn.contents ≠ [] ∧ s.receiving.isSet = false ∧ s.receiving.new = false)) = some true := by
    decide +kernel
  obtain ⟨start, created, whole⟩ := Option.bind_eq_some_iff.mp whole
  obtain ⟨s, done, seen⟩ := Option.map_eq_some_iff.mp whole
  obtain ⟨waits, asleep, idle⟩ := of_decide_eq_true seen
  refine ⟨start, s, toOption_eq_some created, run_of_execute (fun _ _ _ => trivial) done, fun delivers => ?_⟩
  rcases delivers.awake waits with active | later
  · rw [asleep] at active
    cases active
  · rw [idle] at later
    cases later

end OneCycle

end Receiver

end Mgsim.Mmu
