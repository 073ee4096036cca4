import Mathlib.Data.List.Forall2
import Mgsim.Drisc.IOValue

namespace Mgsim.Drisc
open Mgsim.Lib Mgsim.Mmu
variable {t : Target}

/-- The part of a buffer that can be seen in this cycle. -/
def visible {α : Type} (b : Buffer α) : List α := if b.popped then b.data.tail else b.data

namespace IORecord

/-- The numbers and the sizes of the loads from a device that have not been returned, in order. -/
def onWay (r : IORecord t) (d : Nat) : List (Nat × Nat) :=
  (r.io.incoming.contents.filter fun x => x.device = d).map (fun x => (x.number, x.data.length)) ++
    ((r.devices d).map fun q => (q.number, q.size)) ++
      (r.io.outgoing.contents.filterMap fun q => if q.device = d then q.msg else none).map fun q => (q.number, q.size)

/-- The numbers of the loads from a device. -/
def issued (r : IORecord t) (d : Nat) : List Nat :=
  (List.range r.loads.length).filter fun n => r.loads[n]?.any fun load => r.io.device load.address = d

/-- The numbers of the loads from a device whose answers have been written. -/
def answered (r : IORecord t) (d : Nat) : List Nat := (r.returned.filter fun x => x.device = d).map Returned.number

/-- The pending value of a load has left the pipeline. -/
def WrittenBack (r : IORecord t) (n : Nat) : Prop := ∀ latch ∈ r.io.latches, latch.number = n → latch.writebackOffset ≠ 0

/-- An answer is only written for a load whose own pending value is in the register, and it fits there. -/
def Answerable (r : IORecord t) : IOEvent t → Prop
  | .doReceivedReadResponses true => ∀ response rest load, r.io.incoming.take? = some (response, rest) →
      r.loads[response.number]? = some load →
      (r.io.regs load.rc).state = .pending ∨ (r.io.regs load.rc).state = .waiting →
      r.WrittenBack response.number ∧ load.Fits t response.data
  | _ => True

end IORecord

/-- Every load is returned once: the answers that have been written and those that are on their way are for the loads that
have been issued, in the order of each device. What has been written is what a load from memory writes, the reads of
the family have been counted, and the next answer finds the destination of its load and is written there as soon as it
is pending. -/
structure LoadsReturn (r : IORecord t) : Prop where
  once : ∀ d, r.answered d ++ (r.onWay d).map Prod.fst = r.issued d
  own : ∀ x ∈ r.returned, ∃ load, r.loads[x.number]? = some load ∧ x.data.length = load.size ∧
    x.writes = load.hitWrites t x.data ∧ x.fid = load.fid
  counted : ∀ fid, r.io.numPendingReads fid + (r.returned.filter fun x => x.fid = fid).length =
    (r.loads.filter fun load => load.fid = fid).length
  found : ∀ response rest, r.io.incoming.take? = some (response, rest) → ∃ load queue,
    r.loads[response.number]? = some load ∧ (r.io.wbBuffers response.device).take? = some (load.rc, queue)
  written : ∀ response rest load, r.io.incoming.take? = some (response, rest) → r.loads[response.number]? = some load →
    r.WrittenBack response.number → load.Fits t response.data →
    ∃ r', r.step (.doReceivedReadResponses true) = some r' ∧
      r'.returned = r.returned ++ [⟨response.number, response.device, response.data, load.hitWrites t response.data, load.fid⟩]

section Visible
variable {α : Type} {b b' : Buffer α} {item : α} {minSpace : Nat}

theorem visible_update (b : Buffer α) : visible b.update = b.contents := by
  have none : b.update.contents = b.update.data := List.append_nil _
  rw [← Buffer.contents_update, none]
  rfl

theorem visible_pushed (b : Buffer α) (item : α) : visible { b with pushed := b.pushed ++ [item] } = visible b := rfl

theorem visible_take (taken : b.take? = some (item, b')) : visible b = item :: visible b' := by
  obtain ⟨fresh, popped⟩ := Buffer.popped_of_take? taken
  obtain ⟨data, -⟩ := Buffer.take?_shape taken
  have front := Buffer.head?_of_take? taken
  unfold visible
  rw [fresh, popped, if_neg Bool.false_ne_true, if_pos rfl, data]
  rw [data] at front
  exact (List.cons_head?_tail front).symm

theorem take_of_visible {rest : List α} (fresh : b.popped = false) (seen : visible b = item :: rest) :
    ∃ b', b.take? = some (item, b') := by
  unfold visible at seen
  rw [fresh, if_neg Bool.false_ne_true] at seen
  exact Buffer.take?_of_data fresh seen

end Visible

namespace IORecord

/-- The pending value of a load is in its register, which waits for the answer. -/
def Awaited (r : IORecord t) (n : Nat) : Prop := (∃ d, n ∈ (r.onWay d).map Prod.fst) ∧ r.WrittenBack n

end IORecord

/-- A register that waits for a load. -/
def Targeted (value : RegValue t) : Prop := (value.state = .pending ∨ value.state = .waiting) ∧ value.memory.size ≠ 0

/-- What every event keeps. -/
structure Kept (r : IORecord t) : Prop where
  once : ∀ d, r.answered d ++ (r.onWay d).map Prod.fst = r.issued d
  distinct : (r.returned.map Returned.number).Nodup
  queued : ∀ d, List.Forall₂ (fun addr (x : Nat × Nat) => ∃ load, r.loads[x.1]? = some load ∧ load.rc = addr ∧ load.size = x.2)
    (r.io.wbBuffers d).contents (r.onWay d)
  latched : ∀ latch ∈ r.io.latches, ∃ load, r.loads[latch.number]? = some load ∧ latch.rc = load.rc ∧
    latch.rcv = IOInterface.pendingValue load
  decoded : ∀ load ∈ r.loads, 0 < load.size ∧ load.rcvSize = load.registers t * t.sizeofInteger
  held : ∀ n load, r.Awaited n → r.loads[n]? = some load →
    Targeted (r.io.regs load.rc) ∧ (r.io.regs load.rc).memory = (IOInterface.pendingValue load).memory ∧
      r.cached load.rc = false
  apart : ∀ n n' load load', r.Awaited n → r.Awaited n' → r.loads[n]? = some load → r.loads[n']? = some load' →
    load.rc = load'.rc → n = n'
  own : ∀ x ∈ r.returned, ∃ load, r.loads[x.number]? = some load ∧ x.data.length = load.size ∧
    x.writes = load.hitWrites t x.data ∧ x.fid = load.fid
  counted : ∀ fid, r.io.numPendingReads fid + (r.returned.filter fun x => x.fid = fid).length =
    (r.loads.filter fun load => load.fid = fid).length
  cached : ∀ addr, r.cached addr = true → Targeted (r.io.regs addr)
  seen : ∀ d, ((visible r.io.incoming).filter fun x => x.device = d).length ≤ (visible (r.io.wbBuffers d)).length
  popped : ∀ d, (r.io.wbBuffers d).popped = true → r.io.incoming.popped = true

/-- A step that only moves messages. -/
structure Carries (r r' : IORecord t) : Prop where
  onWay : ∀ d, r'.onWay d = r.onWay d
  queues : ∀ d, (r'.io.wbBuffers d).contents = (r.io.wbBuffers d).contents
  bits : r'.io.devAddrBits = r.io.devAddrBits
  latches : r'.io.latches = r.io.latches
  regs : r'.io.regs = r.io.regs
  numPendingReads : r'.io.numPendingReads = r.io.numPendingReads
  loads : r'.loads = r.loads
  returned : r'.returned = r.returned
  cached : r'.cached = r.cached
  seen : ∀ d, ((visible r'.io.incoming).filter fun x => x.device = d).length ≤ (visible (r'.io.wbBuffers d)).length
  popped : ∀ d, (r'.io.wbBuffers d).popped = true → r'.io.incoming.popped = true

namespace Kept
variable {r r' : IORecord t} {n d : Nat} {load : Load}
open IOInterface IORecord

theorem start (numDevices devAddrBits : Nat) (wbSize incomingSize outgoingSize : Option Nat) (regs : RegAddr → RegValue t) :
    Kept (.start numDevices devAddrBits wbSize incomingSize outgoingSize regs) where
  once _ := rfl
  distinct := .nil
  queued _ := .nil
  latched _ member := nomatch member
  decoded _ member := nomatch member
  held _ _ awaited _ := by
    obtain ⟨⟨_, member⟩, _⟩ := awaited
    cases member
  apart _ _ _ _ awaited := by
    obtain ⟨⟨_, member⟩, _⟩ := awaited
    cases member
  own _ member := nomatch member
  counted _ := rfl
  cached _ same := nomatch same
  seen _ := Nat.le_refl _
  popped _ same := nomatch same

theorem carry (kept : Kept r) (carries : Carries r r') : Kept r' := by
  have device (address : Addr) : r'.io.device address = r.io.device address := by
    unfold device
    rw [carries.bits]
  have awaited (n : Nat) (waits : r'.Awaited n) : r.Awaited n := by
    unfold Awaited WrittenBack at waits ⊢
    simp only [carries.onWay, carries.latches] at waits
    exact waits
  refine ⟨fun d => ?_, ?_, fun d => ?_, ?_, ?_, fun n load waits found => ?_, fun n n' load load' waits waits' => ?_, ?_, ?_, ?_,
    carries.seen, carries.popped⟩
  · unfold answered issued
    simp only [carries.onWay, carries.returned, carries.loads, device]
    exact kept.once d
  · rw [carries.returned]
    exact kept.distinct
  · rw [carries.queues, carries.onWay, carries.loads]
    exact kept.queued d
  · rw [carries.latches, carries.loads]
    exact kept.latched
  · rw [carries.loads]
    exact kept.decoded
  · rw [carries.loads] at found
    rw [carries.regs, carries.cached]
    exact kept.held n load (awaited n waits) found
  · rw [carries.loads]
    exact kept.apart n n' load load' (awaited n waits) (awaited n' waits')
  · rw [carries.returned, carries.loads]
    exact kept.own
  · rw [carries.returned, carries.loads, carries.numPendingReads]
    exact kept.counted
  · rw [carries.cached, carries.regs]
    exact kept.cached

theorem mem_issued : n ∈ r.issued d ↔ ∃ load, r.loads[n]? = some load ∧ r.io.device load.address = d := by
  unfold issued
  rw [List.mem_filter, List.mem_range, Option.any_eq_true]
  simp only [decide_eq_true_iff]
  constructor
  · exact fun both => both.2
  · rintro ⟨load, found, here⟩
    exact ⟨(List.getElem?_eq_some_iff.mp found).1, load, found, here⟩

theorem nodup_issued : (r.issued d).Nodup := List.nodup_range.filter _

/-- A load on its way is for the device that it is on its way to. -/
theorem onWay_issued (kept : Kept r) (member : n ∈ (r.onWay d).map Prod.fst) :
    ∃ load, r.loads[n]? = some load ∧ r.io.device load.address = d := by
  refine mem_issued.mp ?_
  rw [← kept.once]
  exact List.mem_append_right _ member

theorem onWay_device {d' : Nat} (kept : Kept r) (member : n ∈ (r.onWay d).map Prod.fst)
    (member' : n ∈ (r.onWay d').map Prod.fst) : d = d' := by
  obtain ⟨load, found, here⟩ := kept.onWay_issued member
  obtain ⟨load', found', here'⟩ := kept.onWay_issued member'
  cases found.symm.trans found'
  exact here.symm.trans here'

theorem nodup_onWay (kept : Kept r) (d : Nat) : (r.onWay d).map Prod.fst |>.Nodup := by
  have all : (r.answered d ++ (r.onWay d).map Prod.fst).Nodup := by
    rw [kept.once]
    exact nodup_issued
  exact (List.nodup_append.mp all).2.1

/-- What is on its way has not been written. -/
theorem onWay_not_returned (kept : Kept r) (member : n ∈ (r.onWay d).map Prod.fst) : n ∉ r.returned.map Returned.number := by
  intro returned
  obtain ⟨x, among, rfl⟩ := List.mem_map.mp returned
  have answered : x.number ∈ r.answered x.device :=
    List.mem_map_of_mem (List.mem_filter.mpr ⟨among, decide_eq_true rfl⟩)
  have issued : x.number ∈ r.issued x.device := by
    rw [← kept.once]
    exact List.mem_append_left _ answered
  obtain ⟨load, found, here⟩ := mem_issued.mp issued
  obtain ⟨load', found', here'⟩ := kept.onWay_issued member
  cases found.symm.trans found'
  have same : x.device = d := here.symm.trans here'
  have all : (r.answered d ++ (r.onWay d).map Prod.fst).Nodup := by
    rw [kept.once]
    exact nodup_issued
  exact (List.nodup_append.mp all).2.2 _ (same ▸ answered) _ member rfl

theorem lookup_old {loads : List Load} {k : Nat} {x : Load} (load : Load) (found : loads[k]? = some x) :
    (loads ++ [load])[k]? = some x := by
  rw [List.getElem?_append_left (List.getElem?_eq_some_iff.mp found).1]
  exact found

theorem lookup_new {loads : List Load} {k : Nat} {x load : Load} (found : (loads ++ [load])[k]? = some x)
    (other : k ≠ loads.length) : loads[k]? = some x := by
  have inside := (List.getElem?_eq_some_iff.mp found).1
  rw [List.length_append, List.length_singleton] at inside
  rw [List.getElem?_append_left (by omega)] at found
  exact found

theorem issued_next (bits : r'.io.devAddrBits = r.io.devAddrBits) (loads : r'.loads = r.loads ++ [load]) (d : Nat) :
    r'.issued d = r.issued d ++ if d = r.io.device load.address then [r.loads.length] else [] := by
  have device (address : Addr) : r'.io.device address = r.io.device address := by
    unfold device
    rw [bits]
  unfold issued
  rw [loads, List.length_append, List.length_singleton, List.range_succ, List.filter_append]
  congr 1
  · refine List.filter_congr fun k inside => ?_
    rw [List.getElem?_append_left (List.mem_range.mp inside)]
    simp only [device]
  · rw [List.filter_cons, List.filter_nil, List.getElem?_append_right (Nat.le_refl _), Nat.sub_self,
      List.getElem?_cons_zero, Option.any_some, device]
    by_cases here : d = r.io.device load.address
    · rw [if_pos here, if_pos (decide_eq_true here.symm)]
    · rw [if_neg here, if_neg fun same => here (of_decide_eq_true same).symm]

/-- A load is issued. -/
theorem issue (kept : Kept r) (decoded : 0 < load.size ∧ load.rcvSize = load.registers t * t.sizeofInteger)
    (onWay : ∀ d, r'.onWay d = r.onWay d ++ if d = r.io.device load.address then [(r.loads.length, load.size)] else [])
    (queues : ∀ d, (r'.io.wbBuffers d).contents =
      (r.io.wbBuffers d).contents ++ if d = r.io.device load.address then [load.rc] else [])
    (bits : r'.io.devAddrBits = r.io.devAddrBits)
    (latches : r'.io.latches = r.io.latches ++ [⟨load.rc, pendingValue load, 0, r.loads.length⟩])
    (regs : r'.io.regs = r.io.regs) (numPendingReads : r'.io.numPendingReads =
      Function.update r.io.numPendingReads load.fid (r.io.numPendingReads load.fid + 1))
    (loads : r'.loads = r.loads ++ [load]) (returned : r'.returned = r.returned) (cached : r'.cached = r.cached)
    (seen : ∀ d, ((visible r'.io.incoming).filter fun x => x.device = d).length ≤ (visible (r'.io.wbBuffers d)).length)
    (popped : ∀ d, (r'.io.wbBuffers d).popped = true → r'.io.incoming.popped = true) : Kept r' := by
  have awaited (n : Nat) (waits : r'.Awaited n) : r.Awaited n ∧ n ≠ r.loads.length := by
    obtain ⟨⟨d, member⟩, writtenBack⟩ := waits
    have other : n ≠ r.loads.length := by
      rintro rfl
      refine writtenBack ⟨load.rc, pendingValue load, 0, r.loads.length⟩ ?_ rfl rfl
      rw [latches]
      exact List.mem_append_right _ (List.mem_singleton_self _)
    refine ⟨⟨⟨d, ?_⟩, fun latch among same => writtenBack latch ?_ same⟩, other⟩
    · rw [onWay, List.map_append] at member
      rcases List.mem_append.mp member with old | new
      · exact old
      · split at new
        · exact absurd (List.mem_singleton.mp new) other
        · cases new
    · rw [latches]
      exact List.mem_append_left _ among
  refine ⟨fun d => ?_, ?_, fun d => ?_, fun latch among => ?_, fun x among => ?_, fun n x waits found => ?_,
    fun n n' x x' waits waits' found found' => ?_, fun x among => ?_, fun fid => ?_, ?_, seen, popped⟩
  · rw [issued_next bits loads, ← kept.once, onWay]
    unfold answered
    rw [returned, List.map_append, List.append_assoc]
    congr 2
    split <;> rfl
  · rw [returned]
    exact kept.distinct
  · rw [queues, onWay, loads]
    refine List.rel_append ((kept.queued d).imp ?_) ?_
    · rintro addr x ⟨x', found, rest⟩
      exact ⟨x', lookup_old load found, rest⟩
    · split
      · refine .cons ⟨load, ?_, rfl, rfl⟩ .nil
        rw [List.getElem?_append_right (Nat.le_refl _), Nat.sub_self]
        rfl
      · exact .nil
  · rw [latches] at among
    rw [loads]
    rcases List.mem_append.mp among with old | new
    · obtain ⟨x, found, rest⟩ := kept.latched latch old
      exact ⟨x, lookup_old load found, rest⟩
    · rw [List.mem_singleton.mp new]
      refine ⟨load, ?_, rfl, rfl⟩
      rw [List.getElem?_append_right (Nat.le_refl _), Nat.sub_self]
      rfl
  · rw [loads] at among
    rcases List.mem_append.mp among with old | new
    · exact kept.decoded x old
    · rw [List.mem_singleton.mp new]
      exact decoded
  · obtain ⟨before, other⟩ := awaited n waits
    rw [loads] at found
    rw [regs, cached]
    exact kept.held n x before (lookup_new found other)
  · obtain ⟨before, other⟩ := awaited n waits
    obtain ⟨before', other'⟩ := awaited n' waits'
    rw [loads] at found found'
    exact kept.apart n n' x x' before before' (lookup_new found other) (lookup_new found' other')
  · rw [returned] at among
    obtain ⟨x', found, rest⟩ := kept.own x among
    rw [loads]
    exact ⟨x', lookup_old load found, rest⟩
  · rw [numPendingReads, returned, loads, List.filter_append, List.length_append, ← kept.counted]
    by_cases here : fid = load.fid
    · rw [here, Function.update_self, List.filter_cons, if_pos (decide_eq_true rfl)]
      simp only [List.filter_nil, List.length_singleton]
      omega
    · rw [Function.update_of_ne here, List.filter_cons, if_neg fun same => here (of_decide_eq_true same).symm]
      rfl
  · rw [cached, regs]
    exact kept.cached

/-- The answer in front finds the destination of its load. -/
theorem front (kept : Kept r) {response : IOResponse} {incoming : Buffer IOResponse}
    (taken : r.io.incoming.take? = some (response, incoming)) : ∃ load queue,
      r.loads[response.number]? = some load ∧ (r.io.wbBuffers response.device).take? = some (load.rc, queue) ∧
        response.data.length = load.size := by
  have seen := kept.seen response.device
  rw [visible_take taken, List.filter_cons, if_pos (decide_eq_true rfl), List.length_cons] at seen
  obtain ⟨addr, rest, shown⟩ := List.exists_cons_of_length_pos (Nat.lt_of_lt_of_le (Nat.succ_pos _) seen)
  have fresh : (r.io.wbBuffers response.device).popped = false := by
    by_contra popped
    have both := kept.popped _ (Bool.eq_true_of_not_eq_false popped)
    rw [(Buffer.popped_of_take? taken).1] at both
    cases both
  obtain ⟨queue, found⟩ := take_of_visible fresh shown
  have queued := kept.queued response.device
  unfold onWay at queued
  rw [(Buffer.take?_eq_some found).1, (Buffer.take?_eq_some taken).1, List.filter_cons, if_pos (decide_eq_true rfl)] at queued
  cases queued with
  | cons first _ =>
    obtain ⟨load, known, same, size⟩ := first
    exact ⟨load, queue, known, same ▸ found, size.symm⟩

/-- What is on its way when an answer has been taken. -/
theorem onWay_taken (r' : IORecord t) {response : IOResponse} {incoming : Buffer IOResponse}
    (taken : r.io.incoming.take? = some (response, incoming)) (incoming' : r'.io.incoming = incoming)
    (outgoing : r'.io.outgoing = r.io.outgoing) (devices : r'.devices = r.devices) (d : Nat) :
    r.onWay d = (if d = response.device then [(response.number, response.data.length)] else []) ++ r'.onWay d := by
  unfold onWay
  rw [incoming', outgoing, devices, (Buffer.take?_eq_some taken).1, List.filter_cons]
  by_cases here : d = response.device
  · rw [if_pos here, if_pos (decide_eq_true here.symm)]
    rfl
  · rw [if_neg here, if_neg fun same => here (of_decide_eq_true same).symm]
    rfl

/-- Registers are written that wait for no load, or go on to wait. -/
theorem registers (kept : Kept r) {regs : RegAddr → RegValue t} {cached : RegAddr → Bool}
    (held : ∀ n load, r.Awaited n → r.loads[n]? = some load → Targeted (regs load.rc) ∧
      (regs load.rc).memory = (r.io.regs load.rc).memory ∧ cached load.rc = r.cached load.rc)
    (waits : ∀ addr, cached addr = true → Targeted (regs addr)) :
    Kept { r with io := { r.io with regs := regs }, cached := cached } := by
  refine ⟨kept.once, kept.distinct, kept.queued, kept.latched, kept.decoded, fun n load waits found => ?_, kept.apart, kept.own,
    kept.counted, waits, kept.seen, kept.popped⟩
  obtain ⟨targeted, memory, unmarked⟩ := held n load waits found
  obtain ⟨-, memory', unmarked'⟩ := kept.held n load waits found
  exact ⟨targeted, memory.trans memory', unmarked.trans unmarked'⟩

theorem write (kept : Kept r) {addr : RegAddr} {value : RegValue t} (writable : Writable (r.io.regs addr) value) :
    Kept { r with io := { r.io with regs := Function.update r.io.regs addr value } } := by
  have stays (x : RegAddr) (before : Targeted (r.io.regs x)) : Targeted (Function.update r.io.regs addr value x) ∧
      (Function.update r.io.regs addr value x).memory = (r.io.regs x).memory := by
    by_cases here : x = addr
    · subst here
      have notFull : (r.io.regs x).state ≠ .full := by
        rcases before.1 with state | state <;> rw [state] <;> decide
      unfold Writable at writable
      rw [if_pos ⟨notFull, before.2⟩] at writable
      rw [Function.update_self]
      exact ⟨⟨Or.inr writable.1, writable.2 ▸ before.2⟩, writable.2⟩
    · rw [Function.update_of_ne here]
      exact ⟨before, rfl⟩
  refine kept.registers (fun n load waits found => ?_) fun x marked => (stays x (kept.cached x marked)).1
  obtain ⟨targeted, memory⟩ := stays load.rc (kept.held n load waits found).1
  exact ⟨targeted, memory, rfl⟩

/-- A register that waits for no load is free to become the target of one. -/
theorem free_other (kept : Kept r) {addr : RegAddr} (free : ¬ Targeted (r.io.regs addr)) (waits : r.Awaited n)
    (found : r.loads[n]? = some load) : load.rc ≠ addr := by
  rintro rfl
  exact free (kept.held n load waits found).1

theorem combine_pending (old : RegValue t) {value : RegValue t} (pending : value.state = .pending) :
    ((combineWaiting old value).state = .pending ∨ (combineWaiting old value).state = .waiting) ∧
      (combineWaiting old value).memory = value.memory := by
  unfold combineWaiting
  split
  · exact ⟨Or.inr rfl, rfl⟩
  · exact ⟨Or.inl pending, rfl⟩

theorem cacheLoad (kept : Kept r) {addr : RegAddr} {memory : MemoryRequest} (free : ¬ Targeted (r.io.regs addr))
    (some : memory.size ≠ 0) {value : RegValue t}
    (combined : value = combineWaiting (r.io.regs addr) { RegValue.makeEmpty t with state := .pending, memory := memory }) :
    Kept { r with
      io := { r.io with regs := Function.update r.io.regs addr value }
      cached := Function.update r.cached addr true } := by
  refine kept.registers (fun n load waits found => ?_) fun x marked => ?_
  · have other := kept.free_other free waits found
    rw [Function.update_of_ne other, Function.update_of_ne other]
    exact ⟨(kept.held n load waits found).1, rfl, rfl⟩
  · by_cases here : x = addr
    · rw [here, Function.update_self, combined]
      have pending : ({ RegValue.makeEmpty t with state := .pending, memory := memory } : RegValue t).state = .pending := rfl
      obtain ⟨state, same⟩ := combine_pending (r.io.regs addr) pending
      exact ⟨state, same ▸ some⟩
    · rw [Function.update_of_ne here] at marked ⊢
      exact kept.cached x marked

theorem cacheFill (kept : Kept r) {addr : RegAddr} {value : Integer t} (marked : r.cached addr = true) :
    Kept { r with
      io := { r.io with regs := Function.update r.io.regs addr (.makeFull value) }
      cached := Function.update r.cached addr false } := by
  refine kept.registers (fun n load waits found => ?_) fun x marked' => ?_
  · have held := kept.held n load waits found
    have other : load.rc ≠ addr := by
      rintro rfl
      rw [held.2.2] at marked
      cases marked
    rw [Function.update_of_ne other, Function.update_of_ne other]
    exact ⟨held.1, rfl, rfl⟩
  · by_cases here : x = addr
    · rw [here, Function.update_self] at marked'
      cases marked'
    · rw [Function.update_of_ne here] at marked' ⊢
      exact kept.cached x marked'

/-- The next load writes back a register that waits for no load. -/
theorem writeBack (kept : Kept r) {latch : Latch} {rest latches : List Latch} (front : r.io.latches = latch :: rest)
    (free : ¬ Targeted (r.io.regs ⟨latch.rc.type, latch.rc.index + latch.writebackOffset⟩))
    (next : latches = if latch.writebackOffset + 1 = latch.rcv.size / t.sizeofInteger then rest
      else { latch with writebackOffset := latch.writebackOffset + 1 } :: rest) :
    Kept { r with io := { r.io with
      regs := Function.update r.io.regs ⟨latch.rc.type, latch.rc.index + latch.writebackOffset⟩
        (combineWaiting (r.io.regs ⟨latch.rc.type, latch.rc.index + latch.writebackOffset⟩)
          (writebackValue t latch.rcv latch.writebackOffset))
      latches := latches } } := by
  obtain ⟨own, known, destination, pending⟩ := kept.latched latch (by rw [front]; exact List.mem_cons_self)
  generalize address : (⟨latch.rc.type, latch.rc.index + latch.writebackOffset⟩ : RegAddr) = addr at free ⊢
  have later (other : Latch) (member : other ∈ rest) : other ∈ latches := by
    rw [next]
    split
    · exact member
    · exact List.mem_cons_of_mem _ member
  have earlier (other : Latch) (member : other ∈ latches) : other ∈ rest ∨
      other = { latch with writebackOffset := latch.writebackOffset + 1 } := by
    rw [next] at member
    split at member
    · exact Or.inl member
    · exact (List.mem_cons.mp member).symm
  generalize after : ({ r with io := { r.io with
      regs := Function.update r.io.regs addr (combineWaiting (r.io.regs addr) (writebackValue t latch.rcv latch.writebackOffset))
      latches := latches } } : IORecord t) = r'
  have awaited (n : Nat) (waits : r'.Awaited n) : r.Awaited n ∨ n = latch.number ∧ latch.writebackOffset = 0 := by
    subst after
    by_cases fresh : n = latch.number ∧ latch.writebackOffset = 0
    · exact Or.inr fresh
    refine Or.inl ⟨waits.1, fun other member same => ?_⟩
    rw [front] at member
    rcases List.mem_cons.mp member with rfl | member
    · exact fun zero => fresh ⟨same.symm, zero⟩
    · exact waits.2 other (later other member) same
  have target (zero : latch.writebackOffset = 0) : addr = own.rc := by
    rw [← address, zero, destination]
    rfl
  have unmarked : r.cached addr = false := by
    by_contra marked
    exact free (kept.cached addr (Bool.eq_true_of_not_eq_false marked))
  have positive (load : Load) (n : Nat) (found : r.loads[n]? = some load) : load.size ≠ 0 :=
    Nat.pos_iff_ne_zero.mp (kept.decoded load (List.mem_of_getElem? found)).1
  refine ⟨?_, ?_, ?_, ?_, ?_, ?_, ?_, ?_, ?_, ?_, ?_, ?_⟩
  · subst after
    exact kept.once
  · subst after
    exact kept.distinct
  · subst after
    exact kept.queued
  · subst after
    intro other member
    rcases earlier other member with old | new
    · exact kept.latched other (by rw [front]; exact List.mem_cons_of_mem _ old)
    · rw [new]
      exact ⟨own, known, destination, pending⟩
  · subst after
    exact kept.decoded
  · intro n load waits found
    have before := awaited n waits
    subst after
    dsimp only at found ⊢
    rcases before with waits | ⟨rfl, zero⟩
    · rw [Function.update_of_ne (kept.free_other free waits found)]
      exact kept.held n load waits found
    · cases known.symm.trans found
      rw [← target zero, Function.update_self, zero, pending]
      have waits : (writebackValue t (pendingValue own) 0).state = .pending := rfl
      obtain ⟨state, same⟩ := combine_pending (r.io.regs addr) waits
      refine ⟨⟨state, ?_⟩, same.trans rfl, unmarked⟩
      rw [same]
      exact positive own _ known
  · intro n n' load load' waits waits' found found' same
    have before := awaited n waits
    have before' := awaited n' waits'
    subst after
    dsimp only at found found'
    rcases before with waits | ⟨rfl, zero⟩
    · rcases before' with waits' | ⟨rfl, zero⟩
      · exact kept.apart n n' load load' waits waits' found found' same
      · cases known.symm.trans found'
        exact absurd (same.trans (target zero).symm) (kept.free_other free waits found)
    · rcases before' with waits' | ⟨rfl, _⟩
      · cases known.symm.trans found
        exact absurd (same.symm.trans (target zero).symm) (kept.free_other free waits' found')
      · rfl
  · subst after
    exact kept.own
  · subst after
    exact kept.counted
  · subst after
    intro x marked
    dsimp only at marked ⊢
    have other : x ≠ addr := by
      rintro rfl
      rw [unmarked] at marked
      cases marked
    rw [Function.update_of_ne other]
    exact kept.cached x marked
  · subst after
    exact kept.seen
  · subst after
    exact kept.popped

/-- A load of a family that has not been returned is counted. -/
theorem pendingReads_pos (kept : Kept r) (member : n ∈ (r.onWay d).map Prod.fst) (found : r.loads[n]? = some load) :
    r.io.numPendingReads load.fid ≠ 0 := by
  intro zero
  have counted := kept.counted load.fid
  rw [zero, Nat.zero_add] at counted
  let mine : List Nat := (List.range r.loads.length).filter fun k => r.loads[k]?.any fun x => x.fid = load.fid
  let done : List Nat := (r.returned.filter fun x => x.fid = load.fid).map Returned.number
  have size (loads : List Load) : ((List.range loads.length).filter fun k => loads[k]?.any fun x => x.fid = load.fid).length =
      (loads.filter fun x => x.fid = load.fid).length := by
    induction loads using List.reverseRecOn with
    | nil => rfl
    | append_singleton loads last ih =>
      rw [List.length_append, List.length_singleton, List.range_succ, List.filter_append, List.filter_append,
        List.length_append, List.length_append, ← ih]
      congr 1
      · refine congrArg List.length (List.filter_congr fun k inside => ?_)
        rw [List.getElem?_append_left (List.mem_range.mp inside)]
      · rw [List.filter_cons, List.filter_cons, List.getElem?_append_right (Nat.le_refl _), Nat.sub_self,
          List.getElem?_cons_zero, Option.any_some]
        split <;> rfl
  have inside (k : Nat) (x : Load) (known : r.loads[k]? = some x) (same : x.fid = load.fid) : k ∈ mine := by
    refine List.mem_filter.mpr ⟨List.mem_range.mpr (List.getElem?_eq_some_iff.mp known).1, ?_⟩
    rw [known, Option.any_some]
    exact decide_eq_true same
  have distinct : (n :: done).Nodup := by
    refine List.nodup_cons.mpr ⟨fun among => kept.onWay_not_returned member ?_, ?_⟩
    · exact (List.filter_sublist.map Returned.number).subset among
    · exact kept.distinct.sublist (List.filter_sublist.map Returned.number)
  have within : n :: done ⊆ mine := by
    intro k among
    rcases List.mem_cons.mp among with rfl | among
    · exact inside k load found rfl
    · obtain ⟨x, returned, rfl⟩ := List.mem_map.mp among
      obtain ⟨member, own⟩ := List.mem_filter.mp returned
      obtain ⟨x', known, _, _, fid⟩ := kept.own x member
      exact inside x.number x' known (fid.symm.trans (of_decide_eq_true own))
  have few := (distinct.subperm within).length_le
  rw [List.length_cons, List.length_map, size, ← counted] at few
  exact Nat.not_succ_le_self _ few

/-- What an answer that can be written is for. -/
structure Fitting (r : IORecord t) (response : IOResponse) (load : Load) : Prop where
  known : r.loads[response.number]? = some load
  writtenBack : r.WrittenBack response.number
  fits : load.Fits t response.data

/-- The register of a load whose answer is written. -/
theorem awaited_front (kept : Kept r) {response : IOResponse} {incoming : Buffer IOResponse}
    (taken : r.io.incoming.take? = some (response, incoming)) (writtenBack : r.WrittenBack response.number) :
    response.number ∈ (r.onWay response.device).map Prod.fst ∧ r.Awaited response.number := by
  have member : response.number ∈ (r.onWay response.device).map Prod.fst := by
    rw [onWay_taken { r with io := { r.io with incoming := incoming } } taken rfl rfl rfl, if_pos rfl]
    exact List.mem_cons_self
  exact ⟨member, ⟨response.device, member⟩, writtenBack⟩

theorem answer (kept : Kept r) {response : IOResponse} {incoming : Buffer IOResponse} {wbq : Buffer RegAddr}
    (taken : r.io.incoming.take? = some (response, incoming))
    (queue : (r.io.wbBuffers response.device).take? = some (load.rc, wbq)) (fitting : Fitting r response load)
    (length : response.data.length = load.size) : Kept { r with
      io := { r.io with
        wbBuffers := Function.update r.io.wbBuffers response.device wbq
        incoming := incoming
        regs := Function.update r.io.regs load.rc
          (.makeFull (responseValue t load.rc.type (pendingValue load).memory response.data))
        numPendingReads := Function.update r.io.numPendingReads load.fid (r.io.numPendingReads load.fid - 1) }
      returned := r.returned ++ [⟨response.number, response.device, response.data,
        [(load.rc, responseValue t load.rc.type (pendingValue load).memory response.data)], load.fid⟩] } := by
  obtain ⟨member, awaitedFront⟩ := kept.awaited_front taken fitting.writtenBack
  have nonzero := kept.pendingReads_pos member fitting.known
  have decoded := kept.decoded load (List.mem_of_getElem? fitting.known)
  generalize after : ({ r with
      io := { r.io with
        wbBuffers := Function.update r.io.wbBuffers response.device wbq
        incoming := incoming
        regs := Function.update r.io.regs load.rc
          (.makeFull (responseValue t load.rc.type (pendingValue load).memory response.data))
        numPendingReads := Function.update r.io.numPendingReads load.fid (r.io.numPendingReads load.fid - 1) }
      returned := r.returned ++ [⟨response.number, response.device, response.data,
        [(load.rc, responseValue t load.rc.type (pendingValue load).memory response.data)], load.fid⟩] } : IORecord t) = r'
  have onWay (d : Nat) : r.onWay d = (if d = response.device then [(response.number, response.data.length)] else []) ++ r'.onWay d := by
    subst after
    refine onWay_taken _ taken ?_ ?_ ?_ d <;> rfl
  have awaited (n : Nat) (waits : r'.Awaited n) : r.Awaited n ∧ n ≠ response.number := by
    obtain ⟨⟨d, among⟩, writtenBack⟩ := waits
    have before : n ∈ (r.onWay d).map Prod.fst := by
      rw [onWay, List.map_append]
      exact List.mem_append_right _ among
    refine ⟨⟨⟨d, before⟩, by subst after; exact writtenBack⟩, ?_⟩
    rintro rfl
    have here := kept.onWay_device before member
    have distinct := kept.nodup_onWay d
    rw [onWay, if_pos here, List.map_append] at distinct
    exact (List.nodup_cons.mp distinct).1 among
  have queues (d : Nat) : (r.io.wbBuffers d).contents =
      (if d = response.device then [load.rc] else []) ++ (r'.io.wbBuffers d).contents := by
    subst after
    dsimp only
    by_cases here : d = response.device
    · rw [here, Function.update_self, if_pos rfl]
      exact (Buffer.take?_eq_some queue).1
    · rw [Function.update_of_ne here, if_neg here]
      rfl
  have held (n : Nat) (x : Load) (waits : r'.Awaited n) (found : r.loads[n]? = some x) : x.rc ≠ load.rc := by
    obtain ⟨before, other⟩ := awaited n waits
    exact fun same => other (kept.apart n _ x load before awaitedFront found fitting.known same)
  refine ⟨fun d => ?_, ?_, fun d => ?_, ?_, ?_, fun n x waits found => ?_, fun n n' x x' waits waits' => ?_, ?_, fun fid => ?_,
    fun addr marked => ?_, fun d => ?_, fun d marked => ?_⟩
  · have once := kept.once d
    rw [onWay, List.map_append, ← List.append_assoc] at once
    subst after
    refine Eq.trans (congrArg (· ++ _) ?_) once
    unfold answered
    rw [List.filter_append, List.map_append, List.filter_cons]
    congr 1
    by_cases here : d = response.device
    · rw [if_pos here, if_pos (decide_eq_true here.symm)]
      rfl
    · rw [if_neg here, if_neg fun same => here (of_decide_eq_true same).symm]
      rfl
  · have fresh := kept.onWay_not_returned member
    subst after
    rw [List.map_append]
    exact List.nodup_append.mpr ⟨kept.distinct, List.nodup_singleton _, fun a old b new same => fresh (by
      have number : a = response.number := by
        rw [same, List.mem_singleton.mp new]
      exact number ▸ old)⟩
  · have queued := kept.queued d
    rw [queues, onWay] at queued
    have loads : r'.loads = r.loads := by
      subst after
      rfl
    rw [loads]
    by_cases here : d = response.device
    · rw [if_pos here, if_pos here] at queued
      cases queued with
      | cons _ rest => exact rest
    · rw [if_neg here, if_neg here] at queued
      exact queued
  · subst after
    exact kept.latched
  · subst after
    exact kept.decoded
  · obtain ⟨before, -⟩ := awaited n waits
    have other := held n x waits (by subst after; exact found)
    subst after
    dsimp only
    rw [Function.update_of_ne other]
    exact kept.held n x before found
  · obtain ⟨before, -⟩ := awaited n waits
    obtain ⟨before', -⟩ := awaited n' waits'
    subst after
    exact kept.apart n n' x x' before before'
  · subst after
    intro x among
    rcases List.mem_append.mp among with old | new
    · exact kept.own x old
    · rw [List.mem_singleton.mp new]
      exact ⟨load, fitting.known, length, (fitting.fits.hitWrites decoded.1 decoded.2).symm, rfl⟩
  · have counted := kept.counted fid
    subst after
    dsimp only
    rw [List.filter_append, List.length_append, ← counted]
    by_cases here : fid = load.fid
    · rw [here, Function.update_self, List.filter_cons, if_pos (decide_eq_true rfl), List.filter_nil, List.length_singleton]
      omega
    · rw [Function.update_of_ne here, List.filter_cons, if_neg fun same => here (of_decide_eq_true same).symm]
      rfl
  · have unmarked := (kept.held _ load awaitedFront fitting.known).2.2
    subst after
    dsimp only at marked ⊢
    have other : addr ≠ load.rc := by
      rintro rfl
      rw [unmarked] at marked
      cases marked
    rw [Function.update_of_ne other]
    exact kept.cached addr marked
  · have seen := kept.seen d
    rw [visible_take taken, List.filter_cons] at seen
    subst after
    dsimp only
    by_cases here : d = response.device
    · rw [here, Function.update_self]
      rw [here, if_pos (decide_eq_true rfl), visible_take queue] at seen
      exact Nat.le_of_succ_le_succ seen
    · rw [Function.update_of_ne here]
      rw [if_neg fun same => here (of_decide_eq_true same).symm] at seen
      exact seen
  · subst after
    exact (Buffer.popped_of_take? taken).2

theorem asyncRead_check {io io' : IOInterface t} {number : Nat} {done : Bool}
    (called : asyncRead .check load number io = some (done, io')) : io' = io := by
  unfold asyncRead IOInterface.read at called
  split at called
  · cases called
  split at called
  swap
  · cases called
  obtain ⟨⟨queued, b⟩, pushed, later⟩ := Option.bind_eq_some_iff.mp called
  rw [Buffer.pushIn_check pushed] at later
  cases queued with
  | false =>
    cases later
    rfl
  | true =>
    obtain ⟨⟨sent, requests⟩, pushed', same⟩ := Option.map_eq_some_iff.mp later
    rw [Buffer.pushIn_check pushed'] at same
    cases same
    rw [Function.update_eq_self]

theorem memoryStage_check {io io' : IOInterface t} {number : Nat} {done : Bool}
    (called : memoryStage .check load number io = some (done, io')) : io' = io := by
  obtain ⟨⟨_, after⟩, read, same⟩ := Option.map_eq_some_iff.mp called
  cases same
  rw [if_neg fun both => nomatch both.2]
  exact asyncRead_check read

/-- A load that the interface takes is queued twice. -/
theorem asyncRead_commit {io io' : IOInterface t} {number : Nat} (called : asyncRead .commit load number io = some (true, io')) :
    io' = { io with
      wbBuffers := Function.update io.wbBuffers (io.device load.address)
        { io.wbBuffers (io.device load.address) with pushed := (io.wbBuffers (io.device load.address)).pushed ++ [load.rc] }
      outgoing := { io.outgoing with pushed := io.outgoing.pushed ++ [⟨io.device load.address,
        some ⟨load.address &&& ((1 <<< io.devAddrBits) - 1), load.size, number⟩⟩] } } := by
  unfold asyncRead IOInterface.read at called
  split at called
  · cases called
  split at called
  swap
  · cases called
  obtain ⟨⟨queued, b⟩, pushed, later⟩ := Option.bind_eq_some_iff.mp called
  cases queued with
  | false => cases later
  | true =>
    obtain ⟨⟨sent, requests⟩, pushed', same⟩ := Option.map_eq_some_iff.mp later
    cases same
    rw [Buffer.pushIn_commit pushed, Buffer.pushIn_commit pushed']

theorem stepLoad (kept : Kept r) (called : r.step (.load load) = some r') : Kept r' := by
  unfold IORecord.step at called
  dsimp only at called
  split at called
  swap
  · cases called
  rename_i decoded
  obtain ⟨⟨done, io⟩, ran, same⟩ := Option.map_eq_some_iff.mp called
  subst same
  rcases runProcess_cases (fun _ _ => memoryStage_check) ran with ⟨rfl, rfl⟩ | ⟨rfl, committed⟩
  · exact kept
  obtain ⟨⟨_, after⟩, read, same⟩ := Option.map_eq_some_iff.mp committed
  obtain ⟨rfl, same⟩ := Prod.mk.inj same
  rw [if_pos ⟨rfl, rfl⟩, asyncRead_commit read] at same
  subst same
  have decoded : 0 < load.size ∧ load.rcvSize = load.registers t * t.sizeofInteger := ⟨decoded.1, decoded.2.2⟩
  refine kept.issue decoded (fun d => ?_) (fun d => ?_) rfl rfl rfl rfl rfl rfl rfl (fun d => ?_)
    fun d popped => ?_
  · unfold onWay
    dsimp only
    rw [Buffer.contents_pushed, List.filterMap_append, List.map_append, ← List.append_assoc]
    congr 1
    by_cases here : d = r.io.device load.address
    · simp [here]
    · have other : ¬ r.io.device load.address = d := fun same => here same.symm
      simp [here, other]
  · dsimp only
    by_cases here : d = r.io.device load.address
    · rw [here, Function.update_self, Buffer.contents_pushed, if_pos rfl]
    · rw [Function.update_of_ne here, if_neg here, List.append_nil]
  · dsimp only
    by_cases here : d = r.io.device load.address
    · rw [here, Function.update_self, visible_pushed]
      exact kept.seen _
    · rw [Function.update_of_ne here]
      exact kept.seen d
  · dsimp only at popped
    by_cases here : d = r.io.device load.address
    · rw [here, Function.update_self] at popped
      exact kept.popped _ popped
    · rw [Function.update_of_ne here] at popped
      exact kept.popped d popped

theorem stepSend (kept : Kept r) {device : Nat} (called : r.step (.send device) = some r') : Kept r' := by
  obtain ⟨⟨done, requests⟩, pushed, same⟩ := Option.map_eq_some_iff.mp called
  subst same
  cases done with
  | false =>
    rw [Buffer.pushIn_refused pushed]
    exact kept
  | true =>
    rw [Buffer.pushIn_commit pushed]
    refine kept.carry ⟨fun d => ?_, fun _ => rfl, rfl, rfl, rfl, rfl, rfl, rfl, rfl, kept.seen, kept.popped⟩
    unfold onWay
    dsimp only
    rw [Buffer.contents_pushed, List.filterMap_append, List.filterMap_cons_none (by split <;> rfl)]
    simp

theorem stepOutgoing (kept : Kept r) {accepted : Bool} (called : r.step (.doOutgoingRequests accepted) = some r') : Kept r' := by
  obtain ⟨⟨q, rest⟩, taken, same⟩ := Option.map_eq_some_iff.mp called
  subst same
  cases accepted with
  | false => exact kept
  | true =>
    dsimp only
    rw [if_pos rfl]
    refine kept.carry ⟨fun d => ?_, fun _ => rfl, rfl, rfl, rfl, rfl, rfl, rfl, rfl, kept.seen, kept.popped⟩
    unfold onWay
    dsimp only
    rw [(Buffer.take?_eq_some taken).1]
    unfold IORecord.request
    cases content : q.msg with
    | none => simp [content]
    | some msg =>
      by_cases here : d = q.device
      · simp [here, content]
      · have other : ¬ q.device = d := fun same => here same.symm
        simp [here, other]

theorem stepAnswer (kept : Kept r) {device : Nat} {data : List Byte} (called : r.step (.answer device data) = some r') :
    Kept r' := by
  unfold IORecord.step at called
  dsimp only at called
  split at called
  · cases called
  rename_i q rest requests
  split at called
  swap
  · cases called
  rename_i length
  obtain ⟨⟨done, incoming⟩, pushed, same⟩ := Option.map_eq_some_iff.mp called
  subst same
  cases done with
  | false => exact kept
  | true =>
    dsimp only
    rw [if_pos rfl, Buffer.pushIn_commit pushed]
    refine kept.carry ⟨fun d => ?_, fun _ => rfl, rfl, rfl, rfl, rfl, rfl, rfl, rfl, kept.seen, kept.popped⟩
    unfold onWay
    dsimp only
    rw [Buffer.contents_pushed]
    by_cases here : d = device
    · simp [here, requests, length]
    · have other : ¬ device = d := fun same => here same.symm
      simp [here, other]

theorem stepUpdate (kept : Kept r) (called : r.step .update = some r') : Kept r' := by
  cases called
  refine kept.carry ⟨fun d => ?_, fun d => Buffer.contents_update _, rfl, rfl, rfl, rfl, rfl, rfl, rfl, fun d => ?_, nofun⟩
  · unfold onWay
    dsimp only
    rw [Buffer.contents_update]
  · have length := (kept.queued d).length_eq
    dsimp only
    rw [visible_update, visible_update, length]
    unfold onWay
    rw [List.length_append, List.length_append, List.length_map]
    omega

theorem stepUpdateOutgoing (kept : Kept r) (called : r.step .updateOutgoing = some r') : Kept r' := by
  cases called
  refine kept.carry ⟨fun d => ?_, fun _ => rfl, rfl, rfl, rfl, rfl, rfl, rfl, rfl, kept.seen, kept.popped⟩
  unfold onWay
  dsimp only
  rw [Buffer.contents_update]

theorem stepWriteback (kept : Kept r) (called : r.step .writeback = some r') : Kept r' := by
  obtain ⟨⟨done, io⟩, wrote, same⟩ := Option.map_eq_some_iff.mp called
  subst same
  unfold IOInterface.writeback at wrote
  split at wrote
  · cases wrote
  rename_i latch rest front
  dsimp only at wrote
  split at wrote
  · cases wrote
  rename_i notWaiting
  split at wrote
  · cases wrote
    exact kept
  rename_i notPending
  cases wrote
  refine kept.writeBack front ?_ rfl
  rintro ⟨pending | waiting, some⟩
  · exact notPending ⟨Or.inr pending, some⟩
  · exact notWaiting ⟨waiting, some⟩

theorem stepReceive (kept : Kept r) {available : Bool} (allowed : r.Answerable (.doReceivedReadResponses available))
    (called : r.step (.doReceivedReadResponses available) = some r') : Kept r' := by
  obtain ⟨⟨response, incoming⟩, taken, later⟩ := Option.bind_eq_some_iff.mp called
  obtain ⟨⟨written, io⟩, received, same⟩ := Option.map_eq_some_iff.mp later
  obtain ⟨load, wbq, known, queue, length⟩ := kept.front taken
  unfold doReceivedReadResponses at received
  rw [taken, Option.bind_some] at received
  dsimp only at received same
  rw [queue, Option.bind_some] at received
  dsimp only at received
  split at received
  · cases received
    cases same
    exact kept
  rename_i ready
  rw [not_or, not_and_or, not_not, not_not] at ready
  obtain ⟨available, pending⟩ := ready
  rw [Bool.not_eq_false] at available
  subst available
  split at received
  · cases received
  cases received
  obtain ⟨writtenBack, fits⟩ := allowed response incoming load taken known pending
  obtain ⟨-, awaited⟩ := kept.awaited_front taken writtenBack
  have memory := (kept.held _ load awaited known).2.1
  subst same
  dsimp only
  rw [memory]
  exact kept.answer taken queue ⟨known, writtenBack, fits⟩ length

theorem step {e : IOEvent t} (kept : Kept r) (allowed : r.Answerable e) (called : r.step e = some r') : Kept r' := by
  cases e with
  | load load => exact kept.stepLoad called
  | send device => exact kept.stepSend called
  | doOutgoingRequests accepted => exact kept.stepOutgoing called
  | answer device data => exact kept.stepAnswer called
  | doReceivedReadResponses available => exact kept.stepReceive allowed called
  | writeback => exact kept.stepWriteback called
  | write addr value =>
    unfold IORecord.step at called
    dsimp only at called
    split at called
    · rename_i writable
      cases called
      exact kept.write writable
    · cases called
  | cacheLoad addr memory =>
    unfold IORecord.step at called
    dsimp only at called
    split at called
    · rename_i free
      cases called
      refine kept.cacheLoad (fun targeted => ?_) free.2 rfl
      rcases free.1 with full | none
      · rcases targeted.1 with state | state <;> rw [full] at state <;> cases state
      · exact targeted.2 none
    · cases called
  | cacheFill addr value =>
    unfold IORecord.step at called
    dsimp only at called
    split at called
    · rename_i marked
      cases called
      exact kept.cacheFill marked
    · cases called
  | update => exact kept.stepUpdate called
  | updateOutgoing => exact kept.stepUpdateOutgoing called

/-- An answer whose load waits for it in its register is written in a cycle that is available. -/
theorem writes (kept : Kept r) {response : IOResponse} {incoming : Buffer IOResponse}
    (taken : r.io.incoming.take? = some (response, incoming)) (known : r.loads[response.number]? = some load)
    (writtenBack : r.WrittenBack response.number) (fits : load.Fits t response.data) :
    ∃ r', r.step (.doReceivedReadResponses true) = some r' ∧
      r'.returned = r.returned ++ [⟨response.number, response.device, response.data, load.hitWrites t response.data, load.fid⟩] := by
  obtain ⟨load', wbq, known', queue, -⟩ := kept.front taken
  cases known.symm.trans known'
  obtain ⟨member, awaited⟩ := kept.awaited_front taken writtenBack
  obtain ⟨targeted, memory, -⟩ := kept.held _ load awaited known
  have decoded := kept.decoded load (List.mem_of_getElem? known)
  have counted := kept.pendingReads_pos member known
  have ready : ¬ (true = false ∨ (r.io.regs load.rc).state ≠ .pending ∧ (r.io.regs load.rc).state ≠ .waiting) := by
    rw [not_or, not_and_or, not_not, not_not]
    exact ⟨nofun, targeted.1⟩
  have extends' : ¬ ((pendingValue load).memory.signExtend = true ∧ t.sizeofInteger ≤ (pendingValue load).memory.size ∨
      r.io.numPendingReads (pendingValue load).memory.fid = 0) := by
    rintro (⟨extend, large⟩ | zero)
    · exact Nat.not_le.mpr (fits.2 extend).1 large
    · exact counted zero
  unfold IORecord.step doReceivedReadResponses
  dsimp only
  simp only [taken, queue, Option.bind_some, if_neg ready, memory, if_neg extends', Option.map_some]
  refine ⟨_, rfl, ?_⟩
  rw [fits.hitWrites decoded.1 decoded.2]
  rfl

theorem loadsReturn (kept : Kept r) : LoadsReturn r := by
  refine ⟨kept.once, kept.own, kept.counted, fun response rest taken => ?_, fun response rest load taken known => ?_⟩
  · obtain ⟨load, queue, known, found, -⟩ := kept.front taken
    exact ⟨load, queue, known, found⟩
  · exact kept.writes taken known

end Kept

/-- The loads from devices return in every run in which answers are only written for loads that wait for them in their
registers, and fit there. -/
theorem io_loads_return {numDevices devAddrBits : Nat} {wbSize incomingSize outgoingSize : Option Nat}
    {regs : RegAddr → RegValue t} {events : List (IOEvent t)} {r : IORecord t}
    (run : Run IORecord.step IORecord.Answerable
      (.start numDevices devAddrBits wbSize incomingSize outgoingSize regs) events r) : LoadsReturn r :=
  (run.invariant (Kept.start numDevices devAddrBits wbSize incomingSize outgoingSize regs)
    fun _ _ _ kept allowed called => kept.step allowed called).loadsReturn

section Examples
open IORecord

/-- A signed byte from the first of two devices. -/
def loadByte : Load := ⟨⟨.integer, 4⟩, 4, 0x000, 1, true, 7⟩

/-- A word from the second device. -/
def loadWord : Load := ⟨⟨.integer, 5⟩, 4, 0x104, 4, false, 7⟩

/-- Two devices of a 32-bit core. -/
def twoDevices : IORecord .mips32 := .start 2 8 (some 3) (some 3) (some 3) fun _ => .makeEmpty .mips32

/-- Both loads are issued and written back, and the second device answers first. -/
def twoReads (byte : Byte) : List (IOEvent .mips32) :=
  [.load loadByte, .update, .updateOutgoing, .load loadWord, .doOutgoingRequests true, .writeback, .update, .updateOutgoing,
    .doOutgoingRequests true, .writeback, .updateOutgoing, .answer 1 [1, 2, 3, 4], .update, .answer 0 [byte],
    .doReceivedReadResponses true, .update, .doReceivedReadResponses true, .update]

/-- The guard, as far as it can be computed. -/
def answerable (r : IORecord .mips32) : IOEvent .mips32 → Bool
  | .doReceivedReadResponses _ => r.io.incoming.take?.all fun (response, _) =>
      r.loads[response.number]?.all fun load =>
        r.io.latches.all (fun latch => decide (latch.number = response.number → latch.writebackOffset ≠ 0)) &&
          decide (load.Fits .mips32 response.data)
  | _ => true

theorem io_loads_return_twoReads : ∃ r, execute IORecord.step twoDevices (twoReads 0x7F) = some r ∧ LoadsReturn r := by
  have done : (execute (checked answerable IORecord.step) twoDevices (twoReads 0x7F)).isSome := by
    decide +kernel
  obtain ⟨r, executed⟩ := Option.isSome_iff_exists.mp done
  have enough (r : IORecord .mips32) (e : IOEvent .mips32) (passed : answerable r e = true) : r.Answerable e := by
    cases e with
    | doReceivedReadResponses available =>
      cases available with
      | false => trivial
      | true =>
        intro response rest load taken known _
        unfold answerable at passed
        rw [taken, Option.all_some] at passed
        dsimp only at passed
        rw [known, Option.all_some, Bool.and_eq_true, List.all_eq_true] at passed
        exact ⟨fun latch member => of_decide_eq_true (passed.1 latch member), of_decide_eq_true passed.2⟩
    | load | send | doOutgoingRequests | answer | writeback | write | cacheLoad | cacheFill | update | updateOutgoing => trivial
  have run : Run IORecord.step IORecord.Answerable twoDevices (twoReads 0x7F) r := run_of_checked enough executed
  exact ⟨r, execute_of_run run, io_loads_return run⟩

/-- A negative byte loses its sign. -/
theorem negative_byte_returned : ∃ r, execute IORecord.step twoDevices (twoReads 0x80) = some r ∧
    r.returned.map Returned.writes = [[(⟨.integer, 5⟩, 0x01020304)], [(⟨.integer, 4⟩, 0x00000080)]] ∧
      loadByte.hitWrites .mips32 [0x80] = [(⟨.integer, 4⟩, 0xFFFFFF80)] ∧ ¬ LoadsReturn r := by
  have done : (execute IORecord.step twoDevices (twoReads 0x80)).map (fun r => (r.loads, r.returned)) =
      some ([loadByte, loadWord],
        [⟨1, 1, [1, 2, 3, 4], [(⟨.integer, 5⟩, 0x01020304)], 7⟩, ⟨0, 0, [0x80], [(⟨.integer, 4⟩, 0x00000080)], 7⟩]) := by
    decide +kernel
  obtain ⟨r, executed, seen⟩ := Option.map_eq_some_iff.mp done
  obtain ⟨loads, returned⟩ := Prod.mk.inj seen
  have hit : loadByte.hitWrites .mips32 [0x80] = [(⟨.integer, 4⟩, 0xFFFFFF80)] := by
    decide +kernel
  refine ⟨r, executed, by rw [returned]; rfl, hit, fun returns => ?_⟩
  obtain ⟨load, known, -, writes, -⟩ := returns.own ⟨0, 0, [0x80], [(⟨.integer, 4⟩, 0x00000080)], 7⟩ (by rw [returned]; simp)
  rw [loads] at known
  cases Option.some.inj known
  rw [hit] at writes
  exact absurd writes (by decide)

end Examples

end Mgsim.Drisc
