import Mgsim.Drisc.Waiting
import Mgsim.Lib.PageNumber
import Mgsim.Lib.Checked
import Mgsim.Manager.HandleMiss

namespace Mgsim.Drisc
open Mgsim.Lib Mgsim.Mmu Mgsim.Manager

/-- The tables of the manager's page sizes: 4 KiB, 2 MiB and 1 GiB. -/
structure ManagerTables (tlb : Tlb) : Prop where
  numTables : tlb.numTables = 3
  offsetWidth : ∀ k < 3, (tlb.tables k).offsetWidth = vaddrLso + ptIndexWidth * k

instance (tlb : Tlb) : Decidable (ManagerTables tlb) :=
  decidable_of_iff (tlb.numTables = 3 ∧ ∀ k < 3, (tlb.tables k).offsetWidth = vaddrLso + ptIndexWidth * k)
    ⟨fun ⟨numTables, offsetWidth⟩ => ⟨numTables, offsetWidth⟩, fun ⟨numTables, offsetWidth⟩ => ⟨numTables, offsetWidth⟩⟩

/-- The two words that a message is sent in. -/
def words (msg : MgtMsg) (addr : IoAddr) : List IoMsg := [⟨addr, msg.part1⟩, ⟨addr, msg.part0⟩]

/-- The address that `DoLookupResponses` forms for the load in line `cid`. -/
def Core.loadAddress (s : Core) (ref : LineRef) (cid : Nat) : Option Addr :=
  match s.tlb.getLine ref with
  | .ok (tlbData, _) => some (physicalAddress tlbData (s.cache.lines cid).tlbOffset)
  | .error _ => none

/-- The address that `Write2` forms. -/
def Core.storeAddress (s : Core) (contextId : BitVec 16) (address : Addr) : Option Addr :=
  match s.tlb.lookup s.drisc contextId address false with
  | .ok out => if out.result = .success then some (physicalAddress out.res address) else none
  | .error _ => none

/-- The lookup of a repeated store finds this line. -/
structure Core.Finds (s : Core) (contextId : BitVec 16) (address : Addr) (ref : LineRef) : Prop where
  translated : s.tlb.enabled = true ∧ address.msb = false ∧ s.isMapped address s.cache.lineSize = false
  found : ∃ tlb, s.tlb.doLookup (contextId.setWidth 64) (address >>> (s.tlb.tables 0).offsetWidth) .indexable =
    .ok (tlb, some ref)

/-- The line holds the translation that a refill has left in it. -/
structure Core.Keeps (s : Core) (tlb : Tlb) (ref : LineRef) : Prop where
  tables : ManagerTables s.tlb
  present : (s.tlb.line ref).present = true
  pAddr : (s.tlb.line ref).pAddr = (tlb.line ref).pAddr

section Message
variable {s : Core} {contextId : BitVec 16} {address : Addr} {msg : MgtMsg} {out : Lookup}

theorem sendMgtMsg_eq_ok {tlb : Tlb} {fifo : Buffer IoMsg} (sent : tlb.sendMgtMsg msg = .ok (some fifo)) :
    fifo.pushed = tlb.fifoOut.pushed ++ words msg tlb.mgtAddr := by
  unfold Tlb.sendMgtMsg at sent
  split at sent
  · cases sent
  · rename_i first pushed
    split at sent
    · cases sent
    · rename_i second pushed'
      cases sent
      rw [Buffer.pushed_push pushed', Buffer.pushed_push pushed, List.append_assoc]
      rfl

theorem missMsg_fields (contextId : BitVec 16) (tlb : Tlb) (vAddr : Addr) (i : Nat) :
    (tlb.missMsg (contextId.setWidth 64) vAddr i).part1 = vAddr ∧
      (tlb.missMsg (contextId.setWidth 64) vAddr i).get .missContextId = contextId ∧
      (tlb.missMsg (contextId.setWidth 64) vAddr i).get .tlbType = TlbType.dtlb.value := by
  refine ⟨by simp [Tlb.missMsg], ?_, ?_⟩
  · simp only [Tlb.missMsg]
    rw [MgtMsg.get_put_of_disjoint _ _ _ _ (by decide), MgtMsg.get_put_of_disjoint _ _ _ _ (by decide),
      MgtMsg.get_put_of_disjoint _ _ _ _ (by decide), MgtMsg.get_put_self]
    exact BitVec.setWidth_setWidth_of_le _ (by decide)
  · simp only [Tlb.missMsg]
    rw [MgtMsg.get_put_of_disjoint _ _ _ _ (by decide), MgtMsg.get_put_self]

/-- The message of a miss asks for the index of its address. -/
theorem missIndex_of_sent (tables : ManagerTables s.tlb)
    (missed : s.tlb.lookup s.drisc contextId address false = .ok out)
    (sent : out.committed.fifoOut.pushed = s.tlb.fifoOut.pushed ++ words msg s.tlb.mgtAddr) :
    missIndex msg = calculatePtIndex (contextId.setWidth 64) address := by
  have nothing : ∀ fifo : Buffer IoMsg, fifo = s.tlb.fifoOut →
      fifo.pushed ≠ s.tlb.fifoOut.pushed ++ words msg s.tlb.mgtAddr := by
    rintro _ rfl same
    have length := congrArg List.length same
    simp [words] at length
  rcases Tlb.lookup_eq_ok missed with rfl | ⟨_, page⟩
  · exact absurd sent (nothing _ rfl)
  cases Tlb.lookupPage_eq_ok page with
  | waiting touched _ _ => exact absurd sent (nothing _ touched.fifoOut)
  | hit touched _ _ =>
    simp only [Bool.and_false, Bool.false_eq_true, if_false] at sent
    exact absurd sent (nothing _ touched.fifoOut)
  | stalled touched _ => exact absurd sent (nothing _ touched.fifoOut)
  | @missed found i fifo touched _ _ _ message =>
    have pushed := sendMgtMsg_eq_ok message
    rw [touched.fifoOut, touched.mgtAddr] at pushed
    have same := List.append_cancel_left (pushed.symm.trans sent)
    simp only [words, List.cons.injEq, IoMsg.mk.injEq, true_and, and_true] at same
    have whole : msg = found.missMsg (contextId.setWidth 64) (address >>> (s.tlb.tables 0).offsetWidth) i :=
      MgtMsg.ext same.2.symm same.1.symm
    obtain ⟨word, context, _⟩ := missMsg_fields contextId found (address >>> (s.tlb.tables 0).offsetWidth) i
    rw [whole, missIndex, word, context, tables.offsetWidth 0 (by decide)]
    rfl

end Message

section Refill
variable {m : Mapping} {msg refill : MgtMsg} {response : Tlb.Completion} {tlb tlb' : Tlb} {ref : LineRef}

/-- The refill of a page goes to the table of its size, with the number of a 4 KiB frame. -/
theorem stored_of_refill (tables : ManagerTables tlb) (small : (m.pageSize : Nat) ≤ 2)
    (isRefill : IsRefill m msg refill) (stored : tlb.Stored refill (response, tlb')) :
    ∃ ref, response.tlbLineRef = some ref ∧ ref.table = m.pageSize ∧ (tlb'.line ref).pAddr = refill.part1 := by
  have tableId : tlb.numTables - 1 - (refill.get .table).toNat = m.pageSize := by
    rw [tables.numTables, isRefill.table]
    omega
  cases stored with
  | notPresent absent _ _ =>
    rw [isRefill.present] at absent
    exact absurd absent (by decide)
  | filled _ first _ _ =>
    exact ⟨_, rfl, first.symm.trans tableId, by rw [Tlb.line_setLine_self]⟩
  | @moved _ _ table i _ atTable other _ _ _ _ _ _ =>
    refine ⟨⟨table, i⟩, rfl, atTable.trans tableId, ?_⟩
    rw [Tlb.line_setLine_ne, Tlb.line_setLine_self]
    intro same
    exact other (congrArg LineRef.table same)

/-- The address that the data cache forms has the number of the 4 KiB frame in
front of the offset in the page. -/
theorem physicalAddress_eq_joinPage {tlbData : TlbResultMessage} {used : Addr} (pAddr : tlbData.pAddr = refill.part1)
    (width : tlbData.tlbOffsetWidth = vaddrLso + ptIndexWidth * (m.pageSize : Nat)) :
    physicalAddress tlbData used = joinPage refill.part1 (vaddrLso + ptIndexWidth * (m.pageSize : Nat)) used := by
  rw [physicalAddress, pAddr, width]
  rfl

theorem offset_bound (small : (m.pageSize : Nat) ≤ 2) : vaddrLso + ptIndexWidth * (m.pageSize : Nat) < 64 := by
  rw [vaddrLso, ptIndexWidth]
  omega

theorem sections_eq_zero : ptIndexWidth * (m.pageSize : Nat) = 0 ↔ (m.pageSize : Nat) = 0 := by
  rw [ptIndexWidth]
  omega

theorem toNat_mapping_offset (small : (m.pageSize : Nat) ≤ 2) (address : Addr) :
    (m.offset address).toNat = address.toNat % 2 ^ (vaddrLso + ptIndexWidth * (m.pageSize : Nat)) :=
  toNat_offset (offset_bound small) address

theorem parkedOffset_eq (tables : ManagerTables tlb) (address : Addr) :
    Core.parkedOffset tlb address = if address = 0 then 0 else 1 := by
  have mask : ~~~(BitVec.allOnes 64 <<< (vaddrLso + ptIndexWidth * 2)) ≠ (0 : Addr) := by decide
  rw [Core.parkedOffset, tables.numTables, tables.offsetWidth 2 (by decide)]
  by_cases zero : address = 0
  · rw [if_neg (fun both => both.1 zero), if_pos zero]
  · rw [if_pos ⟨zero, mask⟩, if_neg zero]

end Refill

section Access
variable {s : Core} {contextId : BitVec 16} {address : Addr} {ref : LineRef} {tlb : Tlb}

theorem Core.Keeps.loadAddress (keeps : s.Keeps tlb ref) (small : ref.table ≤ 2)
    (locked : (s.tlb.line ref).locked = true) (cid : Nat) :
    ∃ tlbData, tlbData.pAddr = (tlb.line ref).pAddr ∧
      tlbData.tlbOffsetWidth = vaddrLso + ptIndexWidth * ref.table ∧
      s.loadAddress ref cid = some (physicalAddress tlbData (s.cache.lines cid).tlbOffset) := by
  refine ⟨⟨false, (s.tlb.line ref).read, (s.tlb.line ref).write, (s.tlb.line ref).pAddr,
    (s.tlb.tables ref.table).offsetWidth⟩, keeps.pAddr, keeps.tables.offsetWidth _ (by omega), ?_⟩
  simp only [Core.loadAddress, Tlb.getLine, locked, keeps.present, Bool.and_self, if_true]

theorem Core.Keeps.storeAddress (keeps : s.Keeps tlb ref) (small : ref.table ≤ 2)
    (finds : s.Finds contextId address ref) :
    ∃ tlbData, tlbData.pAddr = (tlb.line ref).pAddr ∧
      tlbData.tlbOffsetWidth = vaddrLso + ptIndexWidth * ref.table ∧
      s.storeAddress contextId address = some (physicalAddress tlbData address) := by
  obtain ⟨⟨enabled, noTls, unmapped⟩, after, found⟩ := finds
  obtain ⟨touched, _, _⟩ := Tlb.doLookup_eq_ok found
  obtain ⟨a, same⟩ := (touched.tables ref.table).lines ref.line
  have line : after.line ref = { s.tlb.line ref with accessed := a } := same
  have present : (after.line ref).present = true := by rw [line, keeps.present]
  refine ⟨⟨false, (after.line ref).read, (after.line ref).write, (after.line ref).pAddr,
    (after.tables ref.table).offsetWidth⟩, ?_, ?_, ?_⟩
  · rw [line]
    exact keeps.pAddr
  · rw [(touched.tables _).offsetWidth]
    exact keeps.tables.offsetWidth _ (by omega)
  · simp only [Core.storeAddress, Tlb.lookup, enabled, noTls, Core.drisc, unmapped, Tlb.lookupPage, found, present,
      bind, Except.bind, pure, Except.pure]
    simp

theorem ManagerTables.of_eq {tlb tlb' : Tlb} (tables : ManagerTables tlb) (numTables : tlb'.numTables = tlb.numTables)
    (same : ∀ k, (tlb'.tables k).offsetWidth = (tlb.tables k).offsetWidth) : ManagerTables tlb' where
  numTables := numTables.trans tables.numTables
  offsetWidth k inside := (same k).trans (tables.offsetWidth k inside)

theorem ManagerTables.lookup {tlb : Tlb} (tables : ManagerTables tlb) {drisc : Mmu.Drisc} {out : Lookup}
    (done : tlb.lookup drisc contextId address false = .ok out) : ManagerTables out.committed := by
  rcases Tlb.lookup_eq_ok done with rfl | ⟨_, page⟩
  · exact tables.of_eq rfl fun _ => rfl
  cases Tlb.lookupPage_eq_ok page with
  | waiting touched _ _ => exact tables.of_eq touched.numTables fun k => (touched.tables k).offsetWidth
  | hit touched _ _ =>
    simp only [Bool.and_false, Bool.false_eq_true, if_false]
    exact tables.of_eq touched.numTables fun k => (touched.tables k).offsetWidth
  | stalled touched _ => exact tables.of_eq touched.numTables fun k => (touched.tables k).offsetWidth
  | missed touched _ _ _ _ =>
    exact tables.of_eq touched.numTables fun k => (Tlb.setLine_shape k).2.trans (touched.tables k).offsetWidth

/-- A load that has missed leaves zero or one as its offset in the line that it takes. -/
theorem Core.read2_parks (tables : ManagerTables s.tlb) {out : Lookup}
    (missed : s.tlb.lookup s.drisc contextId address false = .ok out) (delayed : out.result = .delayed)
    {size : Nat} {reg : Option RegAddr} {parked : ReadOutcome}
    (done : s.read2 contextId address size reg = .ok parked) (waits : parked.result = .delayed) {cid : Nat}
    (empty : s.cache.getEmptyLine (s.cache.splitAddress address).2.1 = some cid) :
    (parked.core.cache.lines cid).tlbOffset = if address = 0 then 0 else 1 := by
  simp only [read2, bind, Except.bind, pure, Except.pure, throw, throwThe, MonadExceptOf.throw, missed, delayed,
    empty] at done
  split at done
  · cases done
  split at done
  · cases done
  · rename_i tlb stored
    cases done
    obtain ⟨ref, _, _, rfl⟩ := Tlb.setDCacheReference_eq_ok stored
    have after : ManagerTables (out.committed.setLine ref { out.committed.line ref with dLineRef := BitVec.ofNat 32 cid }) :=
      (tables.lookup missed).of_eq rfl fun k => (Tlb.setLine_shape k).2
    have kept : ∀ line : CacheLine, (pushRegister line reg).1.tlbOffset = line.tlbOffset := by
      intro line
      unfold pushRegister
      split <;> rfl
    simp only [setCacheLine, DCache.setLine, Function.update_self, kept]
    exact parkedOffset_eq after address

end Access

/-- From the miss of an access over the walk and the refill to the address that
the data cache forms. It is the one of the mapping for the pages of 4 KiB and
for page number zero only, and for a load only at the offset that its cache line keeps. -/
theorem physical_address_of_miss {mem : Mem} {pt0 : Frame} {m : Mapping} {s : Core} {contextId : BitVec 16}
    {address : Addr} {out : Lookup} {msg refill : MgtMsg} {waiting tlb : Tlb} {response : Tlb.Completion}
    (tables : ManagerTables s.tlb) (small : (m.pageSize : Nat) ≤ 2)
    (maps : lookup mem pt0 (calculatePtIndex (contextId.setWidth 64) address) = m.answer)
    (missed : s.tlb.lookup s.drisc contextId address false = .ok out) (delayed : out.result = .delayed)
    (sent : out.committed.fifoOut.pushed = s.tlb.fifoOut.pushed ++ words msg s.tlb.mgtAddr)
    (handled : handleMiss mem pt0 msg = .ok refill) (tables' : ManagerTables waiting)
    (stored : waiting.onStoreMsg refill = .ok (some (response, tlb))) :
    ∃ ref, response.tlbLineRef = some ref ∧ ∀ later : Core, later.Keeps tlb ref →
      (∀ size reg parked cid, s.read2 contextId address size reg = .ok parked → parked.result = .delayed →
        s.cache.getEmptyLine (s.cache.splitAddress address).2.1 = some cid →
        (later.cache.lines cid).tlbOffset = (parked.core.cache.lines cid).tlbOffset →
        (later.tlb.line ref).locked = true → m.Aligned →
        (later.loadAddress ref cid = some (m.dst + m.offset address) ↔
          ((m.pageSize : Nat) = 0 ∨ m.dst = 0) ∧ m.offset address = if address = 0 then 0 else 1)) ∧
      (later.Finds contextId address ref →
        (later.storeAddress contextId address = some (m.dst + m.offset address) ↔
          (m.pageSize : Nat) = 0 ∨ m.dst = 0)) := by
  have index := missIndex_of_sent tables missed sent
  have isRefill := handleMiss_of_mapped small (by rw [index]; exact maps) handled
  obtain ⟨ref, atRef, table, pAddr⟩ := stored_of_refill tables' small isRefill (Tlb.onStoreMsg_eq_ok stored)
  refine ⟨ref, atRef, fun later keeps => ⟨?_, ?_⟩⟩
  · intro size reg parked cid done waits empty same locked aligned
    obtain ⟨tlbData, number, width, formed⟩ := keeps.loadAddress (by omega) locked cid
    have used := Core.read2_parks tables missed delayed done waits empty
    rw [table] at width
    have low : (m.offset address).toNat < 2 ^ (vaddrLso + ptIndexWidth * (m.pageSize : Nat)) := by
      rw [toNat_mapping_offset small]
      exact Nat.mod_lt _ (Nat.two_pow_pos _)
    have one : 1 < 2 ^ (vaddrLso + ptIndexWidth * (m.pageSize : Nat)) := Nat.one_lt_two_pow (by simp [vaddrLso])
    have kept : (if address = 0 then (0 : Addr) else 1).toNat % 2 ^ (vaddrLso + ptIndexWidth * (m.pageSize : Nat)) =
        (if address = 0 then (0 : Addr) else 1).toNat := by
      refine Nat.mod_eq_of_lt ?_
      split
      · exact lt_trans Nat.zero_lt_one one
      · exact one
    rw [formed, same, used, Option.some_inj, physicalAddress_eq_joinPage (number.trans pAddr) width,
      joinPage_eq_iff (offset_bound small) isRefill.address isRefill.whole aligned low, sections_eq_zero, kept]
    exact and_congr_right fun _ => BitVec.toNat_inj.trans eq_comm
  · intro finds
    obtain ⟨tlbData, number, width, formed⟩ := keeps.storeAddress (by omega) finds
    rw [table] at width
    rw [formed, Option.some_inj, physicalAddress_eq_joinPage (number.trans pAddr) width,
      joinPage_eq_iff_of_offset (offset_bound small) isRefill.address isRefill.whole
        (toNat_mapping_offset small address).symm, sections_eq_zero]

section LostOffset

scoped instance neZero_pageSizes : NeZero 6 := ⟨by decide⟩

/-- A small and a large page that are mapped far from their virtual addresses. -/
def smallCall : Call := ⟨calculatePtIndex 0 0x200000000, 0x300000, 0, 1, 1, 0⟩

def mediumCall : Call := ⟨calculatePtIndex 0 0x240000000, 0x400000, 1, 1, 1, 0⟩

/-- The page table of the manager after both calls. -/
def twoPages : PtSet :=
  (mediumCall.run (smallCall.run (Session.init emptyMem 256 0 0).set 256).2 256).2

/-- The processor of `config.ini` with its TLB enabled. -/
def enabledCore : Except Fault Core :=
  defaultCore.map fun core => { core with tlb := { core.tlb with enabled := true } }

/-- The message that a TLB has pushed in this cycle, if it is the only one. -/
def sentMsg (tlb : Tlb) : Option MgtMsg :=
  match tlb.fifoOut.pushed with
  | [first, second] => some ⟨second.payload, first.payload⟩
  | _ => none

/-- The refill that the manager sends for the miss of the TLB, stored in the TLB. -/
def refilled (tlb : Tlb) : Option (Tlb.Completion × Tlb) := do
  let msg ← sentMsg tlb
  let refill ← (handleMiss twoPages.mem 256 msg).toOption
  (← (tlb.onStoreMsg refill).toOption)

/-- The address that the data cache forms for a load through a miss. -/
def loadThroughMiss (address : Addr) : Option Addr := do
  let core ← enabledCore.toOption
  let parked ← (core.read2 0 address 8 none).toOption
  let (response, tlb) ← refilled parked.core.tlb
  let ref ← response.tlbLineRef
  { parked.core with tlb := tlb }.loadAddress ref response.cid.toNat

/-- The address that the data cache forms for a store through a miss. -/
def storeThroughMiss (address : Addr) : Option Addr := do
  let core ← enabledCore.toOption
  let (_, parked) ← (core.write2 0 address [1] 0).toOption
  let (_, tlb) ← refilled parked.tlb
  { parked with tlb := tlb }.storeAddress 0 address

/-- What the statement about a store asks of one way through the manager. -/
def storeCheck (address : Addr) (s : Core) (out : Lookup) (msg : MgtMsg) (tlb : Tlb) (ref : LineRef) : Bool :=
  ManagerTables s.tlb && ManagerTables out.committed && ManagerTables tlb && out.result = .delayed &&
    out.committed.fifoOut.pushed = s.tlb.fifoOut.pushed ++ words msg s.tlb.mgtAddr && (tlb.line ref).present &&
    decide (tlb.enabled = true ∧ address.msb = false ∧ s.isMapped address s.cache.lineSize = false) &&
    ((tlb.doLookup 0 (address >>> (tlb.tables 0).offsetWidth) .indexable).toOption.map Prod.snd = some (some ref))

theorem physical_address_of_miss_store :
    ∃ (s : Core) (tlb : Tlb) (ref : LineRef), enabledCore = .ok s ∧ (tlb.line ref).present = true ∧
      { s with tlb := tlb }.storeAddress 0 0x200000008 = some 0x300008 := by
  have whole : (enabledCore.toOption.bind fun s => (s.tlb.lookup s.drisc 0 0x200000008 false).toOption.bind fun out =>
      (sentMsg out.committed).bind fun msg => (handleMiss twoPages.mem 256 msg).toOption.bind fun refill =>
        (out.committed.onStoreMsg refill).toOption.bind fun stored => stored.bind fun completed =>
          completed.1.tlbLineRef.map fun ref => storeCheck 0x200000008 s out msg completed.2 ref) = some true := by
    decide +kernel
  obtain ⟨s, started, whole⟩ := Option.bind_eq_some_iff.mp whole
  obtain ⟨out, missed, whole⟩ := Option.bind_eq_some_iff.mp whole
  obtain ⟨msg, _, whole⟩ := Option.bind_eq_some_iff.mp whole
  obtain ⟨refill, handled, whole⟩ := Option.bind_eq_some_iff.mp whole
  obtain ⟨stored, done, whole⟩ := Option.bind_eq_some_iff.mp whole
  obtain ⟨⟨response, tlb⟩, rfl, whole⟩ := Option.bind_eq_some_iff.mp whole
  obtain ⟨ref, atRef, checked⟩ := Option.map_eq_some_iff.mp whole
  simp only [storeCheck, Bool.and_eq_true, decide_eq_true_eq] at checked
  obtain ⟨⟨⟨⟨⟨⟨⟨tables, tables'⟩, tables''⟩, delayed⟩, sent⟩, present⟩, translated⟩, found⟩ := checked
  obtain ⟨⟨after, line⟩, search, rfl⟩ := Option.map_eq_some_iff.mp found
  obtain ⟨ref', atRef', formed⟩ := @physical_address_of_miss twoPages.mem 256 smallCall.mapping s 0 _ out msg refill _ _
    _ tables (by decide) (by decide +kernel) (toOption_eq_some missed) delayed sent
    (toOption_eq_some handled) tables' (toOption_eq_some done)
  cases Option.some.inj (atRef.symm.trans atRef')
  have stores := (formed { s with tlb := tlb } ⟨tables'', present, rfl⟩).2 ⟨translated, after, toOption_eq_some search⟩
  exact ⟨s, tlb, ref, toOption_eq_some started, present, stores.mpr (Or.inl (by decide))⟩

/-- A load from the small page loses its offset, and a store to the large page goes
to the 4 KiB frame number in place of the number of the large page. -/
theorem lost_offset_and_unit :
    (smallCall.mapping.dst + smallCall.mapping.offset 0x200000008 = 0x300008 ∧
      loadThroughMiss 0x200000008 = some 0x300001) ∧
    (mediumCall.mapping.dst + mediumCall.mapping.offset 0x240012340 = 0x412340 ∧
      storeThroughMiss 0x240012340 = some 0x80012340) := by
  decide +kernel

end LostOffset

end Mgsim.Drisc
