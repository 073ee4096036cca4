import Mgsim.Drisc.LineEffect
import Mgsim.Drisc.Translation

namespace Mgsim.Drisc
open Mgsim.Lib Mgsim.Mmu Mgsim.Manager

/-- The physical line of an address: its number, its set and its tag. -/
def DCache.place (c : DCache) (pAddr : Addr) : Addr × Nat × Addr := (c.lineNumber pAddr, (c.splitAddress pAddr).2)

/-- The physical line that `DoLookupResponses` works out for the load in line `cid`. -/
def Core.missPlace (s : Core) (ref : LineRef) (cid : Nat) : Option (Addr × Nat × Addr) :=
  (s.loadAddress ref cid).map s.cache.place

/-- The physical line that `Read2` works out where the TLB has the translation. -/
def Core.hitPlace (s : Core) (contextId : BitVec 16) (address : Addr) : Option (Addr × Nat × Addr) :=
  match s.tlb.lookup s.drisc contextId address false with
  | .ok out => if out.result = .success then some (s.cache.place (physicalAddress out.res address)) else none
  | .error _ => none

section Place

/-- Two offsets behind an aligned number lie in one line, where the first one is in its first line. -/
theorem div_line_eq_iff {page width k x y : Nat} (aligned : 2 ^ width ∣ page) (lines : 1 < 2 ^ k) (first : x ≤ 1)
    (low : x < 2 ^ width) (low' : y < 2 ^ width) : (page + x) / 2 ^ k = (page + y) / 2 ^ k ↔ y < 2 ^ k := by
  rcases Nat.le_total k width with small | large
  · have divides : 2 ^ k ∣ page := (Nat.pow_dvd_pow 2 small).trans aligned
    rw [Nat.add_div_of_dvd_right divides, Nat.add_div_of_dvd_right divides, Nat.div_eq_of_lt (by omega : x < 2 ^ k),
      Nat.add_left_cancel_iff, eq_comm, Nat.div_eq_zero_iff_lt (Nat.two_pow_pos k)]
  · obtain ⟨q, rfl⟩ := aligned
    have split : 2 ^ k = 2 ^ width * 2 ^ (k - width) := by rw [← Nat.pow_add, Nat.add_sub_cancel' large]
    have number : ∀ z < 2 ^ width, (2 ^ width * q + z) / 2 ^ k = q / 2 ^ (k - width) := by
      intro z below
      rw [split, ← Nat.div_div_eq_div_mul, Nat.mul_add_div (Nat.two_pow_pos width), Nat.div_eq_of_lt below, Nat.add_zero]
    rw [number x low, number y low']
    exact iff_of_true rfl (lt_of_lt_of_le low' (Nat.pow_le_pow_right (by decide) large))

/-- The addresses that are formed with one page. -/
theorem toNat_physicalAddress (tlbData : TlbResultMessage) : ∃ page, 2 ^ tlbData.tlbOffsetWidth ∣ page ∧
    ∀ address, (physicalAddress tlbData address).toNat = page + address.toNat % 2 ^ tlbData.tlbOffsetWidth := by
  by_cases inside : tlbData.tlbOffsetWidth < 64
  · refine ⟨tlbData.pAddr.toNat * 2 ^ tlbData.tlbOffsetWidth % 2 ^ 64, ?_, fun address => toNat_joinPage inside _ _⟩
    exact (Nat.dvd_mod_iff (Nat.pow_dvd_pow 2 inside.le)).mpr (Nat.dvd_mul_left _ _)
  · refine ⟨0, Nat.dvd_zero _, fun address => ?_⟩
    have bound := address.isLt
    have power : 2 ^ 64 ≤ 2 ^ tlbData.tlbOffsetWidth := Nat.pow_le_pow_right (by decide) (by omega)
    have page : tlbData.pAddr <<< tlbData.tlbOffsetWidth = 0 := BitVec.shiftLeft_eq_zero (by omega)
    have one : (1 : Addr) <<< tlbData.tlbOffsetWidth = 0 := BitVec.shiftLeft_eq_zero (by omega)
    rw [Nat.zero_add, Nat.mod_eq_of_lt (by omega), physicalAddress, page, one]
    rw [show (0 : Addr) - 1 = BitVec.allOnes 64 by decide, BitVec.allOnes_and, show (0 : Addr) = 0#64 from rfl,
      BitVec.zero_or]

variable {c : DCache} {tlbData : TlbResultMessage} {x y : Addr}

/-- The lines of two addresses on one page, of which the first is at offset zero or one. -/
theorem place_eq_iff (power : ∃ k, c.lineSize = 2 ^ k) (several : 1 < c.lineSize) (bound : c.lineSize < 2 ^ 64)
    (first : x.toNat ≤ 1) : c.place (physicalAddress tlbData x) = c.place (physicalAddress tlbData y) ↔
      y.toNat % 2 ^ tlbData.tlbOffsetWidth < c.lineSize := by
  obtain ⟨k, size⟩ := power
  obtain ⟨page, aligned, formed⟩ := toNat_physicalAddress tlbData
  have number : ∀ address, (c.lineNumber (physicalAddress tlbData address)).toNat =
      (page + address.toNat % 2 ^ tlbData.tlbOffsetWidth) / 2 ^ k := by
    intro address
    rw [DCache.lineNumber, BitVec.toNat_udiv, formed, BitVec.toNat_ofNat, Nat.mod_eq_of_lt bound, size]
  have lines := div_line_eq_iff aligned (size ▸ several) ((Nat.mod_le _ _).trans first)
    (Nat.mod_lt x.toNat (Nat.two_pow_pos _)) (Nat.mod_lt y.toNat (Nat.two_pow_pos _))
  rw [← number, ← number, BitVec.toNat_inj, ← size] at lines
  rw [← lines]
  constructor
  · exact congrArg Prod.fst
  · intro same
    have split : ∀ pAddr, c.place pAddr = (c.lineNumber pAddr, (c.selector.map (c.lineNumber pAddr)).2,
        (c.selector.map (c.lineNumber pAddr)).1) := fun _ => rfl
    rw [split, split, same]

end Place

/-- The offsets that the lines keep for loads whose page is pending. -/
def DCache.offsets (c : DCache) (cid : Nat) : Addr := (c.lines cid).tlbOffset

namespace DCache
variable {c c' : DCache} {cid : Nat}

theorem offsets_setLine {line : CacheLine} (same : line.tlbOffset = c.offsets cid) :
    (c.setLine cid line).offsets = c.offsets := by
  funext other
  by_cases here : other = cid
  · subst here
    simp only [offsets, setLine, Function.update_self, same]
  · simp only [offsets, setLine, Function.update_of_ne here]

theorem tlbOffset_pushRegister (line : CacheLine) (reg : Option RegAddr) :
    (pushRegister line reg).1.tlbOffset = line.tlbOffset := by
  unfold pushRegister
  split <;> rfl

theorem initiateWriteback_offsets (done : c.initiateWriteback cid = some c') : c'.offsets = c.offsets := by
  have signalled : (c.setLine cid { c.lines cid with create := false }).offsets = c.offsets := offsets_setLine rfl
  simp only [initiateWriteback] at done
  split at done
  · cases done
    exact signalled
  · obtain ⟨writebacks, _, rfl⟩ := Option.map_eq_some_iff.mp done
    exact signalled

theorem doReadResponses_offsets {result : Result} (done : c.doReadResponses = .ok (result, c')) :
    c'.offsets = c.offsets := by
  simp only [doReadResponses] at done
  split at done
  · cases done
  rename_i cid readResponses taken
  split at done
  · cases done
  split at done
  · cases done
    rfl
  · rename_i between pushed
    cases done
    refine Eq.trans ?_ (initiateWriteback_offsets pushed)
    exact @offsets_setLine between cid.toNat _ rfl

theorem onMemoryReadCompleted_offsets (c : DCache) (addr : Addr) (data : Nat → Byte) :
    (c.onMemoryReadCompleted addr data).2.offsets = c.offsets := by
  simp only [onMemoryReadCompleted]
  split
  · rfl
  split
  · rfl
  split
  · rfl
  · exact offsets_setLine rfl

theorem onMemorySnooped_offsets (c : DCache) (addr : Addr) (data : Nat → Byte) (mask : Nat → Bool) :
    (c.onMemorySnooped addr data mask).offsets = c.offsets := by
  simp only [onMemorySnooped]
  split
  · rfl
  · exact offsets_setLine rfl

theorem onMemoryInvalidated_offsets (c : DCache) (addr : Addr) : (c.onMemoryInvalidated addr).offsets = c.offsets := by
  simp only [onMemoryInvalidated]
  split
  · rfl
  split
  · exact offsets_setLine rfl
  · exact offsets_setLine rfl
  · rfl

end DCache

namespace Core
variable {s s' : Core}

theorem readTranslated_offsets {tlbData : TlbResultMessage} {address : Addr} {size : Nat} {reg : Option RegAddr}
    {out : ReadOutcome} (done : s.readTranslated tlbData address size reg = .ok out) :
    out.core.cache.offsets = s.cache.offsets := by
  simp only [readTranslated] at done
  split at done
  · cases done
  split at done
  · split at done
    · cases done
      exact DCache.offsets_setLine rfl
    · cases done
      exact DCache.offsets_setLine (DCache.tlbOffset_pushRegister _ _)
  · split at done
    · cases done
      rfl
    · split at done
      · cases done
        rfl
      · rename_i cache pushed
        cases done
        obtain ⟨outgoing, _, rfl⟩ := DCache.initiateRead_eq_some pushed
        exact DCache.offsets_setLine (DCache.tlbOffset_pushRegister _ _)

/-- A load is parked, and leaves its offset, or the offsets stay. -/
theorem read2_offsets {contextId : BitVec 16} {address : Addr} {size : Nat} {reg : Option RegAddr} {out : ReadOutcome}
    (done : s.read2 contextId address size reg = .ok out) :
    ((∀ cid other, s.readUse contextId address size reg ≠ .park cid reg other) ∧
        out.core.cache.offsets = s.cache.offsets) ∨
      ∃ cid tlb, s.readUse contextId address size reg = .park cid reg address ∧
        out.core.cache.offsets = Function.update s.cache.offsets cid (parkedOffset tlb address) := by
  obtain ⟨looked, lookup, branch⟩ := read2_branch done
  cases branch with
  | translated success read =>
    refine Or.inl ⟨fun cid other => ?_, @readTranslated_offsets { s with tlb := looked.committed } _ _ _ _ _ read⟩
    simp only [readUse, lookup, success, DCache.readUse]
    split
    · split <;> simp
    · cases s.cache.takes (physicalAddress looked.res address) <;> simp
  | @parked cid tlb line delayed empty stored made =>
    refine Or.inr ⟨cid, tlb, by simp only [readUse, lookup, delayed, empty, Option.map_some, Option.getD_some], ?_⟩
    funext other
    by_cases here : other = cid
    · subst here
      simp only [DCache.offsets, setCacheLine, DCache.setLine, Function.update_self, DCache.tlbOffset_pushRegister, made]
    · simp only [DCache.offsets, setCacheLine, DCache.setLine, Function.update_of_ne here]
  | occupied delayed empty =>
    refine Or.inl ⟨fun cid other => ?_, rfl⟩
    simp only [readUse, lookup, delayed, empty, Option.map_none, Option.getD_none]
    simp
  | failed failed =>
    refine Or.inl ⟨fun cid other => ?_, rfl⟩
    simp only [readUse, lookup, failed]
    simp

theorem writeTranslated_offsets {tlbData : TlbResultMessage} {address : Addr} {data : List Byte} {tid : Nat}
    {out : ExtendedResult × Core} (done : s.writeTranslated tlbData address data tid = .ok out) :
    out.2.cache.offsets = s.cache.offsets := by
  simp only [writeTranslated] at done
  split at done
  · cases done
  split at done
  · cases done
    split
    · rfl
    · rename_i pushed
      obtain ⟨outgoing, _, rfl⟩ := DCache.initiateWrite_eq_some pushed
      rfl
  · split at done
    · cases done
      rfl
    · cases done
      split
      · rfl
      · rename_i pushed
        obtain ⟨outgoing, _, rfl⟩ := DCache.initiateWrite_eq_some pushed
        exact DCache.offsets_setLine rfl

theorem write2_offsets {contextId : BitVec 16} {address : Addr} {data : List Byte} {tid : Nat}
    {out : ExtendedResult × Core} (done : s.write2 contextId address data tid = .ok out) :
    out.2.cache.offsets = s.cache.offsets := by
  obtain ⟨looked, lookup, branch⟩ := write2_branch done
  cases branch with
  | translated success write => exact @writeTranslated_offsets { s with tlb := looked.committed } _ _ _ _ _ write
  | parked delayed stored => rfl
  | failed failed => rfl

theorem completeLoad_offsets {tlbData : TlbResultMessage} {cid : Nat} (done : s.completeLoad tlbData cid = .ok (some s')) :
    s'.cache.offsets = s.cache.offsets := by
  simp only [completeLoad, bind, Except.bind, pure, Except.pure, throw, throwThe, MonadExceptOf.throw] at done
  split at done
  · cases done
  split at done
  · cases done
  split at done
  · rename_i other found
    have given : (s.cache.give cid other).offsets = s.cache.offsets := by
      have pushed : (s.cache.setLine other (pushRegister (s.cache.lines other) (s.cache.lines cid).waiting).1).offsets =
          s.cache.offsets := DCache.offsets_setLine (DCache.tlbOffset_pushRegister _ _)
      refine Eq.trans (DCache.offsets_setLine ?_) pushed
      rw [pushed]
      rfl
    split at done
    · split at done
      · rename_i written
        cases done
        exact (DCache.initiateWriteback_offsets written).trans given
      · split at done
        · cases done
        · cases done
    · cases done
      exact given
  · obtain ⟨c', asked, same⟩ := Option.map_eq_some_iff.mp (Except.ok.inj done)
    cases same
    obtain ⟨outgoing, _, rfl⟩ := DCache.initiateRead_eq_some asked
    exact DCache.offsets_setLine rfl

theorem doLookupResponses_offsets {result : Result} (done : s.doLookupResponses = .ok (result, s')) :
    s'.cache.offsets = s.cache.offsets := by
  simp only [doLookupResponses, bind, Except.bind, pure, Except.pure, throw, throwThe, MonadExceptOf.throw] at done
  split at done
  · cases done
  split at done
  · cases done
  split at done
  · cases done
    rfl
  split at done
  · cases done
  split at done
  · cases done
  rename_i got _
  obtain ⟨tlbData, tlb⟩ := got
  split at done
  · cases done
  rename_i complete
  split at done
  · cases done
    rfl
  · rename_i after
    cases done
    exact @completeLoad_offsets { s with tlb := tlb } after _ _ complete

theorem onStoreMsg_offsets {msg : MgtMsg} {result : Result} (done : s.onStoreMsg msg = .ok (result, s')) :
    s'.cache.offsets = s.cache.offsets := by
  simp only [onStoreMsg, bind, Except.bind, pure, Except.pure] at done
  split at done
  · cases done
  split at done
  · cases done
    rfl
  · cases done
    simp only [DCache.onTlbLookupCompleted]
    split <;> rfl

end Core

namespace System
variable {s s' : System}

theorem step_read_offsets {contextId : BitVec 16} {address : Addr} {size : Nat} {reg : Option RegAddr}
    (taken : s.step (.read contextId address size reg) = some s') :
    ((∀ cid other, s.use (.read contextId address size reg) ≠ .park cid reg other) ∧
        s'.core.cache.offsets = s.core.cache.offsets) ∨
      ∃ cid tlb, s.use (.read contextId address size reg) = .park cid reg address ∧
        s'.core.cache.offsets = Function.update s.core.cache.offsets cid (Core.parkedOffset tlb address) := by
  simp only [System.step] at taken
  split at taken
  · cases taken
  rename_i out done
  have offsets := Core.read2_offsets done
  split at taken
  · cases taken
    exact offsets
  · cases taken
    exact offsets

/-- Only a load whose page is pending changes an offset. -/
theorem step_offsets {e : Event} (taken : s.step e = some s') :
    s'.core.cache.offsets = s.core.cache.offsets ∨
      ∃ cid reg address tlb, s.use e = .park cid reg address ∧
        s'.core.cache.offsets = Function.update s.core.cache.offsets cid (Core.parkedOffset tlb address) := by
  cases e with
  | read contextId address size reg =>
    rcases step_read_offsets taken with ⟨_, same⟩ | ⟨cid, tlb, use, changed⟩
    · exact Or.inl same
    · exact Or.inr ⟨cid, reg, address, tlb, use, changed⟩
  | write id contextId address data tid =>
    simp only [System.step] at taken
    split at taken
    · cases taken
    rename_i result core done
    have same := Core.write2_offsets done
    split at taken
    · cases taken
      exact Or.inl same
    · cases taken
      exact Or.inl same
  | answer msg =>
    simp only [System.step] at taken
    split at taken
    · split at taken
      · rename_i result core _ done
        cases taken
        exact Or.inl (Core.onStoreMsg_offsets done)
      · rename_i result core _ done
        cases taken
        exact Or.inl (Core.onStoreMsg_offsets done)
      · cases taken
    · cases taken
  | invalidate msg =>
    simp only [System.step] at taken
    split at taken
    · cases taken
      exact Or.inl rfl
    · cases taken
  | property msg =>
    simp only [System.step] at taken
    split at taken
    · cases taken
      exact Or.inl rfl
    · cases taken
  | lookupResponses =>
    simp only [System.step] at taken
    split at taken
    · rename_i core done
      cases taken
      exact Or.inl (Core.doLookupResponses_offsets done)
    · rename_i result core _ done
      cases taken
      exact Or.inl (Core.doLookupResponses_offsets done)
    · cases taken
  | readResponses =>
    simp only [System.step] at taken
    split at taken
    · rename_i result cache done
      cases taken
      exact Or.inl (DCache.doReadResponses_offsets done)
    · cases taken
  | memoryRead addr data =>
    cases taken
    exact Or.inl (DCache.onMemoryReadCompleted_offsets _ addr data)
  | snoop addr data mask =>
    cases taken
    exact Or.inl (DCache.onMemorySnooped_offsets _ addr data mask)
  | memoryInvalidate addr =>
    cases taken
    exact Or.inl (DCache.onMemoryInvalidated_offsets _ addr)
  | outgoing =>
    obtain ⟨_, _, rfl⟩ := Option.map_eq_some_iff.mp taken
    exact Or.inl rfl
  | writebacks =>
    obtain ⟨_, _, rfl⟩ := Option.map_eq_some_iff.mp taken
    exact Or.inl rfl
  | transmit =>
    obtain ⟨_, _, rfl⟩ := Option.map_eq_some_iff.mp taken
    exact Or.inl rfl
  | endCycle =>
    cases taken
    exact Or.inl rfl

/-- A run after a load of `address` has been parked in line `cid`, in which no other load has been parked there. -/
inductive Delayed (address : Addr) (cid : Nat) : System → Prop
  | parked {s s' : System} {contextId : BitVec 16} {size : Nat} {reg : Option RegAddr} :
      s.step (.read contextId address size reg) = some s' →
      s.use (.read contextId address size reg) = .park cid reg address → Delayed address cid s'
  | later {s s' : System} {e : Event} : Delayed address cid s → s.step e = some s' →
      (∀ reg other, s.use e ≠ .park cid reg other) → Delayed address cid s'

theorem Delayed.offset {address : Addr} {cid : Nat} (delayed : Delayed address cid s) :
    ∃ tlb, (s.core.cache.lines cid).tlbOffset = Core.parkedOffset tlb address := by
  induction delayed with
  | @parked s s' contextId size reg taken use =>
    rcases step_read_offsets taken with ⟨never, _⟩ | ⟨cid', tlb, use', changed⟩
    · exact absurd use (never cid address)
    · cases use.symm.trans use'
      exact ⟨tlb, (congrFun changed cid).trans (Function.update_self _ _ _)⟩
  | @later s s' e _ taken other ih =>
    obtain ⟨tlb, kept⟩ := ih
    rcases step_offsets taken with same | ⟨cid', reg, address', tlb', use, changed⟩
    · exact ⟨tlb, (congrFun same cid).trans kept⟩
    · have different : cid ≠ cid' := by
        rintro rfl
        exact other reg address' use
      exact ⟨tlb, ((congrFun changed cid).trans (Function.update_of_ne different _ _)).trans kept⟩

end System

section SecondLine

/-- The TLB line and the cache line of an answer that the cache has not consumed. -/
def pendingAnswer (s : System) : Option (LineRef × Nat) := do
  let response ← s.core.cache.lookupResponses.contents.head?
  return (← response.tlbLineRef, response.cid.toNat)

/-- A load that misses, and the answer of the manager. -/
def missAndAnswer (address : Addr) : Option (System × System) := do
  let core ← enabledCore.toOption
  let parked ← (System.initial core).step (.read 0 address 8 none)
  let msg ← sentMsg parked.core.tlb
  let refill ← (handleMiss twoPages.mem 256 msg).toOption
  return (parked, ← parked.step (.answer refill))

/-- The physical lines of a load that has missed, and of a load that hits afterwards. -/
def placesAfterMiss (address : Addr) : Option (Option (Addr × Nat × Addr) × Option (Addr × Nat × Addr)) := do
  let (_, filled) ← missAndAnswer address
  let (ref, cid) ← pendingAnswer filled
  return (filled.core.missPlace ref cid, filled.core.hitPlace 0 address)

/-- What the statement about both paths asks of one run. -/
def missCheck (address : Addr) (filled : System) (ref : LineRef) : Bool :=
  filled.core.cache.lineSize = 64 &&
    match filled.core.tlb.getLine ref, filled.core.tlb.lookup filled.core.drisc 0 address false with
    | .ok (tlbData, _), .ok out => out.result = .success && out.res.pAddr = tlbData.pAddr &&
        out.res.tlbOffsetWidth = tlbData.tlbOffsetWidth && address.toNat % 2 ^ tlbData.tlbOffsetWidth < 64
    | _, _ => false

/-- A load for no register has been parked in this line. -/
def parkCheck (address : Addr) (cid : Nat) : Use → Bool
  | .park cid' none address' => cid' = cid && address' = address
  | _ => false

theorem eq_park_of_parkCheck {address : Addr} {cid : Nat} {use : Use} (checked : parkCheck address cid use = true) :
    use = .park cid none address := by
  unfold parkCheck at checked
  split at checked
  · simp only [Bool.and_eq_true, decide_eq_true_eq] at checked
    rw [checked.1, checked.2]
  · cases checked

end SecondLine

end Mgsim.Drisc
