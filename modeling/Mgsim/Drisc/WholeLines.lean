import Mgsim.Drisc.Waiters

namespace Mgsim.Drisc
open Mgsim.Lib Mgsim.Mmu

/-- A full line, or one whose read has completed, has all its bytes. -/
def DCache.WholeLines (c : DCache) : Prop :=
  ∀ cid, (c.lines cid).state = .full ∨ (c.lines cid).processing = true → ∀ i < c.lineSize, (c.lines cid).valid i = true

namespace DCache
variable {c c' : DCache}

theorem WholeLines.of_eq (whole : c.WholeLines) (lines : c'.lines = c.lines) (lineSize : c'.lineSize = c.lineSize) :
    c'.WholeLines := by
  unfold WholeLines at *
  rwa [lines, lineSize]

theorem WholeLines.setLine (whole : c.WholeLines) {cid : Nat} {line : CacheLine}
    (own : line.state = .full ∨ line.processing = true → ∀ i < c.lineSize, line.valid i = true) :
    (c.setLine cid line).WholeLines := by
  intro other
  by_cases same : other = cid
  · subst same
    simpa [DCache.setLine] using own
  · simpa [DCache.setLine, same] using whole other

/-- A line keeps its bytes and its state. -/
theorem WholeLines.setLine_same (whole : c.WholeLines) {cid : Nat} {line : CacheLine}
    (state : line.state = (c.lines cid).state) (processing : line.processing = (c.lines cid).processing)
    (valid : line.valid = (c.lines cid).valid) : (c.setLine cid line).WholeLines := by
  refine whole.setLine ?_
  rw [state, processing, valid]
  exact whole cid

theorem WholeLines.pushRegister (whole : c.WholeLines) {cid : Nat} {line : CacheLine} (reg : Option RegAddr)
    (own : line.state = .full ∨ line.processing = true → ∀ i < c.lineSize, line.valid i = true) :
    (c.setLine cid (pushRegister line reg).1).WholeLines := by
  refine whole.setLine ?_
  obtain ⟨_, state, processing, _, valid⟩ := pushRegister_fields line reg
  rwa [state, processing, valid]

theorem WholeLines.initiateWriteback (whole : c.WholeLines) {cid : Nat} (done : c.initiateWriteback cid = some c') :
    c'.WholeLines := by
  have signalled : (c.setLine cid { c.lines cid with create := false }).WholeLines := whole.setLine_same rfl rfl rfl
  simp only [DCache.initiateWriteback] at done
  split at done
  · cases done
    exact signalled
  · obtain ⟨_, _, rfl⟩ := Option.map_eq_some_iff.mp done
    exact signalled.of_eq rfl rfl

theorem WholeLines.doReadResponses (whole : c.WholeLines)
    (ready : ∀ cid ∈ c.readResponses.contents, (c.shapes cid.toNat).processing = true) {result : Result}
    (done : c.doReadResponses = .ok (result, c')) : c'.WholeLines := by
  simp only [DCache.doReadResponses] at done
  split at done
  · cases done
  rename_i cid readResponses taken
  split at done
  · cases done
  split at done
  · cases done
    exact whole
  · rename_i between pushed
    cases done
    have kept := whole.initiateWriteback pushed
    have shapes : between.shapes = c.shapes := congrArg CacheView.shapes (initiateWriteback_view pushed).2.2
    have front : cid ∈ c.readResponses.contents := by
      rw [(Buffer.take?_eq_some taken).1]
      exact List.mem_cons_self
    have processing : (between.lines cid.toNat).processing = true :=
      (congrArg Shape.processing (congrFun shapes cid.toNat)).trans (ready cid front)
    have after : (between.setLine cid.toNat { between.lines cid.toNat with
        waiting := none, state := if (c.lines cid.toNat).state = .invalid then .empty else .full }).WholeLines :=
      kept.setLine fun _ => kept cid.toNat (Or.inr processing)
    exact after.of_eq rfl rfl

theorem WholeLines.onMemoryReadCompleted (whole : c.WholeLines) (addr : Addr) (data : Nat → Byte) :
    (c.onMemoryReadCompleted addr data).2.WholeLines := by
  simp only [DCache.onMemoryReadCompleted]
  split
  · exact whole
  · rename_i cid found
    split
    · exact whole
    · split
      · exact whole
      · have after : (c.setLine cid { c.lines cid with
            data := fun i => if (c.lines cid).valid i then (c.lines cid).data i else c.mergeWrites addr data i
            valid := fun i => if i < c.lineSize then true else (c.lines cid).valid i
            processing := true }).WholeLines := by
          refine whole.setLine fun _ i inside => ?_
          dsimp only
          rw [if_pos inside]
        exact after.of_eq rfl rfl

theorem WholeLines.onMemorySnooped (whole : c.WholeLines) (addr : Addr) (data : Nat → Byte) (mask : Nat → Bool) :
    (c.onMemorySnooped addr data mask).WholeLines := by
  simp only [DCache.onMemorySnooped]
  split
  · exact whole
  · rename_i cid found
    refine whole.setLine fun busy i inside => ?_
    dsimp only
    split
    · rfl
    · exact whole cid busy i inside

theorem WholeLines.onMemoryInvalidated (whole : c.WholeLines) (addr : Addr) :
    (c.onMemoryInvalidated addr).WholeLines := by
  simp only [DCache.onMemoryInvalidated]
  split
  · exact whole
  · rename_i cid found
    split
    · exact whole.setLine fun busy => whole cid (Or.inr (busy.resolve_left (by simp)))
    · exact whole.setLine fun busy => whole cid (Or.inr (busy.resolve_left (by simp)))
    · exact whole

end DCache

namespace Core
variable {s : Core}

theorem wholeLines_readTranslated (whole : s.cache.WholeLines) {tlbData : TlbResultMessage} {address : Addr} {size : Nat}
    {reg : Option RegAddr} {out : ReadOutcome} (done : s.readTranslated tlbData address size reg = .ok out) :
    out.core.cache.WholeLines := by
  simp only [readTranslated] at done
  split at done
  · cases done
  split at done
  · rename_i cid found
    split at done
    · cases done
      exact whole.setLine_same rfl rfl rfl
    · cases done
      exact whole.pushRegister reg (whole cid)
  · split at done
    · cases done
      exact whole
    · rename_i cid empty
      split at done
      · cases done
        exact whole
      · rename_i cache pushed
        cases done
        obtain ⟨outgoing, _, rfl⟩ := DCache.initiateRead_eq_some pushed
        have after : (s.cache.setLine cid (pushRegister { DCache.resetLine (s.cache.lines cid) with
            tag := (s.cache.splitAddress (physicalAddress tlbData address)).2.2, state := .loading } reg).1).WholeLines :=
          whole.pushRegister reg (by simp [DCache.resetLine])
        exact after.of_eq rfl rfl

theorem wholeLines_read2 (whole : s.cache.WholeLines) {contextId : BitVec 16} {address : Addr} {size : Nat}
    {reg : Option RegAddr} {out : ReadOutcome} (done : s.read2 contextId address size reg = .ok out) :
    out.core.cache.WholeLines := by
  obtain ⟨looked, _, branch⟩ := read2_branch done
  cases branch with
  | translated _ read =>
    have after := @wholeLines_readTranslated { s with tlb := looked.committed } whole _ _ _ _ _ read
    exact after
  | parked line _ _ _ same =>
    subst same
    exact whole.pushRegister reg (by simp [DCache.resetLine])
  | occupied _ _ => exact whole
  | failed _ => exact whole

theorem wholeLines_writeTranslated (whole : s.cache.WholeLines) {tlbData : TlbResultMessage} {address : Addr}
    {data : List Byte} {tid : Nat} {out : ExtendedResult × Core}
    (done : s.writeTranslated tlbData address data tid = .ok out) : out.2.cache.WholeLines := by
  simp only [writeTranslated] at done
  split at done
  · cases done
  split at done
  · cases done
    split
    · exact whole
    · rename_i pushed
      obtain ⟨_, _, rfl⟩ := DCache.initiateWrite_eq_some pushed
      exact whole.of_eq rfl rfl
  · rename_i cid found
    split at done
    · cases done
      exact whole
    · cases done
      split
      · exact whole
      · rename_i pushed
        obtain ⟨_, _, rfl⟩ := DCache.initiateWrite_eq_some pushed
        refine DCache.WholeLines.of_eq (whole.setLine fun busy i inside => ?_) rfl rfl
        dsimp only
        split
        · rfl
        · exact whole cid busy i inside

theorem wholeLines_write2 (whole : s.cache.WholeLines) {contextId : BitVec 16} {address : Addr} {data : List Byte}
    {tid : Nat} {out : ExtendedResult × Core} (done : s.write2 contextId address data tid = .ok out) :
    out.2.cache.WholeLines := by
  obtain ⟨looked, _, branch⟩ := write2_branch done
  cases branch with
  | translated _ write =>
    have after := wholeLines_writeTranslated (s := { s with tlb := looked.committed }) whole write
    exact after
  | parked _ _ => exact whole
  | failed _ => exact whole

theorem wholeLines_completeLoad (whole : s.cache.WholeLines) {s' : Core} {tlbData : TlbResultMessage} {cid : Nat}
    (done : s.completeLoad tlbData cid = .ok (some s')) : s'.cache.WholeLines := by
  simp only [completeLoad, bind, Except.bind, pure, Except.pure, throw, throwThe, MonadExceptOf.throw] at done
  split at done
  · cases done
  split at done
  · cases done
  split at done
  · rename_i other found
    have given : ((s.cache.setLine other (pushRegister (s.cache.lines other) (s.cache.lines cid).waiting).1).setLine cid
        { s.cache.lines cid with waiting := none, state := .empty }).WholeLines :=
      (whole.pushRegister _ (whole other)).setLine fun busy => whole cid (Or.inr (busy.resolve_left (by simp)))
    split at done
    · split at done
      · rename_i written
        cases done
        exact given.initiateWriteback written
      · split at done
        · cases done
        · cases done
    · cases done
      exact given
  · obtain ⟨cache, pushed, rfl⟩ := Option.map_eq_some_iff.mp (Except.ok.inj done)
    obtain ⟨outgoing, _, rfl⟩ := DCache.initiateRead_eq_some pushed
    have after : (s.cache.setLine cid { s.cache.lines cid with
        tag := (s.cache.splitAddress (physicalAddress tlbData (s.cache.lines cid).tlbOffset)).2.2
        state := .loading }).WholeLines :=
      whole.setLine fun busy => whole cid (Or.inr (busy.resolve_left (by simp)))
    exact after.of_eq rfl rfl

theorem wholeLines_doLookupResponses (whole : s.cache.WholeLines) {out : Result × Core}
    (done : s.doLookupResponses = .ok out) : out.2.cache.WholeLines := by
  simp only [doLookupResponses, bind, Except.bind, pure, Except.pure, throw, throwThe, MonadExceptOf.throw] at done
  split at done
  · cases done
  split at done
  · cases done
  split at done
  · cases done
    exact whole.of_eq rfl rfl
  split at done
  · cases done
  split at done
  · cases done
  rename_i got line
  obtain ⟨tlbData, tlb⟩ := got
  split at done
  · cases done
  rename_i completed complete
  split at done
  · cases done
    exact whole
  · cases done
    have after := wholeLines_completeLoad (s := { s with tlb := tlb }) whole complete
    exact after.of_eq rfl rfl

end Core

/-- The lines with all their bytes keep them, if every queued completion has set its line to processing. -/
theorem System.wholeLines_step {s s' : System} {e : Event} (whole : s.core.cache.WholeLines)
    (ready : ∀ cid ∈ s.core.cache.readResponses.contents, (s.core.cache.shapes cid.toNat).processing = true)
    (taken : s.step e = some s') : s'.core.cache.WholeLines := by
  cases e with
  | read contextId address size reg =>
    simp only [step] at taken
    split at taken
    · cases taken
    rename_i out done
    have after := Core.wholeLines_read2 whole done
    split at taken <;> cases taken <;> exact after
  | write id contextId address data tid =>
    simp only [step] at taken
    split at taken
    · cases taken
    rename_i result core done
    have after := Core.wholeLines_write2 whole done
    split at taken <;> cases taken <;> exact after
  | answer msg =>
    simp only [step] at taken
    split at taken
    · split at taken
      · rename_i response tlb result core stored kept
        cases taken
        rw [Core.onStoreMsg_of_stored stored] at kept
        cases kept
        refine whole.of_eq ?_ ?_ <;> simp only [resolve, DCache.onTlbLookupCompleted] <;> split <;> rfl
      · rename_i result core stored kept
        cases taken
        rw [Core.onStoreMsg_of_refused stored] at kept
        cases kept
        exact whole
      · cases taken
    · cases taken
  | invalidate msg =>
    simp only [step] at taken
    split at taken
    · cases taken
      exact whole
    · cases taken
  | property msg =>
    simp only [step] at taken
    split at taken
    · cases taken
      exact whole
    · cases taken
  | lookupResponses =>
    simp only [step] at taken
    split at taken
    · rename_i core done
      cases taken
      have after := Core.wholeLines_doLookupResponses whole done
      exact after
    · rename_i result core other done
      cases taken
      have after := Core.wholeLines_doLookupResponses whole done
      exact after
    · cases taken
  | readResponses =>
    simp only [step] at taken
    split at taken
    · rename_i result cache done
      cases taken
      have after := whole.doReadResponses ready done
      exact after
    · cases taken
  | memoryRead addr data =>
    cases taken
    exact whole.onMemoryReadCompleted addr data
  | snoop addr data mask =>
    cases taken
    exact whole.onMemorySnooped addr data mask
  | memoryInvalidate addr =>
    cases taken
    exact whole.onMemoryInvalidated addr
  | outgoing =>
    obtain ⟨_, _, rfl⟩ := Option.map_eq_some_iff.mp taken
    exact whole.of_eq rfl rfl
  | writebacks =>
    obtain ⟨_, _, rfl⟩ := Option.map_eq_some_iff.mp taken
    exact whole.of_eq rfl rfl
  | transmit =>
    obtain ⟨_, _, rfl⟩ := Option.map_eq_some_iff.mp taken
    exact whole
  | endCycle =>
    cases taken
    exact whole.of_eq rfl rfl

end Mgsim.Drisc
