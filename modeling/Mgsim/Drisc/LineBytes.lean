import Mgsim.Drisc.SetIntegrity
import Mgsim.Drisc.WholeLines

namespace Mgsim.Drisc
open Mgsim.Lib Mgsim.Mmu

/-- The byte that a line in use holds at an offset, if it is valid. -/
def CacheLine.byte? (line : CacheLine) (i : Nat) : Option Byte :=
  if line.state ≠ .empty ∧ line.valid i = true then some (line.data i) else none

/-- How a line changes in an event that brings no bytes: it keeps its bytes, or it
is given up, or taken for another address, and has none. -/
inductive LineChange (line line' : CacheLine) : Prop
  | kept : line'.byte? = line.byte? → LineChange line line'
  | cleared : (∀ i, line'.byte? i = none) →
      (line.state = .empty ∨ line.state = .full ∨ line'.state = .empty) → LineChange line line'

theorem LineChange.refl (line : CacheLine) : LineChange line line := .kept rfl

/-- A line that changes keeps the change when its bytes and its state are kept. -/
theorem LineChange.trans_kept {line between line' : CacheLine} (first : LineChange line between)
    (second : line'.byte? = between.byte?) (state : line'.state = between.state) : LineChange line line' := by
  cases first with
  | kept same => exact .kept (second.trans same)
  | cleared none free => exact .cleared (fun i => (congrFun second i).trans (none i)) (state ▸ free)

def Use.requests : Use → List Request
  | .request _ _ addr | .resolve _ _ addr => [readRequest addr]
  | _ => []

/-- The line that a use takes for another address, or gives up. -/
def Use.cleared : Use → Option Nat
  | .park cid _ _ | .request cid _ _ | .merge cid _ _ => some cid
  | _ => none

namespace DCache

/-- The request by which some bytes of a line are written. -/
def storeRequest (c : DCache) (pAddr : Addr) (data : List Byte) (tid : Nat) : Request :=
  let cacheOffset := (c.splitAddress pAddr).1
  ⟨true, c.requestAddress pAddr, tid, fun i => data.getD (i - cacheOffset) 0,
    fun i => cacheOffset ≤ i && i < cacheOffset + data.length⟩

end DCache

/-- What an event of the processor does to the bytes of the lines and to the requests
to memory: only a store that is sent changes bytes, in the line of its address. -/
inductive BytesEffect (c c' : DCache) (use : Use) : Prop
  | loaded : c.outgoing.Gains c'.outgoing use.requests →
      (∀ cid, LineChange (c.lines cid) (c'.lines cid)) →
      (∀ cid ∈ use.cleared, ∀ i, (c'.lines cid).byte? i = none) → BytesEffect c c' use
  | stored {pAddr : Addr} {data : List Byte} {tid : Nat} :
      use = ((c.lineOf pAddr).map fun cid => Use.bytes cid pAddr).getD .keep →
      c.outgoing.Gains c'.outgoing [c.storeRequest pAddr data tid] →
      (∀ cid i, (c'.lines cid).byte? i = if c.lineOf pAddr = some cid then
        (((c.storeRequest pAddr data tid).byte? i).or ((c.lines cid).byte? i)) else (c.lines cid).byte? i) →
      (∀ cid ∈ c.lineOf pAddr, (c.lines cid).state = .full) → BytesEffect c c' use

/-- Nothing changes. -/
theorem BytesEffect.idle {c c' : DCache} {use : Use} (lines : c'.lines = c.lines)
    (outgoing : c.outgoing.Gains c'.outgoing []) (requests : use.requests = []) (cleared : use.cleared = none) :
    BytesEffect c c' use := by
  refine .loaded (requests ▸ outgoing) (fun cid => ?_) (by simp [cleared])
  rw [lines]
  exact .refl _

namespace DCache
variable {c c' : DCache}

theorem byte?_congr {line line' : CacheLine} (state : line'.state = line.state) (valid : line'.valid = line.valid)
    (data : line'.data = line.data) : line'.byte? = line.byte? := by
  funext i
  simp only [CacheLine.byte?, state, valid, data]

theorem byte?_pushRegister (line : CacheLine) (reg : Option RegAddr) : (pushRegister line reg).1.byte? = line.byte? := by
  obtain ⟨_, state, _, data, valid⟩ := pushRegister_fields line reg
  exact byte?_congr state valid data

/-- One line is replaced. -/
theorem lineChange_setLine {cid : Nat} {line : CacheLine} (own : LineChange (c.lines cid) line) (other : Nat) :
    LineChange (c.lines other) ((c.setLine cid line).lines other) := by
  by_cases same : other = cid
  · subst same
    simpa [setLine] using own
  · simpa [setLine, same] using LineChange.refl _

/-- A line that is reset for another address has no bytes. -/
theorem byte?_of_reset {line : CacheLine} (valid : line.valid = fun _ => false) (i : Nat) : line.byte? i = none := by
  simp [CacheLine.byte?, valid]

theorem lineChange_taken {line line' : CacheLine} (free : line.state = .empty ∨ line.state = .full)
    (valid : line'.valid = fun _ => false) : LineChange line line' :=
  .cleared (byte?_of_reset valid) (free.imp_right Or.inl)

theorem initiateWriteback_bytes {cid : Nat} (done : c.initiateWriteback cid = some c') :
    c'.outgoing = c.outgoing ∧ ∀ other, (c'.lines other).byte? = (c.lines other).byte? ∧
      (c'.lines other).state = (c.lines other).state := by
  have signalled (other : Nat) : ((c.setLine cid { c.lines cid with create := false }).lines other).byte? =
      (c.lines other).byte? ∧ ((c.setLine cid { c.lines cid with create := false }).lines other).state =
        (c.lines other).state := by
    by_cases same : other = cid
    · subst same
      simp only [setLine, Function.update_self]
      exact ⟨byte?_congr rfl rfl rfl, trivial⟩
    · simp [setLine, same]
  simp only [initiateWriteback] at done
  split at done
  · cases done
    exact ⟨rfl, signalled⟩
  · obtain ⟨_, _, rfl⟩ := Option.map_eq_some_iff.mp done
    exact ⟨rfl, signalled⟩

theorem doReadResponses_bytes {result : Result} (done : c.doReadResponses = .ok (result, c')) :
    c'.outgoing = c.outgoing ∧ ∀ cid, LineChange (c.lines cid) (c'.lines cid) := by
  simp only [doReadResponses] at done
  split at done
  · cases done
  rename_i cid readResponses taken
  split at done
  · cases done
  rename_i waits
  rw [not_and_or, not_not, not_not] at waits
  split at done
  · cases done
    exact ⟨rfl, fun _ => .refl _⟩
  · rename_i between pushed
    cases done
    obtain ⟨outgoing, bytes⟩ := initiateWriteback_bytes pushed
    refine ⟨outgoing, fun other => ?_⟩
    by_cases same : other = cid.toNat
    · subst same
      obtain ⟨own, state⟩ := bytes cid.toNat
      rcases waits with loading | invalid
      · refine .kept ?_
        rw [← own]
        funext i
        simp [setLine, CacheLine.byte?, state, loading]
      · refine .cleared (fun i => ?_) (Or.inr (Or.inr ?_))
        · simp [setLine, CacheLine.byte?, invalid]
        · simp [setLine, invalid]
    · refine .kept ?_
      simp only [setLine, Function.update_of_ne same]
      exact (bytes other).1

end DCache

namespace Core
variable {s : Core}

theorem readTranslated_bytes (positive : 0 < s.cache.assoc) {tlbData : TlbResultMessage} {address : Addr} {size : Nat}
    {reg : Option RegAddr} {out : ReadOutcome} (done : s.readTranslated tlbData address size reg = .ok out) :
    BytesEffect s.cache out.core.cache (s.cache.readUse (physicalAddress tlbData address) size reg) := by
  simp only [readTranslated] at done
  generalize physicalAddress tlbData address = pAddr at done ⊢
  have lookup : s.cache.lineOf pAddr =
    s.cache.findLine (s.cache.splitAddress pAddr).2.1 (s.cache.splitAddress pAddr).2.2 none := rfl
  rw [← lookup] at done
  split at done
  · cases done
  split at done
  · rename_i cid found
    have quiet : (s.cache.readUse pAddr size reg).requests = [] ∧ (s.cache.readUse pAddr size reg).cleared = none := by
      simp only [DCache.readUse, found]
      split <;> exact ⟨rfl, rfl⟩
    split at done
    · cases done
      refine .loaded (quiet.1 ▸ .refl _) (fun other => ?_) (by simp [quiet.2])
      have own : LineChange (s.cache.lines cid) { s.cache.lines cid with access := s.cycleNo } :=
        .kept (DCache.byte?_congr rfl rfl rfl)
      exact DCache.lineChange_setLine own other
    · cases done
      refine .loaded (quiet.1 ▸ .refl _) (fun other => ?_) (by simp [quiet.2])
      refine DCache.lineChange_setLine (.kept ((DCache.byte?_pushRegister _ reg).trans ?_)) other
      exact DCache.byte?_congr rfl rfl rfl
  · rename_i absent
    have filtered : ((s.cache.lineOf pAddr).any fun cid => (s.cache.lines cid).state ≠ .invalid) = false := by
      revert absent
      cases s.cache.lineOf pAddr <;> simp [Option.filter_some]
    simp only [DCache.readUse, absent]
    rw [DCache.takes, if_neg (by rw [filtered]; simp)]
    split at done
    · rename_i full
      cases done
      refine .idle rfl (.refl _) ?_ ?_
      · split <;> simp [full, Use.requests]
      · split <;> simp [full, Use.cleared]
    · rename_i cid empty
      split at done
      · rename_i refused
        cases done
        rw [if_neg (DCache.initiateRead_eq_none refused)]
        exact .idle rfl (.refl _) rfl rfl
      · rename_i cache pushed
        cases done
        rw [if_pos (DCache.initiateRead_eq_some pushed).choose_spec.1, empty]
        obtain ⟨outgoing, sent, rfl⟩ := Option.map_eq_some_iff.mp pushed
        have free := (DCache.getEmptyLine_spec positive empty).2
        have reset := (DCache.pushRegister_fields { DCache.resetLine (s.cache.lines cid) with
          tag := (s.cache.splitAddress pAddr).2.2, state := .loading } reg).2.2.2.2
        refine .loaded (.of_push sent) (fun other => ?_) fun other same => ?_
        · exact DCache.lineChange_setLine (DCache.lineChange_taken free reset) other
        · cases Option.some.inj same
          simpa [DCache.setLine] using DCache.byte?_of_reset reset

theorem read2_bytes (positive : 0 < s.cache.assoc) {contextId : BitVec 16} {address : Addr} {size : Nat}
    {reg : Option RegAddr} {out : ReadOutcome} (done : s.read2 contextId address size reg = .ok out) :
    BytesEffect s.cache out.core.cache (s.readUse contextId address size reg) := by
  obtain ⟨looked, lookup, branch⟩ := read2_branch done
  cases branch with
  | translated success read =>
    have translated := @readTranslated_bytes { s with tlb := looked.committed } positive _ _ _ _ _ read
    simp only [readUse, lookup, success]
    exact translated
  | @parked cid tlb line delayed empty stored same =>
    simp only [readUse, lookup, delayed, empty, Option.map_some, Option.getD_some]
    have free := (DCache.getEmptyLine_spec positive empty).2
    have reset : (pushRegister line reg).1.valid = fun _ => false := by
      rw [(DCache.pushRegister_fields line reg).2.2.2.2, same]
      rfl
    refine .loaded (.refl _) (fun other => ?_) fun other same => ?_
    · exact DCache.lineChange_setLine (DCache.lineChange_taken free reset) other
    · cases Option.some.inj same
      simpa [setCacheLine, DCache.setLine] using DCache.byte?_of_reset reset
  | occupied delayed empty =>
    simp only [readUse, lookup, delayed, empty, Option.map_none, Option.getD_none]
    exact .idle rfl (.refl _) rfl rfl
  | failed failed =>
    simp only [readUse, lookup, failed]
    exact .idle rfl (.refl _) rfl rfl

/-- The request of a store is the one that `initiateWrite` queues. -/
theorem initiateWrite_contents {c c' : DCache} {pAddr : Addr} {data : List Byte} {tid : Nat}
    (done : c.initiateWrite (c.splitAddress pAddr).1 (c.splitAddress pAddr).2.1 (c.splitAddress pAddr).2.2 data tid =
      some c') : c'.lines = c.lines ∧ c.outgoing.Gains c'.outgoing [c.storeRequest pAddr data tid] := by
  obtain ⟨outgoing, sent, rfl⟩ := Option.map_eq_some_iff.mp done
  exact ⟨rfl, .of_push sent⟩

theorem writeTranslated_bytes {tlbData : TlbResultMessage} {address : Addr} {data : List Byte} {tid : Nat}
    {out : ExtendedResult × Core} (done : s.writeTranslated tlbData address data tid = .ok out) :
    BytesEffect s.cache out.2.cache (((s.cache.stores (physicalAddress tlbData address)).map fun cid =>
      Use.bytes cid (physicalAddress tlbData address)).getD .keep) := by
  simp only [writeTranslated] at done
  generalize physicalAddress tlbData address = pAddr at done ⊢
  have lookup : s.cache.lineOf pAddr =
    s.cache.findLine (s.cache.splitAddress pAddr).2.1 (s.cache.splitAddress pAddr).2.2 none := rfl
  rw [← lookup] at done
  have idle (found : Option Nat) :
      BytesEffect s.cache s.cache ((found.map fun cid => Use.bytes cid pAddr).getD .keep) := by
    cases found <;> exact .idle rfl (.refl _) rfl rfl
  split at done
  · cases done
  split at done
  · rename_i absent
    cases done
    split
    · exact idle _
    · rename_i pushed
      obtain ⟨lines, outgoing⟩ := initiateWrite_contents pushed
      refine @BytesEffect.stored _ _ _ pAddr _ _ ?_ outgoing (fun cid i => ?_) (by simp [absent])
      · rw [DCache.stores, absent]
        rfl
      · rw [absent, lines]
        simp
  · rename_i cid found
    split at done
    · cases done
      exact idle _
    · rename_i settled
      have used := (s.cache.findLine_eq_some (lookup.symm.trans found)).2.2.1
      have full : (s.cache.lines cid).state = .full := by
        cases state : (s.cache.lines cid).state <;> simp_all
      cases done
      split
      · exact idle _
      · rename_i pushed
        have room := DCache.initiateWrite_eq_some pushed
        obtain ⟨lines, outgoing⟩ := initiateWrite_contents pushed
        refine @BytesEffect.stored _ _ _ pAddr _ _ ?_ outgoing (fun other i => ?_) ?_
        · rw [DCache.stores, found, Option.filter_some, if_pos (by simpa using ⟨full, room.choose_spec.1⟩)]
        · rw [lines, found]
          by_cases same : other = cid
          · subst same
            rw [if_pos rfl]
            simp only [DCache.setLine, Function.update_self, CacheLine.byte?, Request.byte?, DCache.storeRequest, full,
              ne_eq, reduceCtorEq, not_false_eq_true, true_and, Bool.and_eq_true, decide_eq_true_eq]
            split <;> simp_all
          · rw [if_neg (fun eq => same (Option.some.inj eq).symm)]
            simp [DCache.setLine, same]
        · intro other member
          rw [found] at member
          exact Option.some.inj member ▸ full

theorem write2_bytes {contextId : BitVec 16} {address : Addr} {data : List Byte} {tid : Nat}
    {out : ExtendedResult × Core} (done : s.write2 contextId address data tid = .ok out) :
    BytesEffect s.cache out.2.cache (s.writeUse contextId address) := by
  obtain ⟨looked, lookup, branch⟩ := write2_branch done
  cases branch with
  | translated success write =>
    have translated := @writeTranslated_bytes { s with tlb := looked.committed } _ _ _ _ _ write
    simp only [writeUse, lookup, success]
    exact translated
  | parked delayed stored =>
    simp only [writeUse, lookup, delayed]
    exact .idle rfl (.refl _) rfl rfl
  | failed failed =>
    simp only [writeUse, lookup, failed]
    exact .idle rfl (.refl _) rfl rfl

theorem completeLoad_bytes {s' : Core} {tlbData : TlbResultMessage} {cid : Nat}
    (done : s.completeLoad tlbData cid = .ok (some s')) :
    BytesEffect s.cache s'.cache (s.cache.completionUse tlbData cid) := by
  simp only [completeLoad, bind, Except.bind, pure, Except.pure, throw, throwThe, MonadExceptOf.throw] at done
  generalize formed : physicalAddress tlbData (s.cache.lines cid).tlbOffset = pAddr at done
  split at done
  · cases done
  rename_i loading
  rw [ne_eq, not_not] at loading
  split at done
  · cases done
  split at done
  · rename_i other found
    have use : s.cache.completionUse tlbData cid = .merge cid other tlbData := by
      simp only [DCache.completionUse, formed, found]
    have different : other ≠ cid := by
      rintro rfl
      exact (s.cache.findLine_eq_some found).2.1 rfl
    rw [use]
    have given (line : Nat) : LineChange (s.cache.lines line)
        ((((s.cache.setLine other (pushRegister (s.cache.lines other) (s.cache.lines cid).waiting).1).setLine cid
          { s.cache.lines cid with waiting := none, state := .empty }).lines line)) := by
      by_cases same : line = cid
      · subst same
        exact .cleared (fun i => by simp [DCache.setLine, CacheLine.byte?]) (Or.inr (Or.inr (by simp [DCache.setLine])))
      · have only := @DCache.lineChange_setLine s.cache other _
          (.kept (DCache.byte?_pushRegister (s.cache.lines other) (s.cache.lines cid).waiting)) line
        simpa [DCache.setLine, same] using only
    have emptied (i : Nat) : ((((s.cache.setLine other
        (pushRegister (s.cache.lines other) (s.cache.lines cid).waiting).1).setLine cid
          { s.cache.lines cid with waiting := none, state := .empty }).lines cid)).byte? i = none := by
      simp [DCache.setLine, CacheLine.byte?]
    split at done
    · split at done
      · rename_i written
        cases done
        obtain ⟨outgoing, bytes⟩ := DCache.initiateWriteback_bytes written
        refine .loaded ?_ (fun line => (given line).trans_kept (bytes line).1 (bytes line).2) fun line same i => ?_
        · rw [outgoing]
          exact .refl _
        · cases Option.some.inj same
          rw [(bytes cid).1]
          exact emptied i
      · split at done
        · cases done
        · cases done
    · cases done
      refine .loaded (.refl _) given fun line same i => ?_
      cases Option.some.inj same
      exact emptied i
  · rename_i absent
    have use : s.cache.completionUse tlbData cid = .resolve cid tlbData (s.cache.requestAddress pAddr) := by
      simp only [DCache.completionUse, formed, absent]
    rw [use]
    obtain ⟨cache, pushed, rfl⟩ := Option.map_eq_some_iff.mp (Except.ok.inj done)
    obtain ⟨outgoing, sent, rfl⟩ := Option.map_eq_some_iff.mp pushed
    refine .loaded (.of_push sent) (fun other => ?_) (by simp [Use.cleared])
    have own : LineChange (s.cache.lines cid) { s.cache.lines cid with
        tag := (s.cache.splitAddress pAddr).2.2, state := .loading } :=
      .kept (DCache.byte?_congr loading.symm rfl rfl)
    exact DCache.lineChange_setLine own other

theorem doLookupResponses_bytes {s' : Core} (done : s.doLookupResponses = .ok (.success, s')) :
    BytesEffect s.cache s'.cache s.lookupUse := by
  simp only [doLookupResponses, bind, Except.bind, pure, Except.pure, throw, throwThe, MonadExceptOf.throw] at done
  split at done
  · cases done
  rename_i response queue taken
  split at done
  · cases done
  split at done
  · rename_i magic
    cases done
    have use : s.lookupUse = .keep := by simp only [lookupUse, taken, if_pos magic]
    rw [use]
    exact .idle rfl (.refl _) rfl rfl
  rename_i valid
  split at done
  · cases done
  rename_i ref atRef
  split at done
  · cases done
  rename_i got line
  obtain ⟨tlbData, tlb⟩ := got
  split at done
  · cases done
  rename_i completed complete
  split at done
  · cases done
  · rename_i after
    cases done
    have effect := completeLoad_bytes complete
    have use : s.lookupUse = s.cache.completionUse tlbData response.cid.toNat := by
      simp only [lookupUse, taken, if_neg valid, atRef, line]
    rw [use]
    cases effect with
    | loaded outgoing lines cleared => exact .loaded outgoing lines cleared
    | stored use outgoing lines full => exact .stored use outgoing lines full

end Core

/-- Every event of the processor has the effect of its use. -/
theorem System.bytes_step {s s' : System} {e : Event} (positive : 0 < s.core.cache.assoc) (isLocal : e.IsLocal = true)
    (taken : s.step e = some s') : BytesEffect s.core.cache s'.core.cache (s.use e) := by
  cases e with
  | read contextId address size reg =>
    simp only [step] at taken
    split at taken
    · cases taken
    rename_i out done
    have after := Core.read2_bytes positive done
    split at taken <;> cases taken <;> exact after
  | write id contextId address data tid =>
    simp only [step] at taken
    split at taken
    · cases taken
    rename_i result core done
    have after := Core.write2_bytes done
    split at taken <;> cases taken <;> exact after
  | answer msg =>
    simp only [step] at taken
    split at taken
    · split at taken
      · rename_i response tlb result core stored kept
        cases taken
        rw [Core.onStoreMsg_of_stored stored] at kept
        cases kept
        refine .idle ?_ ?_ rfl rfl <;> simp only [resolve, DCache.onTlbLookupCompleted] <;> split
        · rfl
        · rfl
        · exact .refl _
        · exact .refl _
      · rename_i result core stored kept
        cases taken
        rw [Core.onStoreMsg_of_refused stored] at kept
        cases kept
        exact .idle rfl (.refl _) rfl rfl
      · cases taken
    · cases taken
  | invalidate msg =>
    simp only [step] at taken
    split at taken <;> cases taken
    exact .idle rfl (.refl _) rfl rfl
  | property msg =>
    simp only [step] at taken
    split at taken <;> cases taken
    exact .idle rfl (.refl _) rfl rfl
  | lookupResponses =>
    simp only [step] at taken
    split at taken
    · rename_i core done
      cases taken
      have use : s.use .lookupResponses = s.core.lookupUse := by simp only [System.use, done]
      rw [use]
      exact Core.doLookupResponses_bytes done
    · rename_i result core other done
      cases taken
      have use : s.use .lookupResponses = .keep := by
        simp only [System.use]
        split
        · rename_i success
          exact absurd (Prod.mk.inj (Except.ok.inj (done.symm.trans success))).1 (by simpa using other)
        · rfl
      have same : core = s.core := by
        cases Core.doLookupResponses_eq_ok done with
        | stalled => rfl
        | store | load => exact (other rfl).elim
      rw [use, same]
      exact .idle rfl (.refl _) rfl rfl
    · cases taken
  | readResponses =>
    simp only [step] at taken
    split at taken
    · rename_i result cache done
      cases taken
      obtain ⟨outgoing, lines⟩ := DCache.doReadResponses_bytes done
      have quiet : (s.use .readResponses).requests = [] ∧ (s.use .readResponses).cleared = none := by
        simp only [System.use]
        split <;> exact ⟨rfl, rfl⟩
      refine .loaded ?_ lines (by simp [quiet.2])
      rw [quiet.1, show (s.withCache cache).core.cache.outgoing = s.core.cache.outgoing from outgoing]
      exact .refl _
    · cases taken
  | writebacks =>
    obtain ⟨front, found, rfl⟩ := Option.map_eq_some_iff.mp taken
    have use : s.use .writebacks = .deliver front.1 := by simp only [System.use, found, Option.map_some, Option.getD_some]
    rw [use]
    exact .idle rfl (.refl _) rfl rfl
  | transmit =>
    obtain ⟨_, _, rfl⟩ := Option.map_eq_some_iff.mp taken
    exact .idle rfl (.refl _) rfl rfl
  | endCycle =>
    cases taken
    exact .idle rfl (.of_update _) rfl rfl
  | memoryRead | snoop | memoryInvalidate | outgoing => cases isLocal

end Mgsim.Drisc
