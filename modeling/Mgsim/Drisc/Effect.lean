import Mgsim.Drisc.System

namespace Mgsim.Drisc
open Mgsim.Lib Mgsim.Mmu

/-- An access that changes neither locks nor lookup responses. -/
structure Core.Quiet (s s' : Core) : Prop where
  tlb : s.tlb.Changes s'.tlb []
  queue : s'.cache.lookupResponses = s.cache.lookupResponses

/-- An access that has been parked on a line of the TLB with a reference to
its waiter. The line was free before, or already pending for the page. -/
structure Core.Parked (s : Core) (contextId : BitVec 16) (address : Addr) (ref : LineRef) (dRef : BitVec 32)
    (s' : Core) : Prop where
  queue : s'.cache.lookupResponses = s.cache.lookupResponses
  last : s'.tlb.lastLine = some ref
  changes : s.tlb.Changes s'.tlb [ref]
  absent : (s'.tlb.line ref).present = false
  locked : (s'.tlb.line ref).locked = true
  reference : (s'.tlb.line ref).dLineRef = dRef
  origin : (ref.table = 0 ∧ (s.tlb.Wf → 0 < s.tlb.numTables → s.tlb.Inside ref) ∧ (s.tlb.line ref).locked = false) ∨
    ((s.tlb.enabled = true ∧ address.msb = false ∧ s.isMapped address s.cache.lineSize = false) ∧
      s.tlb.Holds ref (contextId.setWidth 64) (address >>> (s.tlb.tables 0).offsetWidth) ∧
      (s.tlb.line ref).present = false)

section Access
variable {s : Core} {contextId : BitVec 16} {address : Addr}

theorem Core.readTranslated_eq_ok {tlbData : TlbResultMessage} {size : Nat} {reg : Option RegAddr} {out : ReadOutcome}
    (done : s.readTranslated tlbData address size reg = .ok out) :
    out.core.tlb = s.tlb ∧ out.core.cache.lookupResponses = s.cache.lookupResponses := by
  simp only [readTranslated] at done
  split at done
  · cases done
  split at done
  · split at done
    · cases done
      exact ⟨rfl, rfl⟩
    · cases done
      exact ⟨rfl, rfl⟩
  · split at done
    · cases done
      exact ⟨rfl, rfl⟩
    · split at done
      · cases done
        exact ⟨rfl, rfl⟩
      · rename_i cache pushed
        cases done
        obtain ⟨outgoing, _, rfl⟩ := Option.map_eq_some_iff.mp pushed
        exact ⟨rfl, rfl⟩

theorem DCache.initiateWrite_lookupResponses {c c' : DCache} {cacheOffset setIndex tid : Nat} {pTag : Addr}
    {data : List Byte} (done : c.initiateWrite cacheOffset setIndex pTag data tid = some c') :
    c'.lookupResponses = c.lookupResponses := by
  obtain ⟨outgoing, _, rfl⟩ := Option.map_eq_some_iff.mp done
  rfl

theorem Core.writeTranslated_eq_ok {tlbData : TlbResultMessage} {data : List Byte} {tid : Nat}
    {out : ExtendedResult × Core} (done : s.writeTranslated tlbData address data tid = .ok out) :
    out.1 ≠ .active ∧ out.2.tlb = s.tlb ∧ out.2.cache.lookupResponses = s.cache.lookupResponses := by
  simp only [writeTranslated] at done
  split at done
  · cases done
  split at done
  · cases done
    split
    · exact ⟨by simp, rfl, rfl⟩
    · rename_i pushed
      have same := DCache.initiateWrite_lookupResponses pushed
      exact ⟨by simp, rfl, same⟩
  · split at done
    · cases done
      exact ⟨by simp, rfl, rfl⟩
    · cases done
      split
      · exact ⟨by simp, rfl, rfl⟩
      · rename_i pushed
        have same := DCache.initiateWrite_lookupResponses pushed
        exact ⟨by simp, rfl, same⟩

/-- A delayed lookup, after its data cache has stored a reference. -/
theorem Core.parked_of_lookup {out : Lookup} (effect : s.tlb.LookupEffect s.drisc contextId address out)
    (delayed : out.result = .delayed) {dRef : BitVec 32} {tlb : Tlb} (stored : out.committed.setDCacheReference dRef = .ok tlb)
    (s' : Core) (sameTlb : s'.tlb = tlb) (queue : s'.cache.lookupResponses = s.cache.lookupResponses) :
    ∃ ref, s.Parked contextId address ref dRef s' := by
  obtain ⟨ref, last, absent, rfl⟩ := Tlb.setDCacheReference_eq_ok stored
  have self := @Tlb.line_setLine_self out.committed ref { out.committed.line ref with dLineRef := dRef }
  cases effect with
  | settled other _ _ _ => exact absurd delayed other
  | @waiting pending _ _ committed atLine translated holds before =>
    cases Option.some.inj (atLine.symm.trans last)
    have locked : (out.committed.line ref).locked = true := by
      rw [committed.locked ref (by simp)]
      exact holds.inUse.1.resolve_left (by simp [before])
    refine ⟨ref, queue, ?_, ?_, ?_, ?_, ?_, Or.inr ⟨translated, holds, before⟩⟩
    · rw [sameTlb]
      exact last
    · rw [sameTlb]
      exact (committed.mono (by simp)).trans (Tlb.changes_setLine List.mem_cons_self)
    · rw [sameTlb, self]
      exact absent
    · rw [sameTlb, self]
      exact locked
    · rw [sameTlb, self]
  | @missed i _ _ committed atLine inside free absent' locked =>
    cases Option.some.inj (atLine.symm.trans last)
    refine ⟨⟨0, i⟩, queue, ?_, ?_, ?_, ?_, ?_, Or.inl ⟨rfl, inside, free⟩⟩
    · rw [sameTlb]
      exact last
    · rw [sameTlb]
      exact committed.trans (Tlb.changes_setLine List.mem_cons_self)
    · rw [sameTlb, self]
      exact absent
    · rw [sameTlb, self]
      exact locked
    · rw [sameTlb, self]

theorem Core.checked_quiet {out : Lookup} (effect : s.tlb.LookupEffect s.drisc contextId address out) :
    s.Quiet { s with tlb := out.checked } := by
  cases effect with
  | settled _ checked _ _ => exact ⟨checked, rfl⟩
  | waiting _ checked _ _ _ _ _ => exact ⟨checked, rfl⟩
  | missed _ checked _ _ _ _ _ _ => exact ⟨checked, rfl⟩

theorem Core.committed_quiet {out : Lookup} (effect : s.tlb.LookupEffect s.drisc contextId address out)
    (success : out.result = .success) : s.tlb.Changes out.committed [] ∧ out.committed.lastLine = none := by
  cases effect with
  | settled _ _ committed last => exact ⟨committed, last success⟩
  | waiting delayed _ _ _ _ _ _ => simp [success] at delayed
  | missed delayed _ _ _ _ _ _ _ => simp [success] at delayed

/-- The set of the virtual address has a line for a load whose page is pending. -/
def Core.HasLine (s : Core) (address : Addr) : Prop :=
  (s.cache.getEmptyLine (s.cache.splitAddress address).2.1).isSome = true

/-- The branches of `Read2` after its lookup. -/
inductive Core.ReadBranch (s : Core) (contextId : BitVec 16) (address : Addr) (size : Nat) (reg : Option RegAddr) :
    Lookup → ReadOutcome → Prop
  | translated {looked : Lookup} {out : ReadOutcome} : looked.result = .success →
      readTranslated { s with tlb := looked.committed } looked.res address size reg = .ok out →
      ReadBranch s contextId address size reg looked out
  | parked {looked : Lookup} {cid : Nat} {tlb : Tlb} (line : CacheLine) : looked.result = .delayed →
      s.cache.getEmptyLine (s.cache.splitAddress address).2.1 = some cid →
      looked.committed.setDCacheReference (BitVec.ofNat 32 cid) = .ok tlb →
      line = { DCache.resetLine (s.cache.lines cid) with tlbOffset := parkedOffset tlb address, state := .loading } →
      ReadBranch s contextId address size reg looked
        ⟨.delayed, [], (pushRegister line reg).2, setCacheLine { s with tlb := tlb } cid (pushRegister line reg).1⟩
  | occupied {looked : Lookup} : looked.result = .delayed →
      s.cache.getEmptyLine (s.cache.splitAddress address).2.1 = none →
      ReadBranch s contextId address size reg looked ⟨.failed, [], reg, { s with tlb := looked.checked }⟩
  | failed {looked : Lookup} : looked.result = .failed →
      ReadBranch s contextId address size reg looked ⟨.failed, [], reg, { s with tlb := looked.checked }⟩

theorem Core.read2_branch {size : Nat} {reg : Option RegAddr} {out : ReadOutcome}
    (done : s.read2 contextId address size reg = .ok out) :
    ∃ looked, s.tlb.lookup s.drisc contextId address false = .ok looked ∧
      s.ReadBranch contextId address size reg looked out := by
  simp only [read2, bind, Except.bind, pure, Except.pure, throw, throwThe, MonadExceptOf.throw] at done
  split at done
  · cases done
  split at done
  · cases done
  rename_i looked lookup
  refine ⟨looked, lookup, ?_⟩
  split at done
  · rename_i success
    exact .translated success done
  · rename_i delayed
    split at done
    · rename_i empty
      cases done
      exact .occupied delayed empty
    · rename_i cid empty
      split at done
      · cases done
      · rename_i tlb stored
        cases done
        exact .parked _ delayed empty stored rfl
  · rename_i failed
    cases done
    exact .failed failed

/-- `Read2` parks its register, or leaves locks and responses alone. -/
theorem Core.read2_eq_ok {size : Nat} {reg : Option RegAddr} {out : ReadOutcome}
    (done : s.read2 contextId address size reg = .ok out) :
    (s.Quiet out.core ∧ (out.result = .delayed → out.core.tlb.lastLine = none)) ∨
      (out.result = .delayed ∧ s.HasLine address ∧ ∃ ref dRef, s.Parked contextId address ref dRef out.core) := by
  obtain ⟨looked, lookup, branch⟩ := read2_branch done
  have effect := Tlb.lookup_effect lookup
  cases branch with
  | translated success read =>
    obtain ⟨changes, last⟩ := committed_quiet effect success
    obtain ⟨sameTlb, sameQueue⟩ := readTranslated_eq_ok read
    refine Or.inl ⟨⟨?_, sameQueue⟩, fun _ => ?_⟩
    · rw [sameTlb]
      exact changes
    · rw [sameTlb]
      exact last
  | @parked cid tlb line delayed empty stored _ =>
    obtain ⟨ref, parked⟩ := parked_of_lookup effect delayed stored
      (setCacheLine { s with tlb := tlb } cid (pushRegister line reg).1) rfl rfl
    exact Or.inr ⟨rfl, Option.isSome_iff_exists.mpr ⟨cid, empty⟩, ref, _, parked⟩
  | occupied _ _ => exact Or.inl ⟨checked_quiet effect, by simp⟩
  | failed _ => exact Or.inl ⟨checked_quiet effect, by simp⟩

/-- The branches of `Write2` after its lookup. -/
inductive Core.WriteBranch (s : Core) (address : Addr) (data : List Byte) (tid : Nat) :
    Lookup → ExtendedResult × Core → Prop
  | translated {looked : Lookup} {out : ExtendedResult × Core} : looked.result = .success →
      writeTranslated { s with tlb := looked.committed } looked.res address data tid = .ok out →
      WriteBranch s address data tid looked out
  | parked {looked : Lookup} {tlb : Tlb} : looked.result = .delayed →
      looked.committed.setDCacheReference invalidCid = .ok tlb →
      WriteBranch s address data tid looked (.active, { s with tlb := tlb })
  | failed {looked : Lookup} : looked.result = .failed →
      WriteBranch s address data tid looked (.failed, { s with tlb := looked.checked })

theorem Core.write2_branch {data : List Byte} {tid : Nat} {out : ExtendedResult × Core}
    (done : s.write2 contextId address data tid = .ok out) :
    ∃ looked, s.tlb.lookup s.drisc contextId address false = .ok looked ∧
      s.WriteBranch address data tid looked out := by
  simp only [write2, bind, Except.bind, pure, Except.pure, throw, throwThe, MonadExceptOf.throw] at done
  split at done
  · cases done
  split at done
  · cases done
  rename_i looked lookup
  refine ⟨looked, lookup, ?_⟩
  split at done
  · rename_i delayed
    split at done
    · cases done
    · rename_i tlb stored
      cases done
      exact .parked delayed stored
  · rename_i failed
    cases done
    exact .failed failed
  · rename_i success
    exact .translated success done

/-- `Write2` parks its thread, or leaves locks and responses alone. -/
theorem Core.write2_eq_ok {data : List Byte} {tid : Nat} {out : ExtendedResult × Core}
    (done : s.write2 contextId address data tid = .ok out) :
    (s.Quiet out.2 ∧ out.1 ≠ .active) ∨
      (out.1 = .active ∧ ∃ ref, s.Parked contextId address ref invalidCid out.2) := by
  obtain ⟨looked, lookup, branch⟩ := write2_branch done
  have effect := Tlb.lookup_effect lookup
  cases branch with
  | translated success write =>
    obtain ⟨changes, _⟩ := committed_quiet effect success
    obtain ⟨inactive, sameTlb, sameQueue⟩ := writeTranslated_eq_ok write
    refine Or.inl ⟨⟨?_, sameQueue⟩, inactive⟩
    rw [sameTlb]
    exact changes
  | parked delayed stored => exact Or.inr ⟨rfl, parked_of_lookup effect delayed stored _ rfl rfl⟩
  | failed _ => exact Or.inl ⟨checked_quiet effect, by simp⟩

end Access

section Lines
variable {c c' : DCache}

theorem DCache.initiateWriteback_lookupResponses {cid : Nat} (done : c.initiateWriteback cid = some c') :
    c'.lookupResponses = c.lookupResponses := by
  simp only [initiateWriteback] at done
  split at done
  · cases done
    rfl
  · obtain ⟨_, _, rfl⟩ := Option.map_eq_some_iff.mp done
    rfl

theorem DCache.doReadResponses_lookupResponses {result : Result} (done : c.doReadResponses = .ok (result, c')) :
    c'.lookupResponses = c.lookupResponses := by
  simp only [doReadResponses] at done
  split at done
  · cases done
  split at done
  · cases done
  split at done
  · cases done
    rfl
  · rename_i pushed
    cases done
    have same := initiateWriteback_lookupResponses pushed
    exact same

theorem DCache.onMemoryReadCompleted_lookupResponses (addr : Addr) (data : Nat → Byte) :
    (c.onMemoryReadCompleted addr data).2.lookupResponses = c.lookupResponses := by
  simp only [onMemoryReadCompleted]
  split
  · rfl
  · split
    · rfl
    · split <;> rfl

theorem DCache.onMemorySnooped_lookupResponses (addr : Addr) (data : Nat → Byte) (mask : Nat → Bool) :
    (c.onMemorySnooped addr data mask).lookupResponses = c.lookupResponses := by
  simp only [onMemorySnooped]
  split <;> rfl

theorem DCache.onMemoryInvalidated_lookupResponses (addr : Addr) :
    (c.onMemoryInvalidated addr).lookupResponses = c.lookupResponses := by
  simp only [onMemoryInvalidated]
  split
  · rfl
  · split <;> rfl

end Lines

section Responses
variable {s s' : Core}

/-- The lines of the cache do not matter to the locks. -/
theorem Core.completeLoad_eq_ok {tlbData : TlbResultMessage} {cid : Nat}
    (done : s.completeLoad tlbData cid = .ok (some s')) :
    s'.tlb = s.tlb ∧ s'.cache.lookupResponses = s.cache.lookupResponses := by
  simp only [completeLoad, bind, Except.bind, pure, Except.pure, throw, throwThe, MonadExceptOf.throw] at done
  split at done
  · cases done
  split at done
  · cases done
  split at done
  · split at done
    · split at done
      · rename_i pushed
        cases done
        have same := DCache.initiateWriteback_lookupResponses pushed
        exact ⟨rfl, same⟩
      · split at done
        · cases done
        · cases done
    · cases done
      exact ⟨rfl, rfl⟩
  · obtain ⟨cache, pushed, rfl⟩ := Option.map_eq_some_iff.mp (Except.ok.inj done)
    obtain ⟨outgoing, _, rfl⟩ := Option.map_eq_some_iff.mp pushed
    exact ⟨rfl, rfl⟩

/-- What `DoLookupResponses` takes from the queue and releases. -/
inductive Core.Consumed (s : Core) : Result × Core → Prop
  | stalled : Consumed s (.failed, s)
  | store {s' : Core} {response : Tlb.Completion} :
      s.cache.lookupResponses.contents = response :: s'.cache.lookupResponses.contents →
      response.present = true → response.cid = invalidCid → s'.tlb = s.tlb → Consumed s (.success, s')
  | load {s' : Core} {response : Tlb.Completion} {ref : LineRef} :
      s.cache.lookupResponses.contents = response :: s'.cache.lookupResponses.contents →
      response.present = true → response.cid ≠ invalidCid → response.tlbLineRef = some ref →
      (s.tlb.line ref).locked = true → (s.tlb.line ref).present = true →
      s'.tlb = s.tlb.setLine ref { s.tlb.line ref with locked := false } → Consumed s (.success, s')

theorem Core.doLookupResponses_eq_ok {out : Result × Core} (done : s.doLookupResponses = .ok out) :
    s.Consumed out := by
  simp only [doLookupResponses, bind, Except.bind, pure, Except.pure, throw, throwThe, MonadExceptOf.throw] at done
  split at done
  · cases done
  rename_i response queue taken
  obtain ⟨contents, _⟩ := Buffer.take?_eq_some taken
  split at done
  · cases done
  rename_i present
  rw [Bool.not_eq_true', Bool.not_eq_false] at present
  split at done
  · rename_i magic
    cases done
    exact .store contents present magic rfl
  rename_i valid
  split at done
  · cases done
  rename_i ref atRef
  split at done
  · cases done
  rename_i got line
  obtain ⟨tlbData, tlb⟩ := got
  obtain ⟨locked, filled, same⟩ := Tlb.getLine_eq_ok line
  split at done
  · cases done
  rename_i completed complete
  split at done
  · cases done
    exact .stalled
  · rename_i after
    cases done
    obtain ⟨sameTlb, _⟩ := completeLoad_eq_ok complete
    exact .load contents present valid atRef locked filled (sameTlb.trans same)

theorem Core.onStoreMsg_of_stored {msg : MgtMsg} {response : Tlb.Completion} {tlb : Tlb}
    (stored : s.tlb.onStoreMsg msg = .ok (some (response, tlb))) :
    s.onStoreMsg msg =
      .ok (.success, { s with tlb := tlb, cache := (s.cache.onTlbLookupCompleted response).2 }) := by
  simp only [onStoreMsg, stored, bind, Except.bind]
  rfl

theorem Core.onStoreMsg_of_refused {msg : MgtMsg} (refused : s.tlb.onStoreMsg msg = .ok none) :
    s.onStoreMsg msg = .ok (.failed, s) := by
  simp only [onStoreMsg, refused, bind, Except.bind]
  rfl

end Responses

/-- What one event can do to the translations under way. -/
inductive Effect (s : System) (e : Event) (s' : System) : Prop
  | quiet : s.core.tlb.Changes s'.core.tlb [] →
      s'.core.cache.lookupResponses.contents = s.core.cache.lookupResponses.contents →
      s'.misses = s.misses → s'.delivered = s.delivered → s'.waiters = s.waiters → s'.log = s.log → Effect s e s'
  | missed {ref : LineRef} {waiter : Waiter} : s.core.tlb.Changes s'.core.tlb [ref] → ref.table = 0 →
      (s.core.tlb.Wf → 0 < s.core.tlb.numTables → s.core.tlb.Inside ref) → (s.core.tlb.line ref).locked = false →
      (s'.core.tlb.line ref).present = false → (s'.core.tlb.line ref).locked = true →
      (s'.core.tlb.line ref).dLineRef = waiter.cid →
      s'.core.cache.lookupResponses.contents = s.core.cache.lookupResponses.contents →
      s'.misses = ref.line :: s.misses → s'.delivered = s.delivered →
      s'.waiters = Function.update s.waiters ref.line [waiter] → s'.log = s.log → Effect s e s'
  | joined {ref : LineRef} {waiter : Waiter} : s.core.tlb.Changes s'.core.tlb [ref] →
      (s.core.tlb.line ref).present = false → (s.core.tlb.line ref).locked = true →
      (s'.core.tlb.line ref).present = false → (s'.core.tlb.line ref).locked = true →
      (s'.core.tlb.line ref).dLineRef = waiter.cid →
      (∃ contextId address, s.PendingAt contextId address ref ∧
        ((s.core.HasLine address ∧ ∃ size reg, e = .read contextId address size reg) ∨
          ∃ id data tid, e = .write id contextId address data tid ∧ waiter = .store id)) →
      s'.core.cache.lookupResponses.contents = s.core.cache.lookupResponses.contents →
      s'.misses = s.misses → s'.delivered = s.delivered →
      s'.waiters = Function.update s.waiters ref.line
        (if waiter ∈ s.waiters ref.line then s.waiters ref.line else s.waiters ref.line ++ [waiter]) →
      s'.log = s.log → Effect s e s'
  | answered {msg : MgtMsg} {response : Tlb.Completion} {tlb : Tlb} : e = .answer msg →
      (msg.get .lineIndex).toNat ∈ s.misses → s.core.tlb.Stored msg (response, tlb) → s'.core.tlb = tlb →
      s'.core.cache.lookupResponses = (s.core.cache.onTlbLookupCompleted response).2.lookupResponses →
      s' = s.resolve s'.core (msg.get .lineIndex).toNat response → Effect s e s'
  | consumed : s.core.Consumed (.success, s'.core) → s'.misses = s.misses → s'.delivered = s.delivered.tail →
      s'.waiters = s.waiters → s'.log = s.log → Effect s e s'

namespace System
variable {s s' : System} {e : Event}

theorem effect_of_quiet {core : Core} (quiet : s.core.Quiet core) : Effect s e { s with core := core } :=
  .quiet quiet.tlb (by rw [quiet.queue]) rfl rfl rfl rfl

theorem effect_of_parked {core : Core} {contextId : BitVec 16} {address : Addr} {ref : LineRef} (waiter : Waiter)
    (parked : s.core.Parked contextId address ref waiter.cid core)
    (event : (s.core.HasLine address ∧ ∃ size reg, e = .read contextId address size reg) ∨
      ∃ id data tid, e = .write id contextId address data tid ∧ waiter = .store id) :
    Effect s e (s.park core ref waiter) := by
  rcases parked.origin with ⟨first, inside, free⟩ | ⟨translated, holds, before⟩
  · have missed : (!(s.core.tlb.line ref).is .pending) = true := by simp [free]
    refine .missed parked.changes first inside free parked.absent parked.locked parked.reference
      (by rw [← parked.queue]; rfl) ?_ rfl ?_ rfl
    · simp only [park, missed, if_true]
    · simp only [park, missed, if_true]
  · have locked : (s.core.tlb.line ref).locked = true := holds.inUse.1.resolve_left (by simp [before])
    have waiting : (!(s.core.tlb.line ref).is .pending) = false := by simp [before, locked]
    refine .joined parked.changes before locked parked.absent parked.locked parked.reference
      ⟨contextId, address, ⟨translated, holds, before⟩, event⟩ (by rw [← parked.queue]; rfl) ?_ rfl ?_ rfl
    · simp only [park, waiting, Bool.false_eq_true, if_false]
    · simp only [park, waiting, Bool.false_eq_true, if_false]

theorem effect_of_cache {cache : DCache}
    (queue : cache.lookupResponses.contents = s.core.cache.lookupResponses.contents) :
    Effect s e (s.withCache cache) :=
  .quiet (.of_eq rfl rfl) queue rfl rfl rfl rfl

/-- Every event has one of the effects. -/
theorem step_effect (taken : s.step e = some s') : Effect s e s' := by
  cases e with
  | read contextId address size reg =>
    simp only [step] at taken
    split at taken
    · cases taken
    rename_i out done
    rcases Core.read2_eq_ok done with ⟨quiet, settled⟩ | ⟨delayed, hasLine, ref, dRef, parked⟩
    · split at taken
      · rename_i ref delayed last
        rw [settled delayed] at last
        cases last
      · cases taken
        exact effect_of_quiet quiet
    · rw [delayed, parked.last] at taken
      cases taken
      rw [← parked.reference] at parked
      exact effect_of_parked (.load s.serial (out.core.tlb.line ref).dLineRef) parked
        (Or.inl ⟨hasLine, size, reg, rfl⟩)
  | write id contextId address data tid =>
    simp only [step] at taken
    split at taken
    · cases taken
    rename_i result core done
    rcases Core.write2_eq_ok done with ⟨quiet, inactive⟩ | ⟨active, ref, parked⟩
    · split at taken
      · exact absurd rfl inactive
      · cases taken
        exact effect_of_quiet quiet
    · dsimp only at active parked
      rw [active, parked.last] at taken
      cases taken
      exact effect_of_parked (.store id) parked (Or.inr ⟨id, data, tid, rfl, rfl⟩)
  | answer msg =>
    simp only [step] at taken
    split at taken
    · rename_i wanted
      split at taken
      · rename_i response tlb result core stored whole
        cases taken
        rw [Core.onStoreMsg_of_stored stored] at whole
        cases whole
        exact .answered rfl wanted.2 (Tlb.onStoreMsg_eq_ok stored) rfl rfl rfl
      · rename_i result core stored whole
        cases taken
        rw [Core.onStoreMsg_of_refused stored] at whole
        cases whole
        exact .quiet (.of_eq rfl rfl) rfl rfl rfl rfl rfl
      · cases taken
    · cases taken
  | invalidate msg =>
    simp only [step] at taken
    split at taken
    · rename_i tlb done
      cases taken
      exact .quiet (Tlb.onInvalidateMsg_changes done) rfl rfl rfl rfl rfl
    · cases taken
  | property msg =>
    simp only [step] at taken
    split at taken
    · rename_i tlb done
      cases taken
      exact .quiet (Tlb.onPropertyMsg_changes done) rfl rfl rfl rfl rfl
    · cases taken
  | lookupResponses =>
    simp only [step] at taken
    split at taken
    · rename_i core done
      cases taken
      exact .consumed (Core.doLookupResponses_eq_ok done) rfl rfl rfl rfl
    · rename_i result core other done
      cases taken
      cases Core.doLookupResponses_eq_ok done with
      | stalled => exact .quiet (.of_eq rfl rfl) rfl rfl rfl rfl rfl
      | store _ _ _ _ => exact absurd rfl other
      | load _ _ _ _ _ _ _ => exact absurd rfl other
    · cases taken
  | readResponses =>
    simp only [step] at taken
    split at taken
    · rename_i result cache done
      cases taken
      exact effect_of_cache (by rw [DCache.doReadResponses_lookupResponses done])
    · cases taken
  | memoryRead address data =>
    cases taken
    exact effect_of_cache (by rw [DCache.onMemoryReadCompleted_lookupResponses])
  | snoop address data mask =>
    cases taken
    exact effect_of_cache (by rw [DCache.onMemorySnooped_lookupResponses])
  | memoryInvalidate address =>
    cases taken
    exact effect_of_cache (by rw [DCache.onMemoryInvalidated_lookupResponses])
  | outgoing =>
    obtain ⟨_, _, rfl⟩ := Option.map_eq_some_iff.mp taken
    exact effect_of_cache rfl
  | writebacks =>
    obtain ⟨_, _, rfl⟩ := Option.map_eq_some_iff.mp taken
    exact effect_of_cache rfl
  | transmit =>
    obtain ⟨_, _, rfl⟩ := Option.map_eq_some_iff.mp taken
    exact .quiet (.of_eq rfl rfl) rfl rfl rfl rfl rfl
  | endCycle =>
    cases taken
    exact .quiet (.of_eq rfl rfl) (Buffer.contents_update _) rfl rfl rfl rfl

end System

end Mgsim.Drisc
