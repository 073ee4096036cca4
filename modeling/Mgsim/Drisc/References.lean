import Mathlib.Data.List.Perm.Subperm
import Mgsim.Drisc.Waiting
import Mgsim.Drisc.LineEffect

namespace Mgsim.Drisc
open Mgsim.Lib Mgsim.Mmu

/-- The cache lines that the answers of the TLB will be for: the references of the
pending lines, and the responses in the queue. Those of the stores are left out. -/
def System.references (s : System) : List (BitVec 32) :=
  ((s.misses.map fun i => (s.core.tlb.line ⟨0, i⟩).dLineRef) ++
    s.core.cache.lookupResponses.contents.map Tlb.Completion.cid).filter fun cid => cid ≠ invalidCid

/-- How a use changes the references. -/
def Use.Refers (before after : List (BitVec 32)) : Use → Prop
  | .park cid _ _ => after.Subperm (BitVec.ofNat 32 cid :: before)
  | .resolve cid _ _ | .merge cid _ _ =>
    ∃ reference : BitVec 32, reference.toNat = cid ∧ (reference :: after).Subperm before
  | .keep | .join .. | .request .. | .bytes .. | .finish _ | .deliver _ => after.Subperm before

/-- The references that a use may not lose. -/
def Use.Keeps (before after : List (BitVec 32)) : Use → Prop
  | .park cid _ _ => (BitVec.ofNat 32 cid ≠ invalidCid → BitVec.ofNat 32 cid ∈ after) ∧ before ⊆ after
  | .resolve cid _ _ | .merge cid _ _ => ∀ reference ∈ before, reference.toNat = cid ∨ reference ∈ after
  | .keep | .join .. | .request .. | .bytes .. | .finish _ | .deliver _ => before ⊆ after

theorem Use.Plain.refers {before after : List (BitVec 32)} {use : Use} (plain : use.Plain)
    (fewer : after.Subperm before) : use.Refers before after := by
  cases use with
  | park | resolve | merge => exact plain.elim
  | keep | join | request | bytes | finish | deliver => exact fewer

theorem Use.Plain.keeps {before after : List (BitVec 32)} {use : Use} (plain : use.Plain)
    (kept : before ⊆ after) : use.Keeps before after := by
  cases use with
  | park | resolve | merge => exact plain.elim
  | keep | join | request | bytes | finish | deliver => exact kept

/-- The accesses that overwrite no reference to a line, and the answers that do not
lose one. A load may follow a store whose miss is under way. -/
def System.Lossless (s : System) : Event → Prop
  | .read contextId address _ _ => s.core.HasLine address → ∀ ref, s.PendingAt contextId address ref →
      (s.core.tlb.line ref).dLineRef = invalidCid ∧ ref.line ∈ s.misses
  | .write _ contextId address _ _ => ∀ ref, s.PendingAt contextId address ref →
      (s.core.tlb.line ref).dLineRef = invalidCid
  | .answer msg => Refuses s.core.tlb msg ∨ s.core.cache.lookupResponses.HasRoom ∨
      (s.core.tlb.line ⟨0, (msg.get .lineIndex).toNat⟩).dLineRef = invalidCid
  | _ => True

/-- A function that is changed at one point gives at most one new value. -/
theorem map_subperm_of_agree {α β : Type} [DecidableEq α] {f g : α → β} {i : α} {items : List α} (nodup : items.Nodup)
    (agree : ∀ j ∈ items, j ≠ i → g j = f j) : (items.map g).Subperm (g i :: items.map f) := by
  have others : ∀ rest : List α, (∀ j ∈ rest, j ∈ items ∧ j ≠ i) → rest.map g = rest.map f :=
    fun rest inside => List.map_congr_left fun j member => agree j (inside j member).1 (inside j member).2
  by_cases member : i ∈ items
  · have split := List.perm_cons_erase member
    have erased := others (items.erase i) fun j inErased =>
      ⟨List.mem_of_mem_erase inErased, (nodup.mem_erase_iff.mp inErased).1⟩
    have after : (items.map g).Perm (g i :: (items.erase i).map f) := by
      rw [← erased]
      exact split.map g
    have fewer : ((items.erase i).map f).Subperm (items.map f) := (List.erase_sublist.map f).subperm
    exact after.subperm.trans ((List.subperm_cons (g i)).mpr fewer)
  · rw [others items fun j inItems => ⟨inItems, fun same => member (same ▸ inItems)⟩]
    exact List.Subperm.cons_self

section Step
variable {s s' : System}

theorem System.mem_references {reference : BitVec 32} : reference ∈ s.references ↔ reference ≠ invalidCid ∧
    ((∃ i ∈ s.misses, (s.core.tlb.line ⟨0, i⟩).dLineRef = reference) ∨
      ∃ response ∈ s.core.cache.lookupResponses.contents, response.cid = reference) := by
  simp only [System.references, List.mem_filter, List.mem_append, List.mem_map, decide_eq_true_eq]
  exact and_comm

/-- The references of the misses, for which a line has been changed. -/
theorem references_subperm {references : List (BitVec 32)}
    (others : (s'.misses.map fun i => (s'.core.tlb.line ⟨0, i⟩).dLineRef).Subperm
      (references ++ s.misses.map fun i => (s.core.tlb.line ⟨0, i⟩).dLineRef))
    (same : s'.core.cache.lookupResponses.contents = s.core.cache.lookupResponses.contents) :
    s'.references.Subperm ((references.filter fun cid => cid ≠ invalidCid) ++ s.references) := by
  have whole := (List.subperm_append_right (s.core.cache.lookupResponses.contents.map Tlb.Completion.cid)).mpr others
  have kept := whole.filter fun cid => cid ≠ invalidCid
  rw [List.append_assoc, List.filter_append references] at kept
  rw [System.references, same]
  exact kept

theorem Waiting.references_same (waiting : Waiting s) (changes : s.core.tlb.Changes s'.core.tlb [])
    (misses : s'.misses = s.misses)
    (queue : s'.core.cache.lookupResponses.contents = s.core.cache.lookupResponses.contents) :
    s'.references = s.references := by
  have same : (s.misses.map fun i => (s'.core.tlb.line ⟨0, i⟩).dLineRef) =
      s.misses.map fun i => (s.core.tlb.line ⟨0, i⟩).dLineRef :=
    List.map_congr_left fun i member => (changes.kept _ (by simp) (waiting.pending i member).2).2
  rw [System.references, System.references, misses, queue, same]

/-- A parked access leaves its reference in one line. -/
theorem Waiting.references_parked (waiting : Waiting s) {contextId : BitVec 16} {address : Addr} {ref : LineRef}
    {dRef : BitVec 32} {core : Core} (parked : s.core.Parked contextId address ref dRef core) (waiter : Waiter) :
    (s.park core ref waiter).references.Subperm (([dRef].filter fun cid => cid ≠ invalidCid) ++ s.references) := by
  have first : ref.table = 0 := by
    rcases parked.origin with ⟨table, _, _⟩ | ⟨translated, holds, absent⟩
    · exact table
    · exact waiting.pendingAt_table ⟨translated, holds, absent⟩
  obtain ⟨table, line⟩ := ref
  dsimp only at first
  subst first
  have agree : ∀ j ∈ s.misses, j ≠ line → (core.tlb.line ⟨0, j⟩).dLineRef = (s.core.tlb.line ⟨0, j⟩).dLineRef := by
    intro j member other
    exact (parked.changes.kept _ (by simpa using other) (waiting.pending j member).2).2
  have reference := parked.reference
  refine references_subperm ?_ (by rw [← parked.queue]; rfl)
  rcases parked.origin with ⟨_, _, free⟩ | ⟨_, holds, absent⟩
  · have missed : (!(s.core.tlb.line ⟨0, line⟩).is .pending) = true := by simp [free]
    have fresh := waiting.not_mem_misses free
    have others : (s.misses.map fun i => (core.tlb.line ⟨0, i⟩).dLineRef) =
        s.misses.map fun i => (s.core.tlb.line ⟨0, i⟩).dLineRef :=
      List.map_congr_left fun j member => agree j member fun same => fresh (same ▸ member)
    simp only [System.park, missed, if_true, List.map_cons, others, reference, List.singleton_append]
    exact List.Subperm.refl _
  · have locked : (s.core.tlb.line ⟨0, line⟩).locked = true := holds.inUse.1.resolve_left (by simp [absent])
    have joined : (!(s.core.tlb.line ⟨0, line⟩).is .pending) = false := by simp [absent, locked]
    simp only [System.park, joined, Bool.false_eq_true, if_false, List.singleton_append, ← reference]
    exact map_subperm_of_agree waiting.nodup agree

/-- A parked access that joins no load loses no reference. -/
theorem Waiting.references_parked_kept (waiting : Waiting s) {contextId : BitVec 16} {address : Addr} {ref : LineRef}
    {dRef : BitVec 32} {core : Core} (parked : s.core.Parked contextId address ref dRef core) (waiter : Waiter)
    (alone : s.PendingAt contextId address ref → (s.core.tlb.line ref).dLineRef = invalidCid) :
    s.references ⊆ (s.park core ref waiter).references := by
  intro reference member
  obtain ⟨valid, source⟩ := System.mem_references.mp member
  refine System.mem_references.mpr ⟨valid, ?_⟩
  rcases source with ⟨i, miss, same⟩ | queued
  · have other : (⟨0, i⟩ : LineRef) ≠ ref := by
      rintro rfl
      rcases parked.origin with ⟨_, _, free⟩ | ⟨translated, holds, absent⟩
      · exact waiting.not_mem_misses free miss
      · rw [alone ⟨translated, holds, absent⟩] at same
        exact valid same.symm
    have kept := (parked.changes.kept ⟨0, i⟩ (by simpa using other) (waiting.pending i miss).2).2
    refine Or.inl ⟨i, ?_, kept.trans same⟩
    simp only [System.park]
    split
    · exact List.mem_cons_of_mem _ miss
    · exact miss
  · refine Or.inr ?_
    change ∃ response ∈ core.cache.lookupResponses.contents, response.cid = reference
    rw [parked.queue]
    exact queued

/-- The reference of a parked load is there, when its line is pending as a miss. -/
theorem Waiting.references_parked_own (waiting : Waiting s) {contextId : BitVec 16} {address : Addr} {ref : LineRef}
    {dRef : BitVec 32} {core : Core} (parked : s.core.Parked contextId address ref dRef core) (waiter : Waiter)
    (valid : dRef ≠ invalidCid) (missed : s.PendingAt contextId address ref → ref.line ∈ s.misses) :
    dRef ∈ (s.park core ref waiter).references := by
  refine System.mem_references.mpr ⟨valid, Or.inl ⟨ref.line, ?_, ?_⟩⟩
  · simp only [System.park]
    rcases parked.origin with ⟨_, _, free⟩ | ⟨translated, holds, absent⟩
    · have free' : (!(s.core.tlb.line ref).is .pending) = true := by simp [free]
      rw [if_pos free']
      exact List.mem_cons_self
    · have locked : (s.core.tlb.line ref).locked = true := holds.inUse.1.resolve_left (by simp [absent])
      have joined : (!(s.core.tlb.line ref).is .pending) = false := by simp [absent, locked]
      rw [joined, if_neg Bool.false_ne_true]
      exact missed ⟨translated, holds, absent⟩
  · have first : ref.table = 0 := by
      rcases parked.origin with ⟨table, _, _⟩ | ⟨translated, holds, absent⟩
      · exact table
      · exact waiting.pendingAt_table ⟨translated, holds, absent⟩
    have own : (⟨0, ref.line⟩ : LineRef) = ref := by rw [← first]
    rw [own]
    exact parked.reference

/-- An answer moves the reference of its line to the queue, or loses it. -/
theorem Waiting.references_answered (waiting : Waiting s) {msg : MgtMsg} {response : Tlb.Completion} {core : Core}
    (wanted : (msg.get .lineIndex).toNat ∈ s.misses) (stored : s.core.tlb.Stored msg (response, core.tlb))
    (same : core.cache = (s.core.cache.onTlbLookupCompleted response).2) :
    (s.resolve core (msg.get .lineIndex).toNat response).references.Subperm s.references := by
  obtain ⟨_, reference⟩ := stored_pending stored
  obtain ⟨refs, changes, touched⟩ := stored_changes stored
  have others : ((s.misses.erase (msg.get .lineIndex).toNat).map fun i => (core.tlb.line ⟨0, i⟩).dLineRef) =
      (s.misses.erase (msg.get .lineIndex).toNat).map fun i => (s.core.tlb.line ⟨0, i⟩).dLineRef := by
    refine List.map_congr_left fun j member => ?_
    obtain ⟨other, inMisses⟩ := waiting.nodup.mem_erase_iff.mp member
    refine (changes.kept _ (fun inRefs => ?_) (waiting.pending j inMisses).2).2
    rcases touched _ inRefs with own | ⟨different, _⟩
    · exact other (congrArg LineRef.line own)
    · exact different rfl
  have before := (List.perm_cons_erase wanted).map fun i => (s.core.tlb.line ⟨0, i⟩).dLineRef
  rw [List.map_cons, ← reference] at before
  have queue : core.cache.lookupResponses.contents.map Tlb.Completion.cid =
      s.core.cache.lookupResponses.contents.map Tlb.Completion.cid ∨
      core.cache.lookupResponses.contents.map Tlb.Completion.cid =
        s.core.cache.lookupResponses.contents.map Tlb.Completion.cid ++ [response.cid] := by
    rw [same, DCache.onTlbLookupCompleted]
    split
    · rename_i pushed
      right
      rw [Buffer.contents_push pushed, List.map_append]
      rfl
    · exact Or.inl rfl
  refine List.Subperm.filter _ ?_
  simp only [System.resolve, others]
  generalize s.core.cache.lookupResponses.contents.map Tlb.Completion.cid = waitingCids at queue ⊢
  generalize (s.misses.erase (msg.get .lineIndex).toNat).map (fun i => (s.core.tlb.line ⟨0, i⟩).dLineRef) = rest
    at before ⊢
  have whole := (before.append_right waitingCids).symm.subperm
  refine List.Subperm.trans ?_ whole
  rcases queue with dropped | queued
  · rw [dropped]
    exact List.Subperm.cons_self
  · rw [queued]
    rw [← List.append_assoc]
    exact (List.perm_append_singleton response.cid (rest ++ waitingCids)).subperm

/-- The consumed response was the front of the queue, and the lines of the misses are not touched. -/
theorem Waiting.consumed_front (waiting : Waiting s) {queue : Buffer Tlb.Completion} {response : Tlb.Completion}
    (front : s.core.cache.lookupResponses.take? = some (response, queue))
    (consumed : s.core.Consumed (.success, s'.core)) :
    s.core.cache.lookupResponses.contents = response :: s'.core.cache.lookupResponses.contents ∧
      ∀ i ∈ s.misses, (s'.core.tlb.line ⟨0, i⟩).dLineRef = (s.core.tlb.line ⟨0, i⟩).dLineRef := by
  have atFront := (Buffer.take?_eq_some front).1
  cases consumed with
  | store contents _ _ same =>
    rw [contents] at atFront
    cases (List.cons.inj atFront).1
    exact ⟨contents, fun i _ => by rw [same]⟩
  | @load _ _ ref contents _ _ _ _ present same =>
    rw [contents] at atFront
    cases (List.cons.inj atFront).1
    refine ⟨contents, fun i member => ?_⟩
    rw [same, Tlb.line_setLine_ne]
    rintro rfl
    have absent := (waiting.pending i member).1
    rw [present] at absent
    cases absent

/-- A consumed response is gone from the references. -/
theorem Waiting.references_consumed (waiting : Waiting s) {queue : Buffer Tlb.Completion} {response : Tlb.Completion}
    (front : s.core.cache.lookupResponses.take? = some (response, queue))
    (consumed : s.core.Consumed (.success, s'.core)) (misses : s'.misses = s.misses) :
    (([response.cid].filter fun cid => cid ≠ invalidCid) ++ s'.references).Subperm s.references := by
  have taken := waiting.consumed_front front consumed
  have others : (s'.misses.map fun i => (s'.core.tlb.line ⟨0, i⟩).dLineRef) =
      s.misses.map fun i => (s.core.tlb.line ⟨0, i⟩).dLineRef := by
    rw [misses]
    exact List.map_congr_left taken.2
  rw [System.references, System.references, others, taken.1, List.map_cons, ← List.filter_append]
  refine List.Subperm.filter _ ?_
  rw [List.singleton_append]
  exact List.perm_middle.symm.subperm

theorem Waiting.references_answered_kept (waiting : Waiting s) {msg : MgtMsg} {response : Tlb.Completion} {core : Core}
    (stored : s.core.tlb.Stored msg (response, core.tlb))
    (same : core.cache = (s.core.cache.onTlbLookupCompleted response).2)
    (room : s.core.cache.lookupResponses.HasRoom ∨
      (s.core.tlb.line ⟨0, (msg.get .lineIndex).toNat⟩).dLineRef = invalidCid) :
    s.references ⊆ (s.resolve core (msg.get .lineIndex).toNat response).references := by
  obtain ⟨_, own⟩ := stored_pending stored
  obtain ⟨refs, changes, touched⟩ := stored_changes stored
  intro reference member
  obtain ⟨valid, source⟩ := System.mem_references.mp member
  refine System.mem_references.mpr ⟨valid, ?_⟩
  have queue : ∀ other ∈ s.core.cache.lookupResponses.contents, other ∈ core.cache.lookupResponses.contents := by
    intro other inQueue
    rw [same, DCache.onTlbLookupCompleted]
    split
    · rename_i pushed
      rw [Buffer.contents_push pushed]
      exact List.mem_append_left _ inQueue
    · exact inQueue
  rcases source with ⟨i, miss, atLine⟩ | ⟨other, inQueue, cid⟩
  · by_cases answered : i = (msg.get .lineIndex).toNat
    · subst answered
      have hasRoom := room.resolve_right fun store => valid (atLine.symm.trans store)
      obtain ⟨buffer, pushed, contents⟩ := hasRoom.push response
      refine Or.inr ⟨response, ?_, own.trans atLine⟩
      change response ∈ core.cache.lookupResponses.contents
      simp [same, DCache.onTlbLookupCompleted, pushed, contents]
    · have outside : (⟨0, i⟩ : LineRef) ∉ refs := by
        intro inRefs
        rcases touched _ inRefs with line | ⟨different, _⟩
        · exact answered (congrArg LineRef.line line)
        · exact different rfl
      have kept := (changes.kept _ outside (waiting.pending i miss).2).2
      exact Or.inl ⟨i, (waiting.nodup.mem_erase_iff).mpr ⟨answered, miss⟩, kept.trans atLine⟩
  · exact Or.inr ⟨other, queue other inQueue, cid⟩

theorem Waiting.references_consumed_kept (waiting : Waiting s) {queue : Buffer Tlb.Completion}
    {response : Tlb.Completion} (front : s.core.cache.lookupResponses.take? = some (response, queue))
    (consumed : s.core.Consumed (.success, s'.core)) (misses : s'.misses = s.misses) :
    ∀ reference ∈ s.references, reference = response.cid ∨ reference ∈ s'.references := by
  intro reference member
  obtain ⟨valid, source⟩ := System.mem_references.mp member
  obtain ⟨contents, kept⟩ := waiting.consumed_front front consumed
  rcases source with ⟨i, miss, atLine⟩ | ⟨other, inQueue, cid⟩
  · exact Or.inr (System.mem_references.mpr ⟨valid, Or.inl ⟨i, misses ▸ miss, (kept i miss).trans atLine⟩⟩)
  · rw [contents] at inQueue
    rcases List.mem_cons.mp inQueue with rfl | later
    · exact Or.inl cid.symm
    · exact Or.inr (System.mem_references.mpr ⟨valid, Or.inr ⟨other, later, cid⟩⟩)

end Step

theorem DCache.completionUse_cases (c : DCache) (tlbData : TlbResultMessage) (cid : Nat) :
    (∃ other, c.completionUse tlbData cid = .merge cid other tlbData) ∨
      ∃ addr, c.completionUse tlbData cid = .resolve cid tlbData addr := by
  unfold completionUse
  dsimp only
  split
  · exact Or.inl ⟨_, rfl⟩
  · exact Or.inr ⟨_, rfl⟩

theorem Core.plain_writeUse (s : Core) (contextId : BitVec 16) (address : Addr) :
    (s.writeUse contextId address).Plain := by
  unfold writeUse
  split
  · trivial
  rename_i looked _
  split
  · dsimp only
    cases s.cache.stores (physicalAddress looked.res address) <;> trivial
  · trivial

theorem Use.plain_bytes (found : Option Nat) (addr : Addr) :
    ((found.map fun cid => Use.bytes cid addr).getD .keep).Plain := by
  cases found <;> trivial

/-- What one event does to the lines, the completed reads and the references. -/
structure SetStep (s : System) (use : Use) (lossless : Prop) (s' : System) : Prop where
  geometry : s.core.cache.SameGeometry s'.core.cache
  lines : LineEffect s.core.cache s'.core.cache use
  refers : use.Refers s.references s'.references
  keeps : lossless → use.Keeps s.references s'.references

section Events
variable {s s' : System} {lossless : Prop}

theorem SetStep.of_same {use : Use} (geometry : s.core.cache.SameGeometry s'.core.cache)
    (lines : LineEffect s.core.cache s'.core.cache use) (plain : use.Plain) (same : s'.references = s.references) :
    SetStep s use lossless s' :=
  ⟨geometry, lines, plain.refers (same ▸ List.Subperm.refl _), fun _ => plain.keeps (same ▸ List.Subset.refl _)⟩

/-- An event that has nothing to do with translations. -/
theorem Waiting.setStep_of_cache (waiting : Waiting s) {use : Use} {cache : DCache}
    (geometry : s.core.cache.SameGeometry cache) (lines : LineEffect s.core.cache cache use)
    (queue : cache.lookupResponses.contents = s.core.cache.lookupResponses.contents) (plain : use.Plain) :
    SetStep s use lossless (s.withCache cache) :=
  .of_same geometry lines plain (waiting.references_same (.of_eq rfl rfl) rfl queue)

/-- An event that leaves the lines alone. -/
theorem Waiting.setStep_of_tlb (waiting : Waiting s) (geometry : s.core.cache.SameGeometry s'.core.cache)
    (view : s'.core.cache.view = s.core.cache.view) (changes : s.core.tlb.Changes s'.core.tlb [])
    (misses : s'.misses = s.misses)
    (queue : s'.core.cache.lookupResponses.contents = s.core.cache.lookupResponses.contents) :
    SetStep s .keep lossless s' :=
  .of_same geometry (.kept view) trivial (waiting.references_same changes misses queue)

theorem Waiting.setStep_read (waiting : Waiting s) {contextId : BitVec 16} {address : Addr} {size : Nat}
    {reg : Option RegAddr} (taken : s.step (.read contextId address size reg) = some s') :
    SetStep s (s.core.readUse contextId address size reg) (s.Lossless (.read contextId address size reg)) s' := by
  simp only [System.step] at taken
  split at taken
  · cases taken
  rename_i out done
  obtain ⟨⟨geometry, lines, _⟩, ⟨quiet, settled, plain⟩ | ⟨delayed, cid, ref, use, parked⟩⟩ := Core.read2_lines done
  · split at taken
    · rename_i ref delayed last
      rw [settled delayed] at last
      cases last
    · cases taken
      exact .of_same geometry lines plain (waiting.references_same quiet.tlb rfl (by rw [← quiet.queue]))
  · rw [delayed, parked.last] at taken
    cases taken
    rw [use] at lines ⊢
    refine ⟨geometry, lines, ?_, fun alone => ⟨fun valid => ?_, ?_⟩⟩
    · exact (waiting.references_parked parked _).trans
        ((List.subperm_append_right s.references).mpr List.filter_sublist.subperm)
    · have hasLine : s.core.HasLine address := by
        cases lines with
        | parked empty _ => exact Option.isSome_iff_exists.mpr ⟨cid, empty⟩
      exact waiting.references_parked_own parked _ valid fun found => (alone hasLine ref found).2
    · have hasLine : s.core.HasLine address := by
        cases lines with
        | parked empty _ => exact Option.isSome_iff_exists.mpr ⟨cid, empty⟩
      exact waiting.references_parked_kept parked _ fun found => (alone hasLine ref found).1

theorem Waiting.setStep_write (waiting : Waiting s) {id : Nat} {contextId : BitVec 16} {address : Addr}
    {data : List Byte} {tid : Nat} (taken : s.step (.write id contextId address data tid) = some s') :
    SetStep s (s.core.writeUse contextId address) (s.Lossless (.write id contextId address data tid)) s' := by
  have plain := s.core.plain_writeUse contextId address
  simp only [System.step] at taken
  split at taken
  · cases taken
  rename_i result core done
  obtain ⟨geometry, lines⟩ := Core.write2_lines done
  rcases Core.write2_eq_ok done with ⟨quiet, inactive⟩ | ⟨active, ref, parked⟩
  · split at taken
    · exact absurd rfl inactive
    · cases taken
      exact .of_same geometry lines plain (waiting.references_same quiet.tlb rfl (by rw [← quiet.queue]))
  · dsimp only at active parked
    rw [active, parked.last] at taken
    cases taken
    have references := waiting.references_parked parked (.store id)
    exact ⟨geometry, lines, plain.refers (by simpa using references),
      fun alone => plain.keeps (waiting.references_parked_kept parked _ (alone ref))⟩

theorem Waiting.setStep_answer (waiting : Waiting s) {msg : MgtMsg} (taken : s.step (.answer msg) = some s') :
    SetStep s .keep (s.Lossless (.answer msg)) s' := by
  simp only [System.step] at taken
  split at taken
  · rename_i wanted
    split at taken
    · rename_i response tlb result core stored whole
      cases taken
      rw [Core.onStoreMsg_of_stored stored] at whole
      cases whole
      have lines : (s.core.cache.onTlbLookupCompleted response).2.view = s.core.cache.view ∧
          s.core.cache.SameGeometry (s.core.cache.onTlbLookupCompleted response).2 := by
        unfold DCache.onTlbLookupCompleted
        split <;> exact ⟨rfl, ⟨rfl, rfl, rfl⟩⟩
      have effect := Tlb.onStoreMsg_eq_ok stored
      refine ⟨lines.2, .kept lines.1, waiting.references_answered wanted.2 effect rfl, fun room => ?_⟩
      exact waiting.references_answered_kept effect rfl (room.resolve_left (stored_not_refused effect))
    · rename_i result core stored whole
      cases taken
      rw [Core.onStoreMsg_of_refused stored] at whole
      cases whole
      exact waiting.setStep_of_tlb (.refl _) rfl (.of_eq rfl rfl) rfl rfl
    · cases taken
  · cases taken

theorem Waiting.setStep_lookupResponses (waiting : Waiting s) (taken : s.step .lookupResponses = some s') :
    SetStep s (s.use .lookupResponses) lossless s' := by
  simp only [System.step] at taken
  simp only [System.use]
  split at taken
  · rename_i core done
    cases taken
    obtain ⟨geometry, lines, response, queue, front, use⟩ := Core.doLookupResponses_lines done
    have consumed := Core.doLookupResponses_eq_ok done
    have fewer := @Waiting.references_consumed s { s with core := core, delivered := s.delivered.tail } waiting
      queue response front consumed rfl
    have others := @Waiting.references_consumed_kept s { s with core := core, delivered := s.delivered.tail } waiting
      queue response front consumed rfl
    rw [done]
    dsimp only
    rcases use with ⟨store, use⟩ | ⟨valid, tlbData, use⟩
    · rw [use] at lines ⊢
      refine ⟨geometry, lines, (List.sublist_append_right _ _).subperm.trans fewer, fun _ reference member => ?_⟩
      refine (others reference member).resolve_left fun same => ?_
      exact (System.mem_references.mp member).1 (same.trans store)
    · rw [List.filter_cons_of_pos (by simpa using valid), List.filter_nil, List.singleton_append] at fewer
      have kept : ∀ reference ∈ s.references, reference.toNat = response.cid.toNat ∨
          reference ∈ ({ s with core := core, delivered := s.delivered.tail } : System).references :=
        fun reference member => (others reference member).imp_left (congrArg BitVec.toNat)
      rcases s.core.cache.completionUse_cases tlbData response.cid.toNat with ⟨other, merged⟩ | ⟨addr, resolved⟩
      · rw [use, merged] at lines ⊢
        exact ⟨geometry, lines, ⟨response.cid, rfl, fewer⟩, fun _ => kept⟩
      · rw [use, resolved] at lines ⊢
        exact ⟨geometry, lines, ⟨response.cid, rfl, fewer⟩, fun _ => kept⟩
  · rename_i result core other done
    cases taken
    rw [done]
    cases Core.doLookupResponses_eq_ok done with
    | stalled => exact waiting.setStep_of_tlb (.refl _) rfl (.of_eq rfl rfl) rfl rfl
    | store _ _ _ _ => exact absurd rfl other
    | load _ _ _ _ _ _ _ => exact absurd rfl other
  · cases taken

theorem Waiting.setStep_readResponses (waiting : Waiting s) (taken : s.step .readResponses = some s') :
    SetStep s (s.use .readResponses) lossless s' := by
  simp only [System.step] at taken
  simp only [System.use]
  split at taken
  · rename_i result cache done
    cases taken
    have queue : cache.lookupResponses.contents = s.core.cache.lookupResponses.contents := by
      rw [DCache.doReadResponses_lookupResponses done]
    obtain ⟨geometry, ⟨refused, rfl⟩ | ⟨cid, rest, rfl, front, lines⟩⟩ := DCache.doReadResponses_lines done
    · rw [done]
      cases result with
      | success => exact absurd rfl refused
      | delayed => exact waiting.setStep_of_cache geometry (.kept rfl) queue trivial
      | failed => exact waiting.setStep_of_cache geometry (.kept rfl) queue trivial
    · rw [done, front]
      exact waiting.setStep_of_cache geometry lines queue trivial
  · cases taken

/-- Every event does to the sets what its use says. -/
theorem Waiting.setStep (waiting : Waiting s) {e : Event} (taken : s.step e = some s') :
    SetStep s (s.use e) (s.Lossless e) s' := by
  cases e with
  | read contextId address size reg => exact waiting.setStep_read taken
  | write id contextId address data tid => exact waiting.setStep_write taken
  | answer msg => exact waiting.setStep_answer taken
  | invalidate msg =>
    simp only [System.step] at taken
    split at taken
    · rename_i tlb done
      cases taken
      exact waiting.setStep_of_tlb (.refl _) rfl (Tlb.onInvalidateMsg_changes done) rfl rfl
    · cases taken
  | property msg =>
    simp only [System.step] at taken
    split at taken
    · rename_i tlb done
      cases taken
      exact waiting.setStep_of_tlb (.refl _) rfl (Tlb.onPropertyMsg_changes done) rfl rfl
    · cases taken
  | lookupResponses => exact waiting.setStep_lookupResponses taken
  | readResponses => exact waiting.setStep_readResponses taken
  | memoryRead addr data =>
    cases taken
    obtain ⟨geometry, lines⟩ := s.core.cache.onMemoryReadCompleted_lines addr data
    exact waiting.setStep_of_cache geometry lines (by rw [DCache.onMemoryReadCompleted_lookupResponses])
      (Use.plain_bytes _ addr)
  | snoop addr data mask =>
    cases taken
    obtain ⟨geometry, lines⟩ := s.core.cache.onMemorySnooped_lines addr data mask
    exact waiting.setStep_of_cache geometry lines (by rw [DCache.onMemorySnooped_lookupResponses])
      (Use.plain_bytes _ addr)
  | memoryInvalidate addr =>
    cases taken
    obtain ⟨geometry, lines⟩ := s.core.cache.onMemoryInvalidated_lines addr
    exact waiting.setStep_of_cache geometry lines (by rw [DCache.onMemoryInvalidated_lookupResponses]) trivial
  | outgoing =>
    obtain ⟨_, _, rfl⟩ := Option.map_eq_some_iff.mp taken
    exact waiting.setStep_of_tlb ⟨rfl, rfl, rfl⟩ rfl (.of_eq rfl rfl) rfl rfl
  | writebacks =>
    obtain ⟨⟨request, rest⟩, front, rfl⟩ := Option.map_eq_some_iff.mp taken
    have use : s.use .writebacks = .deliver request := by simp only [System.use, front, Option.map_some, Option.getD_some]
    rw [use]
    have popped : LineEffect s.core.cache { s.core.cache with writebacks := rest } (.deliver request) :=
      .delivered (Buffer.take?_eq_some front).1 rfl
    exact waiting.setStep_of_cache ⟨rfl, rfl, rfl⟩ popped rfl trivial
  | transmit =>
    obtain ⟨_, _, rfl⟩ := Option.map_eq_some_iff.mp taken
    exact waiting.setStep_of_tlb (.refl _) rfl (.of_eq rfl rfl) rfl rfl
  | endCycle =>
    cases taken
    have view : DCache.view { s.core.cache with
        lookupResponses := s.core.cache.lookupResponses.update, readResponses := s.core.cache.readResponses.update
        writebacks := s.core.cache.writebacks.update, outgoing := s.core.cache.outgoing.update } = s.core.cache.view :=
      CacheView.ext rfl rfl (Buffer.contents_update _) (Buffer.contents_update _)
    exact waiting.setStep_of_tlb ⟨rfl, rfl, rfl⟩ view (.of_eq rfl rfl) rfl (Buffer.contents_update _)

end Events

end Mgsim.Drisc
