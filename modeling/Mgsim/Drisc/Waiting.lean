import Mgsim.Drisc.Effect

namespace Mgsim.Drisc
open Mgsim.Lib Mgsim.Mmu

/-- What holds in every run: each miss without an answer has a pending line of
its own, and above table 0 only present lines are locked. -/
structure Waiting (s : System) : Prop where
  wf : s.core.tlb.Wf
  nonempty : 0 < s.core.tlb.numTables
  upper : ∀ ref, ref.table < s.core.tlb.numTables → ref.table ≠ 0 → (s.core.tlb.line ref).locked = true →
    (s.core.tlb.line ref).present = true
  inside : ∀ i ∈ s.misses, s.core.tlb.Inside ⟨0, i⟩
  pending : ∀ i ∈ s.misses, (s.core.tlb.line ⟨0, i⟩).present = false ∧ (s.core.tlb.line ⟨0, i⟩).locked = true
  nodup : s.misses.Nodup

section Stored
variable {tlb tlb' : Tlb} {msg : MgtMsg} {response : Tlb.Completion}

theorem stored_pending (stored : tlb.Stored msg (response, tlb')) :
    (tlb.tables 0).IsPending (msg.get .lineIndex).toNat ∧
      response.cid = (tlb.line ⟨0, (msg.get .lineIndex).toNat⟩).dLineRef := by
  cases stored with
  | notPresent _ pending atLine => exact ⟨pending, by rw [atLine]⟩
  | filled _ _ pending atLine => exact ⟨pending, by rw [atLine]⟩
  | moved _ _ _ _ pending atLine _ _ _ => exact ⟨pending, by rw [atLine]⟩

/-- A refill touches the answered line, and a line above table 0 that is
present and locked afterwards. -/
theorem stored_changes (stored : tlb.Stored msg (response, tlb')) :
    ∃ refs, tlb.Changes tlb' refs ∧ ∀ ref ∈ refs, ref = ⟨0, (msg.get .lineIndex).toNat⟩ ∨
      (ref.table ≠ 0 ∧ (tlb'.line ref).present = true) := by
  cases stored with
  | notPresent _ _ _ => exact ⟨[], .of_eq rfl rfl, by simp⟩
  | filled _ _ _ _ =>
    exact ⟨[⟨0, (msg.get .lineIndex).toNat⟩], Tlb.changes_setLine List.mem_cons_self, by simp⟩
  | @moved line victim tableId i _ _ other _ _ _ _ _ _ =>
    refine ⟨[⟨tableId, i⟩, ⟨0, (msg.get .lineIndex).toNat⟩],
      (Tlb.changes_setLine (by simp)).trans (Tlb.changes_setLine (by simp)), fun ref member => ?_⟩
    rcases List.mem_pair.mp member with rfl | rfl
    · refine Or.inr ⟨other, ?_⟩
      rw [Tlb.line_setLine_ne (by simp [other]), Tlb.line_setLine_self]
    · exact Or.inl rfl

/-- A refill whose large page finds its line locked is refused, and tried again. -/
def Refuses (tlb : Tlb) (msg : MgtMsg) : Prop :=
  let tableId := tlb.numTables - 1 - (msg.get .table).toNat
  msg.get .present ≠ 0 ∧ tableId ≠ 0 ∧ ((tlb.tables tableId).lines (tlb.tables tableId).pickDestination).locked = true

instance (tlb : Tlb) (msg : MgtMsg) : Decidable (Refuses tlb msg) := inferInstanceAs (Decidable (_ ∧ _ ∧ _))

theorem stored_not_refused (stored : tlb.Stored msg (response, tlb')) : ¬ Refuses tlb msg := by
  rintro ⟨present, other, locked⟩
  cases stored with
  | notPresent absent _ _ => exact present absent
  | filled _ first _ _ => exact other first
  | moved _ atTable _ _ _ _ place atVictim free =>
    subst atTable place atVictim
    rw [Tlb.line] at free
    rw [free] at locked
    cases locked

end Stored

section Step
variable {s s' : System} {e : Event}

/-- A line can only be found pending in table 0. -/
theorem Waiting.pendingAt_table (waiting : Waiting s) {contextId : BitVec 16} {address : Addr} {ref : LineRef}
    (found : s.PendingAt contextId address ref) : ref.table = 0 := by
  by_contra other
  have locked := found.holds.inUse.1.resolve_left (by simp [found.absent])
  have present := waiting.upper ref found.holds.table other locked
  rw [found.absent] at present
  cases present

/-- The part of the step lemma that the line changes have in common. -/
theorem Waiting.of_changes (waiting : Waiting s) (refs : List LineRef)
    (changes : s.core.tlb.Changes s'.core.tlb refs)
    (touched : ∀ ref ∈ refs, ref.table ≠ 0 → (s'.core.tlb.line ref).locked = true →
      (s'.core.tlb.line ref).present = true)
    (misses : ∀ i ∈ s'.misses, (i ∈ s.misses ∧ ⟨0, i⟩ ∉ refs) ∨
      (s.core.tlb.Inside ⟨0, i⟩ ∧ (s'.core.tlb.line ⟨0, i⟩).present = false ∧
        (s'.core.tlb.line ⟨0, i⟩).locked = true))
    (nodup : s'.misses.Nodup) : Waiting s' where
  wf := changes.wf waiting.wf
  nonempty := changes.numTables ▸ waiting.nonempty
  upper := by
    intro ref table other locked
    by_cases member : ref ∈ refs
    · exact touched ref member other locked
    · rw [changes.locked ref member] at locked
      rw [(changes.kept ref member locked).1]
      exact waiting.upper ref (changes.numTables ▸ table) other locked
  inside := by
    intro i member
    rw [changes.inside]
    rcases misses i member with ⟨old, _⟩ | ⟨inside, _⟩
    · exact waiting.inside i old
    · exact inside
  pending := by
    intro i member
    rcases misses i member with ⟨old, outside⟩ | ⟨_, now⟩
    · obtain ⟨absent, locked⟩ := waiting.pending i old
      rw [changes.locked _ outside, (changes.kept _ outside locked).1]
      exact ⟨absent, locked⟩
    · exact now
  nodup := nodup

/-- A line without lock has no miss under way. -/
theorem Waiting.not_mem_misses (waiting : Waiting s) {i : Nat} (free : (s.core.tlb.line ⟨0, i⟩).locked = false) :
    i ∉ s.misses := by
  intro member
  have locked := (waiting.pending i member).2
  rw [free] at locked
  cases locked

theorem Waiting.effect (waiting : Waiting s) (effect : Effect s e s') : Waiting s' := by
  cases effect with
  | quiet changes _ misses _ _ _ =>
    exact waiting.of_changes _ changes (by simp) (fun i member => Or.inl ⟨misses ▸ member, by simp⟩)
      (misses ▸ waiting.nodup)
  | @missed ref waiter changes first inside free absent locked _ _ misses _ _ _ =>
    obtain ⟨table, line⟩ := ref
    dsimp only at first
    subst first
    have fresh := waiting.not_mem_misses free
    refine waiting.of_changes _ changes (by simp) (fun i member => ?_) ?_
    · rw [misses] at member
      rcases List.mem_cons.mp member with rfl | old
      · exact Or.inr ⟨inside waiting.wf waiting.nonempty, absent, locked⟩
      · refine Or.inl ⟨old, ?_⟩
        simp only [List.mem_singleton, LineRef.mk.injEq, true_and]
        rintro rfl
        exact fresh old
    · rw [misses]
      exact List.nodup_cons.mpr ⟨fresh, waiting.nodup⟩
  | @joined ref waiter changes _ _ absent locked _ found _ misses _ _ _ =>
    obtain ⟨contextId, address, found, _⟩ := found
    have table := waiting.pendingAt_table found
    refine waiting.of_changes _ changes (fun other member different => ?_) (fun i member => ?_) (misses ▸ waiting.nodup)
    · rw [List.mem_singleton.mp member] at different
      exact absurd table different
    · rw [misses] at member
      by_cases same : (⟨0, i⟩ : LineRef) = ref
      · subst same
        exact Or.inr ⟨waiting.inside i member, absent, locked⟩
      · exact Or.inl ⟨member, by simpa using same⟩
  | @answered msg response tlb _ wanted stored after _ same =>
    have misses : s'.misses = s.misses.erase (msg.get .lineIndex).toNat := congrArg System.misses same
    obtain ⟨refs, changes, touched⟩ := stored_changes stored
    subst after
    refine waiting.of_changes _ changes (fun ref member other _ => ?_) (fun i member => ?_)
      (misses ▸ waiting.nodup.erase _)
    · rcases touched ref member with rfl | ⟨_, present⟩
      · exact absurd rfl other
      · exact present
    · rw [misses, waiting.nodup.mem_erase_iff] at member
      refine Or.inl ⟨member.2, fun inRefs => ?_⟩
      rcases touched _ inRefs with own | ⟨other, _⟩
      · exact member.1 (congrArg LineRef.line own)
      · exact other rfl
  | consumed consumed misses _ _ _ =>
    cases consumed with
    | store _ _ _ sameTlb =>
      exact waiting.of_changes [] (.of_eq (by rw [sameTlb]) (by rw [sameTlb])) (by simp)
        (fun i member => Or.inl ⟨misses ▸ member, by simp⟩) (misses ▸ waiting.nodup)
    | @load _ response ref _ _ _ _ locked present sameTlb =>
      refine waiting.of_changes [ref] ?_ (fun other member _ unlocked => ?_) (fun i member => ?_)
        (misses ▸ waiting.nodup)
      · rw [sameTlb]
        exact Tlb.changes_setLine List.mem_cons_self
      · rw [List.mem_singleton.mp member, sameTlb, Tlb.line_setLine_self] at unlocked
        cases unlocked
      · rw [misses] at member
        refine Or.inl ⟨member, fun own => ?_⟩
        have absent := (waiting.pending i member).1
        rw [List.mem_singleton.mp own, present] at absent
        cases absent

theorem Waiting.step (waiting : Waiting s) (taken : s.step e = some s') : Waiting s' :=
  waiting.effect (System.step_effect taken)

end Step

/-- A processor after its start: a new TLB, and no lookup response. -/
structure Fresh (core : Core) : Prop where
  tlb : ∃ numberOfTables config ioDevId, Tlb.create numberOfTables config ioDevId = .ok core.tlb
  queue : core.cache.lookupResponses.contents = []

/-- A processor with the TLB and the data cache of `config.ini`. -/
def defaultCore : Except Fault Core := do
  let tlb ← Tlb.create 3 Tlb.defaultConfig 5
  let cache ← DCache.create 64 1 64 2 (.direct 1)
  return ⟨tlb, cache, fun _ _ => false, 0⟩

theorem DCache.create_eq_ok {assoc sets lineSize bufferSize : Nat} {selector : BankSelector} {cache : DCache}
    (done : create assoc sets lineSize bufferSize selector = .ok cache) :
    cache.lookupResponses.contents = [] := by
  unfold create at done
  repeat' split at done
  · cases done
  · cases done
  · cases done
  · cases done
  · cases done
    rfl

theorem fresh_of_defaultCore {core : Core} (started : defaultCore = .ok core) : Fresh core := by
  simp only [defaultCore, bind, Except.bind] at started
  split at started
  · cases started
  rename_i tlb created
  split at started
  · cases started
  rename_i cache empty
  cases started
  exact ⟨⟨_, _, _, created⟩, DCache.create_eq_ok empty⟩

theorem Fresh.unlocked {core : Core} (fresh : Fresh core) {ref : LineRef}
    (table : ref.table < core.tlb.numTables) : (core.tlb.line ref).locked = false := by
  obtain ⟨_, _, _, created⟩ := fresh.tlb
  obtain ⟨_, _, _, _, _, initial⟩ := Tlb.create_eq_ok created
  rw [Tlb.line, initial ref.table table]
  rfl

theorem Fresh.waiting {core : Core} (fresh : Fresh core) : Waiting (.initial core) := by
  obtain ⟨_, _, _, created⟩ := fresh.tlb
  obtain ⟨wf, nonempty, _⟩ := Tlb.create_eq_ok created
  refine ⟨wf, nonempty, fun ref table _ locked => ?_, by simp [System.initial], by simp [System.initial], List.nodup_nil⟩
  exact absurd (locked.symm.trans (fresh.unlocked table)) (by simp)

end Mgsim.Drisc
