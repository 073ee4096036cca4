import Mgsim.Drisc.SetOrder

namespace Mgsim.Drisc
open Mgsim.Lib Mgsim.Mmu

namespace DCache
variable {c : DCache}

theorem findLine_eq_none {setIndex : Nat} {pTag : Addr} {ignore : Option Nat} (positive : 0 < c.assoc)
    (absent : c.findLine setIndex pTag ignore = none) (other : Nat) (inSet : other / c.assoc = setIndex)
    (heeded : ignore ≠ some other) (used : (c.shapes other).state ≠ .empty) : (c.shapes other).tag ≠ pTag := by
  intro tags
  have unmatched := List.find?_eq_none.mp absent other ((mem_setLines positive).mpr inSet)
  exact unmatched (decide_eq_true ⟨heeded, used, tags⟩)

/-- The search of a set finds the first line with the tag. -/
theorem findLine_of_first {cid : Nat} (positive : 0 < c.assoc) (used : (c.shapes cid).state ≠ .empty)
    (first : ∀ other < cid, other / c.assoc = cid / c.assoc → (c.shapes other).state ≠ .empty →
      (c.shapes other).tag ≠ (c.shapes cid).tag) :
    c.findLine (cid / c.assoc) (c.shapes cid).tag none = some cid := by
  have place : cid / c.assoc * c.assoc + cid % c.assoc = cid := Nat.div_add_mod' cid c.assoc
  rw [findLine, setLines, List.find?_map, Option.map_eq_some_iff]
  refine ⟨cid % c.assoc, ?_, place⟩
  rw [List.find?_range_eq_some]
  refine ⟨?_, List.mem_range.mpr (Nat.mod_lt _ positive), fun i before => ?_⟩
  · simp only [Function.comp_apply, place]
    exact decide_eq_true ⟨by simp, used, rfl⟩
  · have sets : (cid / c.assoc * c.assoc + i) / c.assoc = cid / c.assoc := by
      rw [Nat.mul_comm, Nat.mul_add_div positive,
        Nat.div_eq_of_lt (before.trans (Nat.mod_lt _ positive)), Nat.add_zero]
    have ahead : cid / c.assoc * c.assoc + i < cid := by omega
    simp only [Function.comp_apply, Bool.not_eq_true']
    rw [decide_eq_false_iff_not]
    rintro ⟨_, inUse, tags⟩
    exact first _ ahead sets inUse tags

theorem getEmptyLineFrom_spec (c : DCache) (cids : List Nat) (replace : Option Nat)
    (good : ∀ cid ∈ replace, (c.shapes cid).state = .full) {cid : Nat}
    (found : c.getEmptyLineFrom cids replace = some cid) :
    (cid ∈ cids ∨ cid ∈ replace) ∧ ((c.shapes cid).state = .empty ∨ (c.shapes cid).state = .full) := by
  induction cids generalizing replace with
  | nil =>
    rw [getEmptyLineFrom] at found
    exact ⟨Or.inr found, Or.inr (good cid found)⟩
  | cons first rest ih =>
    simp only [getEmptyLineFrom] at found
    split at found
    · rename_i empty
      cases found
      exact ⟨Or.inl List.mem_cons_self, Or.inl empty⟩
    · split at found
      · rename_i older
        obtain ⟨place, state⟩ := ih (some first) (fun _ same => Option.some.inj same ▸ older.1) found
        refine ⟨Or.inl ?_, state⟩
        rcases place with inRest | same
        · exact List.mem_cons_of_mem _ inRest
        · cases same
          exact List.mem_cons_self
      · obtain ⟨place, state⟩ := ih replace good found
        exact ⟨place.imp_left (List.mem_cons_of_mem _), state⟩

/-- A line that is taken stands in the set and is empty or full. -/
theorem getEmptyLine_spec {setIndex cid : Nat} (positive : 0 < c.assoc) (found : c.getEmptyLine setIndex = some cid) :
    cid / c.assoc = setIndex ∧ ((c.shapes cid).state = .empty ∨ (c.shapes cid).state = .full) := by
  obtain ⟨place, state⟩ := c.getEmptyLineFrom_spec (c.setLines setIndex) none (by simp) found
  exact ⟨(mem_setLines positive).mp (place.resolve_right (by simp)), state⟩

theorem lineNumber_requestAddress {sets : Nat} (lawful : c.selector.Lawful sets) (positive : 0 < c.lineSize)
    (bound : c.lineSize < 2 ^ 64) (pAddr : Addr) : c.lineNumber (c.requestAddress pAddr) = c.lineNumber pAddr := by
  have sent : c.requestAddress pAddr = c.lineNumber pAddr * BitVec.ofNat 64 c.lineSize + BitVec.ofNat 64 0 :=
    congrArg (· * BitVec.ofNat 64 c.lineSize + BitVec.ofNat 64 0) (lawful.unmap (c.lineNumber pAddr))
  have inside := Nat.div_mul_le_self pAddr.toNat c.lineSize
  have whole : pAddr.toNat / c.lineSize * c.lineSize < 2 ^ 64 := inside.trans_lt pAddr.isLt
  rw [sent]
  apply BitVec.eq_of_toNat_eq
  simp only [lineNumber, BitVec.toNat_udiv, BitVec.toNat_add, BitVec.toNat_mul, BitVec.toNat_ofNat,
    Nat.mod_eq_of_lt bound, Nat.zero_mod, Nat.add_zero, Nat.mod_eq_of_lt whole, Nat.mul_div_cancel _ positive]

/-- The search for an address looks at its line number only. -/
theorem lineOf_congr {first second : Addr} (same : c.lineNumber first = c.lineNumber second) :
    c.lineOf first = c.lineOf second := by
  have split : ∀ addr, c.lineOf addr =
      c.findLine (c.selector.map (c.lineNumber addr)).2 (c.selector.map (c.lineNumber addr)).1 none := fun _ => rfl
  rw [split, split, same]

end DCache

/-- What holds of the sets in every run. -/
structure Sets (sets : Nat) (t : Tracked) : Prop extends Waiting t.system where
  assoc : 0 < t.cache.assoc
  lawful : t.cache.selector.Lawful sets
  fits : t.cache.assoc * sets < 2 ^ 32
  lineSize : 0 < t.cache.lineSize ∧ t.cache.lineSize < 2 ^ 64
  order : SetOrder t.cache.assoc t.cache.selector.map t.cache.shapes t.content
    t.cache.readResponses.contents t.system.references

section Step
variable {sets : Nat} {t : Tracked} {s' : System}

theorem Sets.cid_lt (kept : Sets sets t) {cid : Nat} {addr : Addr}
    (inSet : cid / t.cache.assoc = (t.cache.splitAddress addr).2.1) : cid < t.cache.assoc * sets := by
  have below : cid / t.cache.assoc < sets := inSet ▸ kept.lawful.index _
  rw [Nat.mul_comm]
  exact (Nat.div_lt_iff_lt_mul kept.assoc).mp below

/-- A line of a set has a number below `INVALID_CID`. -/
theorem Sets.toNat_cid (kept : Sets sets t) {cid : Nat} {addr : Addr}
    (inSet : cid / t.cache.assoc = (t.cache.splitAddress addr).2.1) :
    (BitVec.ofNat 32 cid).toNat = cid :=
  (BitVec.toNat_ofNat _ _).trans (Nat.mod_eq_of_lt ((kept.cid_lt inSet).trans kept.fits))

/-- A line that is taken is in no queue, and no parked line. -/
theorem Sets.taken (kept : Sets sets t) {cid : Nat}
    (state : (t.cache.shapes cid).state = .empty ∨ (t.cache.shapes cid).state = .full) :
    (∀ reference ∈ t.cache.readResponses.contents, reference.toNat ≠ cid) ∧
      ∀ reference ∈ t.system.references, reference.toNat ≠ cid := by
  refine ⟨fun reference member same => ?_, fun reference member same => ?_⟩
  · have busy := kept.order.completed reference member
    rw [same] at busy
    rcases state with empty | full
    · exact busy.1 empty
    · exact busy.2.1 full
  · have parked := kept.order.referred reference member
    rw [same] at parked
    rcases state with empty | full
    · exact parked.1 empty
    · exact (kept.order.parked cid parked.1 parked.2).1 full

theorem Sets.park (kept : Sets sets t) {cid : Nat} {reg : Option RegAddr} {address : Addr}
    {references : List (BitVec 32)}
    (empty : t.cache.getEmptyLine (t.cache.splitAddress address).2.1 = some cid)
    (allowed : t.Allows (.park cid reg address)) (refers : Use.Refers t.system.references references (.park cid reg address)) :
    SetOrder t.cache.assoc t.cache.selector.map
      (Function.update t.cache.shapes cid ⟨0, .loading, false⟩) (t.contentAfter (.park cid reg address))
      t.cache.readResponses.contents references := by
  obtain ⟨inSet, state⟩ := DCache.getEmptyLine_spec kept.assoc empty
  obtain ⟨outside, unparked⟩ := kept.taken state
  have number := kept.toNat_cid inSet
  have fresh : BitVec.ofNat 32 cid ∉ t.system.references := fun member => unparked _ member number
  have once : (BitVec.ofNat 32 cid :: t.system.references).Nodup := List.nodup_cons.mpr ⟨fresh, kept.order.apart⟩
  obtain ⟨between, perm, sub⟩ := id refers
  refine kept.order.settle (by simp) (fun _ => rfl) (by simp) ?_ outside
    (perm.nodup_iff.mp (once.sublist sub)) fun reference member => ?_
  · intro other behind sameSet used known waits idle
    exact allowed other ((DCache.mem_setLines kept.assoc).mpr sameSet) behind ⟨⟨used, known⟩, waits, idle⟩
  · rcases List.mem_cons.mp (refers.subset member) with rfl | before
    · exact Or.inl ⟨number, rfl⟩
    · exact Or.inr ⟨before, unparked reference before⟩

theorem Sets.request (kept : Sets sets t) {cid : Nat} {reg : Option RegAddr} {pAddr : Addr}
    {references : List (BitVec 32)}
    (empty : t.cache.getEmptyLine (t.cache.splitAddress pAddr).2.1 = some cid)
    (allowed : t.Allows (.request cid reg (t.cache.requestAddress pAddr)))
    (refers : references.Subperm t.system.references) :
    SetOrder t.cache.assoc t.cache.selector.map
      (Function.update t.cache.shapes cid ⟨(t.cache.splitAddress pAddr).2.2, .loading, false⟩)
      (t.contentAfter (.request cid reg (t.cache.requestAddress pAddr)))
      t.cache.readResponses.contents references := by
  obtain ⟨inSet, state⟩ := DCache.getEmptyLine_spec kept.assoc empty
  obtain ⟨outside, unparked⟩ := kept.taken state
  have sent := DCache.lineNumber_requestAddress kept.lawful kept.lineSize.1 kept.lineSize.2 pAddr
  have absent : t.cache.lineOf pAddr = none := (DCache.lineOf_congr sent).symm.trans allowed
  have free : ∀ other, other / t.cache.assoc = cid / t.cache.assoc →
      (t.cache.shapes other).state ≠ .empty →
      (t.cache.shapes other).tag ≠ (t.cache.splitAddress pAddr).2.2 :=
    fun other sameSet used => DCache.findLine_eq_none kept.assoc absent other (sameSet.trans inSet) (by simp) used
  obtain ⟨between, perm, sub⟩ := id refers
  refine kept.order.settle ?_ (by simp) (fun _ other _ => free other) (fun other _ sameSet used _ _ _ =>
    free other sameSet used) outside (perm.nodup_iff.mp (kept.order.apart.sublist sub)) fun reference member => ?_
  · rw [sent, inSet]
    simp only [List.mem_singleton, forall_eq]
    rfl
  · have before := refers.subset member
    exact Or.inr ⟨before, unparked reference before⟩

/-- A parked line is in no queue, and its reference has been taken away. -/
theorem Sets.released (kept : Sets sets t) {reference : BitVec 32} {references : List (BitVec 32)}
    (refers : (reference :: references).Subperm t.system.references) :
    ((t.cache.shapes reference.toNat).state ≠ .empty ∧ t.content reference.toNat = []) ∧
      (∀ other ∈ t.cache.readResponses.contents, other.toNat ≠ reference.toNat) ∧ references.Nodup ∧
      ∀ other ∈ references, other ∈ t.system.references ∧ other.toNat ≠ reference.toNat := by
  have parked := kept.order.referred reference (refers.subset List.mem_cons_self)
  obtain ⟨between, perm, sub⟩ := id refers
  have once := List.nodup_cons.mp (perm.nodup_iff.mp (kept.order.apart.sublist sub))
  refine ⟨parked, fun other member same => ?_, once.2, fun other member => ?_⟩
  · have processing := (kept.order.completed other member).2.2
    rw [same, (kept.order.parked _ parked.1 parked.2).2.2] at processing
    cases processing
  · refine ⟨refers.subset (List.mem_cons_of_mem _ member), fun same => once.1 ?_⟩
    rwa [← BitVec.eq_of_toNat_eq same]

theorem Sets.resolve (kept : Sets sets t) {cid : Nat} {tlbData : TlbResultMessage} {pAddr : Addr}
    {references : List (BitVec 32)}
    (absent : t.cache.findLine (t.cache.splitAddress pAddr).2.1
      (t.cache.splitAddress pAddr).2.2 (some cid) = none)
    (allowed : t.Allows (.resolve cid tlbData (t.cache.requestAddress pAddr)))
    (refers : Use.Refers t.system.references references (.resolve cid tlbData (t.cache.requestAddress pAddr))) :
    SetOrder t.cache.assoc t.cache.selector.map
      (Function.update t.cache.shapes cid
        ⟨(t.cache.splitAddress pAddr).2.2, .loading, (t.cache.shapes cid).processing⟩)
      (t.contentAfter (.resolve cid tlbData (t.cache.requestAddress pAddr)))
      t.cache.readResponses.contents references := by
  obtain ⟨reference, rfl, refers⟩ := refers
  obtain ⟨⟨used, blank⟩, outside, once, others⟩ := kept.released refers
  have sent := DCache.lineNumber_requestAddress kept.lawful kept.lineSize.1 kept.lineSize.2 pAddr
  have inSet : (t.cache.splitAddress pAddr).2.1 = reference.toNat / t.cache.assoc := by
    have own : (t.cache.selector.map (t.cache.lineNumber
      (t.cache.requestAddress pAddr))).2 = reference.toNat / t.cache.assoc := allowed
    rw [sent] at own
    exact own
  have free : ∀ other ≠ reference.toNat, other / t.cache.assoc =
      reference.toNat / t.cache.assoc → (t.cache.shapes other).state ≠ .empty →
      (t.cache.shapes other).tag ≠ (t.cache.splitAddress pAddr).2.2 :=
    fun other different sameSet inUse => DCache.findLine_eq_none kept.assoc absent other (sameSet.trans inSet.symm)
      (fun same => different (Option.some.inj same).symm) inUse
  rw [(kept.order.parked _ used blank).2.2, Tracked.contentAfter, blank, sent]
  refine kept.order.settle ?_ (by simp) (fun _ => free) (fun other behind sameSet inUse _ _ _ =>
    free other behind.ne' sameSet inUse) outside once fun other member => Or.inr (others other member)
  rw [← inSet]
  simp only [List.mem_singleton, forall_eq]
  rfl

theorem Sets.merge (kept : Sets sets t) {cid other : Nat} {tlbData : TlbResultMessage}
    {references : List (BitVec 32)}
    (refers : Use.Refers t.system.references references (.merge cid other tlbData)) :
    SetOrder t.cache.assoc t.cache.selector.map
      (Function.update t.cache.shapes cid { t.cache.shapes cid with state := .empty }) (t.contentAfter (.merge cid other tlbData))
      t.cache.readResponses.contents references := by
  obtain ⟨reference, rfl, refers⟩ := refers
  obtain ⟨_, outside, _, others⟩ := kept.released refers
  refine kept.order.change rfl (by simp) (by simp) (by simp) (by simp) (by simp) kept.order.once
    (fun other member => Or.inr ⟨member, outside other member⟩) (List.Subperm.cons_self.trans refers)
    fun other member same => absurd same (others other member).2

/-- Bytes arrive at a line that holds or awaits the same physical line. -/
theorem Sets.numbers (kept : Sets sets t) {cid : Nat} {addr : Addr} (found : t.cache.lineOf addr = some cid) :
    (t.cache.shapes cid).state ≠ .empty ∧ ∀ number ∈ t.cache.lineNumber addr :: t.content cid,
      t.cache.selector.map number = ((t.cache.shapes cid).tag, cid / t.cache.assoc) := by
  obtain ⟨inSet, _, used, tag⟩ := DCache.findLine_eq_some found
  rw [DCache.mem_setLines kept.assoc] at inSet
  refine ⟨used, fun number member => ?_⟩
  rcases List.mem_cons.mp member with rfl | before
  · exact Prod.ext tag.symm inSet.symm
  · exact kept.order.identifies cid used number before

theorem Sets.touch (kept : Sets sets t) {cid : Nat} {addr : Addr} {references : List (BitVec 32)}
    (found : t.cache.lineOf addr = some cid) (allowed : t.Allows (.bytes cid addr))
    (refers : references.Subperm t.system.references) :
    SetOrder t.cache.assoc t.cache.selector.map t.cache.shapes (t.contentAfter (.bytes cid addr))
      t.cache.readResponses.contents references := by
  obtain ⟨used, numbers⟩ := kept.numbers found
  have known : t.content cid ≠ [] := allowed
  rw [← Function.update_eq_self cid t.cache.shapes]
  refine kept.order.change rfl id (fun _ => numbers) (fun _ => iff_of_false (by simp) known) (by simp)
    (fun waits idle => Or.inr ⟨waits, idle⟩) kept.order.once (fun reference member => ?_) refers fun _ _ _ => used
  by_cases same : reference.toNat = cid
  · exact Or.inl ⟨same, same ▸ kept.order.completed reference member⟩
  · exact Or.inr ⟨member, same⟩

theorem Sets.fill (kept : Sets sets t) {cid : Nat} {addr : Addr} {references : List (BitVec 32)}
    (found : t.cache.lineOf addr = some cid) (waits : (t.cache.shapes cid).state ≠ .full)
    (idle : (t.cache.shapes cid).processing = false) (allowed : t.Allows (.bytes cid addr))
    (refers : references.Subperm t.system.references) :
    SetOrder t.cache.assoc t.cache.selector.map
      (Function.update t.cache.shapes cid { t.cache.shapes cid with processing := true })
      (t.contentAfter (.bytes cid addr)) (t.cache.readResponses.contents ++ [BitVec.ofNat 32 cid]) references := by
  obtain ⟨used, numbers⟩ := kept.numbers found
  have known : t.content cid ≠ [] := allowed
  have inSet := (DCache.mem_setLines kept.assoc).mp (DCache.findLine_eq_some found).1
  have number := kept.toNat_cid inSet
  have outside : ∀ reference ∈ t.cache.readResponses.contents, reference.toNat ≠ cid := by
    rintro reference member rfl
    have processing := (kept.order.completed reference member).2.2
    rw [idle] at processing
    cases processing
  refine kept.order.change rfl id (fun _ => numbers) (fun _ => iff_of_false (by simp) known) (by simp) (by simp) ?_
    (fun reference member => ?_) refers fun _ _ _ => used
  · refine List.nodup_append.mpr ⟨kept.order.once, List.nodup_singleton _, fun reference member last own => ?_⟩
    rw [List.mem_singleton] at own
    rintro rfl
    exact outside reference member (own ▸ number)
  · rcases List.mem_append.mp member with before | last
    · exact Or.inr ⟨before, outside reference before⟩
    · rw [List.mem_singleton.mp last]
      exact Or.inl ⟨number, used, waits, rfl⟩

/-- A completed read makes its line full, or empty when it has been invalidated. -/
theorem Sets.finish (kept : Sets sets t) {cid : BitVec 32} {completed references : List (BitVec 32)}
    (front : t.cache.readResponses.contents = cid :: completed) (refers : references.Subperm t.system.references) :
    SetOrder t.cache.assoc t.cache.selector.map
      (Function.update t.cache.shapes cid.toNat { t.cache.shapes cid.toNat with
        state := if (t.cache.shapes cid.toNat).state = .invalid then .empty else .full })
      t.content completed references := by
  have once := kept.order.once
  rw [front, List.nodup_cons] at once
  obtain ⟨used, waits, processing⟩ := kept.order.completed cid (front ▸ List.mem_cons_self)
  have known := kept.order.content_of_processing used processing
  rw [← Function.update_eq_self cid.toNat t.content]
  refine kept.order.change rfl (fun _ => used) (fun _ => kept.order.identifies _ used) (fun _ => Iff.rfl)
    (fun _ blank => absurd blank known) (fun _ idle => ?_) once.2 (fun reference member => Or.inr ⟨?_, fun same => ?_⟩)
    refers fun reference member same => ?_
  · rw [processing] at idle
    cases idle
  · exact front ▸ List.mem_cons_of_mem _ member
  · rw [BitVec.eq_of_toNat_eq same] at member
    exact absurd member once.1
  · have blank := (kept.order.referred reference (refers.subset member)).2
    rw [same] at blank
    exact absurd blank known

theorem Sets.invalidate (kept : Sets sets t) {cid : Nat} {references : List (BitVec 32)}
    (full : (t.cache.shapes cid).state = .full) (refers : references.Subperm t.system.references) :
    SetOrder t.cache.assoc t.cache.selector.map
      (Function.update t.cache.shapes cid { t.cache.shapes cid with state := .empty })
      t.content t.cache.readResponses.contents references := by
  obtain ⟨outside, unparked⟩ := kept.taken (Or.inr full)
  rw [← Function.update_eq_self cid t.content]
  refine kept.order.change rfl (by simp) (by simp) (by simp) (by simp) (by simp) kept.order.once
    (fun other member => Or.inr ⟨member, outside other member⟩) refers
    fun other member same => absurd same (unparked other (refers.subset member))

theorem Sets.doom (kept : Sets sets t) {cid : Nat} {references : List (BitVec 32)}
    (loading : (t.cache.shapes cid).state = .loading) (refers : references.Subperm t.system.references) :
    SetOrder t.cache.assoc t.cache.selector.map
      (Function.update t.cache.shapes cid { t.cache.shapes cid with state := .invalid })
      t.content t.cache.readResponses.contents references := by
  have used : (t.cache.shapes cid).state ≠ .empty := by simp [loading]
  rw [← Function.update_eq_self cid t.content]
  refine kept.order.change rfl (fun _ => used) (fun _ => kept.order.identifies _ used) (fun _ => Iff.rfl)
    (fun _ blank => ⟨by simp, (kept.order.parked cid used blank).2.2⟩) (fun _ idle => Or.inr ⟨by simp [loading], idle⟩)
    kept.order.once (fun reference member => ?_) refers (by simp)
  by_cases same : reference.toNat = cid
  · exact Or.inl ⟨same, by simp, by simp, same ▸ (kept.order.completed reference member).2.2⟩
  · exact Or.inr ⟨member, same⟩

/-- Nothing has happened to the lines. -/
theorem SetOrder.of_subperm {assoc : Nat} {map : Addr → Addr × Nat} {shapes : Nat → Shape} {content : Nat → List Addr}
    {completed references references' : List (BitVec 32)}
    (order : SetOrder assoc map shapes content completed references) (refers : references'.Subperm references) :
    SetOrder assoc map shapes content completed references' := by
  obtain ⟨between, perm, sub⟩ := id refers
  exact ⟨order.identifies, order.unique, order.parked, order.foremost, order.once, order.completed,
    perm.nodup_iff.mp (order.apart.sublist sub), fun reference member => order.referred reference (refers.subset member)⟩

theorem Sets.after (kept : Sets sets t) {use : Use} {lossless : Prop} (allowed : t.Allows use)
    (step : SetStep t.system use lossless s') :
    SetOrder t.cache.assoc t.cache.selector.map s'.core.cache.shapes (t.contentAfter use)
      s'.core.cache.readResponses.contents s'.references := by
  obtain ⟨_, lines, refers, _⟩ := step
  have view : ∀ {after : CacheView}, s'.core.cache.view = after →
      s'.core.cache.shapes = after.shapes ∧ s'.core.cache.readResponses.contents = after.completed :=
    fun same => ⟨congrArg CacheView.shapes same, congrArg CacheView.completed same⟩
  cases lines with
  | kept same =>
    rw [(view same).1, (view same).2]
    exact kept.order.of_subperm refers
  | joined _ _ after =>
    rw [(view after).1, (view after).2]
    exact kept.order.of_subperm refers
  | parked empty after =>
    rw [(view after).1, (view after).2]
    exact kept.park empty allowed refers
  | requested pAddr empty after =>
    rw [(view after).1, (view after).2]
    exact kept.request empty allowed refers
  | resolved tlbData pAddr _ _ absent after =>
    rw [(view after).1, (view after).2]
    exact kept.resolve absent allowed refers
  | merged tlbData pAddr hook _ _ _ _ after =>
    rw [(view after).1, (view after).2]
    exact kept.merge refers
  | touched found same =>
    rw [(view same).1, (view same).2]
    exact kept.touch found allowed refers
  | filled found waits idle after =>
    rw [(view after).1, (view after).2]
    exact kept.fill found waits idle allowed refers
  | finished front after =>
    rw [(view after).1]
    exact kept.finish front refers
  | delivered _ after =>
    rw [(view after).1, (view after).2]
    exact kept.order.of_subperm refers
  | invalidated full after =>
    rw [(view after).1, (view after).2]
    exact kept.invalidate full refers
  | doomed loading after =>
    rw [(view after).1, (view after).2]
    exact kept.doom loading refers

theorem Sets.step (kept : Sets sets t) {e : Event} {t' : Tracked} (allowed : SetGuard t e) (taken : t.step e = some t') :
    Sets sets t' := by
  obtain ⟨s', moved, rfl⟩ := Option.map_eq_some_iff.mp taken
  have step := kept.toWaiting.setStep moved
  have order := kept.after allowed step
  obtain ⟨assoc, lineSize, selector⟩ := step.geometry
  refine ⟨kept.toWaiting.step moved, ?_, ?_, ?_, ?_, ?_⟩
  · rw [Tracked.cache, assoc]
    exact kept.assoc
  · rw [Tracked.cache, selector]
    exact kept.lawful
  · rw [Tracked.cache, assoc]
    exact kept.fits
  · rw [Tracked.cache, lineSize]
    exact kept.lineSize
  · rw [Tracked.cache, assoc, selector]
    exact order

/-- Each part of the claim is one field of the order. -/
theorem Sets.integrity (kept : Sets sets t) : SetIntegrity t where
  unique := fun cid other tagged tagged' sets tags =>
    kept.order.unique cid other tagged.1 tagged.2 tagged'.1 tagged'.2 sets tags
  identifies := by
    intro cid used number member
    have own := kept.order.identifies cid used number member
    have back := kept.lawful.unmap number
    rw [own] at back
    exact back.symm
  finds := by
    rintro cid ⟨⟨used, known⟩, waits, idle⟩ addr member
    have own := kept.order.identifies cid used _ member
    have found := DCache.findLine_of_first kept.assoc used (kept.order.foremost cid used known waits idle)
    have split : t.cache.lineOf addr = t.cache.findLine (t.cache.selector.map (t.cache.lineNumber addr)).2
      (t.cache.selector.map (t.cache.lineNumber addr)).1 none := rfl
    rw [split, own]
    exact found

end Step

/-- A processor with a new TLB and the data cache of its configuration. -/
structure Started (config : CacheConfig) (core : Core) : Prop where
  tlb : ∃ numberOfTables tables ioDevId, Tlb.create numberOfTables tables ioDevId = .ok core.tlb
  cache : DCache.configure config = .ok core.cache

/-- The number of lines fits in a `CID`, and the size of a line in an address. -/
structure CacheConfig.Fits (config : CacheConfig) : Prop where
  lines : config.assoc * config.sets < 2 ^ 32
  lineSize : config.lineSize < 2 ^ 64

/-- The cache of a configuration is empty. -/
theorem DCache.configure_eq_ok {config : CacheConfig} {cache : DCache} (done : configure config = .ok cache) :
    0 < config.assoc ∧ 0 < config.sets ∧ 0 < config.lineSize ∧ cache.assoc = config.assoc ∧
      cache.lineSize = config.lineSize ∧ cache.lines = (fun _ => CacheLine.initial) ∧
      cache.readResponses.contents = [] ∧ cache.lookupResponses.contents = [] ∧ cache.writebacks.contents = [] ∧
      BankSelector.makeSelector config.bankSelector config.sets = .ok cache.selector := by
  simp only [configure, bind, Except.bind] at done
  split at done
  · cases done
  rename_i selector made
  rw [create] at done
  split_ifs at done with assoc sets lineSize
  cases done
  exact ⟨Nat.pos_of_ne_zero fun zero => assoc (Or.inl zero), Nat.pos_of_ne_zero fun zero => sets (Or.inl zero),
    Nat.pos_of_ne_zero fun zero => lineSize (Or.inl zero), rfl, rfl, rfl, rfl, rfl, rfl, made⟩

theorem Started.sets {config : CacheConfig} {core : Core} (started : Started config core) (fits : config.Fits) :
    Sets config.sets (.initial core) := by
  obtain ⟨assoc, sets, lineSize, sameAssoc, sameLineSize, lines, completed, queue, _, made⟩ :=
    DCache.configure_eq_ok started.cache
  have fresh : Fresh core := ⟨started.tlb, queue⟩
  have few : config.sets < 2 ^ 64 :=
    ((Nat.le_mul_of_pos_left config.sets assoc).trans_lt fits.lines).trans (by decide)
  have empty : ∀ cid, (core.cache.shapes cid).state = .empty := by
    intro cid
    rw [DCache.shapes, lines]
    rfl
  have references : (System.initial core).references = [] := by
    simp [System.references, System.initial, queue]
  refine ⟨fresh.waiting, sameAssoc ▸ assoc, BankSelector.lawful_makeSelector sets few made,
    sameAssoc ▸ fits.lines, ⟨sameLineSize ▸ lineSize, sameLineSize ▸ fits.lineSize⟩, ?_⟩
  refine ⟨fun cid used => absurd (empty cid) used, fun cid _ used => absurd (empty cid) used,
    fun cid used => absurd (empty cid) used, fun cid used => absurd (empty cid) used, ?_, ?_, ?_, ?_⟩
  · exact completed ▸ List.nodup_nil
  · intro cid member
    rw [show (Tracked.initial core).cache.readResponses.contents = [] from completed] at member
    cases member
  · exact references ▸ List.nodup_nil
  · intro cid member
    rw [show (Tracked.initial core).system.references = [] from references] at member
    cases member

/-- In every run whose parked loads stand in the set of their physical address and
in front of no line that awaits bytes under the placeholder tag, that takes no second line
beside an invalid one, and in which no bytes arrive at a parked line, the sets keep their integrity. -/
theorem set_integrity {config : CacheConfig} {core : Core} {events : List Event} {t : Tracked} (fits : config.Fits)
    (started : Started config core) (run : Run Tracked.step SetGuard (.initial core) events t) : SetIntegrity t :=
  (run.invariant (I := Sets config.sets) (started.sets fits)
    fun _ _ _ kept allowed taken => kept.step allowed taken).integrity

section SecondLine

/-- Four lines in each of four sets. -/
def smallConfig : CacheConfig := ⟨4, 4, 64, 2, "DIRECT"⟩

def smallCore : Except Fault Core := do
  let tlb ← Tlb.create 3 Tlb.defaultConfig 5
  let cache ← DCache.configure smallConfig
  return ⟨tlb, cache, fun _ _ => false, 0⟩

theorem started_of_smallCore {core : Core} (made : smallCore = .ok core) : Started smallConfig core := by
  simp only [smallCore, bind, Except.bind] at made
  split at made
  · cases made
  rename_i tlb created
  split at made
  · cases made
  rename_i cache configured
  cases made
  exact ⟨⟨_, _, _, created⟩, configured⟩

/-- A load through the TLB: its line waits for the page, asks for its bytes, and is filled. -/
def loadThroughTlb : List Event :=
  [.property Tlb.enableMsg, .read 0 0x200000000 8 none, .answer (Tlb.refillMsg 0 2 0x300000), .endCycle,
    .lookupResponses, .endCycle, .memoryRead 0x300000000 fun _ => 7, .endCycle, .readResponses]

theorem set_integrity_load :
    ∃ core t, smallCore = .ok core ∧ execute Tracked.step (.initial core) loadThroughTlb = some t ∧
      (t.line 0).state = .full ∧ t.content 0 = [0xC000000, 0xC000000] ∧ SetIntegrity t := by
  have whole : (smallCore.toOption.bind fun core =>
      (execute (checked (fun t e => decide (SetGuard t e)) Tracked.step) (.initial core) loadThroughTlb).map
        fun t => ((t.line 0).state, t.content 0)) = some (.full, [0xC000000, 0xC000000]) := by
    decide +kernel
  cases made : smallCore with
  | error fault =>
    rw [made] at whole
    cases whole
  | ok core =>
    rw [made] at whole
    obtain ⟨t, done, seen⟩ := Option.map_eq_some_iff.mp whole
    have run : Run Tracked.step SetGuard (.initial core) loadThroughTlb t :=
      run_of_checked (fun _ _ => of_decide_eq_true) done
    obtain ⟨state, content⟩ := Prod.mk.inj seen
    exact ⟨core, t, rfl, execute_of_run run, state, content,
      set_integrity ⟨by decide, by decide⟩ (started_of_smallCore made) run⟩

/-- A load, the invalidation of its line, and a second load of it. -/
def loadBesideInvalid : List Event :=
  [.read 0 0x1000 8 none, .endCycle, .memoryInvalidate 0x1000, .read 0 0x1000 8 none]

/-- The second load has taken a second line for the tag. -/
theorem second_line_beside_invalid :
    ∃ core t, smallCore = .ok core ∧ execute Tracked.step (.initial core) loadBesideInvalid = some t ∧
      ¬ SetIntegrity t := by
  have whole : (smallCore.toOption.bind fun core =>
      (execute Tracked.step (.initial core) loadBesideInvalid).map fun t =>
        decide (t.Tagged 0 ∧ t.Tagged 1 ∧ t.setOf 0 = t.setOf 1 ∧ (t.line 0).tag = (t.line 1).tag)) = some true := by
    decide +kernel
  cases made : smallCore with
  | error fault =>
    rw [made] at whole
    cases whole
  | ok core =>
    rw [made] at whole
    obtain ⟨t, done, seen⟩ := Option.map_eq_some_iff.mp whole
    obtain ⟨first, second, sets, tags⟩ := of_decide_eq_true seen
    exact ⟨core, t, rfl, done, fun integrity => absurd (integrity.unique 0 1 first second sets tags) (by decide)⟩

end SecondLine

end Mgsim.Drisc
