import Mgsim.Drisc.SetIntegrity
import Mgsim.Drisc.WaiterPromises
import Mgsim.Drisc.WakeUp

namespace Mgsim.Drisc
open Mgsim.Lib Mgsim.Mmu

namespace DCache
variable {c c' : DCache} {cid : Nat}

theorem hanging_congr (shape : c'.shapes cid = c.shapes cid) (hook : c'.hooks cid = c.hooks cid) :
    c'.hanging cid = c.hanging cid := by
  rw [hanging, hanging, shape, hook]

theorem hanging_of_dead (dead : ¬ (c.shapes cid).Live) : c.hanging cid = none := if_neg dead

theorem hanging_of_live (live : (c.shapes cid).Live) : c.hanging cid = (c.hooks cid).waiting := if_pos live

/-- One line is changed. -/
theorem hanging_update {shape : Shape} {hook : Hook} (shapes : c'.shapes = Function.update c.shapes cid shape)
    (hooks : c'.hooks = Function.update c.hooks cid hook) :
    (∀ other ≠ cid, c'.hanging other = c.hanging other) ∧
      c'.hanging cid = if shape.Live then hook.waiting else none := by
  refine ⟨fun other different => hanging_congr ?_ ?_, ?_⟩
  · rw [shapes, Function.update_of_ne different]
  · rw [hooks, Function.update_of_ne different]
  · rw [hanging, shapes, hooks, Function.update_self, Function.update_self]

theorem SameGeometry.lineName (same : c.SameGeometry c') (tag : (c'.shapes cid).tag = (c.shapes cid).tag) :
    c'.lineName cid = c.lineName cid := by
  unfold DCache.lineName
  rw [same.selector, same.assoc]
  exact congrArg (fun tag => c.selector.unmap tag (cid / c.assoc)) tag

theorem whole_of_valid (valid : ∀ i < c.lineSize, (c.lines cid).valid i = true) : c.whole cid = true :=
  List.all_eq_true.mpr fun i inside => valid i (List.mem_range.mp inside)

end DCache

theorem Shape.live_of_loading {shape : Shape} (loading : shape.state = .loading) : shape.Live := Or.inl loading

theorem Shape.dead_of_state {shape : Shape} (state : shape.state = .empty ∨ shape.state = .full) : ¬ shape.Live := by
  rintro (loading | invalid) <;> rcases state with empty | full <;> simp_all

/-- What holds of the loads in every run. -/
structure Held (sets : Nat) (l : Ledger) : Prop extends Sets sets l.tracked where
  whole : l.cache.WholeLines
  chains : Chains l l.cache.hanging l.cache.writebacks.contents
  promises : Promises l l.cache.lineName l.tracked.content
  creations : Creations l l.cache.hooks l.cache.shapes
  progress : Progress l.cache.shapes l.tracked.content l.cache.readResponses.contents l.tracked.system.references

/-- The parts that a use of the lines decides. -/
structure After (l : Ledger) (c : DCache) (content : Nat → List Addr) (references : List (BitVec 32)) : Prop where
  chains : Chains l c.hanging c.writebacks.contents
  promises : Promises l c.lineName content
  creations : Creations l c.hooks c.shapes
  progress : Progress c.shapes content c.readResponses.contents references

section Step
variable {sets : Nat} {l : Ledger} {c' : DCache} {references : List (BitVec 32)} {cid : Nat}

/-- The name of a line in the set of a physical line, under its tag. -/
theorem Sets.unmap_eq {t : Tracked} (kept : Sets sets t) {pAddr : Addr}
    (inSet : cid / t.cache.assoc = (t.cache.splitAddress pAddr).2.1) :
    t.cache.selector.unmap (t.cache.splitAddress pAddr).2.2 (cid / t.cache.assoc) = t.cache.lineNumber pAddr := by
  rw [inSet]
  exact kept.lawful.unmap (t.cache.lineNumber pAddr)

/-- The line that is found for a physical address has its number. -/
theorem Sets.lineName_of_findLine {t : Tracked} (kept : Sets sets t) {pAddr : Addr} {ignore : Option Nat}
    (found : t.cache.findLine (t.cache.splitAddress pAddr).2.1 (t.cache.splitAddress pAddr).2.2 ignore = some cid) :
    t.cache.lineName cid = t.cache.lineNumber pAddr := by
  obtain ⟨inSet, _, _, tag⟩ := DCache.findLine_eq_some found
  rw [DCache.mem_setLines kept.assoc] at inSet
  rw [← kept.unmap_eq inSet, ← tag]
  rfl

/-- Nothing has happened to the chains and to the tags of the lines with waiters. -/
theorem Held.same (held : Held sets l) {content : Nat → List Addr} (geometry : l.cache.SameGeometry c')
    (hanging : ∀ line, c'.hanging line = l.cache.hanging line) (hooks : c'.hooks = l.cache.hooks)
    (writebacks : c'.writebacks.contents = l.cache.writebacks.contents)
    (tags : ∀ line, (c'.shapes line).tag = (l.cache.shapes line).tag)
    (live : ∀ line, (l.cache.shapes line).Live → (c'.shapes line).Live)
    (known : ∀ line, content line ≠ [] → l.tracked.content line ≠ [])
    (progress : Progress c'.shapes content c'.readResponses.contents references) : After l c' content references where
  chains := by
    rw [funext hanging, writebacks]
    exact held.chains
  promises := held.promises.rename fun _ line _ nonempty => ⟨known line nonempty, geometry.lineName (tags line)⟩
  creations := held.creations.congr rfl rfl rfl (fun _ => by rw [hooks])
    fun line asking => live line (held.creations.live line asking)
  progress := progress

/-- A load is left waiting on a line that loads. -/
theorem Held.push (held : Held sets l) {reg returned : Option RegAddr} {wanted : Option Addr} {shape : Shape}
    {hook : Hook} {content : Nat → List Addr} (geometry : l.cache.SameGeometry c')
    (after : c'.view = { l.cache.view with
      shapes := Function.update l.cache.shapes cid shape
      hooks := Function.update l.cache.hooks cid (hook.push reg) })
    (free : l.Free reg) (live : shape.Live) (old : hook.waiting = l.cache.hanging cid)
    (create : hook.create = (l.cache.hooks cid).create) (link : returned = reg.bind fun _ => l.cache.hanging cid)
    (own : content cid ≠ [] → wanted = some (l.cache.selector.unmap shape.tag (cid / l.cache.assoc)))
    (same : (l.cache.hanging cid).isSome → content cid ≠ [] →
      l.tracked.content cid ≠ [] ∧ shape.tag = (l.cache.shapes cid).tag)
    (others : ∀ line ≠ cid, content line = l.tracked.content line)
    (progress : Progress c'.shapes content c'.readResponses.contents references) :
    After (l.push cid reg returned wanted) c' content references := by
  have shapes : c'.shapes = Function.update l.cache.shapes cid shape := congrArg CacheView.shapes after
  have hooks : c'.hooks = Function.update l.cache.hooks cid (hook.push reg) := congrArg CacheView.hooks after
  have writebacks : c'.writebacks.contents = l.cache.writebacks.contents := congrArg CacheView.writebacks after
  obtain ⟨elsewhere, here⟩ := DCache.hanging_update shapes hooks
  rw [if_pos live] at here
  have atCid : c'.shapes cid = shape := by rw [shapes, Function.update_self]
  have name : c'.lineName cid = l.cache.selector.unmap shape.tag (cid / l.cache.assoc) := by
    unfold DCache.lineName
    rw [geometry.selector, geometry.assoc]
    exact congrArg (fun shape => l.cache.selector.unmap (Shape.tag shape) (cid / l.cache.assoc)) atCid
  refine ⟨?_, held.promises.push free (fun known => name ▸ own known) fun other line place known => ?_,
    held.creations.push free create hooks (atCid ▸ live) fun other different => ?_, progress⟩
  · rw [writebacks]
    exact held.chains.pushHook free old link elsewhere here
  · by_cases atLine : line = cid
    · subst atLine
      obtain ⟨knownBefore, tag⟩ := same (held.chains.isSome_of_at place) known
      exact ⟨knownBefore, geometry.lineName (by rw [atCid, tag])⟩
    · refine ⟨others line atLine ▸ known, geometry.lineName ?_⟩
      rw [shapes, Function.update_of_ne atLine]
  · rw [shapes, Function.update_of_ne different]

theorem Held.join (held : Held sets l) {reg returned : Option RegAddr} {pAddr : Addr}
    (geometry : l.cache.SameGeometry c') (found : l.cache.lineOf pAddr = some cid)
    (loading : (l.cache.shapes cid).state = .loading)
    (after : c'.view = { l.cache.view with
      hooks := Function.update l.cache.hooks cid ((l.cache.hooks cid).push reg) })
    (careful : l.Careful (.join cid reg pAddr)) (returns : Use.Returns l.cache returned (.join cid reg pAddr))
    (kept : l.tracked.system.references ⊆ references) :
    After (l.push cid reg returned (some (l.cache.lineNumber pAddr))) c' l.tracked.content references := by
  have live := Shape.live_of_loading loading
  have hanging := DCache.hanging_of_live live
  have shapes : c'.shapes = l.cache.shapes := congrArg CacheView.shapes after
  have completed : c'.readResponses.contents = l.cache.readResponses.contents := congrArg CacheView.completed after
  have lookup : l.cache.lineOf pAddr =
    l.cache.findLine (l.cache.splitAddress pAddr).2.1 (l.cache.splitAddress pAddr).2.2 none := rfl
  have name : l.cache.lineName cid = l.cache.lineNumber pAddr := held.lineName_of_findLine (lookup ▸ found)
  have view : c'.view = { l.cache.view with
      shapes := Function.update l.cache.shapes cid (l.cache.shapes cid)
      hooks := Function.update l.cache.hooks cid ((l.cache.hooks cid).push reg) } := by
    rw [after, Function.update_eq_self]
    rfl
  refine held.push geometry view careful.1 live hanging.symm rfl (hanging ▸ returns)
    (fun _ => congrArg some name.symm) (fun _ _ => ⟨careful.2, rfl⟩) (fun _ _ => rfl) ?_
  rw [shapes, completed]
  exact held.progress.mono kept

theorem Held.park (held : Held sets l) {reg returned : Option RegAddr} {address : Addr}
    (geometry : l.cache.SameGeometry c') (empty : l.cache.getEmptyLine (l.cache.splitAddress address).2.1 = some cid)
    (after : c'.view = { l.cache.view with
      shapes := Function.update l.cache.shapes cid ⟨0, .loading, false⟩
      hooks := Function.update l.cache.hooks cid (Hook.push ⟨none, (l.cache.hooks cid).create⟩ reg) })
    (free : l.Free reg) (returns : returned = none)
    (kept : Use.Keeps l.tracked.system.references references (.park cid reg address)) :
    After (l.push cid reg returned none) c' (Function.update l.tracked.content cid []) references := by
  obtain ⟨inSet, state⟩ := DCache.getEmptyLine_spec held.assoc empty
  have hanging := DCache.hanging_of_dead (Shape.dead_of_state state)
  have shapes : c'.shapes = Function.update l.cache.shapes cid ⟨0, .loading, false⟩ := congrArg CacheView.shapes after
  have completed : c'.readResponses.contents = l.cache.readResponses.contents := congrArg CacheView.completed after
  have others : ∀ line ≠ cid, Function.update l.tracked.content cid [] line = l.tracked.content line :=
    fun line different => Function.update_of_ne different _ _
  refine held.push geometry after free (Shape.live_of_loading rfl) hanging.symm rfl ?_
    (fun known => absurd (Function.update_self ..) known) (fun waits => ?_) others ?_
  · rw [returns, hanging]
    cases reg <;> rfl
  · rw [hanging] at waits
    cases waits
  · rw [completed]
    refine held.progress.change cid (fun other different => ⟨?_, others other different⟩) (fun _ member _ => member)
      (fun _ member _ => kept.2 member) (fun _ processing => ?_) fun _ _ => ?_
    · rw [shapes, Function.update_of_ne different]
    · rw [shapes, Function.update_self] at processing
      cases processing
    · have number := held.toNat_cid inSet
      refine ⟨BitVec.ofNat 32 cid, kept.1 fun magic => ?_, number⟩
      have last : cid = 2 ^ 32 - 1 := by
        rw [← number, magic]
        rfl
      have below := held.cid_lt inSet
      have fits := held.fits
      omega

theorem Held.request (held : Held sets l) {reg returned : Option RegAddr} {pAddr : Addr}
    (geometry : l.cache.SameGeometry c') (empty : l.cache.getEmptyLine (l.cache.splitAddress pAddr).2.1 = some cid)
    (after : c'.view = { l.cache.view with
      shapes := Function.update l.cache.shapes cid ⟨(l.cache.splitAddress pAddr).2.2, .loading, false⟩
      hooks := Function.update l.cache.hooks cid (Hook.push ⟨none, (l.cache.hooks cid).create⟩ reg) })
    (free : l.Free reg) (returns : returned = none) (kept : l.tracked.system.references ⊆ references) :
    After (l.push cid reg returned (some (l.cache.lineNumber (l.cache.requestAddress pAddr)))) c'
      (l.tracked.contentAfter (.request cid reg (l.cache.requestAddress pAddr))) references := by
  obtain ⟨inSet, state⟩ := DCache.getEmptyLine_spec held.assoc empty
  have hanging := DCache.hanging_of_dead (Shape.dead_of_state state)
  have shapes : c'.shapes = Function.update l.cache.shapes cid ⟨(l.cache.splitAddress pAddr).2.2, .loading, false⟩ :=
    congrArg CacheView.shapes after
  have completed : c'.readResponses.contents = l.cache.readResponses.contents := congrArg CacheView.completed after
  have sent := DCache.lineNumber_requestAddress held.lawful held.lineSize.1 held.lineSize.2 pAddr
  have others : ∀ line ≠ cid, l.tracked.contentAfter (.request cid reg (l.cache.requestAddress pAddr)) line =
    l.tracked.content line := fun line different => Function.update_of_ne different _ _
  refine held.push geometry after free (Shape.live_of_loading rfl) hanging.symm rfl ?_
    (fun _ => ?_) (fun waits => ?_) others ?_
  · rw [returns, hanging]
    cases reg <;> rfl
  · rw [sent, held.unmap_eq inSet]
  · rw [hanging] at waits
    cases waits
  · rw [completed]
    refine held.progress.change cid (fun other different => ⟨?_, others other different⟩) (fun _ member _ => member)
      (fun _ member _ => kept member) (fun _ processing => ?_) fun _ blank => ?_
    · rw [shapes, Function.update_of_ne different]
    · rw [shapes, Function.update_self] at processing
      cases processing
    · rw [Tracked.contentAfter, Function.update_self] at blank
      cases blank

/-- A parked line asks for the bytes of its registers. -/
theorem Held.resolve (held : Held sets l) {tlbData : TlbResultMessage} {pAddr : Addr}
    (geometry : l.cache.SameGeometry c') (loading : (l.cache.shapes cid).state = .loading)
    (after : c'.view = { l.cache.view with
      shapes := Function.update l.cache.shapes cid
        ⟨(l.cache.splitAddress pAddr).2.2, .loading, (l.cache.shapes cid).processing⟩ })
    (allowed : l.tracked.Allows (.resolve cid tlbData (l.cache.requestAddress pAddr)))
    (careful : l.Careful (.resolve cid tlbData (l.cache.requestAddress pAddr)))
    (kept : Use.Keeps l.tracked.system.references references (.resolve cid tlbData (l.cache.requestAddress pAddr))) :
    After (l.settle cid (l.cache.lineNumber (physicalAddress tlbData (l.source cid)))) c'
      (l.tracked.contentAfter (.resolve cid tlbData (l.cache.requestAddress pAddr))) references := by
  have shapes : c'.shapes = Function.update l.cache.shapes cid
    ⟨(l.cache.splitAddress pAddr).2.2, .loading, (l.cache.shapes cid).processing⟩ := congrArg CacheView.shapes after
  have hooks : c'.hooks = l.cache.hooks := congrArg CacheView.hooks after
  have completed : c'.readResponses.contents = l.cache.readResponses.contents := congrArg CacheView.completed after
  have writebacks : c'.writebacks.contents = l.cache.writebacks.contents := congrArg CacheView.writebacks after
  have live := Shape.live_of_loading loading
  have atCid : c'.shapes cid = ⟨(l.cache.splitAddress pAddr).2.2, .loading, (l.cache.shapes cid).processing⟩ := by
    rw [shapes, Function.update_self]
  have elsewhere : ∀ line ≠ cid, c'.shapes line = l.cache.shapes line := by
    intro line different
    rw [shapes, Function.update_of_ne different]
  have sent := DCache.lineNumber_requestAddress held.lawful held.lineSize.1 held.lineSize.2 pAddr
  have inSet : cid / l.cache.assoc = (l.cache.splitAddress pAddr).2.1 := by
    have own : (l.cache.selector.map (l.cache.lineNumber (l.cache.requestAddress pAddr))).2 = cid / l.cache.assoc := allowed
    rw [sent] at own
    exact own.symm
  have name : c'.lineName cid = l.cache.lineNumber pAddr := by
    have tag : (c'.lines cid).tag = (l.cache.splitAddress pAddr).2.2 := congrArg Shape.tag atCid
    unfold DCache.lineName
    rw [geometry.selector, geometry.assoc, tag]
    exact held.unmap_eq inSet
  have hanging : c'.hanging = l.cache.hanging := by
    funext line
    by_cases same : line = cid
    · subst same
      rw [DCache.hanging, DCache.hanging, hooks, atCid, if_pos live, if_pos (Shape.live_of_loading rfl)]
    · exact DCache.hanging_congr (elsewhere line same) (congrFun hooks line)
  have others : ∀ line ≠ cid, l.tracked.contentAfter (.resolve cid tlbData (l.cache.requestAddress pAddr)) line =
    l.tracked.content line := fun line different => Function.update_of_ne different _ _
  refine ⟨?_, held.promises.settle (fun _ => ?_) fun line different known => ⟨others line different ▸ known,
    geometry.lineName (by rw [elsewhere line different])⟩, held.creations.congr rfl rfl rfl (fun _ => by rw [hooks])
    fun line asking => ?_, ?_⟩
  · rw [hanging, writebacks]
    exact held.chains.settle _
  · rw [name, ← sent]
    exact careful
  · by_cases same : line = cid
    · subst same
      rw [atCid]
      exact Shape.live_of_loading rfl
    · rw [elsewhere line same]
      exact held.creations.live line asking
  · rw [completed]
    refine held.progress.change cid (fun other different => ⟨elsewhere other different, others other different⟩)
      (fun _ member _ => member) (fun reference member other => (kept reference member).resolve_left other)
      (fun _ processing => ?_) fun _ blank => ?_
    · rw [atCid] at processing
      exact held.progress.listed cid live processing
    · rw [Tracked.contentAfter, Function.update_self] at blank
      cases blank

/-- Bytes arrive at a line, and perhaps complete it. -/
theorem Held.bytes (held : Held sets l) {addr : Addr} (geometry : l.cache.SameGeometry c')
    (shapes : ∀ line, (c'.shapes line).tag = (l.cache.shapes line).tag ∧
      (c'.shapes line).state = (l.cache.shapes line).state)
    (others : ∀ line ≠ cid, c'.shapes line = l.cache.shapes line) (hooks : c'.hooks = l.cache.hooks)
    (writebacks : c'.writebacks.contents = l.cache.writebacks.contents)
    (completed : l.cache.readResponses.contents ⊆ c'.readResponses.contents)
    (own : (c'.shapes cid).Live → (c'.shapes cid).processing = true →
      ∃ reference ∈ c'.readResponses.contents, reference.toNat = cid)
    (allowed : l.tracked.Allows (.bytes cid addr)) (kept : l.tracked.system.references ⊆ references) :
    After l c' (l.tracked.contentAfter (.bytes cid addr)) references := by
  have live : ∀ line, (c'.shapes line).Live ↔ (l.cache.shapes line).Live := by
    intro line
    rw [Shape.Live, Shape.Live, (shapes line).2]
  have elsewhere : ∀ line ≠ cid, l.tracked.contentAfter (.bytes cid addr) line = l.tracked.content line :=
    fun line different => Function.update_of_ne different _ _
  refine held.same geometry (fun line => ?_) hooks writebacks (fun line => (shapes line).1)
    (fun line => (live line).mpr) (fun line known => ?_) ?_
  · rw [DCache.hanging, DCache.hanging, hooks]
    exact if_congr (live line) rfl rfl
  · by_cases same : line = cid
    · subst same
      exact allowed
    · rwa [elsewhere line same] at known
  · refine held.progress.change cid (fun other different => ⟨others other different, elsewhere other different⟩)
      (fun _ member _ => completed member) (fun _ member _ => kept member) own fun _ blank => ?_
    rw [Tracked.contentAfter, Function.update_self] at blank
    cases blank

/-- The state of a line is changed, but not who waits for it. -/
theorem Held.relabel (held : Held sets l) {state : LineState} (geometry : l.cache.SameGeometry c')
    (shapes : c'.shapes = Function.update l.cache.shapes cid { l.cache.shapes cid with state := state })
    (stays : (l.cache.shapes cid).Live → ({ l.cache.shapes cid with state := state } : Shape).Live)
    (was : ({ l.cache.shapes cid with state := state } : Shape).Live → (l.cache.shapes cid).Live)
    (hooks : c'.hooks = l.cache.hooks) (completed : c'.readResponses.contents = l.cache.readResponses.contents)
    (writebacks : c'.writebacks.contents = l.cache.writebacks.contents)
    (kept : l.tracked.system.references ⊆ references) : After l c' l.tracked.content references := by
  have atCid : c'.shapes cid = { l.cache.shapes cid with state := state } := by rw [shapes, Function.update_self]
  have others : ∀ line ≠ cid, c'.shapes line = l.cache.shapes line := by
    intro line different
    rw [shapes, Function.update_of_ne different]
  have live : ∀ line, (c'.shapes line).Live ↔ (l.cache.shapes line).Live := by
    intro line
    by_cases same : line = cid
    · subst same
      rw [atCid]
      exact ⟨was, stays⟩
    · rw [others line same]
  refine held.same geometry (fun line => ?_) hooks writebacks (fun line => ?_) (fun line => (live line).mpr)
    (fun _ => id) ?_
  · rw [DCache.hanging, DCache.hanging, hooks]
    exact if_congr (live line) rfl rfl
  · by_cases same : line = cid
    · subst same
      rw [atCid]
    · rw [others line same]
  · rw [completed]
    have progress := held.progress.mono kept
    refine progress.change cid (fun line different => ⟨others line different, rfl⟩) (fun _ member _ => member)
      (fun _ member _ => member) (fun now processing => ?_) fun now => ?_
    · rw [atCid] at processing
      exact progress.listed cid ((live cid).mp now) processing
    · exact progress.referred cid ((live cid).mp now)

/-- The waiters of a completed read are queued. -/
theorem Held.finish (held : Held sets l) {cid : BitVec 32} (geometry : l.cache.SameGeometry c')
    (front : l.cache.readResponses.contents = cid :: c'.readResponses.contents)
    (after : c'.view = { c'.view with
      shapes := Function.update l.cache.shapes cid.toNat { l.cache.shapes cid.toNat with
        state := if (l.cache.shapes cid.toNat).state = .invalid then .empty else .full }
      hooks := Function.update l.cache.hooks cid.toNat ⟨none, false⟩
      writebacks := l.cache.writebacks.contents ++ l.cache.writebackOf cid.toNat (l.cache.hooks cid.toNat) })
    (kept : l.tracked.system.references ⊆ references) :
    After (l.queue cid.toNat (l.cache.hooks cid.toNat).create) c' l.tracked.content references := by
  obtain ⟨used, open', processing⟩ := held.order.completed cid (front ▸ List.mem_cons_self)
  have known := held.order.content_of_processing used processing
  have live : (l.cache.shapes cid.toNat).Live := by
    unfold Shape.Live
    cases state : (l.cache.shapes cid.toNat).state <;> simp_all
  have shapes : c'.shapes = Function.update l.cache.shapes cid.toNat { l.cache.shapes cid.toNat with
    state := if (l.cache.shapes cid.toNat).state = .invalid then .empty else .full } := congrArg CacheView.shapes after
  have hooks : c'.hooks = Function.update l.cache.hooks cid.toNat ⟨none, false⟩ := congrArg CacheView.hooks after
  have writebacks : c'.writebacks.contents =
    l.cache.writebacks.contents ++ l.cache.writebackOf cid.toNat (l.cache.hooks cid.toNat) :=
    congrArg CacheView.writebacks after
  obtain ⟨elsewhere, here⟩ := DCache.hanging_update shapes hooks
  rw [ite_self] at here
  have others : ∀ line ≠ cid.toNat, c'.shapes line = l.cache.shapes line := by
    intro line different
    rw [shapes, Function.update_of_ne different]
  have dead : ¬ (c'.shapes cid.toNat).Live := by
    rw [shapes, Function.update_self]
    refine Shape.dead_of_state ?_
    dsimp only
    split
    · exact Or.inl rfl
    · exact Or.inr rfl
  refine ⟨?_, ?_, ?_, ?_⟩
  · have queued := @Chains.queue _ _ _ _ _ held.chains (l.cache.hooks cid.toNat).create elsewhere here
    rw [DCache.hanging_of_live live] at queued
    rw [writebacks]
    exact queued
  · refine held.promises.queue (DCache.whole_of_valid (held.whole cid.toNat (Or.inr processing)))
      (fun reg place => held.promises.named reg _ place known) fun line different nonempty => ⟨nonempty, ?_⟩
    exact geometry.lineName (by rw [others line different])
  · refine held.creations.queue ?_ (fun line different => ?_) fun line different => ?_
    · rw [hooks, Function.update_self]
    · rw [hooks, Function.update_of_ne different]
    · rw [others line different]
      exact id
  · refine held.progress.change cid.toNat (fun line different => ⟨others line different, rfl⟩)
      (fun reference member different => ?_) (fun _ member _ => kept member) (fun now => absurd now dead)
      fun now => absurd now dead
    rw [front] at member
    refine (List.mem_cons.mp member).resolve_left ?_
    rintro rfl
    exact different rfl

/-- The front of the write-backs is written. -/
theorem Held.deliver (held : Held sets l) {request : WritebackRequest} (geometry : l.cache.SameGeometry c')
    (front : l.cache.writebacks.contents = request :: c'.writebacks.contents)
    (after : c'.view = { l.cache.view with writebacks := c'.writebacks.contents })
    (kept : l.tracked.system.references ⊆ references) :
    After (l.deliver (follow l.next l.pushed.length (some request.waiting))) c' l.tracked.content references := by
  have shapes : c'.shapes = l.cache.shapes := congrArg CacheView.shapes after
  have hooks : c'.hooks = l.cache.hooks := congrArg CacheView.hooks after
  have completed : c'.readResponses.contents = l.cache.readResponses.contents := congrArg CacheView.completed after
  have hanging : c'.hanging = l.cache.hanging :=
    funext fun line => DCache.hanging_congr (congrFun shapes line) (congrFun hooks line)
  have names : c'.lineName = l.cache.lineName := funext fun line => geometry.lineName (by rw [shapes])
  have chains := held.chains
  rw [front] at chains
  obtain ⟨regs, lists, followed, _, _, _, members⟩ := chains.follow_front
  refine ⟨?_, ?_, ?_, ?_⟩
  · rw [hanging]
    exact chains.deliver
  · rw [names]
    exact held.promises.deliver fun reg member => (members reg).mp (Or.inl (followed ▸ member))
  · rw [hooks, shapes]
    exact held.creations.congr rfl rfl rfl (fun _ => rfl) held.creations.live
  · rw [shapes, completed]
    exact held.progress.mono kept

/-- The registers of a parked line wait for the line that the tag of another names. -/
theorem Held.move (held : Held sets l) {other : Nat} {number : Addr} {reg : RegAddr} (different : cid ≠ other)
    (name : number = l.cache.lineName other) (blank : l.tracked.content cid = [])
    (hanging : l.cache.hanging cid = some reg) (free : l.cache.hanging other = none) :
    Chains ((l.settle cid number).move cid other)
        (Function.update (Function.update l.cache.hanging other (some reg)) cid none) l.cache.writebacks.contents ∧
      Promises ((l.settle cid number).move cid other) l.cache.lineName l.tracked.content := by
  constructor
  · refine (held.chains.settle _).move different free (fun line atCid atLine => ?_) ?_ (Function.update_self ..)
    · rw [Function.update_of_ne atCid, Function.update_of_ne atLine]
    · rw [Function.update_of_ne different.symm, Function.update_self, hanging]
  · have settled : Promises (l.settle cid number) l.cache.lineName l.tracked.content :=
      held.promises.settle (fun nonempty => absurd blank nonempty) fun _ _ nonempty => ⟨nonempty, rfl⟩
    refine settled.move (fun reg place => ?_) fun _ _ nonempty => ⟨nonempty, rfl⟩
    have atCid : l.place reg = .line cid := place
    simp only [Ledger.settle, if_pos atCid]
    rw [name]

/-- What the cache is like after the line `cid` has been given up for the line `other`. -/
structure GivenUp (l : Ledger) (c' : DCache) (cid other : Nat) (content : Nat → List Addr)
    (references : List (BitVec 32)) : Prop where
  others : ∀ line ≠ cid, c'.shapes line = l.cache.shapes line
  gone : c'.hanging cid = none
  rest : ∀ line, line ≠ cid → line ≠ other → c'.hanging line = l.cache.hanging line
  creates : ∀ line, (c'.hooks line).create = (l.cache.hooks line).create
  names : ∀ line, content line ≠ [] → l.tracked.content line ≠ [] ∧ c'.lineName line = l.cache.lineName line
  live : ∀ line, l.asking = some line → (c'.shapes line).Live
  progress : Progress c'.shapes content c'.readResponses.contents references

theorem Held.givenUp (held : Held sets l) {other : Nat} {tlbData : TlbResultMessage} {hook : Hook}
    (geometry : l.cache.SameGeometry c')
    (shapes : c'.shapes = Function.update l.cache.shapes cid { l.cache.shapes cid with state := .empty })
    (hooks : c'.hooks = Function.update (Function.update l.cache.hooks other hook) cid
      { l.cache.hooks cid with waiting := none })
    (completed : c'.readResponses.contents = l.cache.readResponses.contents)
    (create : hook.create = (l.cache.hooks other).create) (idle : l.asking ≠ some cid)
    (kept : Use.Keeps l.tracked.system.references references (.merge cid other tlbData)) :
    GivenUp l c' cid other (Function.update l.tracked.content cid []) references := by
  have others : ∀ line ≠ cid, c'.shapes line = l.cache.shapes line := by
    intro line unequal
    rw [shapes, Function.update_of_ne unequal]
  have dead : ¬ (c'.shapes cid).Live := by
    rw [shapes, Function.update_self]
    exact Shape.dead_of_state (Or.inl rfl)
  have elsewhere : ∀ line ≠ cid, Function.update l.tracked.content cid [] line = l.tracked.content line :=
    fun line unequal => Function.update_of_ne unequal _ _
  refine ⟨others, DCache.hanging_of_dead dead, fun line atCid atLine => ?_, fun line => ?_, fun line nonempty => ?_,
    fun line asking => ?_, ?_⟩
  · refine DCache.hanging_congr (others line atCid) ?_
    rw [hooks, Function.update_of_ne atCid, Function.update_of_ne atLine]
  · rw [hooks]
    by_cases atCid : line = cid
    · subst atCid
      rw [Function.update_self]
    · rw [Function.update_of_ne atCid]
      by_cases atLine : line = other
      · subst atLine
        rw [Function.update_self, create]
      · rw [Function.update_of_ne atLine]
  · by_cases same : line = cid
    · subst same
      exact absurd (Function.update_self ..) nonempty
    · exact ⟨elsewhere line same ▸ nonempty, geometry.lineName (by rw [others line same])⟩
  · rw [others line fun same => idle (same ▸ asking)]
    exact held.creations.live line asking
  · rw [completed]
    exact held.progress.change cid (fun line unequal => ⟨others line unequal, elsewhere line unequal⟩)
      (fun _ member _ => member) (fun reference member unequal => (kept reference member).resolve_left unequal)
      (fun now => absurd now dead) fun now => absurd now dead

/-- The other line is full, and its data is queued for the registers at once. -/
theorem Held.merge_full (held : Held sets l) {other : Nat} {number : Addr} {reg : RegAddr} {content : Nat → List Addr}
    {create : Bool} (given : GivenUp l c' cid other content references) (different : cid ≠ other)
    (name : number = l.cache.lineName other) (blank : l.tracked.content cid = [])
    (hanging : l.cache.hanging cid = some reg) (idle : l.asking ≠ some cid)
    (full : (l.cache.shapes other).state = .full) (known : l.tracked.content other ≠ [])
    (uncreated : create = (l.cache.hooks other).create)
    (writebacks : c'.writebacks.contents = l.cache.writebacks.contents ++ [⟨(l.cache.lines other).data, reg⟩]) :
    After (((l.settle cid number).move cid other).queue other create) c' content references := by
  have dead := Shape.dead_of_state (Or.inr full)
  have free := DCache.hanging_of_dead dead
  obtain ⟨hung, moved⟩ := held.move different name blank hanging free
  have whole := DCache.whole_of_valid (held.whole other (Or.inl full))
  have settled : l.asking ≠ some other := fun asking => dead (held.creations.live other asking)
  rw [held.creations.not_create dead] at uncreated
  refine ⟨?_, ?_, ?_, given.progress⟩
  · have head : Function.update (Function.update l.cache.hanging other (some reg)) cid none other = some reg := by
      rw [Function.update_of_ne different.symm, Function.update_self]
    have queued := @Chains.queue _ _ c'.hanging _ other hung create (fun line unequal => ?_) ?_
    · rw [head] at queued
      rw [writebacks]
      exact queued
    · by_cases atCid : line = cid
      · subst atCid
        rw [Function.update_self, given.gone]
      · rw [Function.update_of_ne atCid, Function.update_of_ne unequal, given.rest line atCid unequal]
    · refine DCache.hanging_of_dead ?_
      rw [given.others other different.symm]
      exact dead
  · exact moved.queue whole (fun reg place => moved.named reg other place known)
      fun line _ nonempty => given.names line nonempty
  · refine held.creations.congr rfl ?_ ?_ given.creates given.live
    · simp [Ledger.queue, Ledger.move, Ledger.settle, uncreated]
    · simp [Ledger.queue, Ledger.move, Ledger.settle, idle, settled]

/-- The other line is still loading, and the registers wait for it. -/
theorem Held.merge_partly (held : Held sets l) {other : Nat} {number : Addr} {reg : RegAddr} {content : Nat → List Addr}
    (given : GivenUp l c' cid other content references) (different : cid ≠ other)
    (name : number = l.cache.lineName other) (blank : l.tracked.content cid = [])
    (hanging : l.cache.hanging cid = some reg) (idle : l.asking ≠ some cid)
    (live : (l.cache.shapes other).Live) (free : (l.cache.hooks other).waiting = none)
    (waiting : (c'.hooks other).waiting = some reg)
    (writebacks : c'.writebacks.contents = l.cache.writebacks.contents) :
    After ((l.settle cid number).move cid other) c' content references := by
  obtain ⟨hung, moved⟩ := held.move different name blank hanging ((DCache.hanging_of_live live).trans free)
  refine ⟨?_, moved.rename fun _ line _ nonempty => given.names line nonempty, ?_, given.progress⟩
  · have heads : c'.hanging = Function.update (Function.update l.cache.hanging other (some reg)) cid none := by
      funext line
      by_cases atCid : line = cid
      · subst atCid
        rw [Function.update_self, given.gone]
      · rw [Function.update_of_ne atCid]
        by_cases atLine : line = other
        · subst atLine
          rw [Function.update_self, DCache.hanging_of_live (given.others line atCid ▸ live), waiting]
        · rw [Function.update_of_ne atLine, given.rest line atCid atLine]
    rw [heads, writebacks]
    exact hung
  · refine held.creations.congr rfl rfl ?_ given.creates given.live
    simp [Ledger.move, Ledger.settle, idle]

/-- A parked line with a register is given up for a full line, or for one without a
register that is not complete. -/
theorem Held.merge (held : Held sets l) (e : Event) {other : Nat} {tlbData : TlbResultMessage} {pAddr : Addr} {hook : Hook}
    (geometry : l.cache.SameGeometry c') (formed : pAddr = physicalAddress tlbData (l.cache.lines cid).tlbOffset)
    (loading : (l.cache.shapes cid).state = .loading)
    (found : l.cache.findLine (l.cache.splitAddress pAddr).2.1 (l.cache.splitAddress pAddr).2.2 (some cid) = some other)
    (pushed : hook = (l.cache.hooks other).push (l.cache.hooks cid).waiting)
    (after : c'.view = { l.cache.view with
      shapes := Function.update l.cache.shapes cid { l.cache.shapes cid with state := .empty }
      hooks := Function.update
        (Function.update l.cache.hooks other
          (if DCache.hasData (l.cache.lines other) 0 l.cache.lineSize then { hook with create := false } else hook))
        cid { l.cache.hooks cid with waiting := none }
      writebacks := l.cache.writebacks.contents ++
        if DCache.hasData (l.cache.lines other) 0 l.cache.lineSize then l.cache.writebackOf other hook else [] })
    (careful : l.Careful (.merge cid other tlbData)) (blank : l.tracked.content cid = [])
    (kept : Use.Keeps l.tracked.system.references references (.merge cid other tlbData)) :
    After (l.after e (.merge cid other tlbData)) c' (l.tracked.contentAfter (.merge cid other tlbData)) references := by
  obtain ⟨⟨offset, known⟩, ⟨uncreated, waits⟩, target⟩ := careful
  obtain ⟨reg, waiting⟩ := Option.isSome_iff_exists.mp waits
  have different : cid ≠ other := by
    rintro rfl
    exact (DCache.findLine_eq_some found).2.1 rfl
  have used : (l.cache.shapes other).state ≠ .empty := (DCache.findLine_eq_some found).2.2.1
  have name : l.cache.lineNumber (physicalAddress tlbData (l.source cid)) = l.cache.lineName other := by
    rw [offset, ← formed, held.lineName_of_findLine found]
  have hanging : l.cache.hanging cid = some reg :=
    (DCache.hanging_of_live (Shape.live_of_loading loading)).trans waiting
  have idle : l.asking ≠ some cid := by
    intro asking
    rw [(held.creations.flagged cid).mpr asking] at uncreated
    cases uncreated
  have atOther : hook = ⟨some reg, (l.cache.hooks other).create⟩ := by
    rw [pushed, waiting]
    rfl
  have shapes := congrArg CacheView.shapes after
  have hooks := congrArg CacheView.hooks after
  have completed := congrArg CacheView.completed after
  have writebacks := congrArg CacheView.writebacks after
  have complete : DCache.hasData (l.cache.lines other) 0 l.cache.lineSize = true ↔ (l.cache.shapes other).state = .full := by
    constructor
    · exact fun all => target.resolve_right fun partly => Bool.false_ne_true (partly.2.symm.trans all)
    · intro full
      have state : (l.cache.lines other).state = .full := full
      simp [DCache.hasData, state]
  simp only [Ledger.after]
  by_cases full : (l.cache.shapes other).state = .full
  · have create : ({ hook with create := false } : Hook).create = (l.cache.hooks other).create :=
      (held.creations.not_create (Shape.dead_of_state (Or.inr full))).symm
    dsimp only at hooks writebacks
    rw [if_pos (complete.mpr full)] at hooks writebacks ⊢
    rw [atOther] at writebacks
    exact held.merge_full (held.givenUp geometry shapes hooks completed create idle kept) different name blank hanging
      idle full known (by rw [← pushed, atOther]) writebacks
  · have partly : ¬ DCache.hasData (l.cache.lines other) 0 l.cache.lineSize = true := fun all => full (complete.mp all)
    have live : (l.cache.shapes other).Live := by
      unfold Shape.Live
      cases state : (l.cache.shapes other).state <;> simp_all
    have free := (target.resolve_left full).1
    dsimp only at hooks writebacks
    rw [if_neg partly] at hooks writebacks ⊢
    rw [List.append_nil] at writebacks
    have atHook : (c'.hooks other).waiting = some reg := by
      have own := congrFun hooks other
      rw [Function.update_of_ne different.symm, Function.update_self, atOther] at own
      exact congrArg Hook.waiting own
    have create : hook.create = (l.cache.hooks other).create := by rw [atOther]
    exact held.merge_partly (held.givenUp geometry shapes hooks completed create idle kept) different name blank hanging
      idle live free atHook writebacks

/-- A use of the lines that its step describes keeps what holds of the loads. -/
theorem Held.after (held : Held sets l) {e : Event} {use : Use} {s' : System} {lossless : Prop} (holds : lossless)
    (allowed : l.tracked.Allows use) (careful : l.Careful use) (returns : use.Returns l.cache (l.returned e))
    (step : SetStep l.tracked.system use lossless s') :
    After (l.after e use) s'.core.cache (l.tracked.contentAfter use) s'.references := by
  obtain ⟨geometry, lines, refers, keeps⟩ := step
  have kept := keeps holds
  cases lines with
  | kept same =>
    have shapes : s'.core.cache.shapes = l.cache.shapes := congrArg CacheView.shapes same
    have hooks : s'.core.cache.hooks = l.cache.hooks := congrArg CacheView.hooks same
    have completed : s'.core.cache.readResponses.contents = l.cache.readResponses.contents :=
      congrArg CacheView.completed same
    refine held.same geometry (fun line => DCache.hanging_congr (by rw [shapes]) (by rw [hooks])) hooks
      (congrArg CacheView.writebacks same) (fun _ => by rw [shapes]) (fun _ => by rw [shapes]; exact id)
      (fun _ => id) ?_
    rw [shapes, completed]
    exact held.progress.mono kept
  | joined found loading after => exact held.join geometry found loading after careful returns kept
  | @parked cid reg address empty after =>
    obtain ⟨chains, promises, creations, progress⟩ := held.park geometry empty after careful returns kept
    exact ⟨⟨chains.once, chains.hung, chains.queued⟩, ⟨promises.named, promises.coming, promises.loaded⟩,
      ⟨creations.created, creations.flagged, creations.live⟩, progress⟩
  | requested pAddr empty after => exact held.request geometry empty after careful returns kept
  | resolved tlbData pAddr formed loading absent after =>
    exact held.resolve geometry loading after allowed careful kept
  | @merged cid other tlbData pAddr hook formed loading found pushed after =>
    obtain ⟨reference, rfl, released⟩ := refers
    exact held.merge e geometry formed loading found pushed after careful (held.released released).1.2 kept
  | @touched cid addr found same =>
    have shapes : s'.core.cache.shapes = l.cache.shapes := congrArg CacheView.shapes same
    have completed : s'.core.cache.readResponses.contents = l.cache.readResponses.contents :=
      congrArg CacheView.completed same
    refine held.bytes geometry (fun _ => by rw [shapes]; exact ⟨rfl, rfl⟩) (fun _ _ => by rw [shapes])
      (congrArg CacheView.hooks same) (congrArg CacheView.writebacks same) (by rw [completed]; exact fun _ => id)
      ?_ allowed kept
    rw [shapes, completed]
    exact held.progress.listed cid
  | @filled cid addr found waits idle after =>
    have shapes : s'.core.cache.shapes = Function.update l.cache.shapes cid { l.cache.shapes cid with processing := true } :=
      congrArg CacheView.shapes after
    have completed : s'.core.cache.readResponses.contents = l.cache.readResponses.contents ++ [BitVec.ofNat 32 cid] :=
      congrArg CacheView.completed after
    have inSet := (DCache.mem_setLines held.assoc).mp (DCache.findLine_eq_some found).1
    refine held.bytes geometry (fun line => ?_) (fun line different => ?_) (congrArg CacheView.hooks after)
      (congrArg CacheView.writebacks after) (fun _ member => ?_) (fun _ _ => ?_) allowed kept
    · rw [shapes]
      by_cases same : line = cid
      · subst same
        rw [Function.update_self]
        exact ⟨rfl, rfl⟩
      · rw [Function.update_of_ne same]
        exact ⟨rfl, rfl⟩
    · rw [shapes, Function.update_of_ne different]
    · rw [completed]
      exact List.mem_append_left _ member
    · rw [completed]
      exact ⟨_, List.mem_append_right _ List.mem_cons_self, held.toNat_cid inSet⟩
  | finished front after => exact held.finish geometry front after kept
  | delivered front after => exact held.deliver geometry front after kept
  | @invalidated cid full after =>
    have shapes : s'.core.cache.shapes = Function.update l.cache.shapes cid { l.cache.shapes cid with state := .empty } :=
      congrArg CacheView.shapes after
    exact held.relabel geometry shapes (fun live => absurd live (Shape.dead_of_state (Or.inr full)))
      (fun live => absurd live (Shape.dead_of_state (Or.inl rfl))) (congrArg CacheView.hooks after)
      (congrArg CacheView.completed after) (congrArg CacheView.writebacks after) kept
  | @doomed cid loading after =>
    have shapes : s'.core.cache.shapes =
      Function.update l.cache.shapes cid { l.cache.shapes cid with state := .invalid } := congrArg CacheView.shapes after
    exact held.relabel geometry shapes (fun _ => Or.inr rfl) (fun _ => Or.inl loading) (congrArg CacheView.hooks after)
      (congrArg CacheView.completed after) (congrArg CacheView.writebacks after) kept

theorem Use.returns_bytes (c : DCache) (returned : Option RegAddr) (found : Option Nat) (addr : Addr) :
    ((found.map fun cid => Use.bytes cid addr).getD .keep).Returns c returned := by
  cases found <;> trivial

theorem DCache.returns_completionUse (c : DCache) (tlbData : TlbResultMessage) (cid : Nat) (returned : Option RegAddr) :
    (c.completionUse tlbData cid).Returns c returned := by
  rcases c.completionUse_cases tlbData cid with ⟨other, merged⟩ | ⟨addr, resolved⟩
  · rw [merged]
    trivial
  · rw [resolved]
    trivial

theorem Core.returns_lookupUse (s : Core) (returned : Option RegAddr) : s.lookupUse.Returns s.cache returned := by
  unfold lookupUse
  split
  · trivial
  split
  · trivial
  split
  · trivial
  split
  · trivial
  · exact s.cache.returns_completionUse _ _ _

/-- The memory stage is handed the first register of the chain that its own goes in front of. -/
theorem Ledger.returns (l : Ledger) {e : Event} {s' : System} (taken : l.tracked.system.step e = some s') :
    (l.tracked.system.use e).Returns l.cache (l.returned e) := by
  cases e with
  | read contextId address size reg =>
    simp only [System.step] at taken
    split at taken
    · cases taken
    · rename_i out done
      have lines := (Core.read2_lines done).1.2.2
      simp only [Ledger.returned, done]
      exact lines
  | write id contextId address data tid =>
    simp only [System.use, Core.writeUse]
    split
    · trivial
    split
    · exact Use.returns_bytes _ _ _ _
    · trivial
  | lookupResponses =>
    simp only [System.use]
    split
    · exact l.tracked.system.core.returns_lookupUse _
    · trivial
  | readResponses =>
    simp only [System.use]
    split <;> trivial
  | memoryRead addr data => exact Use.returns_bytes _ _ _ _
  | snoop addr data mask => exact Use.returns_bytes _ _ _ _
  | writebacks =>
    simp only [System.use]
    cases l.tracked.system.core.cache.writebacks.take? <;> trivial
  | answer | invalidate | property | memoryInvalidate | outgoing | transmit | endCycle => trivial

theorem Held.step (held : Held sets l) {e : Event} {l' : Ledger} (allowed : WaiterGuard l e)
    (taken : l.step e = some l') : Held sets l' := by
  obtain ⟨⟨integrity, lossless⟩, careful⟩ := allowed
  obtain ⟨t', moved, rfl⟩ := Option.map_eq_some_iff.mp taken
  have kept := held.toSets.step integrity moved
  obtain ⟨s', stepped, rfl⟩ := Option.map_eq_some_iff.mp moved
  have change := held.toWaiting.setStep stepped
  obtain ⟨chains, promises, creations, progress⟩ := held.after lossless integrity careful (l.returns stepped) change
  have ready := fun cid member => (held.order.completed cid member).2.2
  exact ⟨kept, System.wholeLines_step held.whole ready stepped, ⟨chains.once, chains.hung, chains.queued⟩,
    ⟨promises.named, promises.coming, promises.loaded⟩, ⟨creations.created, creations.flagged, creations.live⟩, progress⟩

/-- Every part of the claim is a field of an invariant. -/
theorem Held.kept (held : Held sets l) : WaitersKept l where
  once := held.chains.once
  hung := held.chains.hung
  queued := held.chains.queued
  outstanding := by
    intro cid waits
    have live : (l.cache.shapes cid).Live := by
      rcases waits with ⟨reg, place⟩ | asking
      · by_contra dead
        exact held.chains.not_at (DCache.hanging_of_dead dead) reg place
      · exact held.creations.live cid asking
    by_cases blank : l.tracked.content cid = []
    · obtain ⟨reference, member, rfl⟩ := held.progress.referred cid live blank
      refine Or.inl ⟨blank, ?_⟩
      rwa [BitVec.ofNat_toNat, BitVec.setWidth_eq]
    · cases processing : (l.cache.shapes cid).processing with
      | true =>
        obtain ⟨reference, member, rfl⟩ := held.progress.listed cid live processing
        refine Or.inr (Or.inr ?_)
        rwa [BitVec.ofNat_toNat, BitVec.setWidth_eq]
      | false =>
        refine Or.inr (Or.inl ⟨⟨?_, blank⟩, ?_, processing⟩)
        · intro empty
          exact Shape.dead_of_state (Or.inl empty) live
        · intro full
          exact Shape.dead_of_state (Or.inr full) live
  coming := held.promises.coming
  loaded := held.promises.loaded
  created := held.creations.created
  flagged := held.creations.flagged

end Step

/-- Nothing waits at the start. -/
theorem Started.held {config : CacheConfig} {core : Core} (started : Started config core) (fits : config.Fits) :
    Held config.sets (.initial core) := by
  obtain ⟨_, _, _, _, _, lines, _, _, writebacks, _⟩ := DCache.configure_eq_ok started.cache
  have atLine : ∀ cid, (Ledger.initial core).cache.lines cid = CacheLine.initial := congrFun lines
  have dead : ∀ cid, ¬ ((Ledger.initial core).cache.shapes cid).Live := by
    intro cid
    rw [DCache.shapes, atLine]
    exact Shape.dead_of_state (Or.inl rfl)
  have queue : (Ledger.initial core).cache.writebacks.contents = [] := writebacks
  refine ⟨started.sets fits, fun cid busy => ?_, ⟨fun _ => rfl, fun cid => ?_, [], ?_, List.nodup_nil, by simp [Ledger.initial]⟩,
    ⟨fun _ _ place => ?_, fun _ place => ?_, fun _ member => ?_⟩, ⟨rfl, fun cid => ?_, fun _ asking => ?_⟩,
    ⟨fun cid live => absurd live (dead cid), fun cid live => absurd live (dead cid)⟩⟩
  · rw [atLine] at busy
    simp [CacheLine.initial] at busy
  · rw [DCache.hanging_of_dead (dead cid)]
    exact ⟨[], .nil, List.nodup_nil, by simp [Ledger.initial]⟩
  · rw [queue]
    exact .nil
  · cases place
  · cases place
  · cases member
  · rw [DCache.hooks, atLine]
    simp [CacheLine.initial, Ledger.initial]
  · cases asking

/-- In every run that loses no reference, keeps the sets in order, and merges no two
lines that both have waiters, every load is written back once with its line, and every creation is answered. -/
theorem waiters_kept {config : CacheConfig} {core : Core} {events : List Event} {l : Ledger} (fits : config.Fits)
    (started : Started config core) (run : Run Ledger.step WaiterGuard (.initial core) events l) : WaitersKept l :=
  (run.invariant (I := Held config.sets) (started.held fits)
    fun _ _ _ held allowed taken => held.step allowed taken).kept

section TwoLoads

/-- A load of a physical address, and another one of its line through the TLB after its completion. -/
def loadsOfOneLine : List Event :=
  [.read 0 0x300000000 8 (some ⟨.integer, 4⟩), .endCycle, .memoryRead 0x300000000 fun _ => 7, .endCycle,
    .readResponses, .endCycle, .writebacks, .property Tlb.enableMsg, .read 0 0x200000000 8 (some ⟨.integer, 5⟩),
    .answer (Tlb.refillMsg 0 2 0x300000), .endCycle, .lookupResponses, .endCycle, .writebacks]

def waiterCheck (l : Ledger) (e : Event) : Bool :=
  decide (SetGuard l.tracked e) && wakeCheck l.tracked.system e && decide (l.Careful (l.tracked.system.use e))

theorem waiterGuard_of_check (l : Ledger) (e : Event) (accepted : waiterCheck l e = true) : WaiterGuard l e := by
  simp only [waiterCheck, Bool.and_eq_true, decide_eq_true_eq] at accepted
  obtain ⟨⟨integrity, woken⟩, careful⟩ := accepted
  refine ⟨⟨integrity, ?_⟩, careful⟩
  cases e with
  | read => exact fun _ _ found => absurd found (not_pendingAt_of_idle woken)
  | write => exact fun _ found => absurd found (not_pendingAt_of_idle woken)
  | answer => exact Or.inr (Or.inl (of_decide_eq_true woken))
  | _ => trivial

/-- Both registers are written with the line that they asked for. -/
theorem waiters_kept_merge :
    ∃ core l, smallCore = .ok core ∧ execute Ledger.step (.initial core) loadsOfOneLine = some l ∧
      l.written = [⟨⟨.integer, 5⟩, some 0xC000000, some 0xC000000⟩, ⟨⟨.integer, 4⟩, some 0xC000000, some 0xC000000⟩] ∧
      WaitersKept l := by
  have whole : (smallCore.toOption.bind fun core =>
      (execute (checked waiterCheck Ledger.step) (.initial core) loadsOfOneLine).map Ledger.written) =
        some [⟨⟨.integer, 5⟩, some 0xC000000, some 0xC000000⟩, ⟨⟨.integer, 4⟩, some 0xC000000, some 0xC000000⟩] := by
    decide +kernel
  cases made : smallCore with
  | error fault =>
    rw [made] at whole
    cases whole
  | ok core =>
    rw [made] at whole
    obtain ⟨l, done, written⟩ := Option.map_eq_some_iff.mp whole
    have run : Run Ledger.step WaiterGuard (.initial core) loadsOfOneLine l := run_of_checked waiterGuard_of_check done
    exact ⟨core, l, rfl, execute_of_run run, written,
      waiters_kept ⟨by decide, by decide⟩ (started_of_smallCore made) run⟩

/-- The same loads, the second of which is translated before the line of the first has arrived. -/
def loadsOfLoadingLine : List Event :=
  [.read 0 0x300000000 8 (some ⟨.integer, 4⟩), .endCycle, .property Tlb.enableMsg,
    .read 0 0x200000000 8 (some ⟨.integer, 5⟩), .answer (Tlb.refillMsg 0 2 0x300000), .endCycle, .lookupResponses,
    .endCycle, .memoryRead 0x300000000 fun _ => 7, .endCycle, .readResponses, .endCycle, .writebacks]

/-- The second register has replaced the first, which is never written. -/
theorem first_waiter_lost :
    ∃ core l, smallCore = .ok core ∧ execute Ledger.step (.initial core) loadsOfLoadingLine = some l ∧
      l.pushed = [⟨.integer, 5⟩, ⟨.integer, 4⟩] ∧ l.written.map Writeback.reg = [⟨.integer, 5⟩] ∧
      l.cache.writebacks.contents.length = 0 ∧ l.cache.hanging 0 = none ∧ l.cache.hanging 1 = none ∧ ¬ WaitersKept l := by
  have whole : (smallCore.toOption.bind fun core =>
      (execute Ledger.step (.initial core) loadsOfLoadingLine).map fun l =>
        decide (l.pushed = [⟨.integer, 5⟩, ⟨.integer, 4⟩] ∧ l.written.map Writeback.reg = [⟨.integer, 5⟩] ∧
          l.cache.writebacks.contents.length = 0 ∧ l.cache.hanging 0 = none ∧ l.cache.hanging 1 = none ∧
          l.place ⟨.integer, 4⟩ = .queued)) = some true := by
    decide +kernel
  cases made : smallCore with
  | error fault =>
    rw [made] at whole
    cases whole
  | ok core =>
    rw [made] at whole
    obtain ⟨l, done, seen⟩ := Option.map_eq_some_iff.mp whole
    obtain ⟨pushed, written, queue, first, second, place⟩ := of_decide_eq_true seen
    refine ⟨core, l, rfl, done, pushed, written, queue, first, second, fun kept => ?_⟩
    obtain ⟨chains, matched, _, members⟩ := kept.queued
    rw [List.length_eq_zero_iff.mp queue] at matched
    cases matched
    exact List.not_mem_nil ((members _).mpr place)

end TwoLoads

end Mgsim.Drisc
