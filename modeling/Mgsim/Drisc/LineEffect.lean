import Mgsim.Drisc.Effect
import Mgsim.Drisc.Tracked

namespace Mgsim.Drisc
open Mgsim.Lib Mgsim.Mmu

/-- What the searches in a set and the memory events look at in a line. -/
@[ext] structure Shape where
  tag : Addr
  state : LineState
  processing : Bool

/-- Who waits for a line: the first of its registers, and a creation. -/
@[ext] structure Hook where
  waiting : Option RegAddr
  create : Bool

/-- The hook after `PushRegister`. -/
def Hook.push (hook : Hook) : Option RegAddr → Hook
  | some reg => { hook with waiting := some reg }
  | none => { hook with create := true }

/-- The lines of the cache by shape and hook, and the queues that a completed read goes through. -/
@[ext] structure CacheView where
  shapes : Nat → Shape
  hooks : Nat → Hook
  completed : List (BitVec 32)
  writebacks : List WritebackRequest

namespace DCache

def shapes (c : DCache) (cid : Nat) : Shape :=
  ⟨(c.lines cid).tag, (c.lines cid).state, (c.lines cid).processing⟩

def hooks (c : DCache) (cid : Nat) : Hook := ⟨(c.lines cid).waiting, (c.lines cid).create⟩

def view (c : DCache) : CacheView :=
  ⟨c.shapes, c.hooks, c.readResponses.contents, c.writebacks.contents⟩

/-- The request that `initiateWriteback` queues for a line with this hook. -/
def writebackOf (c : DCache) (cid : Nat) (hook : Hook) : List WritebackRequest :=
  hook.waiting.toList.map fun reg => ⟨(c.lines cid).data, reg⟩

structure SameGeometry (c c' : DCache) : Prop where
  assoc : c'.assoc = c.assoc
  lineSize : c'.lineSize = c.lineSize
  selector : c'.selector = c.selector

theorem SameGeometry.refl (c : DCache) : c.SameGeometry c := ⟨rfl, rfl, rfl⟩

end DCache

/-- What a use does to the lines and the queues of the cache. -/
inductive LineEffect (c c' : DCache) : Use → Prop
  | kept : c'.view = c.view → LineEffect c c' .keep
  | joined {cid : Nat} {reg : Option RegAddr} {pAddr : Addr} : c.lineOf pAddr = some cid →
      (c.shapes cid).state = .loading →
      c'.view = { c.view with hooks := Function.update c.hooks cid ((c.hooks cid).push reg) } →
      LineEffect c c' (.join cid reg pAddr)
  | parked {cid : Nat} {reg : Option RegAddr} {address : Addr} :
      c.getEmptyLine (c.splitAddress address).2.1 = some cid →
      c'.view = { c.view with
        shapes := Function.update c.shapes cid ⟨0, .loading, false⟩
        hooks := Function.update c.hooks cid (Hook.push ⟨none, (c.hooks cid).create⟩ reg) } →
      LineEffect c c' (.park cid reg address)
  | requested {cid : Nat} {reg : Option RegAddr} (pAddr : Addr) :
      c.getEmptyLine (c.splitAddress pAddr).2.1 = some cid →
      c'.view = { c.view with
        shapes := Function.update c.shapes cid ⟨(c.splitAddress pAddr).2.2, .loading, false⟩
        hooks := Function.update c.hooks cid (Hook.push ⟨none, (c.hooks cid).create⟩ reg) } →
      LineEffect c c' (.request cid reg (c.requestAddress pAddr))
  | resolved {cid : Nat} (tlbData : TlbResultMessage) (pAddr : Addr) :
      pAddr = physicalAddress tlbData (c.lines cid).tlbOffset → (c.shapes cid).state = .loading →
      c.findLine (c.splitAddress pAddr).2.1 (c.splitAddress pAddr).2.2 (some cid) = none →
      c'.view = { c.view with
        shapes := Function.update c.shapes cid ⟨(c.splitAddress pAddr).2.2, .loading, (c.shapes cid).processing⟩ } →
      LineEffect c c' (.resolve cid tlbData (c.requestAddress pAddr))
  | merged {cid other : Nat} (tlbData : TlbResultMessage) (pAddr : Addr) (hook : Hook) :
      pAddr = physicalAddress tlbData (c.lines cid).tlbOffset → (c.shapes cid).state = .loading →
      c.findLine (c.splitAddress pAddr).2.1 (c.splitAddress pAddr).2.2 (some cid) = some other →
      hook = (c.hooks other).push (c.hooks cid).waiting →
      c'.view = { c.view with
        shapes := Function.update c.shapes cid { c.shapes cid with state := .empty }
        hooks := Function.update
          (Function.update c.hooks other
            (if DCache.hasData (c.lines other) 0 c.lineSize then { hook with create := false } else hook))
          cid { c.hooks cid with waiting := none }
        writebacks := c.writebacks.contents ++
          if DCache.hasData (c.lines other) 0 c.lineSize then c.writebackOf other hook else [] } →
      LineEffect c c' (.merge cid other tlbData)
  | touched {cid : Nat} {addr : Addr} : c.lineOf addr = some cid → c'.view = c.view →
      LineEffect c c' (.bytes cid addr)
  | filled {cid : Nat} {addr : Addr} : c.lineOf addr = some cid → (c.shapes cid).state ≠ .full →
      (c.shapes cid).processing = false →
      c'.view = { c.view with
        shapes := Function.update c.shapes cid { c.shapes cid with processing := true }
        completed := c.readResponses.contents ++ [BitVec.ofNat 32 cid] } →
      LineEffect c c' (.bytes cid addr)
  | finished {cid : BitVec 32} : c.readResponses.contents = cid :: c'.readResponses.contents →
      c'.view = { c'.view with
        shapes := Function.update c.shapes cid.toNat { c.shapes cid.toNat with
          state := if (c.shapes cid.toNat).state = .invalid then .empty else .full }
        hooks := Function.update c.hooks cid.toNat ⟨none, false⟩
        writebacks := c.writebacks.contents ++ c.writebackOf cid.toNat (c.hooks cid.toNat) } →
      LineEffect c c' (.finish cid.toNat)
  | delivered {request : WritebackRequest} : c.writebacks.contents = request :: c'.writebacks.contents →
      c'.view = { c.view with writebacks := c'.writebacks.contents } → LineEffect c c' (.deliver request)
  | invalidated {cid : Nat} : (c.shapes cid).state = .full →
      c'.view = { c.view with shapes := Function.update c.shapes cid { c.shapes cid with state := .empty } } →
      LineEffect c c' .keep
  | doomed {cid : Nat} : (c.shapes cid).state = .loading →
      c'.view = { c.view with shapes := Function.update c.shapes cid { c.shapes cid with state := .invalid } } →
      LineEffect c c' .keep

/-- The other parts of the cache do not matter. -/
theorem LineEffect.congr {c c' c'' : DCache} {use : Use} (effect : LineEffect c c' use) (lines : c''.lines = c'.lines)
    (completed : c''.readResponses = c'.readResponses) (writebacks : c''.writebacks = c'.writebacks) :
    LineEffect c c'' use := by
  have view : c''.view = c'.view := by
    have shapes : c''.shapes = c'.shapes := by
      funext cid
      rw [DCache.shapes, lines]
      rfl
    have hooks : c''.hooks = c'.hooks := by
      funext cid
      rw [DCache.hooks, lines]
      rfl
    rw [DCache.view, shapes, hooks, completed, writebacks]
    rfl
  cases effect with
  | kept same => exact .kept (view.trans same)
  | joined found loading after => exact .joined found loading (view.trans after)
  | parked empty after => exact .parked empty (view.trans after)
  | requested pAddr empty after => exact .requested pAddr empty (view.trans after)
  | resolved tlbData pAddr formed loading absent after =>
    exact .resolved tlbData pAddr formed loading absent (view.trans after)
  | merged tlbData pAddr hook formed loading found pushed after =>
    exact .merged tlbData pAddr hook formed loading found pushed (view.trans after)
  | touched found same => exact .touched found (view.trans same)
  | filled found waits idle after => exact .filled found waits idle (view.trans after)
  | finished front after =>
    refine .finished (completed ▸ front) ?_
    rw [view]
    exact after
  | delivered front after => exact .delivered (writebacks ▸ front) (writebacks ▸ view.trans after)
  | invalidated full after => exact .invalidated full (view.trans after)
  | doomed loading after => exact .doomed loading (view.trans after)

/-- What a load returns as the next register of the chain in which it waits. -/
def Use.Returns (c : DCache) (returned : Option RegAddr) : Use → Prop
  | .join cid reg _ => returned = reg.bind fun _ => (c.hooks cid).waiting
  | .park .. | .request .. => returned = none
  | _ => True

/-- A use that has nothing to do with translations. -/
def Use.Plain : Use → Prop
  | .park .. | .resolve .. | .merge .. => False
  | _ => True

namespace DCache
variable {c c' : DCache}

theorem mem_setLines {setIndex cid : Nat} (positive : 0 < c.assoc) :
    cid ∈ c.setLines setIndex ↔ cid / c.assoc = setIndex := by
  simp only [setLines, List.mem_map, List.mem_range]
  constructor
  · rintro ⟨i, inside, rfl⟩
    rw [Nat.mul_comm, Nat.mul_add_div positive, Nat.div_eq_of_lt inside, Nat.add_zero]
  · rintro rfl
    exact ⟨cid % c.assoc, Nat.mod_lt _ positive, Nat.div_add_mod' cid c.assoc⟩

theorem findLine_eq_some {setIndex cid : Nat} {pTag : Addr} {ignore : Option Nat}
    (found : c.findLine setIndex pTag ignore = some cid) :
    cid ∈ c.setLines setIndex ∧ ignore ≠ some cid ∧ (c.lines cid).state ≠ .empty ∧ (c.lines cid).tag = pTag := by
  have matched := List.find?_some found
  exact ⟨List.mem_of_find?_eq_some found, of_decide_eq_true matched⟩

theorem shapes_setLine (c : DCache) (cid : Nat) (line : CacheLine) :
    (c.setLine cid line).shapes = Function.update c.shapes cid ⟨line.tag, line.state, line.processing⟩ := by
  funext other
  by_cases same : other = cid
  · subst same
    simp [shapes, setLine]
  · simp [shapes, setLine, same]

theorem hooks_setLine (c : DCache) (cid : Nat) (line : CacheLine) :
    (c.setLine cid line).hooks = Function.update c.hooks cid ⟨line.waiting, line.create⟩ := by
  funext other
  by_cases same : other = cid
  · subst same
    simp [hooks, setLine]
  · simp [hooks, setLine, same]

theorem view_setLine (c : DCache) (cid : Nat) (line : CacheLine) :
    (c.setLine cid line).view = { c.view with
      shapes := Function.update c.shapes cid ⟨line.tag, line.state, line.processing⟩
      hooks := Function.update c.hooks cid ⟨line.waiting, line.create⟩ } :=
  CacheView.ext (c.shapes_setLine cid line) (c.hooks_setLine cid line) rfl rfl

/-- A line that keeps its hook. -/
theorem view_setLine_shape (c : DCache) {cid : Nat} {line : CacheLine} (waiting : line.waiting = (c.lines cid).waiting)
    (create : line.create = (c.lines cid).create) : (c.setLine cid line).view = { c.view with
      shapes := Function.update c.shapes cid ⟨line.tag, line.state, line.processing⟩ } := by
  have hook : Function.update c.hooks cid ⟨line.waiting, line.create⟩ = c.hooks := by
    rw [waiting, create]
    exact Function.update_eq_self cid c.hooks
  rw [view_setLine, hook]
  rfl

/-- A line that keeps its shape. -/
theorem view_setLine_hook (c : DCache) {cid : Nat} {line : CacheLine} (tag : line.tag = (c.lines cid).tag)
    (state : line.state = (c.lines cid).state) (processing : line.processing = (c.lines cid).processing) :
    (c.setLine cid line).view = { c.view with
      hooks := Function.update c.hooks cid ⟨line.waiting, line.create⟩ } := by
  have shape : Function.update c.shapes cid ⟨line.tag, line.state, line.processing⟩ = c.shapes := by
    rw [tag, state, processing]
    exact Function.update_eq_self cid c.shapes
  rw [view_setLine, shape]
  rfl

/-- A line that keeps its shape and its hook. -/
theorem view_setLine_same (c : DCache) {cid : Nat} {line : CacheLine} (tag : line.tag = (c.lines cid).tag)
    (state : line.state = (c.lines cid).state) (processing : line.processing = (c.lines cid).processing)
    (waiting : line.waiting = (c.lines cid).waiting) (create : line.create = (c.lines cid).create) :
    (c.setLine cid line).view = c.view := by
  rw [view_setLine_hook c tag state processing, waiting, create]
  exact CacheView.ext rfl (Function.update_eq_self cid c.hooks) rfl rfl

theorem pushRegister_fields (line : CacheLine) (reg : Option RegAddr) :
    (pushRegister line reg).1.tag = line.tag ∧ (pushRegister line reg).1.state = line.state ∧
      (pushRegister line reg).1.processing = line.processing ∧ (pushRegister line reg).1.data = line.data ∧
      (pushRegister line reg).1.valid = line.valid := by
  unfold pushRegister
  split <;> exact ⟨rfl, rfl, rfl, rfl, rfl⟩

theorem hasData_pushRegister (line : CacheLine) (reg : Option RegAddr) (offset size : Nat) :
    hasData (pushRegister line reg).1 offset size = hasData line offset size := by
  unfold pushRegister
  split <;> rfl

theorem pushRegister_hook (line : CacheLine) (reg : Option RegAddr) :
    (⟨(pushRegister line reg).1.waiting, (pushRegister line reg).1.create⟩ : Hook) =
      Hook.push ⟨line.waiting, line.create⟩ reg := by
  cases reg <;> rfl

/-- The view after a line has been replaced and a register pushed on it. -/
theorem view_pushRegister (c : DCache) (cid : Nat) (line : CacheLine) (reg : Option RegAddr) :
    (c.setLine cid (pushRegister line reg).1).view = { c.view with
      shapes := Function.update c.shapes cid ⟨line.tag, line.state, line.processing⟩
      hooks := Function.update c.hooks cid (Hook.push ⟨line.waiting, line.create⟩ reg) } := by
  obtain ⟨tag, state, processing, _, _⟩ := pushRegister_fields line reg
  rw [view_setLine, pushRegister_hook, tag, state, processing]

/-- A line gives its register to another line, and is empty. -/
def give (c : DCache) (cid other : Nat) : DCache :=
  (c.setLine other (pushRegister (c.lines other) (c.lines cid).waiting).1).setLine cid
    { c.lines cid with waiting := none, state := .empty }

theorem give_view (c : DCache) {cid other : Nat} (different : cid ≠ other) :
    c.SameGeometry (c.give cid other) ∧ (c.give cid other).readResponses = c.readResponses ∧
      (c.give cid other).shapes = Function.update c.shapes cid { c.shapes cid with state := .empty } ∧
      (c.give cid other).hooks = Function.update
        (Function.update c.hooks other ((c.hooks other).push (c.hooks cid).waiting)) cid
        { c.hooks cid with waiting := none } ∧
      (c.give cid other).writebacks = c.writebacks ∧
      ((c.give cid other).lines other).data = (c.lines other).data := by
  have first := c.view_pushRegister other (c.lines other) (c.lines cid).waiting
  have shapes := (congrArg CacheView.shapes first).trans (Function.update_eq_self other c.shapes)
  have hooks := congrArg CacheView.hooks first
  refine ⟨⟨rfl, rfl, rfl⟩, rfl, ?_, ?_, rfl, ?_⟩
  · exact (shapes_setLine _ cid _).trans (congrArg (fun shapes => Function.update shapes cid _) shapes)
  · exact (hooks_setLine _ cid _).trans (congrArg (fun hooks => Function.update hooks cid _) hooks)
  · simp only [give, setLine, Function.update_of_ne different.symm, Function.update_self, pushRegister_fields]

theorem initiateRead_eq_some {setIndex : Nat} {pTag : Addr} (done : c.initiateRead setIndex pTag = some c') :
    ∃ outgoing, c.outgoing.HasRoom ∧ c' = { c with outgoing := outgoing } := by
  obtain ⟨outgoing, pushed, rfl⟩ := Option.map_eq_some_iff.mp done
  exact ⟨outgoing, Buffer.hasRoom_of_push pushed, rfl⟩

theorem initiateRead_eq_none {setIndex : Nat} {pTag : Addr} (done : c.initiateRead setIndex pTag = none) :
    ¬ c.outgoing.HasRoom :=
  Buffer.not_hasRoom_of_push (Option.map_eq_none_iff.mp done)

theorem initiateWrite_eq_some {cacheOffset setIndex tid : Nat} {pTag : Addr} {data : List Byte}
    (done : c.initiateWrite cacheOffset setIndex pTag data tid = some c') :
    ∃ outgoing, c.outgoing.HasRoom ∧ c' = { c with outgoing := outgoing } := by
  obtain ⟨outgoing, pushed, rfl⟩ := Option.map_eq_some_iff.mp done
  exact ⟨outgoing, Buffer.hasRoom_of_push pushed, rfl⟩

theorem initiateWrite_eq_none {cacheOffset setIndex tid : Nat} {pTag : Addr} {data : List Byte}
    (done : c.initiateWrite cacheOffset setIndex pTag data tid = none) : ¬ c.outgoing.HasRoom :=
  Buffer.not_hasRoom_of_push (Option.map_eq_none_iff.mp done)

/-- `initiateWriteback` clears the creation, and queues the registers of the line. -/
theorem initiateWriteback_view {cid : Nat} (done : c.initiateWriteback cid = some c') :
    c.SameGeometry c' ∧ c'.readResponses = c.readResponses ∧ c'.view = { c.view with
      hooks := Function.update c.hooks cid { c.hooks cid with create := false }
      writebacks := c.writebacks.contents ++ c.writebackOf cid (c.hooks cid) } := by
  have signalled : (c.setLine cid { c.lines cid with create := false }).view = { c.view with
      hooks := Function.update c.hooks cid { c.hooks cid with create := false } } :=
    c.view_setLine_hook rfl rfl rfl
  simp only [initiateWriteback] at done
  split at done
  · rename_i idle
    cases done
    refine ⟨⟨rfl, rfl, rfl⟩, rfl, signalled.trans ?_⟩
    simp [writebackOf, hooks, view, idle]
  · rename_i reg waits
    obtain ⟨writebacks, pushed, rfl⟩ := Option.map_eq_some_iff.mp done
    have sameShapes := congrArg CacheView.shapes signalled
    have sameHooks := congrArg CacheView.hooks signalled
    refine ⟨⟨rfl, rfl, rfl⟩, rfl, CacheView.ext sameShapes sameHooks rfl ?_⟩
    refine (Buffer.contents_push pushed).trans ?_
    simp [writebackOf, hooks, waits, setLine]

theorem doReadResponses_lines {result : Result} (done : c.doReadResponses = .ok (result, c')) :
    c.SameGeometry c' ∧ ((result ≠ .success ∧ c' = c) ∨ ∃ cid queue, result = .success ∧
      c.readResponses.take? = some (cid, queue) ∧ LineEffect c c' (.finish cid.toNat)) := by
  simp only [doReadResponses] at done
  split at done
  · cases done
  rename_i cid readResponses taken
  split at done
  · cases done
  split at done
  · cases done
    exact ⟨.refl c, Or.inl ⟨by simp, rfl⟩⟩
  · rename_i between pushed
    cases done
    obtain ⟨geometry, _, view⟩ := initiateWriteback_view pushed
    have shapes : between.shapes = c.shapes := congrArg CacheView.shapes view
    have hooks : between.hooks = Function.update c.hooks cid.toNat { c.hooks cid.toNat with create := false } :=
      congrArg CacheView.hooks view
    have tag : (between.lines cid.toNat).tag = (c.shapes cid.toNat).tag := congrArg Shape.tag (congrFun shapes _)
    have processing : (between.lines cid.toNat).processing = (c.shapes cid.toNat).processing :=
      congrArg Shape.processing (congrFun shapes _)
    have create : (between.lines cid.toNat).create = false := by
      have own := congrFun hooks cid.toNat
      rw [Function.update_self] at own
      exact congrArg Hook.create own
    refine ⟨⟨geometry.assoc, geometry.lineSize, geometry.selector⟩,
      Or.inr ⟨cid, readResponses, rfl, taken, .finished (Buffer.take?_eq_some taken).1 ?_⟩⟩
    have writebacks := congrArg CacheView.writebacks view
    refine CacheView.ext ?_ ?_ rfl writebacks
    · refine (shapes_setLine between cid.toNat _).trans ?_
      rw [shapes, tag, processing]
      rfl
    · refine (hooks_setLine between cid.toNat _).trans ?_
      rw [hooks, Function.update_idem, create]

theorem plain_readUse (c : DCache) (pAddr : Addr) (size : Nat) (reg : Option RegAddr) :
    (c.readUse pAddr size reg).Plain := by
  unfold readUse
  split
  · split <;> trivial
  · cases c.takes pAddr <;> trivial

theorem onMemoryReadCompleted_lines (c : DCache) (addr : Addr) (data : Nat → Byte) :
    c.SameGeometry (c.onMemoryReadCompleted addr data).2 ∧
      LineEffect c (c.onMemoryReadCompleted addr data).2 (((c.fills addr).map fun cid => Use.bytes cid addr).getD .keep) := by
  simp only [onMemoryReadCompleted, fills]
  have lookup : c.lineOf addr = c.findLine (c.splitAddress addr).2.1 (c.splitAddress addr).2.2 none := rfl
  split
  · rename_i absent
    rw [lookup, absent]
    exact ⟨.refl c, .kept rfl⟩
  · rename_i cid found
    split
    · rename_i busy
      have refused : ¬ ((c.lines cid).state ≠ .full ∧ (c.lines cid).processing = false ∧ c.readResponses.HasRoom) := by
        rintro ⟨other, idle, _⟩
        rcases busy with full | processing
        · exact other full
        · exact Bool.false_ne_true (idle.symm.trans processing)
      rw [lookup, found, Option.filter_some, if_neg (by simpa using refused)]
      exact ⟨.refl c, .kept rfl⟩
    · rename_i idle
      rw [not_or, Bool.not_eq_true] at idle
      split
      · rename_i full
        have noRoom := Buffer.not_hasRoom_of_push full
        rw [lookup, found, Option.filter_some, if_neg (by simp [noRoom])]
        exact ⟨.refl c, .kept rfl⟩
      · rename_i readResponses pushed
        rw [lookup, found, Option.filter_some, if_pos (by simp [idle, Buffer.hasRoom_of_push pushed])]
        refine ⟨⟨rfl, rfl, rfl⟩, .filled (lookup.trans found) idle.1 idle.2 ?_⟩
        exact CacheView.ext (c.shapes_setLine cid _)
          ((c.hooks_setLine cid _).trans (Function.update_eq_self cid c.hooks)) (Buffer.contents_push pushed) rfl

theorem onMemorySnooped_lines (c : DCache) (addr : Addr) (data : Nat → Byte) (mask : Nat → Bool) :
    c.SameGeometry (c.onMemorySnooped addr data mask) ∧ LineEffect c (c.onMemorySnooped addr data mask)
      (((c.lineOf addr).map fun cid => Use.bytes cid addr).getD .keep) := by
  simp only [onMemorySnooped]
  have lookup : c.lineOf addr = c.findLine (c.splitAddress addr).2.1 (c.splitAddress addr).2.2 none := rfl
  split
  · rename_i absent
    rw [lookup, absent]
    exact ⟨.refl c, .kept rfl⟩
  · rename_i cid found
    rw [lookup, found]
    exact ⟨⟨rfl, rfl, rfl⟩, .touched (lookup.trans found) (c.view_setLine_same rfl rfl rfl rfl rfl)⟩

theorem onMemoryInvalidated_lines (c : DCache) (addr : Addr) :
    c.SameGeometry (c.onMemoryInvalidated addr) ∧ LineEffect c (c.onMemoryInvalidated addr) .keep := by
  simp only [onMemoryInvalidated]
  split
  · exact ⟨.refl c, .kept rfl⟩
  · rename_i cid found
    split
    · rename_i full
      exact ⟨⟨rfl, rfl, rfl⟩, .invalidated full (c.view_setLine_shape rfl rfl)⟩
    · rename_i loading
      exact ⟨⟨rfl, rfl, rfl⟩, .doomed loading (c.view_setLine_shape rfl rfl)⟩
    · exact ⟨.refl c, .kept rfl⟩

end DCache

namespace Core
variable {s : Core}

theorem readTranslated_lines {tlbData : TlbResultMessage} {address : Addr} {size : Nat} {reg : Option RegAddr}
    {out : ReadOutcome} (done : s.readTranslated tlbData address size reg = .ok out) :
    s.cache.SameGeometry out.core.cache ∧
      LineEffect s.cache out.core.cache (s.cache.readUse (physicalAddress tlbData address) size reg) ∧
      (s.cache.readUse (physicalAddress tlbData address) size reg).Returns s.cache out.reg := by
  simp only [readTranslated] at done
  generalize physicalAddress tlbData address = pAddr at done ⊢
  have lookup : s.cache.lineOf pAddr =
    s.cache.findLine (s.cache.splitAddress pAddr).2.1 (s.cache.splitAddress pAddr).2.2 none := rfl
  rw [← lookup] at done
  split at done
  · cases done
  split at done
  · rename_i cid found
    simp only [DCache.readUse, found]
    obtain ⟨atLine, valid⟩ := Option.filter_eq_some_iff.mp found
    split at done
    · rename_i hit
      cases done
      rw [if_pos (show DCache.hasData (s.cache.lines cid) _ size = true from hit)]
      exact ⟨⟨rfl, rfl, rfl⟩, .kept (s.cache.view_setLine_same rfl rfl rfl rfl rfl), trivial⟩
    · rename_i miss
      cases done
      have missing : ¬ DCache.hasData (s.cache.lines cid) (s.cache.splitAddress pAddr).1 size = true := miss
      rw [if_neg missing]
      have loading : (s.cache.shapes cid).state = .loading := by
        have used := (s.cache.findLine_eq_some (lookup.symm.trans atLine)).2.2.1
        have other : (s.cache.lines cid).state ≠ .invalid := by simpa using valid
        have open' : (s.cache.lines cid).state ≠ .full := by
          intro full
          exact missing (by simp [DCache.hasData, full])
        change (s.cache.lines cid).state = .loading
        cases state : (s.cache.lines cid).state <;> simp_all
      have after := s.cache.view_pushRegister cid { s.cache.lines cid with access := s.cycleNo } reg
      have shape := Function.update_eq_self cid s.cache.shapes
      refine ⟨⟨rfl, rfl, rfl⟩, .joined atLine loading (after.trans (CacheView.ext shape rfl rfl rfl)), ?_⟩
      cases reg <;> rfl
  · rename_i absent
    simp only [DCache.readUse, absent]
    have filtered : ((s.cache.lineOf pAddr).any fun cid => (s.cache.lines cid).state ≠ .invalid) = false := by
      revert absent
      cases s.cache.lineOf pAddr <;> simp [Option.filter_some]
    rw [DCache.takes, if_neg (by rw [filtered]; simp)]
    split at done
    · rename_i full
      cases done
      split
      · rw [full]
        exact ⟨.refl _, .kept rfl, trivial⟩
      · exact ⟨.refl _, .kept rfl, trivial⟩
    · rename_i cid empty
      split at done
      · rename_i refused
        cases done
        rw [if_neg (DCache.initiateRead_eq_none refused)]
        exact ⟨.refl _, .kept rfl, trivial⟩
      · rename_i cache pushed
        cases done
        obtain ⟨outgoing, room, rfl⟩ := DCache.initiateRead_eq_some pushed
        rw [if_pos room, empty]
        refine ⟨⟨rfl, rfl, rfl⟩, .requested pAddr empty (s.cache.view_pushRegister cid _ reg), ?_⟩
        cases reg <;> rfl

/-- What a load does to the lines, and the reference that a parked load leaves in the TLB. -/
theorem read2_lines {contextId : BitVec 16} {address : Addr} {size : Nat} {reg : Option RegAddr} {out : ReadOutcome}
    (done : s.read2 contextId address size reg = .ok out) :
    (s.cache.SameGeometry out.core.cache ∧ LineEffect s.cache out.core.cache (s.readUse contextId address size reg) ∧
        (s.readUse contextId address size reg).Returns s.cache out.reg) ∧
      ((s.Quiet out.core ∧ (out.result = .delayed → out.core.tlb.lastLine = none) ∧
          (s.readUse contextId address size reg).Plain) ∨
        (out.result = .delayed ∧ ∃ cid ref, s.readUse contextId address size reg = .park cid reg address ∧
          s.Parked contextId address ref (BitVec.ofNat 32 cid) out.core)) := by
  obtain ⟨looked, lookup, branch⟩ := read2_branch done
  have effect := Tlb.lookup_effect lookup
  cases branch with
  | translated success read =>
    obtain ⟨changes, last⟩ := committed_quiet effect success
    obtain ⟨sameTlb, sameQueue⟩ := readTranslated_eq_ok read
    have lines := readTranslated_lines read
    simp only [readUse, lookup, success]
    refine ⟨lines, Or.inl ⟨⟨?_, sameQueue⟩, fun _ => ?_, s.cache.plain_readUse _ size reg⟩⟩
    · rw [sameTlb]
      exact changes
    · rw [sameTlb]
      exact last
  | @parked cid tlb line delayed empty stored same =>
    obtain ⟨ref, parked⟩ := parked_of_lookup effect delayed stored
      (setCacheLine { s with tlb := tlb } cid (pushRegister line reg).1) rfl rfl
    have use : s.readUse contextId address size reg = .park cid reg address := by
      simp only [readUse, lookup, delayed, empty, Option.map_some, Option.getD_some]
    rw [use]
    have view := s.cache.view_pushRegister cid line reg
    rw [same] at view ⊢
    refine ⟨⟨⟨rfl, rfl, rfl⟩, .parked empty view, ?_⟩, Or.inr ⟨rfl, cid, ref, rfl, same ▸ parked⟩⟩
    cases reg <;> rfl
  | occupied delayed empty =>
    simp only [readUse, lookup, delayed, empty, Option.map_none, Option.getD_none]
    exact ⟨⟨.refl _, .kept rfl, trivial⟩, Or.inl ⟨checked_quiet effect, by simp, trivial⟩⟩
  | failed failed =>
    simp only [readUse, lookup, failed]
    exact ⟨⟨.refl _, .kept rfl, trivial⟩, Or.inl ⟨checked_quiet effect, by simp, trivial⟩⟩

theorem writeTranslated_lines {tlbData : TlbResultMessage} {address : Addr} {data : List Byte} {tid : Nat}
    {out : ExtendedResult × Core} (done : s.writeTranslated tlbData address data tid = .ok out) :
    s.cache.SameGeometry out.2.cache ∧ LineEffect s.cache out.2.cache
      (((s.cache.stores (physicalAddress tlbData address)).map fun cid =>
        Use.bytes cid (physicalAddress tlbData address)).getD .keep) := by
  simp only [writeTranslated] at done
  generalize physicalAddress tlbData address = pAddr at done ⊢
  have lookup : s.cache.lineOf pAddr =
    s.cache.findLine (s.cache.splitAddress pAddr).2.1 (s.cache.splitAddress pAddr).2.2 none := rfl
  rw [← lookup] at done
  rw [DCache.stores]
  split at done
  · cases done
  split at done
  · rename_i absent
    rw [absent]
    cases done
    split
    · exact ⟨.refl _, .kept rfl⟩
    · rename_i pushed
      obtain ⟨outgoing, _, rfl⟩ := DCache.initiateWrite_eq_some pushed
      exact ⟨⟨rfl, rfl, rfl⟩, .kept rfl⟩
  · rename_i cid found
    rw [found, Option.filter_some]
    split at done
    · rename_i waiting
      cases done
      have refused : ¬ ((s.cache.lines cid).state = .full ∧ s.cache.outgoing.HasRoom) := by
        rintro ⟨full, _⟩
        rw [full] at waiting
        simp at waiting
      rw [if_neg (by simpa using refused)]
      exact ⟨.refl _, .kept rfl⟩
    · rename_i settled
      cases done
      have full : (s.cache.lines cid).state = .full := by
        have used := (s.cache.findLine_eq_some (lookup.symm.trans found)).2.2.1
        cases state : (s.cache.lines cid).state <;> simp_all
      split
      · rename_i refused
        have noRoom := DCache.initiateWrite_eq_none refused
        have stays : ¬ ((s.cache.lines cid).state = .full ∧ s.cache.outgoing.HasRoom) := fun both => noRoom both.2
        rw [if_neg (by simpa using stays)]
        exact ⟨.refl _, .kept rfl⟩
      · rename_i pushed
        obtain ⟨outgoing, room, rfl⟩ := DCache.initiateWrite_eq_some pushed
        rw [if_pos (by simpa using ⟨full, room⟩)]
        exact ⟨⟨rfl, rfl, rfl⟩, .touched found (s.cache.view_setLine_same rfl rfl rfl rfl rfl)⟩

theorem write2_lines {contextId : BitVec 16} {address : Addr} {data : List Byte} {tid : Nat}
    {out : ExtendedResult × Core} (done : s.write2 contextId address data tid = .ok out) :
    s.cache.SameGeometry out.2.cache ∧ LineEffect s.cache out.2.cache (s.writeUse contextId address) := by
  obtain ⟨looked, lookup, branch⟩ := write2_branch done
  cases branch with
  | translated success write =>
    have lines := writeTranslated_lines write
    simp only [writeUse, lookup, success]
    exact lines
  | parked delayed stored =>
    simp only [writeUse, lookup, delayed]
    exact ⟨.refl _, .kept rfl⟩
  | failed failed =>
    simp only [writeUse, lookup, failed]
    exact ⟨.refl _, .kept rfl⟩

theorem completeLoad_lines {s' : Core} {tlbData : TlbResultMessage} {cid : Nat}
    (done : s.completeLoad tlbData cid = .ok (some s')) :
    s.cache.SameGeometry s'.cache ∧ LineEffect s.cache s'.cache (s.cache.completionUse tlbData cid) := by
  simp only [completeLoad, bind, Except.bind, pure, Except.pure, throw, throwThe, MonadExceptOf.throw] at done
  generalize formed : physicalAddress tlbData (s.cache.lines cid).tlbOffset = pAddr at done
  split at done
  · cases done
  rename_i loading
  rw [ne_eq, not_not] at loading
  split at done
  · cases done
  split at done
  · rename_i other found
    have use : s.cache.completionUse tlbData cid = .merge cid other tlbData := by
      simp only [DCache.completionUse, formed, found]
    rw [use]
    have different : cid ≠ other := by
      rintro rfl
      exact (s.cache.findLine_eq_some found).2.1 rfl
    obtain ⟨geometry, completed, shapes, hooks, writebacks, data⟩ := s.cache.give_view different
    rw [DCache.hasData_pushRegister] at done
    generalize given : s.cache.give cid other = between at geometry completed shapes hooks writebacks data
    rw [DCache.give] at given
    rw [given] at done
    have atOther : between.hooks other = (s.cache.hooks other).push (s.cache.hooks cid).waiting := by
      rw [hooks, Function.update_of_ne different.symm, Function.update_self]
    split at done
    · rename_i whole
      split at done
      · rename_i written
        cases done
        obtain ⟨after, queue, view⟩ := DCache.initiateWriteback_view written
        refine ⟨⟨after.assoc.trans geometry.assoc, after.lineSize.trans geometry.lineSize,
          after.selector.trans geometry.selector⟩,
          .merged tlbData pAddr _ formed.symm loading found rfl (view.trans (CacheView.ext shapes ?_ ?_ ?_))⟩
        · dsimp only
          rw [if_pos whole, atOther, hooks, Function.update_comm different, Function.update_idem]
        · exact congrArg Buffer.contents completed
        · dsimp only
          rw [if_pos whole, atOther, DCache.writebackOf, data, writebacks]
          rfl
      · split at done
        · cases done
        · cases done
    · rename_i partly
      cases done
      refine ⟨geometry, .merged tlbData pAddr _ formed.symm loading found rfl (CacheView.ext shapes ?_ ?_ ?_)⟩
      · dsimp only
        rw [if_neg partly]
        exact hooks
      · exact congrArg Buffer.contents completed
      · dsimp only
        rw [if_neg partly, List.append_nil]
        exact congrArg Buffer.contents writebacks
  · rename_i absent
    have use : s.cache.completionUse tlbData cid = .resolve cid tlbData (s.cache.requestAddress pAddr) := by
      simp only [DCache.completionUse, formed, absent]
    rw [use]
    obtain ⟨cache, pushed, rfl⟩ := Option.map_eq_some_iff.mp (Except.ok.inj done)
    obtain ⟨outgoing, _, rfl⟩ := DCache.initiateRead_eq_some pushed
    subst formed
    exact ⟨⟨rfl, rfl, rfl⟩, .resolved tlbData _ rfl loading absent (s.cache.view_setLine_shape rfl rfl)⟩

/-- A response for a store does nothing to the lines, and any other completes the lookup of its line. -/
theorem doLookupResponses_lines {s' : Core} (done : s.doLookupResponses = .ok (.success, s')) :
    s.cache.SameGeometry s'.cache ∧ LineEffect s.cache s'.cache s.lookupUse ∧
      ∃ response queue, s.cache.lookupResponses.take? = some (response, queue) ∧
        ((response.cid = invalidCid ∧ s.lookupUse = .keep) ∨ (response.cid ≠ invalidCid ∧
          ∃ tlbData, s.lookupUse = s.cache.completionUse tlbData response.cid.toNat)) := by
  simp only [doLookupResponses, bind, Except.bind, pure, Except.pure, throw, throwThe, MonadExceptOf.throw] at done
  split at done
  · cases done
  rename_i response queue taken
  split at done
  · cases done
  split at done
  · rename_i magic
    cases done
    have use : s.lookupUse = .keep := by simp only [lookupUse, taken, if_pos magic]
    rw [use]
    exact ⟨⟨rfl, rfl, rfl⟩, .kept rfl, response, queue, taken, Or.inl ⟨magic, rfl⟩⟩
  rename_i valid
  split at done
  · cases done
  rename_i ref atRef
  split at done
  · cases done
  rename_i got line
  obtain ⟨tlbData, tlb⟩ := got
  split at done
  · cases done
  rename_i completed complete
  split at done
  · cases done
  · rename_i after
    cases done
    obtain ⟨geometry, effect⟩ := completeLoad_lines complete
    have use : s.lookupUse = s.cache.completionUse tlbData response.cid.toNat := by
      simp only [lookupUse, taken, if_neg valid, atRef, line]
    rw [use]
    exact ⟨⟨geometry.assoc, geometry.lineSize, geometry.selector⟩, effect.congr rfl rfl rfl, response, queue, taken,
      Or.inr ⟨valid, tlbData, rfl⟩⟩

end Core

end Mgsim.Drisc
