import Mgsim.Drisc.AllocatorSteps
import Mgsim.Drisc.ThreadBlocks

namespace Mgsim.Drisc
open Mgsim.Lib
variable {t : Target}

theorem ThreadTable.reserveThread_eq {table table' : ThreadTable t} (done : table.reserveThread = .ok table') :
    table'.threads = table.threads ∧ table'.emptyThreads = table.emptyThreads := by
  unfold reserveThread at done
  split at done <;> cases done
  exact ⟨rfl, rfl⟩

theorem ThreadTable.unreserveThread_eq {table table' : ThreadTable t} (done : table.unreserveThread = .ok table') :
    table'.threads = table.threads ∧ table'.emptyThreads = table.emptyThreads := by
  unfold unreserveThread at done
  split at done <;> cases done
  exact ⟨rfl, rfl⟩

/-- A family entry without threads is used again. -/
theorem Family.Carries.fresh {family family' : Family t} (state : family'.state ≠ .empty)
    (idle : family.dependencies.numThreadsAllocated = 0) (count : family'.dependencies.numThreadsAllocated = 0)
    (last : family'.lastAllocated = none ∧ family'.prevCleanedUp = false) : family.Carries family' :=
  ⟨count.trans idle.symm, fun some => absurd idle some, fun _ => Or.inr ⟨idle, last⟩, fun empty => absurd empty state⟩

namespace Allocator

/-- What a step does that runs, ends and cleans up no thread. -/
structure Carries (a a' : Allocator t) : Prop where
  threads : a'.threadTable.threads = a.threadTable.threads
  emptyThreads : a'.threadTable.emptyThreads = a.threadTable.emptyThreads
  cleanup : a'.cleanup.contents = a.cleanup.contents
  lives : a'.lives = a.lives
  families : ∀ fid, (a.family fid).Carries (a'.family fid)

theorem Carries.refl (a : Allocator t) : a.Carries a := ⟨rfl, rfl, rfl, rfl, fun _ => .refl _⟩

theorem Carries.trans {a a' a'' : Allocator t} (first : a.Carries a') (second : a'.Carries a'') : a.Carries a'' where
  threads := second.threads.trans first.threads
  emptyThreads := second.emptyThreads.trans first.emptyThreads
  cleanup := second.cleanup.trans first.cleanup
  lives := second.lives.trans first.lives
  families fid := (first.families fid).trans (second.families fid)

@[simp] theorem family_setFamily_self (a : Allocator t) (fid : Nat) (family : Family t) :
    (a.setFamily fid family).family fid = family := Function.update_self _ _ _

theorem family_setFamily_of_ne (a : Allocator t) {fid other : Nat} (family : Family t) (different : other ≠ fid) :
    (a.setFamily fid family).family other = a.family other := Function.update_of_ne different _ _

theorem Carries.setFamily {a a' : Allocator t} (carried : a.Carries a') {fid : Nat} {family : Family t}
    (same : (a'.family fid).Carries family) : a.Carries (a'.setFamily fid family) := by
  refine carried.trans ⟨rfl, rfl, rfl, rfl, fun other => ?_⟩
  by_cases at_fid : other = fid
  · rw [at_fid, family_setFamily_self]
    exact same
  · rw [family_setFamily_of_ne _ _ at_fid]
    exact .refl _

/-- A family is changed in what its block does not depend on. -/
theorem Carries.relabel {a a' : Allocator t} (carried : a.Carries a') {fid : Nat} {family : Family t}
    (count : family.dependencies.numThreadsAllocated = (a'.family fid).dependencies.numThreadsAllocated)
    (finished : family.dependencies.allocationDone = false → (a'.family fid).dependencies.allocationDone = false)
    (shape : family.isLinked = (a'.family fid).isLinked ∧ family.physBlockSize = (a'.family fid).physBlockSize ∧
      family.start = (a'.family fid).start ∧ family.step = (a'.family fid).step)
    (last : family.lastAllocated = (a'.family fid).lastAllocated ∧ family.prevCleanedUp = (a'.family fid).prevCleanedUp)
    (state : family.state = .empty → (a'.family fid).state = .empty) : a.Carries (a'.setFamily fid family) :=
  carried.setFamily ⟨count, fun _ => shape, fun unfinished => Or.inl ⟨finished unfinished, last⟩, fun empty => Or.inl (state empty)⟩

/-- A family without threads is set up. -/
theorem Carries.setUp {a a' : Allocator t} (carried : a.Carries a') {fid : Nat} {family : Family t}
    (idle : (a'.family fid).dependencies.numThreadsAllocated = 0) (count : family.dependencies.numThreadsAllocated = 0)
    (finished : family.dependencies.allocationDone = false → (a'.family fid).dependencies.allocationDone = false)
    (last : family.lastAllocated = (a'.family fid).lastAllocated ∧ family.prevCleanedUp = (a'.family fid).prevCleanedUp) :
    a.Carries (a'.setFamily fid family) :=
  carried.setFamily ⟨count.trans idle.symm, fun some => absurd idle some,
    fun unfinished => Or.inl ⟨finished unfinished, last⟩, fun _ => Or.inr idle⟩

theorem sendSync_carries {a a' : Allocator t} {info : SyncInfo} (done : a.sendSync info = .ok a') : a.Carries a' := by
  obtain ⟨syncs, _, rest⟩ := bind_ok done
  cases rest
  exact ⟨rfl, rfl, rfl, rfl, fun _ => .refl _⟩

theorem sendLink_carries (a : Allocator t) (msg : LinkMessage t) : a.Carries (a.sendLink msg) :=
  ⟨rfl, rfl, rfl, rfl, fun _ => .refl _⟩

theorem sendRemote_carries (a : Allocator t) (msg : RemoteMessage t) : a.Carries (a.sendRemote msg) :=
  ⟨rfl, rfl, rfl, rfl, fun _ => .refl _⟩

theorem forwardToken_carries {a a' : Allocator t} {fid : Nat} (done : a.forwardToken fid = .ok a') : a.Carries a' := by
  have synced : a.Carries (a.setFamily fid { a.family fid with sync := { (a.family fid).sync with done := true } }) :=
    (Carries.refl a).relabel rfl id ⟨rfl, rfl, rfl, rfl⟩ ⟨rfl, rfl⟩ id
  dsimp only [forwardToken] at done
  split at done
  · cases done
    exact synced.trans (sendLink_carries _ _)
  · exact synced.trans (sendSync_carries done)
  · cases done
    exact synced

theorem releaseFamily_carries {a a' : Allocator t} {fid : Nat} (done : a.releaseFamily fid = .ok a')
    (idle : (a.family fid).dependencies.numThreadsAllocated = 0) : a.Carries a' := by
  dsimp only [releaseFamily] at done
  generalize (if a.familyTable.isExclusive fid = true then ContextType.exclusive else .normal) = context at done
  split at done
  · cases done
  · cases done
    have emptied : a.Carries (a.setFamily fid { a.family fid with state := .empty }) :=
      (Carries.refl a).setUp idle idle id ⟨rfl, rfl⟩
    exact ⟨rfl, rfl, rfl, rfl, emptied.families⟩

end Allocator

theorem FamilyDependencies.isReleasable_count {deps : FamilyDependencies} (releasable : deps.isReleasable = true) :
    deps.numThreadsAllocated = 0 := by
  simp only [isReleasable, isSynchronized, isTerminated, decide_eq_true_eq] at releasable
  exact releasable.1.1.1

namespace Allocator

/-- After a dependency of a family has ended, its token is sent and its entry is freed if it is time for it. -/
theorem decreaseFamilyDependency_ok {a a' : Allocator t} {fid : Nat} {dep : FamilyDependency}
    (done : a.decreaseFamilyDependency fid dep = .ok a') : ∃ deps state,
      (a.family fid).dependencies.decrease dep = .ok deps ∧ (a.family fid).state ≠ .empty ∧ state ≠ .empty ∧
      (a.setFamily fid { a.family fid with dependencies := deps, state := state }).Carries a' := by
  dsimp only [decreaseFamilyDependency] at done
  obtain ⟨used, rest⟩ := require_bind_ok done
  obtain ⟨deps, decreased, rest⟩ := bind_ok rest
  generalize atState : (if dep.endsThreads && deps.isTerminated then FamilyState.terminated else (a.family fid).state) = state
    at rest
  obtain ⟨middle, forwarded, released⟩ := bind_ok rest
  have nonempty : state ≠ .empty := by
    rw [← atState]
    split
    · exact fun same => by cases same
    · exact used
  refine ⟨deps, state, decreased, used, nonempty, ?_⟩
  generalize counted : a.setFamily fid { a.family fid with dependencies := deps, state := state } = b at forwarded
  have sent : b.Carries middle := by
    rcases applyIf_ok forwarded with ⟨_, forwarded⟩ | ⟨_, rfl⟩
    · exact forwardToken_carries forwarded
    · exact .refl _
  rcases applyIf_ok released with ⟨releasable, released⟩ | ⟨_, rfl⟩
  · refine sent.trans (releaseFamily_carries released ?_)
    rw [(sent.families fid).count, ← counted, family_setFamily_self]
    exact FamilyDependencies.isReleasable_count releasable
  · exact sent

end Allocator

theorem FamilyDependencies.decrease_other {deps deps' : FamilyDependencies} {dep : FamilyDependency}
    (done : deps.decrease dep = .ok deps') (other : dep ≠ .threadCount) :
    deps'.numThreadsAllocated = deps.numThreadsAllocated ∧
      (deps'.allocationDone = false → deps.allocationDone = false) := by
  cases dep with
  | threadCount => exact absurd rfl other
  | _ =>
    dsimp only [decrease] at done
    split at done
    · cases done
    · cases done
      simp

theorem FamilyDependencies.decrease_threadCount {deps deps' : FamilyDependencies}
    (done : deps.decrease .threadCount = .ok deps') :
    deps.numThreadsAllocated ≠ 0 ∧ deps' = { deps with numThreadsAllocated := deps.numThreadsAllocated - 1 } := by
  dsimp only [decrease] at done
  split at done
  · cases done
  · rename_i some
    cases done
    exact ⟨some, rfl⟩

namespace Allocator

theorem decreaseFamilyDependency_carries {a a' : Allocator t} {fid : Nat} {dep : FamilyDependency}
    (done : a.decreaseFamilyDependency fid dep = .ok a') (other : dep ≠ .threadCount) : a.Carries a' := by
  obtain ⟨deps, state, decreased, used, nonempty, carried⟩ := decreaseFamilyDependency_ok done
  obtain ⟨count, finished⟩ := FamilyDependencies.decrease_other decreased other
  have ended : a.Carries (a.setFamily fid { a.family fid with dependencies := deps, state := state }) :=
    (Carries.refl a).relabel count finished ⟨rfl, rfl, rfl, rfl⟩ ⟨rfl, rfl⟩ fun empty => absurd empty nonempty
  exact ended.trans carried

theorem releaseContext_carries {a a' : Allocator t} {fid : Nat} (done : a.releaseContext fid = .ok a')
    (idle : (a.family fid).dependencies.numThreadsAllocated = 0) : a.Carries a' := by
  obtain ⟨raunit, _, rest⟩ := bind_ok done
  obtain ⟨threadTable, unreserved, rest⟩ := bind_ok rest
  cases rest
  have emptied : a.Carries (a.setFamily fid { a.family fid with state := .empty }) :=
    (Carries.refl a).setUp idle idle id ⟨rfl, rfl⟩
  obtain ⟨threads, entries⟩ := ThreadTable.unreserveThread_eq unreserved
  exact ⟨threads, entries, rfl, rfl, emptied.families⟩

theorem pushRequest_carries {a a' : Allocator t} {which : AllocQueue} {request : AllocRequest t}
    (done : a.pushRequest which request = .ok a') : a.Carries a' := by
  obtain ⟨requests, _, rest⟩ := bind_ok done
  cases rest
  cases which <;> exact ⟨rfl, rfl, rfl, rfl, fun _ => .refl _⟩

theorem setQueue_carries (a : Allocator t) (which : AllocQueue) (requests : Buffer (AllocRequest t)) :
    a.Carries (a.setQueue which requests) := by
  cases which <;> exact ⟨rfl, rfl, rfl, rfl, fun _ => .refl _⟩

theorem refuseAllocation_carries {a a' : Allocator t} {request : AllocRequest t}
    (done : a.refuseAllocation request = .ok a') : a.Carries a' := by
  unfold refuseAllocation at done
  split at done <;> cases done
  · exact sendRemote_carries _ _
  · exact ⟨rfl, rfl, rfl, rfl, fun _ => .refl _⟩

theorem finishAllocation_carries {a a' : Allocator t} {request : AllocRequest t} {lfid : Nat}
    (done : a.finishAllocation request lfid = .ok a') : a.Carries a' := by
  have committed : a.Carries (a.setFamily lfid { a.family lfid with
      numCores := if request.type = .single then 1 else request.placeSize, link := none }) :=
    (Carries.refl a).relabel rfl id ⟨rfl, rfl, rfl, rfl⟩ ⟨rfl, rfl⟩ id
  dsimp only [finishAllocation] at done
  split at done
  · cases done
    exact committed.trans (sendRemote_carries _ _)
  · split at done <;> cases done
    · exact committed.trans (sendRemote_carries _ _)
    · exact committed.trans ⟨rfl, rfl, rfl, rfl, fun _ => .refl _⟩

theorem answerAllocation_carries {a a' : Allocator t} {request : AllocRequest t} {which : AllocQueue} {lfid : Nat}
    (done : a.answerAllocation request which lfid = .ok a') : a.Carries a' := by
  unfold answerAllocation at done
  split at done
  · exact finishAllocation_carries done
  · obtain ⟨reg, _, rest⟩ := bind_ok done
    cases rest
    exact sendLink_carries _ _

end Allocator

/-- An allocation takes an empty entry. -/
theorem FamilyTable.allocateFamily_ok {table table' : FamilyTable t} {context : ContextType} {fid : Nat}
    (done : table.allocateFamily context = .ok (some (fid, table'))) : (table.families fid).state = .empty ∧
      table' = { table.set fid { table.families fid with state := .allocated } with free := table.free.use context } := by
  unfold allocateFamily at done
  split at done
  · cases done
  · split at done
    · cases done
    · rename_i found
      cases done
      refine ⟨?_, rfl⟩
      unfold findEmpty at found
      split at found
      · split at found
        · rename_i empty
          cases found
          exact empty
        · cases found
      · have accepted := List.find?_some found
        simpa using accepted

namespace Allocator

/-- Only one family changes. -/
theorem carries_of_family {a a' : Allocator t} (fid : Nat) (threads : a'.threadTable.threads = a.threadTable.threads)
    (emptyThreads : a'.threadTable.emptyThreads = a.threadTable.emptyThreads)
    (cleanup : a'.cleanup.contents = a.cleanup.contents) (lives : a'.lives = a.lives)
    (others : ∀ other ≠ fid, a'.family other = a.family other) (self : (a.family fid).Carries (a'.family fid)) :
    a.Carries a' := by
  refine ⟨threads, emptyThreads, cleanup, lives, fun other => ?_⟩
  by_cases same : other = fid
  · rw [same]
    exact self
  · rw [others other same]
    exact .refl _

/-- The families without an entry in use have no threads. -/
def Unused (a : Allocator t) : Prop := ∀ fid, (a.family fid).state = .empty → (a.family fid).dependencies.numThreadsAllocated = 0

theorem allocateContext_carries {a a' : Allocator t} {type : ContextType} {prevFid : Option Nat}
    {placeSize capability lfid : Nat} (unused : a.Unused)
    (done : a.allocateContext type prevFid placeSize capability = .ok (some (lfid, a'))) : a.Carries a' := by
  unfold allocateContext at done
  split at done
  · cases done
  obtain ⟨result, allocated, rest⟩ := bind_ok done
  split at rest
  · cases rest
  rename_i fid familyTable
  obtain ⟨raunit, _, rest⟩ := bind_ok rest
  obtain ⟨threadTable, reserved, rest⟩ := bind_ok rest
  cases rest
  obtain ⟨empty, rfl⟩ := FamilyTable.allocateFamily_ok allocated
  have idle := unused lfid empty
  have kept : threadTable.threads = a.threadTable.threads ∧ threadTable.emptyThreads = a.threadTable.emptyThreads := by
    rcases applyIf_ok reserved with ⟨_, reserved⟩ | ⟨_, rfl⟩
    · exact ThreadTable.reserveThread_eq reserved
    · exact ⟨rfl, rfl⟩
  refine carries_of_family lfid kept.1 kept.2 rfl rfl (fun other different => ?_) (.fresh ?_ idle ?_ ?_)
  · rw [family_setFamily_of_ne _ _ different]
    exact Function.update_of_ne different _ _
  all_goals rw [family_setFamily_self]
  · change (Function.update a.familyTable.families lfid { a.familyTable.families lfid with state := .allocated } lfid).state ≠ _
    rw [Function.update_self]
    exact fun same => by cases same
  · rfl
  · exact ⟨rfl, rfl⟩

theorem doFamilyAllocate_carries {a a' : Allocator t} {capability : Nat} (unused : a.Unused)
    (done : a.doFamilyAllocate capability = .ok a') : a.Carries a' := by
  obtain ⟨which, _, rest⟩ := bind_ok done
  obtain ⟨⟨request, requests⟩, _, rest⟩ := bind_ok rest
  obtain ⟨result, allocated, rest⟩ := bind_ok rest
  split at rest
  · split at rest
    · cases rest
    · obtain ⟨_, rest⟩ := require_bind_ok rest
      obtain ⟨middle, refused, rest⟩ := bind_ok rest
      cases rest
      exact (refuseAllocation_carries refused).trans (setQueue_carries _ _ _)
  · rename_i lfid b
    obtain ⟨middle, answered, rest⟩ := bind_ok rest
    cases rest
    exact ((allocateContext_carries unused allocated).trans (answerAllocation_carries answered)).trans (setQueue_carries _ _ _)

theorem doAllocResponse_carries {a a' : Allocator t} {msg : AllocResponse} (done : a.doAllocResponse msg = .ok a')
    (idle : ∀ fid, msg.prevFid = some fid → (a.family fid).dependencies.numThreadsAllocated = 0) : a.Carries a' := by
  dsimp only [doAllocResponse] at done
  obtain ⟨lfid, prev, rest⟩ := bind_ok done
  have without := idle lfid (orElse_ok prev)
  generalize (if msg.numCores = 0 ∧ msg.exact = false ∧ RAUnit.isPowerOfTwo (a.pid % (a.family lfid).placeSize + 1) = true then
    a.pid % (a.family lfid).placeSize + 1 else msg.numCores) = numCores at rest
  have linked : a.Carries (a.setFamily lfid { a.family lfid with
      link := msg.nextFid, numCores := if numCores = 0 then (a.family lfid).numCores else numCores }) :=
    (Carries.refl a).relabel rfl id ⟨rfl, rfl, rfl, rfl⟩ ⟨rfl, rfl⟩ id
  obtain ⟨middle, released, rest⟩ := bind_ok rest
  have settled : a.Carries middle := by
    rcases applyIf_ok released with ⟨_, released⟩ | ⟨_, rfl⟩
    · exact linked.trans (releaseContext_carries released ((linked.families lfid).count.trans without))
    · exact linked
  split at rest
  · obtain ⟨_, rest⟩ := require_bind_ok rest
    cases rest
    exact settled.trans (sendRemote_carries _ _)
  · cases rest
    exact settled.trans ⟨rfl, rfl, rfl, rfl, fun _ => .refl _⟩

theorem allocateRegisters_carries {a a' : Allocator t} {fid physBlockSize : Nat} {context : ContextType}
    (done : a.allocateRegisters fid context physBlockSize = .ok a')
    (idle : (a.family fid).dependencies.numThreadsAllocated = 0) : a.Carries a' := by
  induction physBlockSize with
  | zero => cases done
  | succ physBlockSize ih =>
    dsimp only [allocateRegisters] at done
    split at done
    · rename_i raunit indices _
      cases done
      have made : a.Carries (a.setFamily fid ((a.family fid).withRegisters (physBlockSize + 1) indices)) :=
        (Carries.refl a).setUp idle idle id ⟨rfl, rfl⟩
      exact ⟨rfl, rfl, rfl, rfl, made.families⟩
    · exact ih done
    · cases done

theorem activateFamily_carries {a a' : Allocator t} {fid : Nat} (done : a.activateFamily fid = .ok a') : a.Carries a' := by
  obtain ⟨alloc, _, rest⟩ := bind_ok done
  cases rest
  have active : a.Carries (a.setFamily fid { a.family fid with state := .active }) :=
    (Carries.refl a).relabel rfl id ⟨rfl, rfl, rfl, rfl⟩ ⟨rfl, rfl⟩ fun empty => by cases empty
  exact ⟨rfl, rfl, rfl, rfl, active.families⟩

theorem forwardCreate_carries (a : Allocator t) (fid numCores : Nat) : a.Carries (a.forwardCreate fid numCores) := by
  dsimp only [forwardCreate]
  split
  · exact .refl a
  · split
    · exact (sendLink_carries a _).relabel rfl id ⟨rfl, rfl, rfl, rfl⟩ ⟨rfl, rfl⟩ id
    · exact sendLink_carries a _

theorem queueLinkCreate_carries {a a' : Allocator t} {fid numCores : Nat} {address : BitVec 64} {regs : RegType → RegsNo}
    (done : a.queueLinkCreate fid numCores address regs = .ok a')
    (idle : (a.family fid).dependencies.numThreadsAllocated = 0) : a.Carries a' := by
  dsimp only [queueLinkCreate] at done
  obtain ⟨nThreads, _, rest⟩ := bind_ok done
  obtain ⟨b, allocated, rest⟩ := bind_ok rest
  obtain ⟨c, activated, rest⟩ := bind_ok rest
  cases rest
  have made : a.Carries (a.setFamily fid (Family.distribute { a.family fid with
      pc := address
      state := .createQueued
      regs := fun τ => { (a.family fid).regs τ with base := none, count := regs τ } }
      a.pid a.threadTable.size nThreads (a.family fid).numCores)) := (Carries.refl a).setUp idle idle id ⟨rfl, rfl⟩
  have given := made.trans (allocateRegisters_carries allocated ((made.families fid).count.trans idle))
  exact (given.trans (activateFamily_carries activated)).trans (forwardCreate_carries _ _ _)

theorem queueCreate_carries {a a' : Allocator t} {address : BitVec 64} {capability : Nat} {info : CreateInfo t}
    (done : a.queueCreate address capability info = .ok a') : a.Carries a' := by
  dsimp only [queueCreate] at done
  obtain ⟨family, checked, rest⟩ := bind_ok done
  obtain ⟨creates, _, rest⟩ := bind_ok rest
  cases rest
  have same : family = a.family info.fid := by
    unfold getFamilyChecked at checked
    split at checked
    · cases checked
    · split at checked
      · cases checked
      · split at checked
        · cases checked
        · exact (Except.ok.inj checked).symm
  subst same
  have queued : a.Carries (a.setFamily info.fid { a.family info.fid with
      pc := (address &&& -(BitVec.ofNat 64 a.lineSize)) + 8, state := .createQueued }) :=
    (Carries.refl a).relabel rfl id ⟨rfl, rfl, rfl, rfl⟩ ⟨rfl, rfl⟩ fun empty => by cases empty
  exact ⟨rfl, rfl, rfl, rfl, queued.families⟩

/-- The family has no threads in the table. -/
def Idle (a : Allocator t) (fid : Nat) : Prop := (a.family fid).dependencies.numThreadsAllocated = 0

theorem startCreate_carries {a a' : Allocator t} {info : CreateInfo t} (done : a.startCreate info = .ok a')
    (idle : a.Idle info.fid) : a.Carries a' := by
  dsimp only [startCreate] at done
  obtain ⟨nThreads, _, rest⟩ := bind_ok done
  cases rest
  have started : a.Carries (a.setFamily info.fid { a.family info.fid with
      start := if info.bundle then info.index else (a.family info.fid).start, nThreads := nThreads, state := .creating }) :=
    (Carries.refl a).setUp idle idle id ⟨rfl, rfl⟩
  exact ⟨rfl, rfl, rfl, rfl, started.families⟩

theorem readCounts_carries {a a' : Allocator t} {fid : Nat} {loaded : RegType → RegsNo}
    (done : a.readCounts fid loaded = .ok a') (idle : a.Idle fid) : a.Carries a' := by
  dsimp only [readCounts] at done
  obtain ⟨_, rest⟩ := require_bind_ok done
  generalize (if (a.family fid).nThreads = 0 then fun _ => (⟨0, 0, 0⟩ : RegsNo) else loaded) = counts at rest
  cases rest
  have counted : a.Carries (a.setFamily fid { a.family fid with
      regs := fun τ => { (a.family fid).regs τ with base := none, count := counts τ }
      hasShareds := (counts .integer).shareds > 0 ∨ (counts .float).shareds > 0 }) :=
    (Carries.refl a).setUp idle idle id ⟨rfl, rfl⟩
  exact ⟨rfl, rfl, rfl, rfl, counted.families⟩

theorem restrictCores_carries (a : Allocator t) {fid : Nat} (idle : a.Idle fid) : a.Carries (a.restrictCores fid) := by
  dsimp only [restrictCores]
  generalize (if a.familyTable.isExclusive fid = true ∨ (a.family fid).hasShareds = true then 1
    else max 1 (min (a.family fid).nThreads.toNat (a.family fid).numCores)) = numCores
  have restricted : a.Carries (a.setFamily fid
      { (a.family fid).distribute a.pid a.threadTable.size (a.family fid).nThreads numCores with numCores := numCores }) :=
    (Carries.refl a).setUp idle idle id ⟨rfl, rfl⟩
  exact ⟨rfl, rfl, rfl, rfl, restricted.families⟩

theorem startThreads_carries {a a' : Allocator t} {fid : Nat} (done : a.startThreads fid = .ok a') : a.Carries a' := by
  unfold startThreads at done
  split at done
  · obtain ⟨threadTable, unreserved, rest⟩ := bind_ok done
    have kept : threadTable.threads = a.threadTable.threads ∧ threadTable.emptyThreads = a.threadTable.emptyThreads := by
      rcases applyIf_ok unreserved with ⟨_, unreserved⟩ | ⟨_, rfl⟩
      · exact ThreadTable.unreserveThread_eq unreserved
      · exact ⟨rfl, rfl⟩
    have carried : a.Carries { a with threadTable } := ⟨kept.1, kept.2, rfl, rfl, fun _ => .refl _⟩
    exact carried.trans (decreaseFamilyDependency_carries rest (by decide))
  · exact activateFamily_carries done

theorem activateCreated_carries {a a' : Allocator t} {info : CreateInfo t} (done : a.activateCreated info = .ok a') :
    a.Carries a' := by
  dsimp only [activateCreated] at done
  obtain ⟨_, rest⟩ := require_bind_ok done
  obtain ⟨_, rest⟩ := require_bind_ok rest
  obtain ⟨b, started, rest⟩ := bind_ok rest
  cases rest
  have released : a.Carries (a.setFamily info.fid { a.family info.fid with
      dependencies := { (a.family info.fid).dependencies with detached := true, syncSent := true } }) :=
    (Carries.refl a).relabel rfl id ⟨rfl, rfl, rfl, rfl⟩ ⟨rfl, rfl⟩ id
  have carried : a.Carries b := by
    split at started
    · exact released.trans (startThreads_carries started)
    · exact startThreads_carries started
  exact carried.trans ⟨rfl, rfl, rfl, rfl, fun _ => .refl _⟩

end Allocator

/-- The states of a create in which it changes what the threads of the family depend on. -/
def CreateState.setsUp : CreateState → Bool
  | .initial | .lineLoaded | .restricting | .allocatingRegisters => true
  | _ => false

namespace Allocator

theorem doFamilyCreate_carries {a a' : Allocator t} {hit : Bool} {loaded : RegType → RegsNo}
    (done : a.doFamilyCreate hit loaded = .ok a')
    (idle : a.createState.setsUp = true → ∀ info ∈ a.creates.front?, a.Idle info.fid) : a.Carries a' := by
  dsimp only [doFamilyCreate] at done
  obtain ⟨⟨info, creates⟩, taken, rest⟩ := bind_ok done
  have front := (Buffer.take?_eq_some (orElse_ok taken)).2
  have moved : ∀ (b : Allocator t) (state : CreateState), b.Carries { b with createState := state } :=
    fun _ _ => ⟨rfl, rfl, rfl, rfl, fun _ => .refl _⟩
  split at rest
  · rename_i state
    exact startCreate_carries rest (idle (by rw [state]; rfl) info front)
  · cases rest
    exact moved a _
  · cases rest
  · rename_i state
    exact readCounts_carries rest (idle (by rw [state]; rfl) info front)
  · rename_i state
    cases rest
    exact restrictCores_carries a (idle (by rw [state]; rfl) info front)
  · rename_i state
    obtain ⟨b, allocated, rest⟩ := bind_ok rest
    cases rest
    exact (allocateRegisters_carries allocated (idle (by rw [state]; rfl) info front)).trans (moved b _)
  · cases rest
    exact (forwardCreate_carries a _ _).trans (moved _ _)
  · exact activateCreated_carries rest
  · cases rest
    cases info.completionReg with
    | none => exact ⟨rfl, rfl, rfl, rfl, fun _ => .refl _⟩
    | some reg =>
      exact (sendRemote_carries a (.rawRegister info.completionPid reg
        (.family ⟨a.pid, info.fid, (a.family info.fid).capability⟩))).trans ⟨rfl, rfl, rfl, rfl, fun _ => .refl _⟩

theorem onSetProperty_carries (a : Allocator t) {fid : Nat} (type : FamilyProperty) (value : Integer t) (idle : a.Idle fid) :
    a.Carries (a.onSetProperty fid type value) := by
  have set : a.Carries (a.setFamily fid ((a.family fid).setProperty type value)) := by
    cases type <;> exact (Carries.refl a).setUp idle idle id ⟨rfl, rfl⟩
  dsimp only [onSetProperty]
  split
  · exact set
  · exact set.trans (sendLink_carries _ _)

theorem onSync_carries {a a' : Allocator t} {fid pid reg : Nat} (done : a.onSync fid pid reg = .ok a') : a.Carries a' := by
  dsimp only [onSync] at done
  split at done
  · cases done
    exact sendLink_carries a _
  · split at done
    · have unsent : a.Carries (a.setFamily fid { a.family fid with
          dependencies := { (a.family fid).dependencies with syncSent := false } }) :=
        (Carries.refl a).relabel rfl id ⟨rfl, rfl, rfl, rfl⟩ ⟨rfl, rfl⟩ id
      exact unsent.trans (sendSync_carries done)
    · cases done
      exact (Carries.refl a).relabel rfl id ⟨rfl, rfl, rfl, rfl⟩ ⟨rfl, rfl⟩ id

theorem onDetach_carries {a a' : Allocator t} {fid : Nat} (done : a.onDetach fid = .ok a') : a.Carries a' := by
  obtain ⟨b, decreased, rest⟩ := bind_ok done
  have detached := decreaseFamilyDependency_carries decreased (by decide)
  split at rest
  · cases rest
    exact detached
  · cases rest
    exact detached.trans (sendLink_carries _ _)

theorem onBreak_carries {a a' : Allocator t} {fid : Nat} (done : a.onBreak fid = .ok a') : a.Carries a' := by
  obtain ⟨b, ended, rest⟩ := bind_ok done
  cases rest
  have ended : a.Carries b := by
    rcases applyIf_ok ended with ⟨_, ended⟩ | ⟨_, rfl⟩
    · exact decreaseFamilyDependency_carries ended (by decide)
    · exact .refl _
  cases (b.family fid).link with
  | none => exact ended.relabel rfl id ⟨rfl, rfl, rfl, rfl⟩ ⟨rfl, rfl⟩ id
  | some link => exact (ended.trans (sendLink_carries b _)).relabel rfl id ⟨rfl, rfl, rfl, rfl⟩ ⟨rfl, rfl⟩ id

theorem onDone_carries {a a' : Allocator t} {fid : Nat} {broken : Bool} (done : a.onDone fid broken = .ok a') :
    a.Carries a' := by
  have marked : a.Carries (a.setFamily fid { a.family fid with broken := (a.family fid).broken || broken }) :=
    (Carries.refl a).relabel rfl id ⟨rfl, rfl, rfl, rfl⟩ ⟨rfl, rfl⟩ id
  exact marked.trans (decreaseFamilyDependency_carries done (by decide))

theorem doSyncs_carries {a a' : Allocator t} (done : a.doSyncs = .ok a') : a.Carries a' := by
  dsimp only [doSyncs] at done
  obtain ⟨⟨info, syncs⟩, _, rest⟩ := bind_ok done
  have sent : a.Carries { a.sendRemote (.rawRegister info.pid info.reg (.sync info.broken)) with syncs } :=
    ⟨rfl, rfl, rfl, rfl, fun _ => .refl _⟩
  exact sent.trans (decreaseFamilyDependency_carries rest (by decide))

theorem allocateInitialFamily_carries {a a' : Allocator t} {pc : BitVec 64} {placeSize capability : Nat}
    {startIndex : Integer t} (unused : a.Unused)
    (done : a.allocateInitialFamily pc placeSize startIndex capability = .ok a') : a.Carries a' := by
  dsimp only [allocateInitialFamily] at done
  obtain ⟨⟨fid, familyTable⟩, found, rest⟩ := bind_ok done
  obtain ⟨result, allocated, given⟩ := bind_ok found
  rw [orElse_ok given] at allocated
  obtain ⟨empty, rfl⟩ := FamilyTable.allocateFamily_ok allocated
  obtain ⟨b, registers, rest⟩ := bind_ok rest
  obtain ⟨threadTable, reserved, rest⟩ := bind_ok rest
  obtain ⟨alloc, _, rest⟩ := bind_ok rest
  cases rest
  have idle := unused fid empty
  obtain ⟨threads, entries⟩ := ThreadTable.reserveThread_eq reserved
  generalize made : setFamily _ fid _ = first at registers
  have created : a.Carries first := by
    rw [← made]
    refine carries_of_family fid rfl rfl rfl rfl (fun other different => ?_) ?_
    · rw [family_setFamily_of_ne _ _ different]
      exact Function.update_of_ne different _ _
    · rw [family_setFamily_self]
      exact .fresh (fun same => by cases same) idle rfl ⟨rfl, rfl⟩
  have given := created.trans (allocateRegisters_carries registers ((created.families fid).count.trans idle))
  exact ⟨threads.trans given.threads, entries.trans given.emptyThreads, given.cleanup, given.lives, given.families⟩

theorem onMemoryRead_carries (a : Allocator t) (fid : Nat) : a.Carries (a.onMemoryRead fid) :=
  (Carries.refl a).relabel rfl id ⟨rfl, rfl, rfl, rfl⟩ ⟨rfl, rfl⟩ id

theorem endCycle_carries (a : Allocator t) : a.Carries a.endCycle :=
  ⟨rfl, rfl, Buffer.contents_update _, rfl, fun _ => .refl _⟩

/-- A family is set up, or its entry given back, only while it has no threads. -/
def SetsUpIdle (a : Allocator t) : AllocatorEvent t → Prop
  | .setProperty fid _ _ _ => a.Idle fid
  | .linkMessage (.setProperty fid _ _) => a.Idle fid
  | .linkMessage (.create fid _ _ _) => a.Idle fid
  | .allocResponse msg => ∀ fid, msg.prevFid = some fid → a.Idle fid
  | .familyCreate _ _ => a.createState.setsUp = true → ∀ info ∈ a.creates.front?, a.Idle info.fid
  | _ => True

theorem onLinkMessage_carries {a a' : Allocator t} {msg : LinkMessage t} (done : a.onLinkMessage msg = .ok a')
    (idle : a.SetsUpIdle (.linkMessage msg)) : a.Carries a' := by
  cases msg with
  | allocate => exact pushRequest_carries done
  | setProperty fid type value =>
    cases done
    exact onSetProperty_carries a type value idle
  | create fid numCores address regs =>
    dsimp only [onLinkMessage] at done
    split at done
    · cases next : (a.family fid).link with
      | none =>
        rw [next] at done
        exact releaseContext_carries done idle
      | some link =>
        rw [next] at done
        have onward := sendLink_carries a (.create link 0 address regs)
        exact onward.trans (releaseContext_carries done ((onward.families fid).count.trans idle))
    · exact queueLinkCreate_carries done idle
  | done => exact onDone_carries done
  | sync => exact onSync_carries done
  | detach => exact onDetach_carries done
  | brk => exact onBreak_carries done

end Allocator
end Mgsim.Drisc
