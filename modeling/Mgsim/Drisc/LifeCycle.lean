import Mgsim.Drisc.FamilyEffects
import Mgsim.Drisc.ThreadLife

namespace Mgsim.Drisc
open Mgsim.Lib
variable {t : Target}

/-- A thread changes in what its block does not depend on. -/
theorem Runs.retouch {threads : Nat → Thread t} {fid tid : Nat} {family : Family t} {tids : List Nat} {thread : Thread t}
    (runs : Runs threads fid family tids) (state : thread.state = .empty ↔ (threads tid).state = .empty)
    (owner : thread.family = (threads tid).family) (link : thread.nextInBlock = (threads tid).nextInBlock)
    (mark : thread.dependencies.prevCleanedUp = (threads tid).dependencies.prevCleanedUp)
    (index : thread.index = (threads tid).index) : Runs (Function.update threads tid thread) fid family tids := by
  refine ⟨runs.congr fun other _ => ?_, fun other => ?_, runs.count, runs.fits⟩
  · by_cases same : other = tid
    · rw [same, Function.update_self]
      exact ⟨link, mark, index⟩
    · rw [Function.update_of_ne same]
      exact ⟨rfl, rfl, rfl⟩
  · rw [runs.members]
    by_cases same : other = tid
    · rw [same, Function.update_self, owner]
      exact and_congr_left fun _ => not_congr state.symm
    · rw [Function.update_of_ne same]

namespace Allocator

/-- The threads of every family form its block, and their lives are regular. -/
structure Managed (a : Allocator t) : Prop where
  lives : Lives a.threadTable.threads a.cleanup.contents a.lives
  runs : ∀ fid, ∃ tids, Runs a.threadTable.threads fid (a.family fid) tids
  entries : ∀ tid ∈ a.threadTable.emptyThreads, (a.thread tid).state = .empty
  distinct : a.threadTable.emptyThreads.Nodup
  unused : a.Unused

theorem Managed.carry {a a' : Allocator t} (ok : a.Managed) (carried : a.Carries a') : a'.Managed := by
  refine ⟨?_, fun fid => ?_, ?_, ?_, fun fid empty => ?_⟩
  · rw [carried.threads, carried.cleanup, carried.lives]
    exact ok.lives
  · obtain ⟨tids, runs⟩ := ok.runs fid
    rw [carried.threads]
    exact ⟨tids, runs.carry (carried.families fid)⟩
  · rw [carried.emptyThreads]
    intro tid member
    rw [thread, carried.threads]
    exact ok.entries tid member
  · rw [carried.emptyThreads]
    exact ok.distinct
  · rw [(carried.families fid).count]
    rcases (carried.families fid).empty empty with before | idle
    · exact ok.unused fid before
    · exact idle

/-- One thread changes in what its block does not depend on. -/
theorem Managed.retouch {a a' : Allocator t} (ok : a.Managed) {tid : Nat} {thread : Thread t}
    (lives : Lives (Function.update a.threadTable.threads tid thread) a'.cleanup.contents a'.lives)
    (threads : a'.threadTable = a.threadTable.set tid thread) (families : a'.familyTable = a.familyTable)
    (state : thread.state = .empty ↔ (a.thread tid).state = .empty)
    (owner : thread.family = (a.thread tid).family) (link : thread.nextInBlock = (a.thread tid).nextInBlock)
    (mark : thread.dependencies.prevCleanedUp = (a.thread tid).dependencies.prevCleanedUp)
    (index : thread.index = (a.thread tid).index) : a'.Managed := by
  have sameFamily : ∀ fid, a'.family fid = a.family fid := fun fid => congrArg (·.families fid) families
  have shown : a'.threadTable.threads = Function.update a.threadTable.threads tid thread := by rw [threads]; rfl
  refine ⟨shown ▸ lives, fun fid => ?_, ?_, ?_, fun fid empty => ?_⟩
  · obtain ⟨tids, runs⟩ := ok.runs fid
    rw [shown, sameFamily]
    exact ⟨tids, runs.retouch state owner link mark index⟩
  · rw [threads]
    intro other member
    rw [Allocator.thread, shown]
    have before := ok.entries other member
    by_cases same : other = tid
    · rw [same, Function.update_self, state, ← same, before]
    · rw [Function.update_of_ne same]
      exact before
  · rw [threads]
    exact ok.distinct
  · rw [sameFamily] at empty ⊢
    exact ok.unused fid empty

/-- A thread changes, and is pushed on the cleanup queue if it has nothing more to wait for. -/
structure Pushes (a a' : Allocator t) (tid : Nat) (thread : Thread t) : Prop where
  threadTable : a'.threadTable = a.threadTable.set tid thread
  familyTable : a'.familyTable = a.familyTable
  pushed : thread.isDone = true → a'.cleanup.contents = a.cleanup.contents ++ [tid] ∧
    a'.lives = Function.update a.lives tid (a.lives tid ++ [.queued])
  kept : thread.isDone = false → a'.cleanup.contents = a.cleanup.contents ∧ a'.lives = a.lives

theorem Pushes.thread_self {a a' : Allocator t} {tid : Nat} {thread : Thread t} (pushes : a.Pushes a' tid thread) :
    a'.thread tid = thread := by
  rw [Allocator.thread, pushes.threadTable]
  exact Function.update_self _ _ _

/-- Nothing else changes if the thread is not pushed. -/
theorem Pushes.carries {a a' : Allocator t} {tid : Nat} {thread : Thread t} (pushes : a.Pushes a' tid thread)
    (unfinished : thread.isDone = false) : (a.setThread tid thread).Carries a' := by
  obtain ⟨contents, lives⟩ := pushes.kept unfinished
  refine ⟨?_, ?_, contents, lives, fun fid => ?_⟩
  · rw [pushes.threadTable]
    rfl
  · rw [pushes.threadTable]
    rfl
  · rw [show a'.family fid = a.family fid from congrArg (·.families fid) pushes.familyTable]
    exact .refl _

theorem decreaseThreadDependency_ok {a a' : Allocator t} {tid : Nat} {dep : ThreadDependency}
    (done : a.decreaseThreadDependency tid dep = .ok a') : a.Pushes a' tid ((a.thread tid).decrease dep) := by
  dsimp only [decreaseThreadDependency] at done
  split at done
  · rename_i finished
    obtain ⟨cleanup, pushed, rest⟩ := bind_ok done
    cases rest
    refine ⟨rfl, rfl, fun _ => ⟨Buffer.contents_push (orElse_ok pushed), rfl⟩, fun unfinished => ?_⟩
    rw [finished] at unfinished
    cases unfinished
  · rename_i unfinished
    cases done
    exact ⟨rfl, rfl, fun finished => absurd finished unfinished, fun _ => ⟨rfl, rfl⟩⟩

/-- A thread that was still waiting for something is pushed if that was the last thing. The
threads in `front` are about to leave the queue. -/
theorem Pushes.lives {a a' : Allocator t} {tid : Nat} {thread : Thread t} (pushes : a.Pushes a' tid thread) (front : List Nat)
    (lives : Lives a.threadTable.threads (front ++ a.cleanup.contents) a.lives) (nonempty : (a.thread tid).state ≠ .empty)
    (undone : (a.thread tid).isDone = false) (kept : thread.Regular) (state : thread.state = (a.thread tid).state) :
    Lives (Function.update a.threadTable.threads tid thread) (front ++ a'.cleanup.contents) a'.lives := by
  have two : (a.thread tid).state = .terminated → (a.thread tid).stage = 2 := by
    intro terminated
    rw [Thread.stage_of_terminated terminated, undone]
    rfl
  cases finished : thread.isDone with
  | true =>
    have last := kept.stage_of_done (state ▸ nonempty) finished
    have before : (a.threadTable.threads tid).stage = 2 := two (state ▸ (Thread.stage_eq_three.mp last).1)
    obtain ⟨contents, history⟩ := pushes.pushed finished
    rw [contents, history, ← List.append_assoc]
    exact lives.join kept (by rw [before]; decide) last ((before ▸ lives.lives tid).next (by decide) rfl)
  | false =>
    have stage : thread.stage = (a.thread tid).stage := by
      by_cases terminated : (a.thread tid).state = .terminated
      · rw [Thread.stage_of_terminated (state.trans terminated), finished, two terminated]
        rfl
      · exact (Thread.stage_of_live (state ▸ nonempty) (state ▸ terminated)).trans
          (Thread.stage_of_live nonempty terminated).symm
    obtain ⟨contents, history⟩ := pushes.kept finished
    rw [contents, history]
    exact lives.stay kept stage

/-- A thread that is neither empty nor terminated stays so. -/
theorem Managed.live {a : Allocator t} (ok : a.Managed) {tid : Nat} {thread : Thread t}
    (before : (a.thread tid).state ≠ .empty ∧ (a.thread tid).state ≠ .terminated)
    (after : thread.state ≠ .empty ∧ thread.state ≠ .terminated)
    (waiting : thread.waitingForWrites = true → thread.state = .suspended)
    (killed : thread.dependencies.killed = (a.thread tid).dependencies.killed)
    (owner : thread.family = (a.thread tid).family) (link : thread.nextInBlock = (a.thread tid).nextInBlock)
    (mark : thread.dependencies.prevCleanedUp = (a.thread tid).dependencies.prevCleanedUp)
    (index : thread.index = (a.thread tid).index) : (a.setThread tid thread).Managed := by
  have regular := ok.lives.regular tid
  refine ok.retouch (ok.lives.stay ⟨fun _ => ?_, fun _ => waiting, fun empty => absurd empty after.1⟩ ?_) rfl rfl
    (iff_of_false after.1 before.1) owner link mark index
  · rw [killed]
    exact (regular.killed before.1).trans (iff_of_false before.2 after.2)
  · exact (Thread.stage_of_live after.1 after.2).trans (Thread.stage_of_live before.1 before.2).symm

theorem Managed.schedule {a a' : Allocator t} (ok : a.Managed) {tid : Nat} {state : ThreadState}
    (done : a.schedule tid state = .ok a') : a'.Managed := by
  dsimp only [Allocator.schedule] at done
  split at done
  · rename_i allowed
    cases done
    obtain ⟨arrow, free⟩ := allowed
    have ends : ((a.thread tid).state ≠ .empty ∧ (a.thread tid).state ≠ .terminated) ∧ state ≠ .empty ∧ state ≠ .terminated := by
      revert arrow
      cases (a.thread tid).state <;> cases state <;> decide
    refine ok.live ends.1 ends.2 (fun waits => ?_) rfl rfl rfl rfl rfl
    rw [show (a.thread tid).waitingForWrites = true from waits] at free
    cases free
  · cases done

theorem Managed.store {a : Allocator t} (ok : a.Managed) {tid : Nat} (running : (a.thread tid).state = .running) :
    (a.increaseThreadDependency tid).Managed := by
  have alive : (a.thread tid).state ≠ .empty ∧ (a.thread tid).state ≠ .terminated := by
    rw [running]
    decide
  exact ok.live alive alive ((ok.lives.regular tid).suspended alive.1) rfl rfl rfl rfl rfl

theorem Managed.barrier {a a' : Allocator t} (ok : a.Managed) {tid : Nat} (done : a.suspendForWrites tid = .ok a') :
    a'.Managed := by
  dsimp only [suspendForWrites] at done
  split at done
  · rename_i allowed
    cases done
    have alive : (a.thread tid).state ≠ .empty ∧ (a.thread tid).state ≠ .terminated := by
      rw [allowed.1]
      decide
    exact ok.live alive (by simp) (fun _ => rfl) rfl rfl rfl rfl rfl
  · cases done

/-- A completed store can be what a terminated thread was waiting for. -/
theorem Managed.completeStore {a a' : Allocator t} (ok : a.Managed) {tid : Nat} (done : a.completeStore tid = .ok a') :
    a'.Managed := by
  obtain ⟨pending, done⟩ := require_bind_ok done
  have regular : (a.thread tid).Regular := ok.lives.regular tid
  have nonempty : (a.thread tid).state ≠ .empty := fun empty => pending (regular.idle empty)
  have undone : (a.thread tid).isDone = false :=
    Bool.eq_false_iff.mpr fun done => pending (Thread.isDone_iff.mp done).1
  by_cases woken : (a.thread tid).dependencies.numPendingWrites - 1 = 0 ∧ (a.thread tid).waitingForWrites = true
  · have suspended := regular.suspended nonempty woken.2
    have alive : (a.thread tid).state ≠ .empty ∧ (a.thread tid).state ≠ .terminated := by
      rw [suspended]
      decide
    have ready : ((a.thread tid).decrease .outstandingWrites).waitingForWrites = false ∧
        ((a.thread tid).decrease .outstandingWrites).state = .ready := by
      rw [Thread.decrease, if_pos ⟨rfl, woken⟩]
      exact ⟨rfl, rfl⟩
    obtain ⟨killed, link, owner, index, mark⟩ := Thread.decrease_writes (a.thread tid)
    have pushes := decreaseThreadDependency_ok done
    have unfinished : ((a.thread tid).decrease .outstandingWrites).isDone = false := by
      refine Bool.eq_false_iff.mpr fun finished => alive.2 ((regular.killed nonempty).mp ?_)
      rw [← killed]
      exact (Thread.isDone_iff.mp finished).2.2
    have settled := ok.live alive (by rw [ready.2]; decide) (fun waits => absurd waits (by rw [ready.1]; decide))
      killed owner link mark index
    exact settled.carry (pushes.carries unfinished)
  · have same : (a.thread tid).decrease .outstandingWrites = { a.thread tid with
        dependencies := (a.thread tid).dependencies.decrease .outstandingWrites } :=
      if_neg fun all => woken all.2
    have kept : ((a.thread tid).decrease .outstandingWrites).Regular := by
      rw [same]
      exact ⟨regular.killed, regular.suspended, fun empty => absurd empty nonempty⟩
    have state : ((a.thread tid).decrease .outstandingWrites).state = (a.thread tid).state := by rw [same]
    obtain ⟨_, link, owner, index, mark⟩ := Thread.decrease_writes (a.thread tid)
    have pushes := decreaseThreadDependency_ok done
    exact ok.retouch (pushes.lives [] ok.lives nonempty undone kept state) pushes.threadTable pushes.familyTable
      (by rw [state]) owner link mark index

theorem Managed.kill {a a' : Allocator t} (ok : a.Managed) {tid : Nat} (done : a.killThread tid = .ok a') : a'.Managed := by
  obtain ⟨running, done⟩ := require_bind_ok done
  obtain ⟨b, decreased, rest⟩ := bind_ok done
  have running : (a.thread tid).state = .running := running
  have alive : (a.thread tid).state ≠ .empty ∧ (a.thread tid).state ≠ .terminated := by
    rw [running]
    decide
  have regular : (a.thread tid).Regular := ok.lives.regular tid
  have began : (a.thread tid).stage = 1 := Thread.stage_of_live alive.1 alive.2
  have terminated := (began ▸ ok.lives.lives tid).next (by decide) (show lifeRound[1]? = some Life.terminated from rfl)
  generalize made : { a.thread tid with
    dependencies := { (a.thread tid).dependencies with killed := true }, state := .terminated } = thread
  have fields : thread.state = .terminated ∧ thread.dependencies.killed = true ∧
      thread.waitingForWrites = (a.thread tid).waitingForWrites := by
    rw [← made]
    exact ⟨rfl, rfl, rfl⟩
  have kept : thread.Regular := by
    refine ⟨fun _ => iff_of_true fields.2.1 fields.1, fun _ waits => ?_, fun empty => ?_⟩
    · rw [fields.2.2] at waits
      exact absurd (regular.suspended alive.1 waits) (by rw [running]; decide)
    · rw [fields.1] at empty
      cases empty
  have finished : thread.isDone = ((a.thread tid).decrease .terminated).isDone := by
    rw [← made]
    rfl
  have shape : thread.family = (a.thread tid).family ∧ thread.nextInBlock = (a.thread tid).nextInBlock ∧
      thread.dependencies.prevCleanedUp = (a.thread tid).dependencies.prevCleanedUp ∧
      thread.index = (a.thread tid).index := by
    rw [← made]
    exact ⟨rfl, rfl, rfl, rfl⟩
  have nonempty : thread.state = .empty ↔ (a.thread tid).state = .empty :=
    iff_of_false (by rw [fields.1]; decide) alive.1
  obtain ⟨owner, link, mark, index⟩ := shape
  cases rest
  have pushes := decreaseThreadDependency_ok decreased
  have table : (b.setThread tid { b.thread tid with state := .terminated }).threadTable = a.threadTable.set tid thread := by
    rw [setThread, pushes.thread_self, pushes.threadTable, ← made]
    exact ThreadTable.set_set _ _ _ _
  cases done : ((a.thread tid).decrease .terminated).isDone with
  | true =>
    have last := kept.stage_of_done (by rw [fields.1]; decide) (finished.trans done)
    have queued := terminated.next (by decide) (show lifeRound[2]? = some Life.queued from rfl)
    have joined := ok.lives.join kept (by rw [show (a.threadTable.threads tid).stage = 1 from began]; decide) last queued
    obtain ⟨contents, lives⟩ := pushes.pushed done
    refine ok.retouch ?_ table pushes.familyTable nonempty owner link mark index
    change Lives _ b.cleanup.contents b.lives
    rw [contents, lives]
    simp only [record, Function.update_idem, Function.update_self]
    exact joined
  | false =>
    have stage : thread.stage = 2 := by
      rw [Thread.stage_of_terminated fields.1, finished, done]
      rfl
    have absent : tid ∉ a.cleanup.contents := by
      rw [ok.lives.queued, show (a.threadTable.threads tid).stage = 1 from began]
      decide
    have ended := ok.lives.update kept ok.lives.once (fun _ _ => Iff.rfl)
      (iff_of_false absent (by rw [stage]; decide)) (by rw [stage]; exact terminated)
    obtain ⟨contents, lives⟩ := pushes.kept done
    refine ok.retouch ?_ table pushes.familyTable nonempty owner link mark index
    change Lives _ b.cleanup.contents b.lives
    rw [contents, lives]
    exact ended

theorem placeThread_threads (a : Allocator t) (fid tid : Nat) (isNew : Bool) :
    (a.placeThread fid tid isNew).threadTable.threads = linkedThreads
      (Function.update a.threadTable.threads tid (newThread (a.family fid) fid (a.thread tid) isNew))
      (a.family fid).lastAllocated tid := by
  dsimp only [placeThread, linkBehind, linkedThreads]
  cases (a.family fid).lastAllocated <;> rfl

theorem placeThread_rest (a : Allocator t) (fid tid : Nat) (isNew : Bool) :
    (a.placeThread fid tid isNew).threadTable.emptyThreads = a.threadTable.emptyThreads ∧
      (a.placeThread fid tid isNew).cleanup = a.cleanup ∧
      (a.placeThread fid tid isNew).lives = Function.update a.lives tid (a.lives tid ++ [.allocated]) ∧
      (a.placeThread fid tid isNew).familyTable = a.familyTable.set fid
        (countThread (a.family fid) tid (newThread (a.family fid) fid (a.thread tid) isNew) isNew) := by
  dsimp only [placeThread, linkBehind]
  cases (a.family fid).lastAllocated <;> exact ⟨rfl, rfl, rfl, rfl⟩

theorem allocateThread_ok {a a' : Allocator t} {fid tid : Nat} {isNew : Bool}
    (done : a.allocateThread fid tid isNew = .ok a') :
    (isNew = true → (a.family fid).dependencies.numThreadsAllocated < (a.family fid).physBlockSize) ∧
      (a.placeThread fid tid isNew).Carries a' := by
  obtain ⟨_, rest⟩ := require_bind_ok done
  obtain ⟨room, rest⟩ := require_bind_ok rest
  refine ⟨room, ?_⟩
  rcases applyIf_ok rest with ⟨_, ended⟩ | ⟨_, rfl⟩
  · exact decreaseFamilyDependency_carries ended (by decide)
  · exact .refl _

/-- The entry `tid` is free for a thread of the family `fid`, whose other threads are `tids`. -/
structure Vacant (a : Allocator t) (threads : Nat → Thread t) (fid tid : Nat) (tids : List Nat) : Prop where
  entry : (threads tid).state = .empty
  block : Block threads (a.family fid) tids
  members : ∀ other, other ∈ tids ↔ (threads other).state ≠ .empty ∧ (threads other).family = fid
  others : ∀ other ≠ fid, ∃ tids, Runs threads other (a.family other) tids

theorem placeThread_family_self (a : Allocator t) (fid tid : Nat) (isNew : Bool) :
    (a.placeThread fid tid isNew).family fid =
      countThread (a.family fid) tid (newThread (a.family fid) fid (a.thread tid) isNew) isNew := by
  rw [family, (placeThread_rest a fid tid isNew).2.2.2]
  exact Function.update_self _ _ _

theorem placeThread_family_of_ne (a : Allocator t) {fid other : Nat} (tid : Nat) (isNew : Bool) (different : other ≠ fid) :
    (a.placeThread fid tid isNew).family other = a.family other := by
  rw [family, (placeThread_rest a fid tid isNew).2.2.2]
  exact Function.update_of_ne different _ _

section Place
variable {a : Allocator t} {threads : Nat → Thread t} {fid tid : Nat} {tids : List Nat} {isNew : Bool}

/-- The block of the family after a thread has been put into a free entry. -/
theorem Vacant.place_self (vacant : a.Vacant threads fid tid tids)
    (base : ∀ thread, Function.update a.threadTable.threads tid thread = Function.update threads tid thread)
    (unfinished : (a.family fid).dependencies.allocationDone = false)
    (none : (a.family fid).isLinked = true → ((a.family fid).dependencies.numThreadsAllocated = 0 ↔ tids = []))
    (count : tids.length + 1 = (a.family fid).dependencies.numThreadsAllocated + if isNew then 1 else 0)
    (fits : tids.length + 1 ≤ (a.family fid).physBlockSize) :
    Runs (a.placeThread fid tid isNew).threadTable.threads fid ((a.placeThread fid tid isNew).family fid) (tids ++ [tid]) := by
  have fresh : tid ∉ tids := fun member => ((vacant.members tid).mp member).1 vacant.entry
  rw [placeThread_threads, base, placeThread_family_self]
  have life := linkedThreads_life (Function.update threads tid (newThread (a.family fid) fid (a.thread tid) isNew))
    (a.family fid).lastAllocated tid
  refine ⟨vacant.block.snoc fresh unfinished none fun plain shareds => ?_, fun other => ?_, ?_, ?_⟩
  · have few : ¬ 1 < (a.family fid).physBlockSize := fun several =>
      absurd (Family.isLinked_iff.mpr ⟨shareds, several⟩) (by rw [plain]; decide)
    omega
  · rw [(life other).1, (life other).2.1, List.mem_append, List.mem_singleton]
    by_cases new : other = tid
    · rw [new, Function.update_self]
      exact iff_of_true (Or.inr rfl) ⟨nofun, rfl⟩
    · rw [Function.update_of_ne new, vacant.members]
      exact ⟨fun found => found.resolve_right new, Or.inl⟩
  · rw [List.length_append]
    exact count
  · rw [List.length_append]
    exact fits

/-- Only threads of the family change when a thread is put into a free entry. -/
theorem Vacant.within (vacant : a.Vacant threads fid tid tids)
    (unfinished : (a.family fid).dependencies.allocationDone = false) (thread : Thread t) (owner : thread.family = fid) :
    Within fid threads (linkedThreads (Function.update threads tid thread) (a.family fid).lastAllocated tid) := by
  have life := linkedThreads_life (Function.update threads tid thread) (a.family fid).lastAllocated tid
  intro other
  by_cases new : other = tid
  · refine Or.inr ⟨Or.inl (new ▸ vacant.entry), ?_⟩
    rw [(life other).2.1, new, Function.update_self]
    exact owner
  · by_cases last : (a.family fid).lastAllocated = some other
    · have member : other ∈ tids := by
        rw [vacant.block.last unfinished] at last
        split at last
        · exact List.mem_of_getLast? last
        · cases last
      have inFamily := ((vacant.members other).mp member).2
      refine Or.inr ⟨Or.inr inFamily, ?_⟩
      rw [(life other).2.1, Function.update_of_ne new, inFamily]
    · rw [linkedThreads_other last, Function.update_of_ne new]
      exact Or.inl rfl

/-- The families after a thread has been put into a free entry. -/
theorem Vacant.place (vacant : a.Vacant threads fid tid tids)
    (base : ∀ thread, Function.update a.threadTable.threads tid thread = Function.update threads tid thread)
    (unfinished : (a.family fid).dependencies.allocationDone = false)
    (none : (a.family fid).isLinked = true → ((a.family fid).dependencies.numThreadsAllocated = 0 ↔ tids = []))
    (count : tids.length + 1 = (a.family fid).dependencies.numThreadsAllocated + if isNew then 1 else 0)
    (fits : tids.length + 1 ≤ (a.family fid).physBlockSize) (other : Nat) :
    ∃ tids, Runs (a.placeThread fid tid isNew).threadTable.threads other ((a.placeThread fid tid isNew).family other) tids := by
  by_cases same : other = fid
  · subst same
    exact ⟨_, vacant.place_self base unfinished none count fits⟩
  · obtain ⟨others, runs⟩ := vacant.others other same
    rw [placeThread_threads, base, placeThread_family_of_ne a tid isNew same]
    exact ⟨others, runs.within (vacant.within unfinished _ rfl) same⟩

end Place

theorem newThread_regular (family : Family t) (fid : Nat) (old : Thread t) (isNew : Bool) :
    (newThread family fid old isNew).Regular :=
  ⟨fun _ => iff_of_false (by simp [newThread]) (by simp [newThread]), fun _ waits => absurd waits (by simp [newThread]),
    fun empty => absurd empty (by simp [newThread])⟩

/-- A thread that is put into a free entry starts the next round of its life. -/
theorem Vacant.managed {a : Allocator t} {threads : Nat → Thread t} {fid tid : Nat} {tids : List Nat} {isNew : Bool}
    (vacant : a.Vacant threads fid tid tids)
    (base : ∀ thread, Function.update a.threadTable.threads tid thread = Function.update threads tid thread)
    (unfinished : (a.family fid).dependencies.allocationDone = false)
    (none : (a.family fid).isLinked = true → ((a.family fid).dependencies.numThreadsAllocated = 0 ↔ tids = []))
    (count : tids.length + 1 = (a.family fid).dependencies.numThreadsAllocated + if isNew then 1 else 0)
    (fits : tids.length + 1 ≤ (a.family fid).physBlockSize) (lives : Lives threads a.cleanup.contents a.lives)
    (entries : ∀ other ∈ a.threadTable.emptyThreads, (threads other).state = .empty ∧ other ≠ tid)
    (distinct : a.threadTable.emptyThreads.Nodup) (unused : a.Unused) (used : (a.family fid).state ≠ .empty) :
    (a.placeThread fid tid isNew).Managed := by
  obtain ⟨emptyThreads, cleanup, history, families⟩ := placeThread_rest a fid tid isNew
  have life := linkedThreads_life (Function.update threads tid (newThread (a.family fid) fid (a.thread tid) isNew))
    (a.family fid).lastAllocated tid
  have shown := placeThread_threads a fid tid isNew
  rw [base] at shown
  refine ⟨?_, vacant.place base unfinished none count fits, ?_, ?_, fun other => ?_⟩
  · have before := lives.lives tid
    have stage := Thread.stage_of_empty vacant.entry
    have absent : tid ∉ a.cleanup.contents := by
      rw [lives.queued, stage]
      decide
    rw [stage] at before
    have started := lives.update (newThread_regular (a.family fid) fid (a.thread tid) isNew) lives.once (fun _ _ => Iff.rfl)
      (iff_of_false absent (show (1 : Nat) ≠ 3 by decide))
      (before.next (by decide) (show lifeRound[0]? = some Life.allocated from rfl))
    rw [shown, cleanup, history]
    exact started.congr fun other => ⟨(life other).1,
      (linkedThreads_index _ (a.family fid).lastAllocated tid other).2, (life other).2.2⟩
  · rw [emptyThreads]
    intro other member
    obtain ⟨empty, different⟩ := entries other member
    rw [thread, shown, (life other).1, Function.update_of_ne different, empty]
  · rw [emptyThreads]
    exact distinct
  · rw [show (a.placeThread fid tid isNew).family other = Function.update a.familyTable.families fid
        (countThread (a.family fid) tid (newThread (a.family fid) fid (a.thread tid) isNew) isNew) other from
      congrArg (·.families other) families]
    by_cases same : other = fid
    · rw [same, Function.update_self]
      exact fun empty => absurd empty used
    · rw [Function.update_of_ne same]
      exact unused other

theorem ThreadTable.popEmpty_ok {table table' : ThreadTable t} {context : ContextType} {tid : Nat}
    (done : table.popEmpty context = some (tid, table')) : ∃ rest, table.emptyThreads = tid :: rest ∧
      table'.emptyThreads = rest ∧ table'.threads = Function.update table.threads tid { table.threads tid with state := .waiting } := by
  unfold ThreadTable.popEmpty at done
  split at done
  · cases done
  · split at done
    · cases done
    · rename_i other rest found
      cases done
      exact ⟨rest, found, rfl, rfl⟩

/-- The initial allocation of a thread for the family at the front of the queue. -/
theorem Managed.allocateInitial {a a' : Allocator t} (ok : a.Managed) {fid : Nat} {alloc : Buffer Nat}
    (done : a.allocateInitial fid alloc = .ok a')
    (used : (a.family fid).dependencies.allocationDone = false → (a.family fid).state ≠ .empty) : a'.Managed := by
  dsimp only [Allocator.allocateInitial] at done
  split at done
  · cases done
    exact ok.carry ⟨rfl, rfl, rfl, rfl, fun _ => .refl _⟩
  rename_i more
  split at done
  · exact ok.carry (decreaseFamilyDependency_carries done (by decide))
  split at done
  · cases done
  rename_i tid table popped
  obtain ⟨rest, entries, entries', threads⟩ := ThreadTable.popEmpty_ok popped
  obtain ⟨room, carried⟩ := allocateThread_ok done
  obtain ⟨notFull, unfinished⟩ := not_or.mp more
  have unfinished : (a.family fid).dependencies.allocationDone = false := by simpa using unfinished
  obtain ⟨tids, runs⟩ := ok.runs fid
  have listed := List.nodup_cons.mp (entries ▸ ok.distinct)
  have entry := ok.entries tid (entries ▸ List.mem_cons_self)
  have vacant : Vacant { a with threadTable := table } a.threadTable.threads fid tid tids :=
    ⟨entry, runs.toBlock, runs.members, fun other _ => ok.runs other⟩
  refine (vacant.managed (fun thread => ?_) unfinished (fun _ => ?_) ?_ ?_ ok.lives ?_ ?_ ok.unused (used unfinished)).carry carried
  · rw [threads, Function.update_idem]
  · exact (iff_of_eq (congrArg (· = 0) runs.count.symm)).trans List.length_eq_zero_iff
  · rw [runs.count]
    rfl
  · rw [runs.count]
    exact room rfl
  · rw [entries']
    intro other member
    refine ⟨ok.entries other (entries ▸ List.mem_cons_of_mem _ member), ?_⟩
    rintro rfl
    exact listed.1 member
  · rw [entries']
    exact listed.2

/-- The thread `tid`, which is cleaned up, has told the one behind it. The others of its block are `rest`. -/
structure Told (a b : Allocator t) (tid : Nat) (rest : List Nat) : Prop where
  lives : Lives b.threadTable.threads (tid :: b.cleanup.contents) b.lives
  block : Block b.threadTable.threads (b.family (a.thread tid).family) rest
  inside : Within (a.thread tid).family a.threadTable.threads b.threadTable.threads
  owners : ∀ other, ((b.thread other).state = .empty ↔ (a.thread other).state = .empty) ∧
    (b.thread other).family = (a.thread other).family
  self : b.thread tid = a.thread tid
  emptyThreads : b.threadTable.emptyThreads = a.threadTable.emptyThreads
  families : ∀ fid, (b.family fid).dependencies = (a.family fid).dependencies ∧ (b.family fid).state = (a.family fid).state ∧
    (b.family fid).isLinked = (a.family fid).isLinked ∧ (b.family fid).physBlockSize = (a.family fid).physBlockSize
  others : ∀ fid ≠ (a.thread tid).family, b.family fid = a.family fid

/-- The last of a linked block is told by the family, the others by the thread in front of them. -/
theorem tellNext_ok {a b : Allocator t} {tid : Nat} {tids : List Nat} (done : a.tellNext tid = .ok b)
    (lives : Lives a.threadTable.threads (tid :: a.cleanup.contents) a.lives)
    (runs : Runs a.threadTable.threads (a.thread tid).family (a.family (a.thread tid).family) tids) (member : tid ∈ tids)
    (cleaned : (a.thread tid).dependencies.prevCleanedUp = true)
    (several : (a.family (a.thread tid).family).isLinked = true →
      (a.family (a.thread tid).family).dependencies.allocationDone = false → tids.length ≠ 1) :
    Told a b tid (tids.erase tid) := by
  dsimp only [tellNext] at done
  split at done
  · rename_i linked
    obtain ⟨rest, rfl⟩ := List.head?_eq_some_iff.mp ((runs.first linked tid member).mp cleaned)
    have absent := (List.nodup_cons.mp runs.nodup).1
    have behind : (a.thread tid).nextInBlock = rest.head? := by
      cases runs.chain linked with
      | cons inner => exact inner.head_eq
    rw [List.erase_cons_head]
    split at done
    · rename_i last
      have alone : rest = [] := by
        rw [behind] at last
        exact List.head?_eq_none_iff.mp last
      cases done
      subst alone
      have finished : (a.family (a.thread tid).family).dependencies.allocationDone ≠ false :=
        fun unfinished => several linked unfinished rfl
      refine ⟨lives, ?_, fun _ => Or.inl rfl, fun _ => ⟨Iff.rfl, rfl⟩, rfl, rfl, fun fid => ?_,
        fun fid different => family_setFamily_of_ne _ _ different⟩
      · rw [family_setFamily_self]
        exact Block.empty fun unfinished => absurd unfinished finished
      · by_cases same : fid = (a.thread tid).family
        · rw [same, family_setFamily_self]
          exact ⟨rfl, rfl, rfl, rfl⟩
        · rw [family_setFamily_of_ne _ _ same]
          exact ⟨rfl, rfl, rfl, rfl⟩
    · rename_i next found
      rw [behind] at found
      have inRest : next ∈ rest := List.mem_of_head? found
      have different : next ≠ tid := fun same => absent (same ▸ inRest)
      obtain ⟨nonempty, owner⟩ := (runs.members next).mp (List.mem_cons_of_mem _ inRest)
      have unmarked : (a.thread next).dependencies.prevCleanedUp ≠ true := by
        intro marked
        have head := (runs.first linked next (List.mem_cons_of_mem _ inRest)).mp marked
        exact different (Option.some.inj head).symm
      have pushes := decreaseThreadDependency_ok done
      have threads : b.threadTable.threads = Function.update a.threadTable.threads next
          { a.thread next with dependencies := { (a.thread next).dependencies with prevCleanedUp := true } } := by
        rw [pushes.threadTable, Thread.decrease_prevCleanedUp]
        rfl
      have families : ∀ fid, b.family fid = a.family fid := fun fid => congrArg (·.families fid) pushes.familyTable
      have regular : (a.thread next).Regular := lives.regular next
      refine ⟨?_, ?_, ?_, fun other => ?_, ?_, ?_, fun fid => ?_, fun fid _ => families fid⟩
      · have undone : (a.thread next).isDone = false :=
          Bool.eq_false_iff.mpr fun done => unmarked (Thread.isDone_iff.mp done).2.1
        rw [Thread.decrease_prevCleanedUp] at pushes
        rw [threads]
        exact pushes.lives [tid] lives nonempty undone ⟨regular.killed, regular.suspended, regular.idle⟩ rfl
      · rw [families, threads]
        exact runs.advance linked found rfl rfl rfl
      · rw [threads]
        exact within_update (Or.inr owner) owner
      · rw [thread, threads]
        by_cases same : other = next
        · rw [same, Function.update_self]
          exact ⟨Iff.rfl, rfl⟩
        · rw [Function.update_of_ne same]
          exact ⟨Iff.rfl, rfl⟩
      · rw [thread, threads, Function.update_of_ne different.symm]
        rfl
      · rw [pushes.threadTable]
        rfl
      · rw [families]
        exact ⟨rfl, rfl, rfl, rfl⟩
  · rename_i plain
    cases done
    exact ⟨lives, runs.erase (Bool.eq_false_iff.mpr plain) tid, fun _ => Or.inl rfl, fun _ => ⟨Iff.rfl, rfl⟩, rfl, rfl,
      fun _ => ⟨rfl, rfl, rfl, rfl⟩, fun _ _ => rfl⟩

/-- The entry of a thread that is cleaned up, with the others of its block. -/
theorem Told.vacant {a b : Allocator t} {tid : Nat} {rest : List Nat} (told : Told a b tid rest)
    (members : ∀ other, other ∈ rest ↔ other ≠ tid ∧ (a.thread other).state ≠ .empty ∧
      (a.thread other).family = (a.thread tid).family)
    (runs : ∀ fid, ∃ tids, Runs a.threadTable.threads fid (a.family fid) tids) :
    b.Vacant (Function.update b.threadTable.threads tid { a.thread tid with state := .empty })
      (a.thread tid).family tid rest := by
  have absent : tid ∉ rest := fun member => ((members tid).mp member).1 rfl
  have away : ∀ other ≠ tid, Function.update b.threadTable.threads tid { a.thread tid with state := .empty } other =
      b.thread other := fun other different => Function.update_of_ne different _ _
  refine ⟨by rw [Function.update_self], told.block.congr fun other member => ?_, fun other => ?_, fun fid different => ?_⟩
  · rw [away other fun same => absent (same ▸ member)]
    exact ⟨rfl, rfl, rfl⟩
  · by_cases same : other = tid
    · rw [same, Function.update_self]
      exact iff_of_false absent fun live => live.1 rfl
    · rw [away other same, members, (told.owners other).2]
      exact (and_iff_right same).trans (and_congr_left fun _ => not_congr (told.owners other).1.symm)
  · obtain ⟨tids, runs⟩ := runs fid
    have inside : Within (a.thread tid).family b.threadTable.threads
        (Function.update b.threadTable.threads tid { a.thread tid with state := .empty }) :=
      within_update (Or.inr (by rw [show b.threadTable.threads tid = a.thread tid from told.self])) rfl
    rw [told.others fid different]
    exact ⟨tids, runs.within (told.inside.trans inside) different⟩

/-- The thread has left the cleanup queue, and its entry its round. -/
theorem Told.freed {a b : Allocator t} {tid : Nat} {rest : List Nat} (told : Told a b tid rest) (stage : (a.thread tid).stage = 3) :
    Lives (Function.update b.threadTable.threads tid { a.thread tid with state := .empty }) b.cleanup.contents
      (Function.update b.lives tid (b.lives tid ++ [.released])) := by
  have before := told.lives.lives tid
  rw [show b.threadTable.threads tid = a.thread tid from told.self, stage] at before
  have done := (Thread.stage_eq_three.mp stage).2
  exact told.lives.leave ⟨fun live => absurd rfl live, fun live => absurd rfl live, fun _ => (Thread.isDone_iff.mp done).1⟩
    (show (0 : Nat) ≠ 3 by decide) (before.close rfl (show lifeRound[3]? = some Life.released from rfl))

/-- A terminated thread is cleaned up, and its entry is freed or recycled. It has just left the queue. -/
theorem cleanUpThread_managed {a a' : Allocator t} {tid : Nat} (done : a.cleanUpThread tid = .ok a')
    (lives : Lives a.threadTable.threads (tid :: a.cleanup.contents) a.lives)
    (blocks : ∀ fid, ∃ tids, Runs a.threadTable.threads fid (a.family fid) tids)
    (entries : ∀ other ∈ a.threadTable.emptyThreads, (a.thread other).state = .empty)
    (distinct : a.threadTable.emptyThreads.Nodup) (idle : a.Unused)
    (several : (a.family (a.thread tid).family).isLinked = true →
      (a.family (a.thread tid).family).dependencies.allocationDone = false →
      (a.family (a.thread tid).family).dependencies.numThreadsAllocated ≠ 1) : a'.Managed := by
  have stage : (a.thread tid).stage = 3 := (lives.queued tid).mp List.mem_cons_self
  obtain ⟨terminated, finished⟩ := Thread.stage_eq_three.mp stage
  obtain ⟨tids, runs⟩ := blocks (a.thread tid).family
  have member : tid ∈ tids :=
    (runs.members tid).mpr ⟨by rw [show (a.threadTable.threads tid).state = .terminated from terminated]; decide, rfl⟩
  obtain ⟨_, rest⟩ := require_bind_ok done
  obtain ⟨b, informed, rest⟩ := bind_ok rest
  have told := tellNext_ok informed lives runs member (Thread.isDone_iff.mp finished).2.1 (by rw [runs.count]; exact several)
  have sum : (tids.erase tid).length + 1 = tids.length := by
    rw [List.length_erase_of_mem member]
    have positive := List.length_pos_of_mem member
    omega
  have vacant := told.vacant (fun other => (runs.nodup.mem_erase_iff).trans (and_congr_right fun _ => runs.members other)) blocks
  have freed := told.freed stage
  obtain ⟨dependencies, state, linked, block⟩ := told.families (a.thread tid).family
  have running : (b.family (a.thread tid).family).dependencies.numThreadsAllocated = tids.length := by
    rw [dependencies, runs.count]
  have stillEmpty : ∀ other ∈ b.threadTable.emptyThreads, (b.thread other).state = .empty ∧ other ≠ tid := by
    rw [told.emptyThreads]
    intro other empty
    refine ⟨(told.owners other).1.mpr (entries other empty), ?_⟩
    rintro rfl
    rw [entries other empty] at terminated
    cases terminated
  have unused : b.Unused := by
    intro fid empty
    rw [(told.families fid).1]
    exact idle fid ((told.families fid).2.1 ▸ empty)
  have self : b.thread tid = a.thread tid := told.self
  dsimp only at rest
  split at rest
  · obtain ⟨deps, after, decreased, used, nonempty, carried⟩ := decreaseFamilyDependency_ok rest
    obtain ⟨_, rfl⟩ := FamilyDependencies.decrease_threadCount decreased
    refine Managed.carry ⟨?_, fun fid => ?_, ?_, ?_, fun fid => ?_⟩ carried
    · change Lives (Function.update b.threadTable.threads tid { b.thread tid with state := .empty }) b.cleanup.contents
        (Function.update b.lives tid (b.lives tid ++ [.released]))
      rw [self]
      exact freed
    · change ∃ tids, Runs (Function.update b.threadTable.threads tid { b.thread tid with state := .empty }) fid
        (Function.update b.familyTable.families (a.thread tid).family _ fid) tids
      rw [self]
      by_cases same : fid = (a.thread tid).family
      · subst same
        rw [Function.update_self]
        refine ⟨tids.erase tid, ⟨⟨vacant.block.nodup, vacant.block.chain, vacant.block.first, vacant.block.indices,
          vacant.block.unlinked, vacant.block.last, vacant.block.unmarked, vacant.block.start⟩, vacant.members, ?_, ?_⟩⟩
        · change _ = (b.family (a.thread tid).family).dependencies.numThreadsAllocated - 1
          omega
        · refine Nat.le_trans (Nat.le_of_succ_le (Nat.le_of_eq sum)) ?_
          exact block.symm ▸ runs.fits
      · rw [Function.update_of_ne same]
        exact vacant.others fid same
    · intro other member
      change (Function.update b.threadTable.threads tid { b.thread tid with state := .empty } other).state = .empty
      rcases List.mem_cons.mp member with rfl | before
      · rw [Function.update_self]
      · obtain ⟨empty, different⟩ := stillEmpty other before
        rw [Function.update_of_ne different]
        exact empty
    · refine List.nodup_cons.mpr ⟨fun inside => (stillEmpty tid inside).2 rfl, ?_⟩
      exact told.emptyThreads ▸ distinct
    · by_cases same : fid = (a.thread tid).family
      · rw [same, family_setFamily_self]
        exact fun empty => absurd empty nonempty
      · rw [family_setFamily_of_ne _ _ same]
        exact unused fid
  · rename_i unfinished
    obtain ⟨_, carried⟩ := allocateThread_ok rest
    have base : ∀ thread, Function.update b.threadTable.threads tid thread =
        Function.update (Function.update b.threadTable.threads tid { a.thread tid with state := .empty }) tid thread :=
      fun _ => (Function.update_idem _ _ _).symm
    have free : (b.record tid .released).Vacant (Function.update b.threadTable.threads tid { a.thread tid with state := .empty })
        (a.thread tid).family tid (tids.erase tid) := ⟨vacant.entry, vacant.block, vacant.members, vacant.others⟩
    refine (free.managed base (Bool.eq_false_iff.mpr unfinished) (fun isLinked => ?_) ?_ ?_ freed
      (fun other empty => ?_) (told.emptyThreads ▸ distinct) unused fun empty => ?_).carry carried
    · have more := several (linked ▸ isLinked) (dependencies ▸ Bool.eq_false_iff.mpr unfinished)
      rw [← runs.count] at more
      refine iff_of_false (fun none => absurd (running.symm.trans none) (by omega)) fun none => ?_
      rw [none] at sum
      exact more sum.symm
    · exact sum.trans running.symm
    · rw [sum]
      exact block.symm ▸ runs.fits
    · obtain ⟨before, different⟩ := stillEmpty other empty
      rw [Function.update_of_ne different]
      exact ⟨before, different⟩
    · have none := unused _ empty
      omega

end Allocator
end Mgsim.Drisc
