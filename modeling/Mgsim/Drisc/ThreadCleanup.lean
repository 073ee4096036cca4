import Mgsim.Drisc.LifeCycle

namespace Mgsim.Drisc
open Mgsim.Lib
variable {t : Target}

namespace Allocator

/-- The cleanup takes the thread at the front of its queue, else the next family gets a thread. -/
theorem Managed.doThreadAllocate {a a' : Allocator t} (ok : a.Managed) (done : a.doThreadAllocate = .ok a')
    (several : ∀ tid ∈ a.cleanup.front?, (a.family (a.thread tid).family).isLinked = true →
      (a.family (a.thread tid).family).dependencies.allocationDone = false →
      (a.family (a.thread tid).family).dependencies.numThreadsAllocated ≠ 1)
    (used : ∀ fid ∈ a.alloc.front?, (a.family fid).dependencies.allocationDone = false → (a.family fid).state ≠ .empty) :
    a'.Managed := by
  unfold Allocator.doThreadAllocate at done
  split at done
  · rename_i tid cleanup taken
    obtain ⟨contents, front⟩ := Buffer.take?_eq_some taken
    have lives := ok.lives
    rw [contents] at lives
    exact cleanUpThread_managed (a := { a with cleanup }) done lives ok.runs ok.entries ok.distinct ok.unused (several tid front)
  · split at done
    · rename_i fid alloc taken
      exact ok.allocateInitial done (used fid (Buffer.take?_eq_some taken).2)
    · cases done

/-- A linked family that still has threads to run is never down to the one thread that is
cleaned up, and the family that gets a thread is in use. -/
def CleansUpInOrder (a : Allocator t) : Prop :=
  (∀ tid ∈ a.cleanup.front?, (a.family (a.thread tid).family).isLinked = true →
    (a.family (a.thread tid).family).dependencies.allocationDone = false →
    (a.family (a.thread tid).family).dependencies.numThreadsAllocated ≠ 1) ∧
  ∀ fid ∈ a.alloc.front?, (a.family fid).dependencies.allocationDone = false → (a.family fid).state ≠ .empty

instance (a : Allocator t) : Decidable a.CleansUpInOrder := inferInstanceAs (Decidable (_ ∧ _))

/-- Families are set up while they have no threads, and the cleanup leaves each of them one to link to. -/
def KeepsOrder (a : Allocator t) (event : AllocatorEvent t) : Prop :=
  a.SetsUpIdle event ∧ (event.allocatesThread = true → a.CleansUpInOrder)

instance (a : Allocator t) (fid : Nat) : Decidable (a.Idle fid) :=
  inferInstanceAs (Decidable ((a.family fid).dependencies.numThreadsAllocated = 0))

instance decidableSetsUpIdle (a : Allocator t) : (event : AllocatorEvent t) → Decidable (a.SetsUpIdle event)
  | .setProperty fid _ _ _ => inferInstanceAs (Decidable (a.Idle fid))
  | .linkMessage msg =>
    match msg with
    | .setProperty fid _ _ => inferInstanceAs (Decidable (a.Idle fid))
    | .create fid _ _ _ => inferInstanceAs (Decidable (a.Idle fid))
    | .allocate .. | .done .. | .sync .. | .detach _ | .brk _ => .isTrue trivial
  | .allocResponse msg =>
    match same : msg.prevFid with
    | none => .isTrue fun fid prev => by rw [same] at prev; cases prev
    | some prev => decidable_of_iff (a.Idle prev) (by simp [SetsUpIdle, same])
  | .familyCreate _ _ => inferInstanceAs (Decidable (_ → ∀ info ∈ a.creates.front?, a.Idle info.fid))
  | .boot .. | .request .. | .familyAllocate _ | .create .. | .lineLoaded | .sync .. | .detach .. | .brk _ | .syncs
  | .threadAllocate | .schedule .. | .kill _ | .store _ | .storeDone _ | .barrier _ | .load _ | .loadDone _ | .endCycle =>
    .isTrue trivial

instance (a : Allocator t) (event : AllocatorEvent t) : Decidable (a.KeepsOrder event) :=
  inferInstanceAs (Decidable (_ ∧ (_ → _)))

theorem Managed.perform {a a' : Allocator t} {event : AllocatorEvent t} (ok : a.Managed) (ordered : a.KeepsOrder event)
    (done : a.perform event = .ok a') : a'.Managed := by
  obtain ⟨idle, inOrder⟩ := ordered
  cases event with
  | boot pc placeSize startIndex capability => exact ok.carry (allocateInitialFamily_carries ok.unused done)
  | request which request => exact ok.carry (pushRequest_carries done)
  | familyAllocate capability => exact ok.carry (doFamilyAllocate_carries ok.unused done)
  | allocResponse msg => exact ok.carry (doAllocResponse_carries done idle)
  | linkMessage msg => exact ok.carry (onLinkMessage_carries done idle)
  | setProperty fid capability type value =>
    obtain ⟨_, _, rest⟩ := bind_ok done
    cases rest
    exact ok.carry (onSetProperty_carries a type value idle)
  | create address capability info => exact ok.carry (queueCreate_carries done)
  | familyCreate hit loaded => exact ok.carry (doFamilyCreate_carries done idle)
  | lineLoaded =>
    dsimp only [Allocator.perform] at done
    split at done <;> cases done
    exact ok.carry ⟨rfl, rfl, rfl, rfl, fun _ => .refl _⟩
  | sync fid capability pid reg =>
    obtain ⟨_, _, rest⟩ := bind_ok done
    exact ok.carry (onSync_carries rest)
  | detach fid capability =>
    obtain ⟨_, _, rest⟩ := bind_ok done
    exact ok.carry (onDetach_carries rest)
  | brk fid => exact ok.carry (onBreak_carries done)
  | syncs => exact ok.carry (doSyncs_carries done)
  | threadAllocate => exact ok.doThreadAllocate done (inOrder rfl).1 (inOrder rfl).2
  | schedule tid state => exact ok.schedule done
  | kill tid => exact ok.kill done
  | store tid =>
    dsimp only [Allocator.perform] at done
    split at done
    · rename_i running
      cases done
      exact ok.store running
    · cases done
  | storeDone tid => exact ok.completeStore done
  | barrier tid => exact ok.barrier done
  | load tid =>
    dsimp only [Allocator.perform] at done
    split at done <;> cases done
    exact ok.carry (onMemoryRead_carries a _)
  | loadDone fid => exact ok.carry (decreaseFamilyDependency_carries done (by decide))
  | endCycle =>
    cases done
    exact ok.carry (endCycle_carries a)

theorem managed_initial (config : AllocatorConfig) (raunit : RAUnit Nat) : (initial config raunit : Allocator t).Managed where
  lives :=
    { regular := fun _ => ⟨fun live => absurd rfl live, fun live => absurd rfl live, fun _ => rfl⟩
      once := List.nodup_nil
      queued := fun _ => iff_of_false List.not_mem_nil (show (0 : Nat) ≠ 3 by decide)
      lives := fun _ => .start (by decide) }
  runs fid := ⟨[], Block.empty fun _ => ⟨rfl, rfl⟩, fun _ => iff_of_false List.not_mem_nil fun live => live.1 rfl, rfl,
    Nat.le_refl _⟩
  entries _ _ := rfl
  distinct := List.nodup_range
  unused _ _ := rfl

/-- The life cycle of the threads. The history of each entry consists of rounds, of which the last one
has come to where its thread stands; a thread is in the cleanup queue once, if and as soon
as it has terminated and has nothing left to wait for. -/
structure LifeCycle (a : Allocator t) : Prop where
  rounds : ∀ tid, InRounds lifeRound (a.lives tid) (a.thread tid).stage
  once : a.cleanup.contents.Nodup
  queued : ∀ tid, tid ∈ a.cleanup.contents ↔ (a.thread tid).state = .terminated ∧
    (a.thread tid).dependencies.prevCleanedUp = true ∧ (a.thread tid).dependencies.numPendingWrites = 0
  chains : ∀ fid, (a.family fid).isLinked = true → ∃ tids : List Nat, tids.Nodup ∧
    (∀ tid, tid ∈ tids ↔ (a.thread tid).state ≠ .empty ∧ (a.thread tid).family = fid) ∧
    Chain (fun tid => (a.thread tid).nextInBlock) tids.head? tids ∧
    tids.IsChain fun earlier later => (a.thread later).index = (a.thread earlier).index + (a.family fid).step
  apart : ∀ tid, (a.thread tid).state ≠ .empty → (a.thread tid).nextInBlock ≠ some tid

theorem Managed.lifeCycle {a : Allocator t} (ok : a.Managed) : a.LifeCycle where
  rounds := ok.lives.lives
  once := ok.lives.once
  queued tid := by
    have regular : (a.thread tid).Regular := ok.lives.regular tid
    have queued : tid ∈ a.cleanup.contents ↔ (a.thread tid).stage = 3 := ok.lives.queued tid
    refine (queued.trans Thread.stage_eq_three).trans (and_congr_right fun terminated => ?_)
    have killed := (regular.killed (fun empty => by rw [empty] at terminated; cases terminated)).mpr terminated
    rw [Thread.isDone_iff, killed]
    exact ⟨fun done => ⟨done.2.1, done.1⟩, fun done => ⟨done.2, done.1, rfl⟩⟩
  chains fid linked := by
    obtain ⟨tids, runs⟩ := ok.runs fid
    exact ⟨tids, runs.nodup, runs.members, runs.chain linked, runs.indices linked⟩
  apart tid live same := by
    obtain ⟨tids, runs⟩ := ok.runs (a.thread tid).family
    have member := (runs.members tid).mpr ⟨live, rfl⟩
    cases linked : (a.family (a.thread tid).family).isLinked with
    | true => exact (runs.chain linked).next_ne runs.nodup member same
    | false =>
      rw [show (a.thread tid).nextInBlock = none from (runs.unlinked linked tid member).2] at same
      cases same

/-- In every run that keeps the order, the threads go through their lives in order. -/
theorem life_cycle {config : AllocatorConfig} {raunit : RAUnit Nat} {events : List (AllocatorEvent t)} {a : Allocator t}
    (run : Run step KeepsOrder (initial config raunit) events a) : a.LifeCycle := by
  refine Managed.lifeCycle (run.invariant (managed_initial config raunit) fun s event s' ok ordered taken => ?_)
  exact ok.perform ordered (toOption_eq_some taken)

/-- A core for three threads, one of them for the exclusive context. -/
def smallCore : AllocatorConfig := ⟨0, 64, 3, 3, 3, 3, 3, fun _ => 3⟩

/-- A place of one core is asked for, and a family allocated in it. -/
def allocateFamily (capability : Nat) : List (AllocatorEvent .mtalpha) :=
  [.request .noSuspend ⟨none, 1, .single, 0, some 4, false, 0, 0, 0⟩, .endCycle, .familyAllocate capability, .endCycle]

/-- The family 0 gets three threads with one shared register each, in blocks of two, and runs the first. -/
def createFamily : List (AllocatorEvent .mtalpha) :=
  [.setProperty 0 7 .limit 3, .setProperty 0 7 .block 2, .create 0 7 ⟨0, 0, none, false, 0, 0⟩, .endCycle] ++
    List.replicate 8 (.familyCreate true fun _ => ⟨0, 1, 0⟩) ++ [.endCycle, .threadAllocate]

def endThread (tid : Nat) : List (AllocatorEvent .mtalpha) :=
  [.schedule tid .active, .schedule tid .running, .kill tid, .endCycle, .threadAllocate]

/-- A block of two threads, the first of which is cleaned up and put behind the other. -/
theorem life_cycle_block : ∃ (raunit : RAUnit Nat) (a : Allocator .mtalpha),
    RAUnit.create (fun _ => 32) (fun _ => 128) = .ok raunit ∧
    Run step KeepsOrder (initial smallCore raunit)
      (allocateFamily 7 ++ createFamily ++ [.threadAllocate] ++ endThread 0) a ∧
    (a.thread 1).nextInBlock = some 0 ∧ a.LifeCycle := by
  have made : ((@RAUnit.create Nat (fun _ => 32) (fun _ => 128)).toOption.bind fun raunit =>
      execute (checked (fun a event => decide (a.KeepsOrder event)) step) (initial smallCore raunit)
        (allocateFamily 7 ++ createFamily ++ [.threadAllocate] ++ endThread 0)).map
      (fun a => decide ((a.thread 1).nextInBlock = some 0)) = some true := by
    decide +kernel
  obtain ⟨a, found, linked⟩ := Option.map_eq_some_iff.mp made
  obtain ⟨raunit, created, ran⟩ := Option.bind_eq_some_iff.mp found
  have run := run_of_checked (fun _ _ => of_decide_eq_true) ran
  exact ⟨raunit, a, toOption_eq_some created, run, of_decide_eq_true linked, life_cycle run⟩

/-- While a second family holds the last context, the only thread of the block is
cleaned up, recycled and put behind itself. -/
theorem thread_behind_itself : ∃ (raunit : RAUnit Nat) (a : Allocator .mtalpha),
    RAUnit.create (fun _ => 32) (fun _ => 128) = .ok raunit ∧
    Run step (fun _ _ => True) (initial smallCore raunit)
      (allocateFamily 7 ++ allocateFamily 8 ++ createFamily ++ endThread 0) a ∧
    (a.family 0).isLinked = true ∧ (a.thread 0).state = .ready ∧ (a.thread 0).nextInBlock = some 0 ∧ ¬ a.LifeCycle := by
  have made : ((@RAUnit.create Nat (fun _ => 32) (fun _ => 128)).toOption.bind fun raunit =>
      execute step (initial smallCore raunit) (allocateFamily 7 ++ allocateFamily 8 ++ createFamily ++ endThread 0)).map
      (fun a => decide ((a.family 0).isLinked = true ∧ (a.thread 0).state = .ready ∧ (a.thread 0).nextInBlock = some 0)) =
      some true := by
    decide +kernel
  obtain ⟨a, found, shown⟩ := Option.map_eq_some_iff.mp made
  obtain ⟨raunit, created, ran⟩ := Option.bind_eq_some_iff.mp found
  obtain ⟨linked, state, behind⟩ := of_decide_eq_true shown
  exact ⟨raunit, a, toOption_eq_some created, run_of_execute (fun _ _ _ => trivial) ran, linked, state, behind,
    fun ok => ok.apart 0 (by rw [state]; decide) behind⟩

end Allocator
end Mgsim.Drisc
