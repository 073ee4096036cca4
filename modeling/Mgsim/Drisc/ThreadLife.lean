import Mgsim.Drisc.Allocator
import Mgsim.Lib.Chain
import Mgsim.Lib.Progress

namespace Mgsim.Drisc
open Mgsim.Lib
variable {t : Target}

/-- What happens to the entry of a thread. -/
def lifeRound : List Life := [.allocated, .terminated, .queued, .released]

namespace Thread

/-- How far the entry has come in its round: it is empty, has a thread, has a terminated
thread, or has one that waits in the cleanup queue. -/
def stage (thread : Thread t) : Nat :=
  match thread.state with
  | .empty => 0
  | .terminated => if thread.isDone then 3 else 2
  | _ => 1

/-- What the dependencies of a thread say about its state. -/
structure Regular (thread : Thread t) : Prop where
  killed : thread.state ≠ .empty → (thread.dependencies.killed = true ↔ thread.state = .terminated)
  suspended : thread.state ≠ .empty → thread.waitingForWrites = true → thread.state = .suspended
  idle : thread.state = .empty → thread.dependencies.numPendingWrites = 0

/-- The threads agree in what their lives depend on. -/
structure SameLife (thread thread' : Thread t) : Prop where
  state : thread'.state = thread.state
  dependencies : thread'.dependencies = thread.dependencies
  waitingForWrites : thread'.waitingForWrites = thread.waitingForWrites

theorem SameLife.isDone {thread thread' : Thread t} (same : SameLife thread thread') : thread'.isDone = thread.isDone := by
  rw [Thread.isDone, Thread.isDone, same.dependencies]

theorem SameLife.stage {thread thread' : Thread t} (same : SameLife thread thread') : thread'.stage = thread.stage := by
  unfold Thread.stage
  rw [same.state, same.isDone]

theorem SameLife.regular {thread thread' : Thread t} (same : SameLife thread thread') (regular : thread.Regular) :
    thread'.Regular := by
  obtain ⟨state, dependencies, waiting⟩ := same
  refine ⟨?_, ?_, ?_⟩
  · rw [state, dependencies]
    exact regular.killed
  · rw [state, waiting]
    exact regular.suspended
  · rw [state, dependencies]
    exact regular.idle

theorem isDone_iff {thread : Thread t} : thread.isDone = true ↔ thread.dependencies.numPendingWrites = 0 ∧
    thread.dependencies.prevCleanedUp = true ∧ thread.dependencies.killed = true := by
  simp [isDone]

theorem stage_eq_three {thread : Thread t} : thread.stage = 3 ↔ thread.state = .terminated ∧ thread.isDone = true := by
  unfold stage
  cases thread.state <;> simp

theorem stage_of_empty {thread : Thread t} (empty : thread.state = .empty) : thread.stage = 0 := by
  rw [stage, empty]

theorem stage_of_terminated {thread : Thread t} (terminated : thread.state = .terminated) :
    thread.stage = if thread.isDone then 3 else 2 := by
  rw [stage, terminated]

theorem stage_of_live {thread : Thread t} (nonempty : thread.state ≠ .empty) (alive : thread.state ≠ .terminated) :
    thread.stage = 1 := by
  unfold stage
  cases state : thread.state with
  | empty => exact absurd state nonempty
  | terminated => exact absurd state alive
  | _ => rfl

/-- A thread that is terminated and has nothing to wait for is in the cleanup queue. -/
theorem Regular.stage_of_done {thread : Thread t} (regular : thread.Regular) (nonempty : thread.state ≠ .empty)
    (done : thread.isDone = true) : thread.stage = 3 :=
  stage_eq_three.mpr ⟨(regular.killed nonempty).mp (isDone_iff.mp done).2.2, done⟩

/-- The end of a write changes no more than what it is about. -/
theorem decrease_writes (thread : Thread t) :
    (thread.decrease .outstandingWrites).dependencies.killed = thread.dependencies.killed ∧
      (thread.decrease .outstandingWrites).nextInBlock = thread.nextInBlock ∧
      (thread.decrease .outstandingWrites).family = thread.family ∧
      (thread.decrease .outstandingWrites).index = thread.index ∧
      (thread.decrease .outstandingWrites).dependencies.prevCleanedUp = thread.dependencies.prevCleanedUp := by
  dsimp only [decrease]
  split <;> exact ⟨rfl, rfl, rfl, rfl, rfl⟩

theorem decrease_prevCleanedUp (thread : Thread t) : thread.decrease .prevCleanedUp =
    { thread with dependencies := { thread.dependencies with prevCleanedUp := true } } := by
  simp [decrease, ThreadDependencies.decrease]

end Thread

/-- The lives of all threads are regular: the cleanup queue holds each thread that is
at that stage once, and the history of each entry has come to its stage. -/
structure Lives (threads : Nat → Thread t) (queue : List Nat) (lives : Nat → List Life) : Prop where
  regular : ∀ tid, (threads tid).Regular
  once : queue.Nodup
  queued : ∀ tid, tid ∈ queue ↔ (threads tid).stage = 3
  lives : ∀ tid, InRounds lifeRound (lives tid) (threads tid).stage

namespace Lives
variable {threads threads' : Nat → Thread t} {queue queue' : List Nat} {lives : Nat → List Life}

theorem congr (ok : Lives threads queue lives) (same : ∀ tid, (threads tid).SameLife (threads' tid)) :
    Lives threads' queue lives where
  regular tid := (same tid).regular (ok.regular tid)
  once := ok.once
  queued tid := by rw [(same tid).stage, ok.queued]
  lives tid := by
    rw [(same tid).stage]
    exact ok.lives tid

/-- One thread changes, with its place in the queue and its history. -/
theorem update (ok : Lives threads queue lives) {tid : Nat} {thread : Thread t} {history : List Life}
    (regular : thread.Regular) (once : queue'.Nodup) (others : ∀ other ≠ tid, (other ∈ queue' ↔ other ∈ queue))
    (self : tid ∈ queue' ↔ thread.stage = 3) (life : InRounds lifeRound history thread.stage) :
    Lives (Function.update threads tid thread) queue' (Function.update lives tid history) := by
  refine ⟨fun other => ?_, once, fun other => ?_, fun other => ?_⟩
  · by_cases same : other = tid
    · rw [same, Function.update_self]
      exact regular
    · rw [Function.update_of_ne same]
      exact ok.regular other
  · by_cases same : other = tid
    · rw [same, Function.update_self]
      exact self
    · rw [Function.update_of_ne same, others other same]
      exact ok.queued other
  · by_cases same : other = tid
    · rw [same, Function.update_self, Function.update_self]
      exact life
    · rw [Function.update_of_ne same, Function.update_of_ne same]
      exact ok.lives other

/-- One thread changes and stays at its stage. -/
theorem stay (ok : Lives threads queue lives) {tid : Nat} {thread : Thread t} (regular : thread.Regular)
    (stage : thread.stage = (threads tid).stage) : Lives (Function.update threads tid thread) queue lives := by
  have life := ok.lives tid
  rw [← stage] at life
  have kept := ok.update regular ok.once (fun _ _ => Iff.rfl) (by rw [stage, ok.queued]) life
  rwa [Function.update_eq_self] at kept

/-- A thread that is not at the last stage yet joins the cleanup queue. -/
theorem join (ok : Lives threads queue lives) {tid : Nat} {thread : Thread t} {history : List Life}
    (regular : thread.Regular) (before : (threads tid).stage ≠ 3) (stage : thread.stage = 3)
    (life : InRounds lifeRound history 3) :
    Lives (Function.update threads tid thread) (queue ++ [tid]) (Function.update lives tid history) := by
  have absent : tid ∉ queue := fun member => before ((ok.queued tid).mp member)
  refine ok.update regular ?_ ?_ ?_ (stage ▸ life)
  · rw [← List.concat_eq_append]
    exact ok.once.concat absent
  · intro other different
    simp [different]
  · simp [stage]

/-- The thread at the front of the cleanup queue leaves it. -/
theorem leave {tid : Nat} (ok : Lives threads (tid :: queue) lives) {thread : Thread t} {history : List Life}
    (regular : thread.Regular) (stage : thread.stage ≠ 3) (life : InRounds lifeRound history thread.stage) :
    Lives (Function.update threads tid thread) queue (Function.update lives tid history) := by
  have split := List.nodup_cons.mp ok.once
  refine ok.update regular split.2 ?_ ?_ life
  · intro other different
    simp [different]
  · exact iff_of_false split.1 stage

end Lives
end Mgsim.Drisc
