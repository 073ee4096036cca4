import Mgsim.Drisc.LifeCycle

namespace Mgsim.Drisc
open Mgsim.Lib
variable {t : Target}

/-- The family has the same registers for the same block, and no more threads to allocate than before. -/
structure Family.SameRegisters (family family' : Family t) : Prop where
  regs : family'.regs = family.regs
  physBlockSize : family'.physBlockSize = family.physBlockSize
  hasShareds : family'.hasShareds = family.hasShareds
  unfinished : family'.dependencies.allocationDone = false → family.dependencies.allocationDone = false

theorem Family.SameRegisters.refl (family : Family t) : family.SameRegisters family := ⟨rfl, rfl, rfl, id⟩

theorem Family.SameRegisters.trans {family family' family'' : Family t} (first : family.SameRegisters family')
    (second : family'.SameRegisters family'') : family.SameRegisters family'' where
  regs := second.regs.trans first.regs
  physBlockSize := second.physBlockSize.trans first.physBlockSize
  hasShareds := second.hasShareds.trans first.hasShareds
  unfinished more := first.unfinished (second.unfinished more)

namespace Allocator

/-- The step does not set up the registers of the family. -/
def KeepsRegisters (fid : Nat) (a a' : Allocator t) : Prop := (a.family fid).SameRegisters (a'.family fid)

namespace KeepsRegisters
variable {fid : Nat} {a a' a'' : Allocator t}

theorem refl (a : Allocator t) : a.KeepsRegisters fid a := Family.SameRegisters.refl _

theorem trans (first : KeepsRegisters fid a a') (second : KeepsRegisters fid a' a'') : KeepsRegisters fid a a'' :=
  Family.SameRegisters.trans first second

theorem of_family (same : a'.family fid = a.family fid) : KeepsRegisters fid a a' := by
  rw [KeepsRegisters, same]
  exact .refl _

theorem setFamily (kept : KeepsRegisters fid a a') {other : Nat} {family : Family t}
    (same : other = fid → (a'.family other).SameRegisters family) : KeepsRegisters fid a (a'.setFamily other family) := by
  refine kept.trans ?_
  by_cases at_fid : fid = other
  · subst at_fid
    rw [KeepsRegisters, family_setFamily_self]
    exact same rfl
  · rw [KeepsRegisters, family_setFamily_of_ne _ _ at_fid]
    exact .refl _

end KeepsRegisters

section Effects
variable {a a' : Allocator t} {fid other : Nat}

theorem sendSync_registers {info : SyncInfo} (done : a.sendSync info = .ok a') : KeepsRegisters fid a a' := by
  obtain ⟨syncs, _, rest⟩ := bind_ok done
  cases rest
  exact .refl a

theorem forwardToken_registers (done : a.forwardToken other = .ok a') : KeepsRegisters fid a a' := by
  have synced : KeepsRegisters fid a
      (a.setFamily other { a.family other with sync := { (a.family other).sync with done := true } }) :=
    (KeepsRegisters.refl a).setFamily fun _ => ⟨rfl, rfl, rfl, id⟩
  dsimp only [forwardToken] at done
  split at done
  · cases done
    exact synced
  · exact synced.trans (sendSync_registers done)
  · cases done
    exact synced

theorem releaseFamily_registers (done : a.releaseFamily other = .ok a') : KeepsRegisters fid a a' := by
  dsimp only [releaseFamily] at done
  split at done
  · cases done
  · cases done
    exact (KeepsRegisters.refl a).setFamily fun _ => ⟨rfl, rfl, rfl, id⟩

theorem decreaseFamilyDependency_registers {dep : FamilyDependency} (done : a.decreaseFamilyDependency other dep = .ok a') :
    KeepsRegisters fid a a' := by
  dsimp only [decreaseFamilyDependency] at done
  obtain ⟨_, rest⟩ := require_bind_ok done
  obtain ⟨deps, decreased, rest⟩ := bind_ok rest
  obtain ⟨middle, forwarded, released⟩ := bind_ok rest
  have unfinished : deps.allocationDone = false → (a.family other).dependencies.allocationDone = false := by
    by_cases threads : dep = .threadCount
    · subst threads
      obtain ⟨_, rfl⟩ := FamilyDependencies.decrease_threadCount decreased
      exact id
    · exact (FamilyDependencies.decrease_other decreased threads).2
  have counted : KeepsRegisters fid a (a.setFamily other { a.family other with
      dependencies := deps
      state := if dep.endsThreads && deps.isTerminated then .terminated else (a.family other).state }) :=
    (KeepsRegisters.refl a).setFamily fun _ => ⟨rfl, rfl, rfl, unfinished⟩
  have sent : KeepsRegisters fid a middle := by
    rcases applyIf_ok forwarded with ⟨_, forwarded⟩ | ⟨_, rfl⟩
    · exact counted.trans (forwardToken_registers forwarded)
    · exact counted
  rcases applyIf_ok released with ⟨_, released⟩ | ⟨_, rfl⟩
  · exact sent.trans (releaseFamily_registers released)
  · exact sent

theorem releaseContext_registers (done : a.releaseContext other = .ok a') : KeepsRegisters fid a a' := by
  obtain ⟨raunit, _, rest⟩ := bind_ok done
  obtain ⟨threadTable, _, rest⟩ := bind_ok rest
  cases rest
  exact (KeepsRegisters.refl a).setFamily fun _ => ⟨rfl, rfl, rfl, id⟩

theorem pushRequest_registers {which : AllocQueue} {request : AllocRequest t} (done : a.pushRequest which request = .ok a') :
    KeepsRegisters fid a a' := by
  obtain ⟨requests, _, rest⟩ := bind_ok done
  cases rest
  cases which <;> exact .refl a

theorem setQueue_registers (which : AllocQueue) (requests : Buffer (AllocRequest t)) :
    KeepsRegisters fid a (a.setQueue which requests) := by
  cases which <;> exact .refl a

theorem refuseAllocation_registers {request : AllocRequest t} (done : a.refuseAllocation request = .ok a') :
    KeepsRegisters fid a a' := by
  unfold refuseAllocation at done
  split at done <;> cases done <;> exact .refl a

theorem answerAllocation_registers {request : AllocRequest t} {which : AllocQueue}
    (done : a.answerAllocation request which other = .ok a') : KeepsRegisters fid a a' := by
  unfold answerAllocation at done
  split at done
  · have committed : KeepsRegisters fid a (a.setFamily other { a.family other with
        numCores := if request.type = .single then 1 else request.placeSize, link := none }) :=
      (KeepsRegisters.refl a).setFamily fun _ => ⟨rfl, rfl, rfl, id⟩
    dsimp only [finishAllocation] at done
    split at done
    · cases done
      exact committed
    · split at done <;> cases done <;> exact committed
  · obtain ⟨reg, _, rest⟩ := bind_ok done
    cases rest
    exact .refl a

/-- An entry that is in use is not allocated. -/
theorem allocateContext_registers {type : ContextType} {prevFid : Option Nat} {placeSize capability : Nat}
    (used : (a.family fid).state ≠ .empty)
    (done : a.allocateContext type prevFid placeSize capability = .ok (some (other, a'))) : KeepsRegisters fid a a' := by
  unfold allocateContext at done
  split at done
  · cases done
  obtain ⟨result, allocated, rest⟩ := bind_ok done
  split at rest
  · cases rest
  rename_i lfid familyTable
  obtain ⟨raunit, _, rest⟩ := bind_ok rest
  obtain ⟨threadTable, _, rest⟩ := bind_ok rest
  cases rest
  obtain ⟨empty, rfl⟩ := FamilyTable.allocateFamily_ok allocated
  have different : fid ≠ other := fun same => used (same ▸ empty)
  refine .of_family ?_
  rw [family_setFamily_of_ne _ _ different]
  exact Function.update_of_ne different _ _

theorem doFamilyAllocate_registers {capability : Nat} (used : (a.family fid).state ≠ .empty)
    (done : a.doFamilyAllocate capability = .ok a') : KeepsRegisters fid a a' := by
  obtain ⟨which, _, rest⟩ := bind_ok done
  obtain ⟨⟨request, requests⟩, _, rest⟩ := bind_ok rest
  obtain ⟨result, allocated, rest⟩ := bind_ok rest
  split at rest
  · split at rest
    · cases rest
    · obtain ⟨_, rest⟩ := require_bind_ok rest
      obtain ⟨middle, refused, rest⟩ := bind_ok rest
      cases rest
      exact (refuseAllocation_registers refused).trans (setQueue_registers _ _)
  · rename_i lfid b
    obtain ⟨middle, answered, rest⟩ := bind_ok rest
    cases rest
    exact ((allocateContext_registers used allocated).trans (answerAllocation_registers answered)).trans
      (setQueue_registers _ _)

theorem doAllocResponse_registers {msg : AllocResponse} (done : a.doAllocResponse msg = .ok a') :
    KeepsRegisters fid a a' := by
  dsimp only [doAllocResponse] at done
  obtain ⟨lfid, prev, rest⟩ := bind_ok done
  generalize (if msg.numCores = 0 ∧ msg.exact = false ∧ RAUnit.isPowerOfTwo (a.pid % (a.family lfid).placeSize + 1) = true then
    a.pid % (a.family lfid).placeSize + 1 else msg.numCores) = numCores at rest
  have linked : KeepsRegisters fid a (a.setFamily lfid { a.family lfid with
      link := msg.nextFid, numCores := if numCores = 0 then (a.family lfid).numCores else numCores }) :=
    (KeepsRegisters.refl a).setFamily fun _ => ⟨rfl, rfl, rfl, id⟩
  obtain ⟨middle, released, rest⟩ := bind_ok rest
  have settled : KeepsRegisters fid a middle := by
    rcases applyIf_ok released with ⟨_, released⟩ | ⟨_, rfl⟩
    · exact linked.trans (releaseContext_registers released)
    · exact linked
  split at rest
  · obtain ⟨_, rest⟩ := require_bind_ok rest
    cases rest
    exact settled
  · cases rest
    exact settled

theorem activateFamily_registers (done : a.activateFamily other = .ok a') : KeepsRegisters fid a a' := by
  obtain ⟨alloc, _, rest⟩ := bind_ok done
  cases rest
  exact (KeepsRegisters.refl a).setFamily fun _ => ⟨rfl, rfl, rfl, id⟩

theorem forwardCreate_registers (numCores : Nat) : KeepsRegisters fid a (a.forwardCreate other numCores) := by
  dsimp only [forwardCreate]
  split
  · exact .refl a
  · split
    · exact (KeepsRegisters.refl a).setFamily fun _ => ⟨rfl, rfl, rfl, id⟩
    · exact .refl a

theorem allocateRegisters_registers {physBlockSize : Nat} {context : ContextType} (different : other ≠ fid)
    (done : a.allocateRegisters other context physBlockSize = .ok a') : KeepsRegisters fid a a' := by
  induction physBlockSize with
  | zero => cases done
  | succ physBlockSize ih =>
    dsimp only [allocateRegisters] at done
    split at done
    · cases done
      exact (KeepsRegisters.refl a).setFamily fun same => absurd same different
    · exact ih done
    · cases done

theorem queueLinkCreate_registers {numCores : Nat} {address : BitVec 64} {regs : RegType → RegsNo} (different : other ≠ fid)
    (done : a.queueLinkCreate other numCores address regs = .ok a') : KeepsRegisters fid a a' := by
  dsimp only [queueLinkCreate] at done
  obtain ⟨nThreads, _, rest⟩ := bind_ok done
  obtain ⟨b, allocated, rest⟩ := bind_ok rest
  obtain ⟨c, activated, rest⟩ := bind_ok rest
  cases rest
  have made : KeepsRegisters fid a b := by
    refine .trans ?_ (allocateRegisters_registers different allocated)
    exact (KeepsRegisters.refl a).setFamily fun same => absurd same different
  exact (made.trans (activateFamily_registers activated)).trans (forwardCreate_registers _)

theorem getFamilyChecked_eq {capability : Nat} {family : Family t} (done : a.getFamilyChecked other capability = .ok family) :
    family = a.family other := by
  unfold getFamilyChecked at done
  split at done
  · cases done
  · split at done
    · cases done
    · split at done
      · cases done
      · exact (Except.ok.inj done).symm

theorem queueCreate_registers {address : BitVec 64} {capability : Nat} {info : CreateInfo t}
    (done : a.queueCreate address capability info = .ok a') : KeepsRegisters fid a a' := by
  dsimp only [queueCreate] at done
  obtain ⟨family, checked, rest⟩ := bind_ok done
  obtain ⟨creates, _, rest⟩ := bind_ok rest
  cases rest
  obtain rfl := getFamilyChecked_eq checked
  exact (KeepsRegisters.refl a).setFamily fun _ => ⟨rfl, rfl, rfl, id⟩

theorem activateCreated_registers {info : CreateInfo t} (done : a.activateCreated info = .ok a') :
    KeepsRegisters fid a a' := by
  dsimp only [activateCreated] at done
  obtain ⟨_, rest⟩ := require_bind_ok done
  obtain ⟨_, rest⟩ := require_bind_ok rest
  obtain ⟨b, started, rest⟩ := bind_ok rest
  cases rest
  have starts : ∀ {c : Allocator t}, c.startThreads info.fid = .ok b → KeepsRegisters fid c b := by
    intro c started
    unfold startThreads at started
    split at started
    · obtain ⟨threadTable, _, rest⟩ := bind_ok started
      exact decreaseFamilyDependency_registers (a := { c with threadTable }) rest
    · exact activateFamily_registers started
  split at started
  · refine .trans ?_ (starts started)
    exact (KeepsRegisters.refl a).setFamily fun _ => ⟨rfl, rfl, rfl, id⟩
  · exact starts started

/-- The create at the front of the queue sets up the registers of its own family only. -/
theorem doFamilyCreate_registers {hit : Bool} {loaded : RegType → RegsNo} (done : a.doFamilyCreate hit loaded = .ok a')
    (different : a.createState.setsUp = true → ∀ info ∈ a.creates.front?, info.fid ≠ fid) : KeepsRegisters fid a a' := by
  dsimp only [doFamilyCreate] at done
  obtain ⟨⟨info, creates⟩, taken, rest⟩ := bind_ok done
  have front := (Buffer.take?_eq_some (orElse_ok taken)).2
  split at rest
  · obtain ⟨nThreads, _, rest⟩ := bind_ok rest
    cases rest
    exact (KeepsRegisters.refl a).setFamily fun _ => ⟨rfl, rfl, rfl, id⟩
  · cases rest
    exact .refl a
  · cases rest
  · rename_i state
    obtain ⟨_, rest⟩ := require_bind_ok rest
    cases rest
    exact (KeepsRegisters.refl a).setFamily fun same => absurd same (different (by rw [state]; rfl) info front)
  · rename_i state
    cases rest
    exact (KeepsRegisters.refl a).setFamily fun same => absurd same (different (by rw [state]; rfl) info front)
  · rename_i state
    obtain ⟨b, allocated, rest⟩ := bind_ok rest
    have kept : KeepsRegisters fid a b :=
      allocateRegisters_registers (different (by rw [state]; rfl) info front) allocated
    cases rest
    exact kept
  · cases rest
    exact forwardCreate_registers _
  · exact activateCreated_registers rest
  · cases rest
    split <;> exact .refl a

theorem onSetProperty_registers {type : FamilyProperty} {value : Integer t} (different : other ≠ fid) :
    KeepsRegisters fid a (a.onSetProperty other type value) := by
  have set : KeepsRegisters fid a (a.setFamily other ((a.family other).setProperty type value)) :=
    (KeepsRegisters.refl a).setFamily fun same => absurd same different
  dsimp only [onSetProperty]
  split <;> exact set

theorem onSync_registers {pid reg : Nat} (done : a.onSync other pid reg = .ok a') : KeepsRegisters fid a a' := by
  dsimp only [onSync] at done
  split at done
  · cases done
    exact .refl a
  · split at done
    · refine .trans ?_ (sendSync_registers done)
      exact (KeepsRegisters.refl a).setFamily fun _ => ⟨rfl, rfl, rfl, id⟩
    · cases done
      exact (KeepsRegisters.refl a).setFamily fun _ => ⟨rfl, rfl, rfl, id⟩

theorem onDetach_registers (done : a.onDetach other = .ok a') : KeepsRegisters fid a a' := by
  obtain ⟨b, decreased, rest⟩ := bind_ok done
  have detached : KeepsRegisters fid a b := decreaseFamilyDependency_registers decreased
  split at rest <;> cases rest <;> exact detached

theorem onBreak_registers (done : a.onBreak other = .ok a') : KeepsRegisters fid a a' := by
  obtain ⟨b, ended, rest⟩ := bind_ok done
  cases rest
  have ended : KeepsRegisters fid a b := by
    rcases applyIf_ok ended with ⟨_, ended⟩ | ⟨_, rfl⟩
    · exact decreaseFamilyDependency_registers ended
    · exact .refl _
  cases (b.family other).link with
  | none => exact ended.setFamily fun _ => ⟨rfl, rfl, rfl, id⟩
  | some link => exact (show KeepsRegisters fid a (b.sendLink (.brk link)) from ended).setFamily fun _ => ⟨rfl, rfl, rfl, id⟩

theorem onDone_registers {broken : Bool} (done : a.onDone other broken = .ok a') : KeepsRegisters fid a a' := by
  dsimp only [onDone] at done
  refine .trans ?_ (decreaseFamilyDependency_registers done)
  exact (KeepsRegisters.refl a).setFamily fun _ => ⟨rfl, rfl, rfl, id⟩

theorem doSyncs_registers (done : a.doSyncs = .ok a') : KeepsRegisters fid a a' := by
  dsimp only [doSyncs] at done
  obtain ⟨⟨info, syncs⟩, _, rest⟩ := bind_ok done
  refine .trans ?_ (decreaseFamilyDependency_registers rest)
  exact .of_family rfl

/-- The family of the program takes an empty entry. -/
theorem allocateInitialFamily_registers {pc : BitVec 64} {placeSize capability : Nat} {startIndex : Integer t}
    (used : (a.family fid).state ≠ .empty) (done : a.allocateInitialFamily pc placeSize startIndex capability = .ok a') :
    KeepsRegisters fid a a' := by
  dsimp only [allocateInitialFamily] at done
  obtain ⟨⟨other, familyTable⟩, found, rest⟩ := bind_ok done
  obtain ⟨result, allocated, given⟩ := bind_ok found
  rw [orElse_ok given] at allocated
  obtain ⟨empty, rfl⟩ := FamilyTable.allocateFamily_ok allocated
  obtain ⟨b, registers, rest⟩ := bind_ok rest
  obtain ⟨threadTable, _, rest⟩ := bind_ok rest
  obtain ⟨alloc, _, rest⟩ := bind_ok rest
  cases rest
  have different : other ≠ fid := fun same => used (same ▸ empty)
  generalize made : setFamily _ other _ = first at registers
  have created : KeepsRegisters fid a first := by
    refine .of_family ?_
    rw [← made, family_setFamily_of_ne _ _ different.symm]
    exact Function.update_of_ne different.symm _ _
  have given : KeepsRegisters fid first b := allocateRegisters_registers different registers
  exact created.trans given

/-- A step that neither creates nor cleans up a thread of the family. -/
structure Quiet (fid : Nat) (a a' : Allocator t) : Prop where
  runs : ∀ tids, Runs a.threadTable.threads fid (a.family fid) tids → Runs a'.threadTable.threads fid (a'.family fid) tids
  regs : ∀ tid, (a.thread tid).state ≠ .empty → (a.thread tid).family = fid → (a'.thread tid).regs = (a.thread tid).regs
  registers : KeepsRegisters fid a a'

theorem Carries.quiet (carried : a.Carries a') (kept : KeepsRegisters fid a a') : Quiet fid a a' where
  runs tids runs := carried.threads ▸ runs.carry (carried.families fid)
  regs tid _ _ := by rw [thread, carried.threads, thread]
  registers := kept

/-- One thread changes in what neither its block nor its registers depend on. -/
theorem Quiet.retouch {tid : Nat} {thread : Thread t}
    (threads : a'.threadTable.threads = Function.update a.threadTable.threads tid thread)
    (families : a'.familyTable = a.familyTable) (state : thread.state = .empty ↔ (a.thread tid).state = .empty)
    (owner : thread.family = (a.thread tid).family) (link : thread.nextInBlock = (a.thread tid).nextInBlock)
    (mark : thread.dependencies.prevCleanedUp = (a.thread tid).dependencies.prevCleanedUp)
    (index : thread.index = (a.thread tid).index) (regs : thread.regs = (a.thread tid).regs) : Quiet fid a a' := by
  have same : a'.family fid = a.family fid := congrArg (·.families fid) families
  refine ⟨fun tids runs => ?_, fun other _ _ => ?_, .of_family same⟩
  · rw [threads, same]
    exact runs.retouch state owner link mark index
  · rw [Allocator.thread, threads]
    by_cases at_tid : other = tid
    · rw [at_tid, Function.update_self]
      exact regs
    · rw [Function.update_of_ne at_tid]
      rfl

theorem decrease_regs (thread : Thread t) (dep : ThreadDependency) : (thread.decrease dep).regs = thread.regs := by
  dsimp only [Thread.decrease]
  split <;> rfl

theorem schedule_quiet {tid : Nat} {state : ThreadState} (done : a.schedule tid state = .ok a') : Quiet fid a a' := by
  dsimp only [Allocator.schedule] at done
  split at done
  · rename_i allowed
    cases done
    have ends : state ≠ .empty ∧ (a.thread tid).state ≠ .empty := by
      have arrow := allowed.1
      revert arrow
      cases (a.thread tid).state <;> cases state <;> decide
    exact .retouch rfl rfl (iff_of_false ends.1 ends.2) rfl rfl rfl rfl rfl
  · cases done

theorem suspendForWrites_quiet {tid : Nat} (done : a.suspendForWrites tid = .ok a') : Quiet fid a a' := by
  dsimp only [suspendForWrites] at done
  split at done
  · rename_i allowed
    cases done
    have alive : (a.thread tid).state ≠ .empty := by
      rw [allowed.1]
      decide
    exact .retouch rfl rfl (iff_of_false (fun empty => by cases empty) alive) rfl rfl rfl rfl rfl
  · cases done

theorem Managed.completeStore_quiet (ok : a.Managed) {tid : Nat} (done : a.completeStore tid = .ok a') : Quiet fid a a' := by
  obtain ⟨pending, done⟩ := require_bind_ok done
  have regular : (a.thread tid).Regular := ok.lives.regular tid
  have alive : (a.thread tid).state ≠ .empty := fun empty => pending (regular.idle empty)
  have pushes := decreaseThreadDependency_ok done
  obtain ⟨_, link, owner, index, mark⟩ := Thread.decrease_writes (a.thread tid)
  have after : ((a.thread tid).decrease .outstandingWrites).state ≠ .empty := by
    dsimp only [Thread.decrease]
    split
    · exact fun empty => by cases empty
    · exact alive
  exact .retouch (congrArg (·.threads) pushes.threadTable) pushes.familyTable (iff_of_false after alive) owner link mark index
    (decrease_regs _ _)

theorem killThread_quiet {tid : Nat} (done : a.killThread tid = .ok a') : Quiet fid a a' := by
  obtain ⟨running, done⟩ := require_bind_ok done
  obtain ⟨b, decreased, rest⟩ := bind_ok done
  have pushes := decreaseThreadDependency_ok decreased
  have alive : (a.thread tid).state ≠ .empty := by
    rw [running]
    decide
  cases rest
  have threads : (b.setThread tid { b.thread tid with state := .terminated }).threadTable.threads =
      Function.update a.threadTable.threads tid { (a.thread tid).decrease .terminated with state := .terminated } := by
    rw [setThread, pushes.thread_self, pushes.threadTable]
    exact Function.update_idem _ _ _
  exact .retouch threads pushes.familyTable (iff_of_false (fun empty => by cases empty) alive) rfl rfl rfl rfl rfl

end Effects

/-- The event does not set up the registers of the family: its entry is in use while entries are
allocated, and its properties, its register counts and its registers are settled. -/
def LeavesAlone (fid : Nat) (a : Allocator t) : AllocatorEvent t → Prop
  | .boot .. | .familyAllocate _ => (a.family fid).state ≠ .empty
  | .setProperty other _ _ _ => other ≠ fid
  | .linkMessage (.setProperty other _ _) => other ≠ fid
  | .linkMessage (.create other numCores _ _) => numCores ≠ 0 → other ≠ fid
  | .familyCreate _ _ => a.createState.setsUp = true → ∀ info ∈ a.creates.front?, info.fid ≠ fid
  | _ => True

theorem onLinkMessage_registers {a a' : Allocator t} {fid : Nat} {msg : LinkMessage t}
    (done : a.onLinkMessage msg = .ok a') (alone : a.LeavesAlone fid (.linkMessage msg)) : KeepsRegisters fid a a' := by
  cases msg with
  | allocate => exact pushRequest_registers done
  | setProperty other type value =>
    cases done
    exact onSetProperty_registers alone
  | create other numCores address regs =>
    dsimp only [onLinkMessage] at done
    split at done
    · refine .trans ?_ (releaseContext_registers done)
      split <;> exact .refl a
    · rename_i several
      exact queueLinkCreate_registers (alone several) done
  | done => exact onDone_registers done
  | sync => exact onSync_registers done
  | detach => exact onDetach_registers done
  | brk => exact onBreak_registers done

/-- Every event but the allocation of a thread is quiet for a family that it leaves alone. -/
theorem Managed.quiet {a a' : Allocator t} {fid : Nat} {event : AllocatorEvent t} (ok : a.Managed) (idle : a.SetsUpIdle event)
    (alone : a.LeavesAlone fid event) (other : event.allocatesThread = false) (done : a.perform event = .ok a') :
    Quiet fid a a' := by
  cases event with
  | boot pc placeSize startIndex capability =>
    exact (allocateInitialFamily_carries ok.unused done).quiet (allocateInitialFamily_registers alone done)
  | request which request => exact (pushRequest_carries done).quiet (pushRequest_registers done)
  | familyAllocate capability =>
    exact (doFamilyAllocate_carries ok.unused done).quiet (doFamilyAllocate_registers alone done)
  | allocResponse msg => exact (doAllocResponse_carries done idle).quiet (doAllocResponse_registers done)
  | linkMessage msg => exact (onLinkMessage_carries done idle).quiet (onLinkMessage_registers done alone)
  | setProperty fid capability type value =>
    obtain ⟨_, _, rest⟩ := bind_ok done
    cases rest
    exact (onSetProperty_carries a type value idle).quiet (onSetProperty_registers alone)
  | create address capability info => exact (queueCreate_carries done).quiet (queueCreate_registers done)
  | familyCreate hit loaded => exact (doFamilyCreate_carries done idle).quiet (doFamilyCreate_registers done alone)
  | lineLoaded =>
    dsimp only [Allocator.perform] at done
    split at done <;> cases done
    exact Carries.quiet ⟨rfl, rfl, rfl, rfl, fun _ => .refl _⟩ (.of_family rfl)
  | sync fid capability pid reg =>
    obtain ⟨_, _, rest⟩ := bind_ok done
    exact (onSync_carries rest).quiet (onSync_registers rest)
  | detach fid capability =>
    obtain ⟨_, _, rest⟩ := bind_ok done
    exact (onDetach_carries rest).quiet (onDetach_registers rest)
  | brk fid => exact (onBreak_carries done).quiet (onBreak_registers done)
  | syncs => exact (doSyncs_carries done).quiet (doSyncs_registers done)
  | threadAllocate => cases other
  | schedule tid state => exact schedule_quiet done
  | kill tid => exact killThread_quiet done
  | store tid =>
    dsimp only [Allocator.perform] at done
    split at done
    · cases done
      exact .retouch rfl rfl Iff.rfl rfl rfl rfl rfl rfl
    · cases done
  | storeDone tid => exact ok.completeStore_quiet done
  | barrier tid => exact suspendForWrites_quiet done
  | load tid =>
    dsimp only [Allocator.perform] at done
    split at done <;> cases done
    exact (onMemoryRead_carries a _).quiet ((KeepsRegisters.refl a).setFamily fun _ => ⟨rfl, rfl, rfl, id⟩)
  | loadDone fid => exact (decreaseFamilyDependency_carries done (by decide)).quiet (decreaseFamilyDependency_registers done)
  | endCycle =>
    cases done
    exact (endCycle_carries a).quiet (.of_family rfl)

end Allocator
end Mgsim.Drisc
