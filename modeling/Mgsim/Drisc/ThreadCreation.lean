import Mgsim.Drisc.KeptRegisters
import Mgsim.Drisc.ThreadCleanup

namespace Mgsim.Drisc
open Mgsim.Lib
variable {t : Target}

/-- Only the first thread of a block with shareds is cleaned up. -/
theorem Runs.head_of_cleanedUp {threads : Nat → Thread t} {fid tid : Nat} {family : Family t} {tids : List Nat}
    (runs : Runs threads fid family tids) (member : tid ∈ tids) (marked : (threads tid).dependencies.prevCleanedUp = true)
    (shareds : family.hasShareds = true) : tids.head? = some tid := by
  cases linked : family.isLinked with
  | true => exact (runs.first linked tid member).mp marked
  | false =>
    have single : ¬ 1 < family.physBlockSize := fun several =>
      absurd (Family.isLinked_iff.mpr ⟨shareds, several⟩) (by rw [linked]; decide)
    have fits := runs.fits
    match tids, member with
    | [only], member => rw [List.mem_singleton.mp member, List.head?_cons]
    | _ :: _ :: _, _ =>
      simp only [List.length_cons] at fits
      omega

namespace Allocator

/-- The family and the entry of the thread that `DoThreadAllocate` creates: a recycled one, or a new one. -/
def placedThread (a : Allocator t) : Option (Nat × Nat) :=
  match a.cleanup.take? with
  | some (tid, _) =>
    let fid := (a.thread tid).family
    if (a.family fid).dependencies.allocationDone then none else some (fid, tid)
  | none =>
    match a.alloc.take? with
    | some (fid, _) =>
      let family := a.family fid
      if family.dependencies.numThreadsAllocated = family.physBlockSize ∨ family.dependencies.allocationDone ∨
          family.nThreads = 0 then none
      else a.threadTable.emptyThreads.head?.map fun tid => (fid, tid)
    | none => none

/-- The family gets a thread in the entry `tid`, behind the others, which are `rest`. -/
structure Creates (fid tid : Nat) (isNew : Bool) (rest : List Nat) (a a' : Allocator t) : Prop where
  runs : Runs a'.threadTable.threads fid (a'.family fid) (rest ++ [tid])
  self : (a'.thread tid).regs = threadRegs (a.family fid) (a.thread tid) isNew
  others : ∀ other ∈ rest, (a'.thread other).regs = (a.thread other).regs
  regs : ∀ τ, (a'.family fid).regs τ =
    { (a.family fid).regs τ with lastShareds := (threadRegs (a.family fid) (a.thread tid) isNew τ).shareds }
  physBlockSize : (a'.family fid).physBlockSize = (a.family fid).physBlockSize
  hasShareds : (a'.family fid).hasShareds = (a.family fid).hasShareds
  unfinished : (a.family fid).dependencies.allocationDone = false

/-- The thread `tid` of the family is gone, and its entry free. -/
structure Frees (fid tid : Nat) (tids : List Nat) (a a' : Allocator t) : Prop where
  runs : Runs a'.threadTable.threads fid (a'.family fid) (tids.erase tid)
  regs : ∀ other, (a'.thread other).regs = (a.thread other).regs
  registers : KeepsRegisters fid a a'
  finished : (a.family fid).dependencies.allocationDone = true

theorem linkedThreads_regs (threads : Nat → Thread t) (last : Option Nat) (tid other : Nat) :
    (linkedThreads threads last tid other).regs = (threads other).regs := by
  unfold linkedThreads
  split
  · rfl
  · rename_i before
    by_cases same : other = before
    · rw [same, Function.update_self]
    · rw [Function.update_of_ne same]

section Cleanup
variable {a a' b : Allocator t} {fid tid : Nat}

theorem tellNext_registers (done : a.tellNext tid = .ok b) : KeepsRegisters fid a b := by
  dsimp only [tellNext] at done
  split at done
  · split at done
    · cases done
      exact (KeepsRegisters.refl a).setFamily fun _ => ⟨rfl, rfl, rfl, id⟩
    · exact .of_family (congrArg (·.families fid) (decreaseThreadDependency_ok done).familyTable)
  · cases done
    exact .refl a

theorem tellNext_regs (done : a.tellNext tid = .ok b) (other : Nat) : (b.thread other).regs = (a.thread other).regs := by
  dsimp only [tellNext] at done
  split at done
  · split at done
    · cases done
      rfl
    · rename_i next _
      rw [thread, (decreaseThreadDependency_ok done).threadTable]
      change (Function.update a.threadTable.threads next _ other).regs = _
      by_cases same : other = next
      · rw [same, Function.update_self]
        exact decrease_regs _ _
      · rw [Function.update_of_ne same]
        rfl
  · cases done
    rfl

theorem threadRegs_congr {family family' : Family t} {old old' : Thread t} {isNew : Bool} (regs : family'.regs = family.regs)
    (count : family'.dependencies.numThreadsAllocated = family.dependencies.numThreadsAllocated)
    (own : old'.regs = old.regs) : threadRegs family' old' isNew = threadRegs family old isNew := by
  funext τ
  rw [threadRegs, threadRegs, regs, count, own]

/-- A thread that is put into a free entry, and what follows from it for its family. -/
theorem Vacant.creates {isNew : Bool} {threads : Nat → Thread t} {rest : List Nat} (vacant : b.Vacant threads fid tid rest)
    (base : ∀ thread, Function.update b.threadTable.threads tid thread = Function.update threads tid thread)
    (unfinished : (b.family fid).dependencies.allocationDone = false)
    (none : (b.family fid).isLinked = true → ((b.family fid).dependencies.numThreadsAllocated = 0 ↔ rest = []))
    (count : rest.length + 1 = (b.family fid).dependencies.numThreadsAllocated + if isNew then 1 else 0)
    (fits : rest.length + 1 ≤ (b.family fid).physBlockSize)
    (kept : ∀ other ∈ rest, (threads other).regs = (b.thread other).regs)
    (done : b.allocateThread fid tid isNew = .ok a') : Creates fid tid isNew rest b a' := by
  obtain ⟨_, carried⟩ := allocateThread_ok done
  have registers : KeepsRegisters fid (b.placeThread fid tid isNew) a' := by
    obtain ⟨_, later⟩ := require_bind_ok done
    obtain ⟨_, later⟩ := require_bind_ok later
    rcases applyIf_ok later with ⟨_, ended⟩ | ⟨_, rfl⟩
    · exact decreaseFamilyDependency_registers ended
    · exact .refl _
  have placed := placeThread_family_self b fid tid isNew
  have fresh : tid ∉ rest := fun member => ((vacant.members tid).mp member).1 vacant.entry
  have shown : ∀ other, (a'.thread other).regs = (Function.update threads tid
      (newThread (b.family fid) fid (b.thread tid) isNew) other).regs := by
    intro other
    rw [thread, carried.threads, placeThread_threads, base, linkedThreads_regs]
  have runs := vacant.place_self base unfinished none count fits
  refine ⟨?_, ?_, fun other member => ?_, fun τ => ?_, ?_, ?_, unfinished⟩
  · rw [carried.threads]
    exact runs.carry (carried.families fid)
  · rw [shown, Function.update_self]
    rfl
  · have different : other ≠ tid := fun same => fresh (same ▸ member)
    rw [shown, Function.update_of_ne different, kept other member]
  · rw [registers.regs, placed]
    rfl
  · rw [registers.physBlockSize, placed]
    rfl
  · rw [registers.hasShareds, placed]
    rfl

/-- What comes before the allocation of a thread leaves the registers of the family as they are. -/
theorem Creates.after {isNew : Bool} {rest : List Nat} (creates : Creates fid tid isNew rest b a')
    (registers : KeepsRegisters fid a b)
    (count : (b.family fid).dependencies.numThreadsAllocated = (a.family fid).dependencies.numThreadsAllocated)
    (regs : ∀ other, (b.thread other).regs = (a.thread other).regs) : Creates fid tid isNew rest a a' := by
  have same : threadRegs (b.family fid) (b.thread tid) isNew = threadRegs (a.family fid) (a.thread tid) isNew :=
    threadRegs_congr registers.regs count (regs tid)
  refine ⟨creates.runs, creates.self.trans same, fun other member => (creates.others other member).trans (regs other),
    fun τ => ?_, creates.physBlockSize.trans registers.physBlockSize, creates.hasShareds.trans registers.hasShareds,
    registers.unfinished creates.unfinished⟩
  rw [creates.regs, same, registers.regs]

end Cleanup
end Allocator

theorem Within.eq {threads threads' : Nat → Thread t} {fid tid : Nat} (inside : Within fid threads threads')
    (live : (threads tid).state ≠ .empty) (other : (threads tid).family ≠ fid) : threads' tid = threads tid := by
  rcases inside tid with same | ⟨empty | owned, _⟩
  · exact same
  · exact absurd empty live
  · exact absurd owned other

namespace Allocator
section Cleanup
variable {a a' b : Allocator t} {fid tid : Nat} {tids : List Nat}

/-- A thread is cleaned up: the next one is told, and the entry is freed or recycled. -/
theorem cleanUpThread_ok (done : a.cleanUpThread tid = .ok a') : ∃ b context, a.tellNext tid = .ok b ∧
    ((b.family (a.thread tid).family).dependencies.allocationDone = true ∧
        ({ b.record tid .released with threadTable := b.threadTable.pushEmpty tid context } :
          Allocator t).decreaseFamilyDependency (a.thread tid).family .threadCount = .ok a' ∨
      (b.family (a.thread tid).family).dependencies.allocationDone = false ∧
        (b.record tid .released).allocateThread (a.thread tid).family tid false = .ok a') := by
  obtain ⟨_, rest⟩ := require_bind_ok done
  obtain ⟨b, informed, rest⟩ := bind_ok rest
  dsimp only at rest
  split at rest
  · rename_i finished
    exact ⟨b, _, informed, Or.inl ⟨finished, rest⟩⟩
  · rename_i unfinished
    exact ⟨b, .normal, informed, Or.inr ⟨Bool.eq_false_iff.mpr unfinished, rest⟩⟩

/-- The thread `tid` has left the cleanup queue. What is known before its cleanup. -/
structure Served (a : Allocator t) (tid : Nat) : Prop where
  lives : Lives a.threadTable.threads (tid :: a.cleanup.contents) a.lives
  runs : ∀ fid, ∃ tids, Runs a.threadTable.threads fid (a.family fid) tids
  several : (a.family (a.thread tid).family).isLinked = true →
    (a.family (a.thread tid).family).dependencies.allocationDone = false →
    (a.family (a.thread tid).family).dependencies.numThreadsAllocated ≠ 1

theorem Served.live (served : a.Served tid) : (a.thread tid).state ≠ .empty ∧
    (a.thread tid).dependencies.prevCleanedUp = true := by
  obtain ⟨terminated, done⟩ := Thread.stage_eq_three.mp ((served.lives.queued tid).mp List.mem_cons_self)
  refine ⟨?_, (Thread.isDone_iff.mp done).2.1⟩
  rw [show (a.thread tid).state = .terminated from terminated]
  decide

theorem Served.told (served : a.Served tid) (runs : Runs a.threadTable.threads (a.thread tid).family
    (a.family (a.thread tid).family) tids) (informed : a.tellNext tid = .ok b) :
    tid ∈ tids ∧ Told a b tid (tids.erase tid) ∧
      b.Vacant (Function.update b.threadTable.threads tid { a.thread tid with state := .empty })
        (a.thread tid).family tid (tids.erase tid) := by
  have member : tid ∈ tids := (runs.members tid).mpr ⟨served.live.1, rfl⟩
  have told := tellNext_ok informed served.lives runs member served.live.2 (by rw [runs.count]; exact served.several)
  refine ⟨member, told, told.vacant (fun other => ?_) served.runs⟩
  exact (runs.nodup.mem_erase_iff).trans (and_congr_right fun _ => runs.members other)

theorem length_erase_add_one (member : tid ∈ tids) : (tids.erase tid).length + 1 = tids.length := by
  rw [List.length_erase_of_mem member]
  exact Nat.succ_pred_eq_of_pos (List.length_pos_of_mem member)

/-- The thread is cleaned up while its family has threads to run. -/
theorem Served.creates (served : a.Served tid) (runs : Runs a.threadTable.threads (a.thread tid).family
    (a.family (a.thread tid).family) tids) (done : a.cleanUpThread tid = .ok a')
    (unfinished : (a.family (a.thread tid).family).dependencies.allocationDone = false) :
    Creates (a.thread tid).family tid false (tids.erase tid) a a' := by
  obtain ⟨b, context, informed, rest⟩ := cleanUpThread_ok done
  obtain ⟨member, told, vacant⟩ := served.told runs informed
  obtain ⟨dependencies, _, linked, block⟩ := told.families (a.thread tid).family
  have sum := length_erase_add_one member
  rcases rest with ⟨finished, _⟩ | ⟨unfinished', placed⟩
  · rw [dependencies, unfinished] at finished
    cases finished
  · have self : b.thread tid = a.thread tid := told.self
    have base : ∀ thread, Function.update b.threadTable.threads tid thread = Function.update
        (Function.update b.threadTable.threads tid { a.thread tid with state := .empty }) tid thread :=
      fun _ => (Function.update_idem _ _ _).symm
    have free : (b.record tid .released).Vacant (Function.update b.threadTable.threads tid { a.thread tid with state := .empty })
        (a.thread tid).family tid (tids.erase tid) := ⟨vacant.entry, vacant.block, vacant.members, vacant.others⟩
    have running : (b.family (a.thread tid).family).dependencies.numThreadsAllocated = tids.length := by
      rw [dependencies, runs.count]
    have made : Creates (a.thread tid).family tid false (tids.erase tid) (b.record tid .released) a' := by
      refine free.creates base unfinished' (fun isLinked => ?_) (sum.trans running.symm) ?_ (fun other member' => ?_) placed
      · have more := served.several (linked ▸ isLinked) unfinished
        rw [← runs.count] at more
        refine iff_of_false (fun none => absurd (running.symm.trans none) (by omega)) fun none => ?_
        rw [none] at sum
        exact more sum.symm
      · rw [sum]
        exact block.symm ▸ runs.fits
      · have different : other ≠ tid := ((runs.nodup.mem_erase_iff).mp member').1
        rw [Function.update_of_ne different]
        rfl
    have registers : KeepsRegisters (a.thread tid).family a b := tellNext_registers informed
    have regs : ∀ other, (b.thread other).regs = (a.thread other).regs := tellNext_regs informed
    exact made.after registers (congrArg (·.numThreadsAllocated) dependencies) regs

/-- The thread is cleaned up after all threads of its family have been created. -/
theorem Served.frees (served : a.Served tid) (runs : Runs a.threadTable.threads (a.thread tid).family
    (a.family (a.thread tid).family) tids) (done : a.cleanUpThread tid = .ok a')
    (finished : (a.family (a.thread tid).family).dependencies.allocationDone = true) :
    Frees (a.thread tid).family tid tids a a' := by
  obtain ⟨b, context, informed, rest⟩ := cleanUpThread_ok done
  obtain ⟨member, told, vacant⟩ := served.told runs informed
  obtain ⟨dependencies, _, linked, block⟩ := told.families (a.thread tid).family
  have sum := length_erase_add_one member
  have self : b.thread tid = a.thread tid := told.self
  rcases rest with ⟨_, freed⟩ | ⟨unfinished, _⟩
  · obtain ⟨deps, state, decreased, _, _, carried⟩ := decreaseFamilyDependency_ok freed
    obtain ⟨_, rfl⟩ := FamilyDependencies.decrease_threadCount decreased
    have threads : a'.threadTable.threads = Function.update b.threadTable.threads tid { b.thread tid with state := .empty } :=
      carried.threads
    refine ⟨?_, fun other => ?_, ?_, finished⟩
    · rw [carried.threads]
      refine Runs.carry ?_ (carried.families (a.thread tid).family)
      change Runs (Function.update b.threadTable.threads tid { b.thread tid with state := .empty }) _
        (Function.update b.familyTable.families (a.thread tid).family _ (a.thread tid).family) _
      rw [self, Function.update_self]
      refine ⟨⟨vacant.block.nodup, vacant.block.chain, vacant.block.first, vacant.block.indices,
          vacant.block.unlinked, vacant.block.last, vacant.block.unmarked, vacant.block.start⟩, vacant.members, ?_, ?_⟩
      · change _ = (b.family (a.thread tid).family).dependencies.numThreadsAllocated - 1
        rw [dependencies, ← runs.count]
        omega
      · refine Nat.le_trans (Nat.le_of_succ_le (Nat.le_of_eq sum)) ?_
        exact block.symm ▸ runs.fits
    · rw [← tellNext_regs informed other, thread, threads]
      by_cases same : other = tid
      · rw [same, Function.update_self]
      · rw [Function.update_of_ne same]
        rfl
    · refine (tellNext_registers informed).trans (.trans ?_ (decreaseFamilyDependency_registers freed))
      exact .of_family rfl
  · rw [dependencies, finished] at unfinished
    cases unfinished

/-- The other families do not see the cleanup. -/
theorem Served.quiet (served : a.Served tid) (done : a.cleanUpThread tid = .ok a') (different : fid ≠ (a.thread tid).family) :
    Quiet fid a a' := by
  obtain ⟨own, runs⟩ := served.runs (a.thread tid).family
  obtain ⟨b, context, informed, rest⟩ := cleanUpThread_ok done
  obtain ⟨member, told, vacant⟩ := served.told runs informed
  have self : b.thread tid = a.thread tid := told.self
  have emptied : Within (a.thread tid).family b.threadTable.threads
      (Function.update b.threadTable.threads tid { a.thread tid with state := .empty }) :=
    within_update (Or.inr (by rw [show b.threadTable.threads tid = a.thread tid from told.self])) rfl
  have freed := told.inside.trans emptied
  obtain ⟨threads, carries, kept⟩ : Within (a.thread tid).family a.threadTable.threads a'.threadTable.threads ∧
      (a.family fid).Carries (a'.family fid) ∧ KeepsRegisters fid a a' := by
    rcases rest with ⟨_, released⟩ | ⟨unfinished, placed⟩
    · obtain ⟨deps, state, _, _, _, carried⟩ := decreaseFamilyDependency_ok released
      have families := carried.families fid
      rw [family_setFamily_of_ne _ _ different] at families
      refine ⟨?_, (told.others fid different) ▸ families, ?_⟩
      · rw [carried.threads]
        change Within _ _ (Function.update b.threadTable.threads tid { b.thread tid with state := .empty })
        rw [self]
        exact freed
      · refine (tellNext_registers informed).trans (.trans ?_ (decreaseFamilyDependency_registers released))
        exact .of_family rfl
    · obtain ⟨_, carried⟩ := allocateThread_ok placed
      have families := carried.families fid
      rw [placeThread_family_of_ne _ _ _ different] at families
      have free : (b.record tid .released).Vacant
          (Function.update b.threadTable.threads tid { a.thread tid with state := .empty })
          (a.thread tid).family tid (own.erase tid) := ⟨vacant.entry, vacant.block, vacant.members, vacant.others⟩
      refine ⟨?_, (told.others fid different) ▸ families, ?_⟩
      · rw [carried.threads, placeThread_threads]
        change Within _ _ (linkedThreads (Function.update b.threadTable.threads tid _) _ _)
        rw [← Function.update_idem]
        exact freed.trans (free.within unfinished _ rfl)
      · refine (tellNext_registers informed).trans ?_
        obtain ⟨_, later⟩ := require_bind_ok placed
        obtain ⟨_, later⟩ := require_bind_ok later
        have place : KeepsRegisters fid b ((b.record tid .released).placeThread (a.thread tid).family tid false) :=
          .of_family (placeThread_family_of_ne _ _ _ different)
        rcases applyIf_ok later with ⟨_, ended⟩ | ⟨_, rfl⟩
        · exact place.trans (decreaseFamilyDependency_registers ended)
        · exact place
  refine ⟨fun tids inFamily => (inFamily.within threads different).carry carries, fun other live owner => ?_, kept⟩
  exact congrArg Thread.regs (threads.eq live (fun same => different (owner.symm.trans same)))

/-- A family with threads to run gets a new one from the empty entries. -/
theorem Managed.allocateInitial_cases (ok : a.Managed) {alloc : Buffer Nat} {owner : Nat}
    (done : a.allocateInitial owner alloc = .ok a') :
    (((a.family owner).dependencies.numThreadsAllocated = (a.family owner).physBlockSize ∨
        (a.family owner).dependencies.allocationDone = true ∨ (a.family owner).nThreads = 0) ∧ ∀ fid, Quiet fid a a') ∨
    (¬ ((a.family owner).dependencies.numThreadsAllocated = (a.family owner).physBlockSize ∨
        (a.family owner).dependencies.allocationDone = true ∨ (a.family owner).nThreads = 0) ∧
      ∃ tid, a.threadTable.emptyThreads.head? = some tid ∧
        (∀ tids, Runs a.threadTable.threads owner (a.family owner) tids → tid ∉ tids ∧ Creates owner tid true tids a a') ∧
        ∀ fid ≠ owner, Quiet fid a a') := by
  dsimp only [Allocator.allocateInitial] at done
  split at done
  · rename_i ended
    cases done
    exact Or.inl ⟨ended.imp_right Or.inl, fun _ => Carries.quiet ⟨rfl, rfl, rfl, rfl, fun _ => .refl _⟩ (.of_family rfl)⟩
  rename_i more
  split at done
  · rename_i none
    exact Or.inl ⟨Or.inr (Or.inr none), fun _ =>
      (decreaseFamilyDependency_carries done (by decide)).quiet (decreaseFamilyDependency_registers done)⟩
  rename_i some
  split at done
  · cases done
  rename_i tid table popped
  obtain ⟨notFull, unfinished⟩ := not_or.mp more
  have unfinished : (a.family owner).dependencies.allocationDone = false := by simpa using unfinished
  obtain ⟨rest, entries, _, threads⟩ := ThreadTable.popEmpty_ok popped
  obtain ⟨room, carried⟩ := allocateThread_ok done
  have entry := ok.entries tid (entries ▸ List.mem_cons_self)
  have vacant : ∀ tids, Runs a.threadTable.threads owner (a.family owner) tids →
      Vacant { a with threadTable := table } a.threadTable.threads owner tid tids :=
    fun tids runs => ⟨entry, runs.toBlock, runs.members, fun other _ => ok.runs other⟩
  have base : ∀ thread, Function.update table.threads tid thread = Function.update a.threadTable.threads tid thread := by
    intro thread
    rw [threads, Function.update_idem]
  refine Or.inr ⟨?_, tid, by rw [entries]; rfl, fun tids runs => ?_, fun fid different => ?_⟩
  · rintro (full | finished | none)
    · exact notFull full
    · rw [unfinished] at finished
      cases finished
    · exact some none
  · have fresh : tid ∉ tids := fun member => ((runs.members tid).mp member).1 entry
    have regs : ∀ other, (table.threads other).regs = (a.thread other).regs := by
      intro other
      rw [threads]
      by_cases same : other = tid
      · rw [same, Function.update_self]
        rfl
      · rw [Function.update_of_ne same]
        rfl
    have made : Creates owner tid true tids { a with threadTable := table } a' := by
      refine (vacant tids runs).creates base unfinished (fun _ => ?_) ?_ ?_ (fun other _ => (regs other).symm) done
      · exact (iff_of_eq (congrArg (· = 0) runs.count.symm)).trans List.length_eq_zero_iff
      · rw [runs.count]
        rfl
      · rw [runs.count]
        exact room rfl
    exact ⟨fresh, made.after (.of_family rfl) rfl regs⟩
  · obtain ⟨own, runs⟩ := ok.runs owner
    have inside : Within owner a.threadTable.threads a'.threadTable.threads := by
      rw [carried.threads, placeThread_threads]
      change Within _ _ (linkedThreads (Function.update table.threads tid _) _ _)
      rw [base]
      exact (vacant own runs).within unfinished _ rfl
    have families := carried.families fid
    rw [placeThread_family_of_ne _ _ _ different] at families
    refine ⟨fun tids runs => (runs.within inside different).carry families, fun other live inFamily => ?_, ?_⟩
    · exact congrArg Thread.regs (inside.eq live (fun same => different (inFamily.symm.trans same)))
    · obtain ⟨_, later⟩ := require_bind_ok done
      obtain ⟨_, later⟩ := require_bind_ok later
      have place : KeepsRegisters fid a (({ a with threadTable := table } : Allocator t).placeThread owner tid true) :=
        .of_family (placeThread_family_of_ne _ _ _ different)
      rcases applyIf_ok later with ⟨_, ended⟩ | ⟨_, rfl⟩
      · exact place.trans (decreaseFamilyDependency_registers ended)
      · exact place

/-- The entry of the thread that `DoThreadAllocate` creates in the family. -/
def placedIn (a : Allocator t) (fid : Nat) : Option Nat :=
  a.placedThread.bind fun placed => if placed.1 = fid then some placed.2 else none

/-- What `DoThreadAllocate` does in a family with the threads `tids`, and the entry in which it creates a thread. -/
inductive AllocationStep (fid : Nat) (tids : List Nat) (a a' : Allocator t) : Option Nat → Prop
  | quiet : Quiet fid a a' → AllocationStep fid tids a a' none
  | frees {tid : Nat} : tid ∈ tids → ((a.family fid).hasShareds = true → tids.head? = some tid) →
      Frees fid tid tids a a' → AllocationStep fid tids a a' none
  | starts {tid : Nat} : tid ∉ tids → Creates fid tid true tids a a' → AllocationStep fid tids a a' (some tid)
  | recycles {tid : Nat} : tid ∈ tids → ((a.family fid).hasShareds = true → tids.head? = some tid) →
      Creates fid tid false (tids.erase tid) a a' → AllocationStep fid tids a a' (some tid)

theorem Managed.allocationStep (ok : a.Managed) (inOrder : a.CleansUpInOrder) (done : a.doThreadAllocate = .ok a')
    (runs : Runs a.threadTable.threads fid (a.family fid) tids) : AllocationStep fid tids a a' (a.placedIn fid) := by
  unfold Allocator.doThreadAllocate at done
  split at done
  · rename_i tid cleanup taken
    obtain ⟨contents, front⟩ := Buffer.take?_eq_some taken
    have lives := ok.lives
    rw [contents] at lives
    have served : Served { a with cleanup } tid := ⟨lives, ok.runs, inOrder.1 tid front⟩
    by_cases owner : fid = (a.thread tid).family
    · subst owner
      have member : tid ∈ tids := (runs.members tid).mpr ⟨served.live.1, rfl⟩
      have head := runs.head_of_cleanedUp member served.live.2
      cases finished : (a.family (a.thread tid).family).dependencies.allocationDone with
      | true =>
        have placed : a.placedIn (a.thread tid).family = none := by simp [placedIn, placedThread, taken, finished]
        rw [placed]
        obtain ⟨runs, regs, registers, finished⟩ := served.frees runs done finished
        exact .frees member head ⟨runs, regs, registers, finished⟩
      | false =>
        have placed : a.placedIn (a.thread tid).family = some tid := by simp [placedIn, placedThread, taken, finished]
        rw [placed]
        exact .recycles member head ((served.creates runs done finished).after (.of_family rfl) rfl fun _ => rfl)
    · have placed : a.placedIn fid = none := by
        simp only [placedIn, placedThread, taken]
        split
        · rfl
        · simp [Ne.symm owner]
      rw [placed]
      obtain ⟨runs, regs, registers⟩ := served.quiet done owner
      exact .quiet ⟨runs, regs, registers⟩
  · rename_i idle
    split at done
    · rename_i owner alloc taken
      rcases ok.allocateInitial_cases done with ⟨ended, quiet⟩ | ⟨more, tid, head, creates, others⟩
      · have placed : a.placedThread = none := by
          simp only [placedThread, idle, taken]
          exact if_pos ended
        rw [placedIn, placed]
        exact .quiet (quiet fid)
      · have placed : a.placedThread = some (owner, tid) := by
          simp only [placedThread, idle, taken]
          rw [if_neg more, head]
          rfl
        rw [placedIn, placed, Option.bind_some]
        by_cases same : owner = fid
        · subst same
          rw [if_pos rfl]
          obtain ⟨fresh, made⟩ := creates tids runs
          exact .starts fresh made
        · rw [if_neg same]
          exact .quiet (others fid (Ne.symm same))
    · cases done

end Cleanup
end Allocator
end Mgsim.Drisc
