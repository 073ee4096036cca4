import Mgsim.Drisc.LifeCycle

namespace Mgsim.Drisc
open Mgsim.Lib
variable {t : Target}

/-- Shares of `q` items for one after the other, until all `n` are given out. -/
theorem shares_cover (n q cores : Nat) :
    (List.range cores).flatMap (fun k => List.range' (q * k) (min (n - q * k) q)) = List.range (min n (q * cores)) := by
  induction cores with
  | zero => simp
  | succ cores ih =>
    rw [List.range_succ, List.flatMap_append, ih, List.flatMap_singleton, Nat.mul_succ]
    by_cases less : n ≤ q * cores
    · have none : n - q * cores = 0 := by omega
      rw [none, Nat.zero_min, List.range'_zero, List.append_nil, Nat.min_eq_left less, Nat.min_eq_left (by omega)]
    · have full : min n (q * cores) = q * cores := by omega
      have more : min n (q * cores + q) = q * cores + min (n - q * cores) q := by omega
      rw [full, more, List.range_eq_range', List.range_eq_range', ← List.range'_append_1, Nat.zero_add]

/-- The share of a core, where `n` threads are spread over `c` cores. -/
def coreShare (n c : Nat) : Nat := max 1 ((n + c - 1) / c)

theorem le_coreShare_mul (n : Nat) {c : Nat} (positive : 0 < c) : n ≤ coreShare n c * c := by
  have division := Nat.div_add_mod (n + c - 1) c
  have remainder := Nat.mod_lt (n + c - 1) positive
  have grow : (n + c - 1) / c * c ≤ coreShare n c * c := Nat.mul_le_mul_right c (Nat.le_max_right _ _)
  rw [Nat.mul_comm] at division
  omega

theorem coreShare_mul_lt {n c k : Nat} (core : k < c) : coreShare n c * k < n + c := by
  have division := Nat.div_mul_le_self (n + c - 1) c
  have grow : (n + c - 1) / c * k ≤ (n + c - 1) / c * c := Nat.mul_le_mul_left _ core.le
  rcases Nat.le_total ((n + c - 1) / c) 1 with one | more
  · rw [coreShare, Nat.max_eq_left one]
    omega
  · rw [coreShare, Nat.max_eq_right more]
    omega

namespace Family
variable {family : Family t} {pid numThreads numCores : Nat} {nThreads : Integer t}

/-- `threadsPerCore` of `CalculateDistribution`. -/
def threadsPerCore (nThreads : Integer t) (numCores : Nat) : Integer t :=
  let perCore := (nThreads + BitVec.ofNat _ numCores - 1) / BitVec.ofNat _ numCores
  if perCore = 0 then 1 else perCore

/-- `nThreadsSkipped` of `CalculateDistribution`: the threads that run before those of this core. -/
def threadsSkipped (family : Family t) (pid : Nat) (nThreads : Integer t) (numCores : Nat) : Integer t :=
  if numCores > 1 then threadsPerCore nThreads numCores * BitVec.ofNat _ (pid % family.placeSize) else 0

theorem distribute_start : (family.distribute pid numThreads nThreads numCores).start =
    family.start + family.step * family.threadsSkipped pid nThreads numCores := rfl

theorem distribute_step : (family.distribute pid numThreads nThreads numCores).step = family.step := rfl

theorem toNat_distribute_nThreads : (family.distribute pid numThreads nThreads numCores).nThreads.toNat =
    min (nThreads.toNat - (family.threadsSkipped pid nThreads numCores).toNat)
      (threadsPerCore nThreads numCores).toNat := by
  have shown : (family.distribute pid numThreads nThreads numCores).nThreads =
      (let remaining := if family.threadsSkipped pid nThreads numCores ≤ nThreads
          then nThreads - family.threadsSkipped pid nThreads numCores else 0
        if remaining ≤ threadsPerCore nThreads numCores then remaining else threadsPerCore nThreads numCores) := rfl
  rw [shown]
  generalize family.threadsSkipped pid nThreads numCores = skipped
  generalize threadsPerCore nThreads numCores = share
  simp only [BitVec.le_def]
  by_cases before : skipped.toNat ≤ nThreads.toNat
  · have left : (nThreads - skipped).toNat = nThreads.toNat - skipped.toNat := BitVec.toNat_sub_of_le before
    simp only [before, if_true, left]
    split <;> omega
  · have zero : (0 : Integer t).toNat = 0 := by simp
    simp only [before, if_false, zero, Nat.zero_le, if_true]
    omega

theorem toNat_threadsPerCore (positive : 0 < numCores) (fits : nThreads.toNat + numCores < 2 ^ (8 * t.sizeofInteger)) :
    (threadsPerCore nThreads numCores).toNat = coreShare nThreads.toNat numCores := by
  have one : (1 : Integer t).toNat = 1 := by cases t <;> rfl
  have zero : (0 : Integer t).toNat = 0 := by simp
  have cores : (BitVec.ofNat (8 * t.sizeofInteger) numCores).toNat = numCores := by
    rw [BitVec.toNat_ofNat, Nat.mod_eq_of_lt (by omega)]
  have sum : (nThreads + BitVec.ofNat (8 * t.sizeofInteger) numCores).toNat = nThreads.toNat + numCores := by
    rw [BitVec.toNat_add, cores, Nat.mod_eq_of_lt fits]
  have above : (1 : Integer t) ≤ nThreads + BitVec.ofNat (8 * t.sizeofInteger) numCores := by
    rw [BitVec.le_def, one, sum]
    omega
  have quotient : ((nThreads + BitVec.ofNat (8 * t.sizeofInteger) numCores - 1) /
      BitVec.ofNat (8 * t.sizeofInteger) numCores).toNat = (nThreads.toNat + numCores - 1) / numCores := by
    rw [BitVec.toNat_udiv, BitVec.toNat_sub_of_le above, sum, cores, one]
  rw [threadsPerCore, coreShare]
  by_cases none : (nThreads + BitVec.ofNat (8 * t.sizeofInteger) numCores - 1) /
      BitVec.ofNat (8 * t.sizeofInteger) numCores = 0
  · rw [none, zero] at quotient
    simp only [none, if_true, one]
    omega
  · have some_ : (nThreads.toNat + numCores - 1) / numCores ≠ 0 := by
      rw [← quotient]
      exact fun same => none (BitVec.eq_of_toNat_eq (same.trans zero.symm))
    simp only [none, if_false, quotient]
    omega

theorem toNat_threadsSkipped {first k : Nat} (aligned : family.placeSize ∣ first) (core : k < numCores)
    (place : numCores ≤ family.placeSize) (fits : nThreads.toNat + numCores < 2 ^ (8 * t.sizeofInteger)) :
    (family.threadsSkipped (first + k) nThreads numCores).toNat = coreShare nThreads.toNat numCores * k := by
  have inPlace : (first + k) % family.placeSize = k := by
    rw [Nat.add_mod, Nat.mod_eq_zero_of_dvd aligned, Nat.zero_add, Nat.mod_mod, Nat.mod_eq_of_lt (by omega)]
  have product := coreShare_mul_lt (n := nThreads.toNat) core
  rw [threadsSkipped, inPlace]
  by_cases several : numCores > 1
  · rw [if_pos several, BitVec.toNat_mul, toNat_threadsPerCore (by omega) fits, BitVec.toNat_ofNat,
      Nat.mod_eq_of_lt (by omega : k < 2 ^ (8 * t.sizeofInteger)), Nat.mod_eq_of_lt (by omega)]
  · have only : k = 0 := by omega
    rw [if_neg several, only, Nat.mul_zero]
    simp

/-- The threads that a family has still to run are the same. -/
structure SameThreads (family family' : Family t) : Prop where
  start : family'.start = family.start
  step : family'.step = family.step
  nThreads : family'.nThreads = family.nThreads

theorem SameThreads.refl (family : Family t) : family.SameThreads family := ⟨rfl, rfl, rfl⟩

theorem SameThreads.trans {family family' family'' : Family t} (first : family.SameThreads family')
    (second : family'.SameThreads family'') : family.SameThreads family'' :=
  ⟨second.start.trans first.start, second.step.trans first.step, second.nThreads.trans first.nThreads⟩

end Family

namespace Allocator
variable {a a' : Allocator t} {fid : Nat}

theorem setFamily_sameThreads {family : Family t} (same : (a.family fid).SameThreads family) (other : Nat) :
    (a.family other).SameThreads ((a.setFamily fid family).family other) := by
  by_cases at_fid : other = fid
  · subst at_fid
    rw [family_setFamily_self]
    exact same
  · rw [family_setFamily_of_ne a family at_fid]
    exact .refl _

theorem forwardToken_sameThreads (done : a.forwardToken fid = .ok a') (other : Nat) :
    (a.family other).SameThreads (a'.family other) := by
  have synced := @setFamily_sameThreads t a fid
    { a.family fid with sync := { (a.family fid).sync with done := true } } ⟨rfl, rfl, rfl⟩ other
  dsimp only [forwardToken] at done
  split at done
  · cases done
    exact synced
  · obtain ⟨syncs, _, rest⟩ := bind_ok done
    cases rest
    exact synced
  · cases done
    exact synced

theorem releaseFamily_sameThreads (done : a.releaseFamily fid = .ok a') (other : Nat) :
    (a.family other).SameThreads (a'.family other) := by
  dsimp only [releaseFamily] at done
  split at done
  · cases done
  · cases done
    exact @setFamily_sameThreads t a fid { a.family fid with state := .empty } ⟨rfl, rfl, rfl⟩ other

theorem decreaseFamilyDependency_sameThreads {dep : FamilyDependency} (done : a.decreaseFamilyDependency fid dep = .ok a')
    (other : Nat) : (a.family other).SameThreads (a'.family other) := by
  dsimp only [decreaseFamilyDependency] at done
  obtain ⟨_, rest⟩ := require_bind_ok done
  obtain ⟨deps, _, rest⟩ := bind_ok rest
  obtain ⟨middle, forwarded, released⟩ := bind_ok rest
  have counted := fun state => @setFamily_sameThreads t a fid
    { a.family fid with dependencies := deps, state := state } ⟨rfl, rfl, rfl⟩ other
  have sent : (a.family other).SameThreads (middle.family other) := by
    rcases applyIf_ok forwarded with ⟨_, forwarded⟩ | ⟨_, rfl⟩
    · exact (counted _).trans (forwardToken_sameThreads forwarded other)
    · exact counted _
  rcases applyIf_ok released with ⟨_, released⟩ | ⟨_, rfl⟩
  · exact sent.trans (releaseFamily_sameThreads released other)
  · exact sent

/-- What `AllocateThread` does to the threads that a family has still to run. -/
theorem allocateThread_steps {tid : Nat} {isNew : Bool} (done : a.allocateThread fid tid isNew = .ok a') :
    (a'.thread tid).index = (a.family fid).start ∧ (a.family fid).nThreads ≠ 0 ∧
      (a'.family fid).start = (a.family fid).start + (a.family fid).step ∧
      (a'.family fid).step = (a.family fid).step ∧ (a'.family fid).nThreads = (a.family fid).nThreads - 1 := by
  have carried := (allocateThread_ok done).2
  obtain ⟨more, rest⟩ := require_bind_ok done
  obtain ⟨_, rest⟩ := require_bind_ok rest
  have placed : (a.placeThread fid tid isNew).family fid =
      countThread (a.family fid) tid (newThread (a.family fid) fid (a.thread tid) isNew) isNew := by
    rw [Allocator.family, (placeThread_rest a fid tid isNew).2.2.2]
    exact Function.update_self _ _ _
  have same : ((a.placeThread fid tid isNew).family fid).SameThreads (a'.family fid) := by
    rcases applyIf_ok rest with ⟨_, ended⟩ | ⟨_, rfl⟩
    · exact decreaseFamilyDependency_sameThreads ended fid
    · exact .refl _
  have entry : (a'.thread tid).index = (a.family fid).start := by
    rw [Allocator.thread, carried.threads, placeThread_threads, (linkedThreads_index _ _ _ _).1, Function.update_self]
    rfl
  rw [placed] at same
  exact ⟨entry, more, same.start, same.step, same.nThreads⟩

/-- Threads of a family are allocated one after the other, with these indices. What happens in
between leaves the threads that the family has still to run as they are. -/
inductive Allocates (fid : Nat) (a : Allocator t) : List (Integer t) → Allocator t → Prop
  | start : Allocates fid a [] a
  | other {b c : Allocator t} {indices : List (Integer t)} :
      Allocates fid a indices b → (b.family fid).SameThreads (c.family fid) → Allocates fid a indices c
  | thread {b c : Allocator t} {indices : List (Integer t)} {tid : Nat} {isNew : Bool} :
      Allocates fid a indices b → b.allocateThread fid tid isNew = .ok c →
        Allocates fid a (indices ++ [(c.thread tid).index]) c

/-- The indices of the threads that have been allocated, and the threads that are left. -/
theorem Allocates.indices {indices : List (Integer t)} (run : Allocates fid a indices a') :
    indices = (List.range indices.length).map (fun i => (a.family fid).start + (a.family fid).step * BitVec.ofNat _ i) ∧
      (a'.family fid).start = (a.family fid).start + (a.family fid).step * BitVec.ofNat _ indices.length ∧
      (a'.family fid).step = (a.family fid).step ∧
      indices.length + (a'.family fid).nThreads.toNat = (a.family fid).nThreads.toNat := by
  induction run with
  | start => simp
  | other _ same ih =>
    rw [same.start, same.step, same.nThreads]
    exact ih
  | @thread b c indices tid isNew _ done ih =>
    obtain ⟨shown, start, step, left⟩ := ih
    obtain ⟨index, more, nextStart, nextStep, fewer⟩ := allocateThread_steps done
    have one : (1 : Integer t).toNat = 1 := by cases t <;> rfl
    have positive : (b.family fid).nThreads.toNat ≠ 0 := fun zero => more (BitVec.eq_of_toNat_eq (by simp [zero]))
    have count : ((b.family fid).nThreads - 1).toNat = (b.family fid).nThreads.toNat - 1 := by
      rw [BitVec.toNat_sub_of_le (by rw [BitVec.le_def, one]; omega), one]
    refine ⟨?_, ?_, nextStep.trans step, ?_⟩
    · rw [index, start, List.length_append, List.length_singleton, List.range_succ, List.map_append, ← shown]
      rfl
    · rw [nextStart, start, step, List.length_append, List.length_singleton, BitVec.ofNat_add, BitVec.mul_add,
        ← BitVec.add_assoc]
      exact congrArg _ (BitVec.mul_one _).symm
    · rw [fewer, count, List.length_append, List.length_singleton]
      omega

end Allocator

section Create
variable {a a' : Allocator t} {fid : Nat}

theorem allocateRegisters_sameThreads {context : ContextType} {physBlockSize : Nat}
    (done : a.allocateRegisters fid context physBlockSize = .ok a') :
    (a.family fid).SameThreads (a'.family fid) := by
  induction physBlockSize with
  | zero => cases done
  | succ physBlockSize ih =>
    dsimp only [Allocator.allocateRegisters] at done
    split at done
    · rename_i raunit indices _
      cases done
      exact @Allocator.setFamily_sameThreads t a fid ((a.family fid).withRegisters (physBlockSize + 1) indices)
        ⟨rfl, rfl, rfl⟩ fid
    · exact ih done
    · cases done

theorem forwardCreate_sameThreads (a : Allocator t) (fid numCores : Nat) :
    (a.family fid).SameThreads ((a.forwardCreate fid numCores).family fid) := by
  dsimp only [Allocator.forwardCreate]
  split
  · exact .refl _
  · split
    · exact @Allocator.setFamily_sameThreads t a fid { a.family fid with link := none } ⟨rfl, rfl, rfl⟩ fid
    · exact .refl _

/-- A core to which a create is forwarded spreads the threads over all cores of the family. -/
theorem queueLinkCreate_distributes {numCores : Nat} {address : BitVec 64} {regs : RegType → RegsNo}
    (done : a.queueLinkCreate fid numCores address regs = .ok a') : ∃ nThreads,
      calculateThreadCount (a.family fid).start (a.family fid).nThreads (a.family fid).step = .ok nThreads ∧
      ((a.family fid).distribute a.pid a.threadTable.size nThreads (a.family fid).numCores).SameThreads
        (a'.family fid) := by
  dsimp only [Allocator.queueLinkCreate] at done
  obtain ⟨nThreads, counted, rest⟩ := bind_ok done
  obtain ⟨b, allocated, rest⟩ := bind_ok rest
  obtain ⟨c, activated, rest⟩ := bind_ok rest
  cases rest
  refine ⟨nThreads, counted, ?_⟩
  have given := allocateRegisters_sameThreads allocated
  rw [Allocator.family_setFamily_self] at given
  obtain ⟨alloc, _, activated⟩ := bind_ok activated
  cases activated
  have first : ((a.family fid).distribute a.pid a.threadTable.size nThreads (a.family fid).numCores).SameThreads
      (b.family fid) := ⟨given.start, given.step, given.nThreads⟩
  refine (first.trans ?_).trans (forwardCreate_sameThreads _ fid _)
  exact @Allocator.setFamily_sameThreads t { b with alloc } fid { b.family fid with state := .active } ⟨rfl, rfl, rfl⟩ fid

/-- The number of cores that `CREATE_RESTRICTING` leaves to a family. -/
def restrictedCores (a : Allocator t) (fid : Nat) : Nat :=
  if a.familyTable.isExclusive fid ∨ (a.family fid).hasShareds then 1
  else max 1 (min (a.family fid).nThreads.toNat (a.family fid).numCores)

/-- The first core spreads them over the cores that the family needs. -/
theorem restrictCores_distributes (a : Allocator t) (fid : Nat) :
    ((a.family fid).distribute a.pid a.threadTable.size (a.family fid).nThreads (restrictedCores a fid)).SameThreads
      ((a.restrictCores fid).family fid) := by
  have shown : (a.restrictCores fid).family fid = { (a.family fid).distribute a.pid a.threadTable.size
      (a.family fid).nThreads (restrictedCores a fid) with numCores := restrictedCores a fid } := Function.update_self _ _ _
  rw [shown]
  exact ⟨rfl, rfl, rfl⟩

end Create

/-- The positions of a core's threads among all threads of the family. -/
def Family.positions (family : Family t) (pid numThreads : Nat) (nThreads : Integer t) (numCores : Nat) : List Nat :=
  List.range' (family.threadsSkipped pid nThreads numCores).toNat
    (family.distribute pid numThreads nThreads numCores).nThreads.toNat

/-- The cores of a place share the threads of a family: one after the other they have all
positions, and on each core the threads get the indices of its positions. -/
theorem distribution_exact {first placeSize numCores : Nat} {nThreads start step : Integer t} (positive : 0 < numCores)
    (place : numCores ≤ placeSize) (aligned : placeSize ∣ first)
    (fits : nThreads.toNat + numCores < 2 ^ (8 * t.sizeofInteger)) (families : Nat → Family t) (numThreads : Nat → Nat)
    (created : ∀ k < numCores, (families k).placeSize = placeSize ∧ (families k).start = start ∧ (families k).step = step) :
    (List.range numCores).flatMap (fun k => (families k).positions (first + k) (numThreads k) nThreads numCores) =
        List.range nThreads.toNat ∧
      ∀ k < numCores, ∀ (a b : Allocator t) (fid : Nat) (indices : List (Integer t)),
        ((families k).distribute (first + k) (numThreads k) nThreads numCores).SameThreads (a.family fid) →
        Allocator.Allocates fid a indices b →
        indices <+: ((families k).positions (first + k) (numThreads k) nThreads numCores).map
            (fun p => start + step * BitVec.ofNat _ p) ∧
          ((b.family fid).nThreads = 0 → indices.length =
            ((families k).positions (first + k) (numThreads k) nThreads numCores).length) := by
  have skipped : ∀ k < numCores, ((families k).threadsSkipped (first + k) nThreads numCores).toNat =
      coreShare nThreads.toNat numCores * k := fun k core =>
    Family.toNat_threadsSkipped ((created k core).1 ▸ aligned) core ((created k core).1 ▸ place) fits
  constructor
  · have cover := shares_cover nThreads.toNat (coreShare nThreads.toNat numCores) numCores
    rw [Nat.min_eq_left (le_coreShare_mul _ positive)] at cover
    rw [← cover]
    refine List.flatMap_congr fun k member => ?_
    rw [Family.positions, Family.toNat_distribute_nThreads, skipped k (List.mem_range.mp member),
      Family.toNat_threadsPerCore positive fits]
  · intro k core a b fid indices given run
    obtain ⟨_, atStart, atStep⟩ := created k core
    obtain ⟨shown, _, _, left⟩ := run.indices
    have split : (families k).positions (first + k) (numThreads k) nThreads numCores =
        (List.range (a.family fid).nThreads.toNat).map
          (fun i => ((families k).threadsSkipped (first + k) nThreads numCores).toNat + i) := by
      rw [Family.positions, ← given.nThreads, List.range'_eq_map_range]
    refine ⟨?_, fun ended => ?_⟩
    · have part : indices.length ≤ (a.family fid).nThreads.toNat := by omega
      have initial : List.range indices.length <+: List.range (a.family fid).nThreads.toNat := by
        rw [← Nat.add_sub_cancel' part, List.range_add]
        exact List.prefix_append _ _
      have same : ((fun p => start + step * BitVec.ofNat (8 * t.sizeofInteger) p) ∘ fun i =>
            ((families k).threadsSkipped (first + k) nThreads numCores).toNat + i) =
          fun i => (a.family fid).start + (a.family fid).step * BitVec.ofNat (8 * t.sizeofInteger) i := by
        funext i
        rw [Function.comp_apply, given.start, given.step, Family.distribute_start, Family.distribute_step, atStart, atStep,
          BitVec.ofNat_add, BitVec.ofNat_toNat, BitVec.setWidth_eq, BitVec.mul_add, BitVec.add_assoc]
      have images := initial.map fun i => (a.family fid).start + (a.family fid).step * BitVec.ofNat (8 * t.sizeofInteger) i
      rw [← shown] at images
      rw [split, List.map_map, same]
      exact images
    · rw [Family.positions, List.length_range', ← given.nThreads, ← left, ended]
      simp

/-- A family on a place of four cores, with indices from 10 on in steps of 3. -/
def steppedFamily : Family .mtalpha := { Family.initial with placeSize := 4, start := 10, step := 3 }

theorem distribution_exact_seven :
    ((List.range 4).flatMap fun k => steppedFamily.positions (8 + k) 256 7 4) = List.range 7 :=
  (@distribution_exact .mtalpha 8 4 4 7 10 3 (by decide) (by decide) (by decide) (by decide) (fun _ => steppedFamily)
    (fun _ => 256) fun _ _ => ⟨rfl, rfl, rfl⟩).1

/-- It makes no difference that the first core of a place counts only the cores that run
threads, where the others count all cores of the place. -/
theorem restricted_cover {first placeSize numCores used : Nat} {nThreads : Integer t} (positive : 0 < numCores)
    (place : numCores ≤ placeSize) (aligned : placeSize ∣ first)
    (fits : nThreads.toNat + numCores < 2 ^ (8 * t.sizeofInteger)) (families : Nat → Family t) (numThreads : Nat → Nat)
    (created : ∀ k < used, (families k).placeSize = placeSize)
    (restricted : used = 1 ∨ used = max 1 (min nThreads.toNat numCores)) :
    (List.range used).flatMap (fun k => (families k).positions (first + k) (numThreads k) nThreads
      (if k = 0 then used else numCores)) = List.range nThreads.toNat := by
  have some_ : 0 < used := by omega
  have few : used ≤ numCores := by omega
  have same : used = 1 ∨ coreShare nThreads.toNat numCores = coreShare nThreads.toNat used := by
    refine restricted.imp_right fun count => ?_
    by_cases enough : numCores ≤ nThreads.toNat
    · rw [count, Nat.min_eq_right enough, Nat.max_eq_right positive]
    · have single : ∀ c, 0 < c → nThreads.toNat ≤ c → coreShare nThreads.toNat c = 1 := by
        intro c many less
        have quotient : (nThreads.toNat + c - 1) / c < 2 := Nat.div_lt_of_lt_mul (by omega)
        rw [coreShare]
        omega
      rw [single numCores positive (by omega), single used some_ (by omega)]
  have cover := shares_cover nThreads.toNat (coreShare nThreads.toNat used) used
  rw [Nat.min_eq_left (le_coreShare_mul _ some_)] at cover
  rw [← cover]
  refine List.flatMap_congr fun k member => ?_
  have core := List.mem_range.mp member
  have share : coreShare nThreads.toNat (if k = 0 then used else numCores) = coreShare nThreads.toNat used := by
    split
    · rfl
    · exact same.resolve_left (by omega)
  rw [Family.positions, Family.toNat_distribute_nThreads, Family.toNat_threadsSkipped ((created k core) ▸ aligned)
    (by split <;> omega) ((created k core) ▸ by split <;> omega) (by split <;> omega),
    Family.toNat_threadsPerCore (by split <;> omega) (by split <;> omega), share]

end Mgsim.Drisc
