import Mgsim.Drisc.RegisterWindows
import Mgsim.Drisc.ThreadCreation
import Mgsim.Lib.Handover

namespace Mgsim.Drisc
open Mgsim.Lib
variable {t : Target}

/-- The family has got its registers and has not created a thread yet. -/
structure Family.LaidOut (family : Family t) : Prop where
  idle : family.dependencies.numThreadsAllocated = 0
  registers : ∀ τ, (family.regs τ).LaidOut family.physBlockSize
  lastShareds : ∀ τ, (family.regs τ).lastShareds = (family.regs τ).base
  shareds : ∀ τ, 0 < (family.regs τ).count.shareds → family.hasShareds = true

/-- A type gets no registers only if none are asked for. -/
theorem RAUnit.TypeInfo.find_ok {LFID : Type} {type : TypeInfo LFID} {size : Nat} {context : ContextType} {found : Option Nat}
    (done : type.find size context = .ok found) : found = none ↔ size = 0 := by
  unfold find at done
  split at done
  · rename_i zero
    cases done
    exact iff_of_true rfl zero
  · rename_i positive
    dsimp only at done
    generalize (if context = .normal then type.free.normal else type.free.normal + 1) = free at done
    split at done
    · cases done
    · split at done
      · cases done
      · split at done <;> cases done
        exact iff_of_false nofun positive

theorem RAUnit.alloc_none {LFID : Type} {unit unit' : RAUnit LFID} {sizes : RegType → Nat} {fid : LFID} {context : ContextType}
    {indices : RegType → Option Nat} (done : unit.alloc sizes fid context = .ok (unit', indices)) (τ : RegType) :
    indices τ = none ↔ sizes τ = 0 := by
  unfold RAUnit.alloc at done
  split at done
  · cases done
  · rename_i found all
    split at done <;> cases done
    exact TypeInfo.find_ok (eachType_ok all τ)

theorem Family.LaidOut.carry {family family' : Family t} (laid : family.LaidOut) (same : family.SameRegisters family')
    (idle : family'.dependencies.numThreadsAllocated = 0) : family'.LaidOut := by
  refine ⟨idle, ?_, ?_, ?_⟩
  · rw [same.regs, same.physBlockSize]
    exact laid.registers
  · rw [same.regs]
    exact laid.lastShareds
  · rw [same.regs, same.hasShareds]
    exact laid.shareds

namespace Allocator
section Layout
variable {a a' : Allocator t} {fid : Nat}

/-- `AllocateRegisters` lays out the registers of a family without threads. -/
theorem allocateRegisters_laidOut {physBlockSize : Nat} {context : ContextType} (idle : a.Idle fid)
    (shareds : ∀ τ, 0 < ((a.family fid).regs τ).count.shareds → (a.family fid).hasShareds = true)
    (done : a.allocateRegisters fid context physBlockSize = .ok a') : (a'.family fid).LaidOut := by
  induction physBlockSize with
  | zero => cases done
  | succ physBlockSize ih =>
    dsimp only [allocateRegisters] at done
    split at done
    · rename_i raunit indices found
      cases done
      rw [family_setFamily_self]
      exact ⟨idle, fun τ => ⟨rfl, RAUnit.alloc_none found τ⟩, fun _ => rfl, shareds⟩
    · exact ih done
    · cases done

/-- The register counts of a program say whether its family has shareds. -/
theorem readCounts_shareds {loaded : RegType → RegsNo} (done : a.readCounts fid loaded = .ok a') (τ : RegType)
    (some : 0 < ((a'.family fid).regs τ).count.shareds) : (a'.family fid).hasShareds = true := by
  obtain ⟨_, rest⟩ := require_bind_ok done
  dsimp only at rest
  generalize (if (a.family fid).nThreads = 0 then fun _ => (⟨0, 0, 0⟩ : RegsNo) else loaded) = counts at rest
  cases rest
  change 0 < ((setFamily _ fid _).family fid |>.regs τ).count.shareds at some
  change ((setFamily _ fid _).family fid).hasShareds = true
  rw [family_setFamily_self] at some ⊢
  cases τ <;> simp_all

/-- A family with shareds does not leave its core: no create of it with registers goes over the link. -/
theorem restrictCores_numCores (shareds : (a.family fid).hasShareds = true) :
    ((a.restrictCores fid).family fid).numCores = 1 := by
  change ((setFamily _ fid _).family fid).numCores = 1
  rw [family_setFamily_self, if_pos (Or.inr shareds)]

/-- The create of this core lays out the registers of its family. -/
theorem doFamilyCreate_laidOut {hit : Bool} {loaded : RegType → RegsNo} {info : CreateInfo t}
    (done : a.doFamilyCreate hit loaded = .ok a') (front : a.creates.front? = some info)
    (state : a.createState = .allocatingRegisters) (idle : a.Idle info.fid)
    (shareds : ∀ τ, 0 < ((a.family info.fid).regs τ).count.shareds → (a.family info.fid).hasShareds = true) :
    (a'.family info.fid).LaidOut := by
  dsimp only [doFamilyCreate] at done
  obtain ⟨⟨served, creates⟩, taken, rest⟩ := bind_ok done
  have same := (Buffer.take?_eq_some (orElse_ok taken)).2
  rw [front] at same
  cases same
  rw [state] at rest
  obtain ⟨b, allocated, rest⟩ := bind_ok rest
  have laid : (b.family info.fid).LaidOut := allocateRegisters_laidOut idle shareds allocated
  cases rest
  exact laid

/-- And so does a create that comes over the link, for a family without shareds. -/
theorem queueLinkCreate_laidOut {numCores : Nat} {address : BitVec 64} {regs : RegType → RegsNo} (idle : a.Idle fid)
    (shareds : ∀ τ, (regs τ).shareds = 0) (done : a.queueLinkCreate fid numCores address regs = .ok a') :
    (a'.family fid).LaidOut := by
  have count := ((queueLinkCreate_carries done idle).families fid).count.trans idle
  dsimp only [queueLinkCreate] at done
  obtain ⟨nThreads, _, rest⟩ := bind_ok done
  obtain ⟨b, allocated, rest⟩ := bind_ok rest
  obtain ⟨c, activated, rest⟩ := bind_ok rest
  cases rest
  have laid : (b.family fid).LaidOut := by
    refine allocateRegisters_laidOut ?_ (fun τ some => ?_) allocated
    · rw [Idle, family_setFamily_self]
      exact idle
    · rw [family_setFamily_self] at some
      have some : 0 < (regs τ).shareds := some
      rw [shareds τ] at some
      exact absurd some (Nat.lt_irrefl 0)
  exact laid.carry ((activateFamily_registers activated).trans (forwardCreate_registers _)) count

/-- The family of the program has no shareds. -/
theorem allocateInitialFamily_laidOut {pc : BitVec 64} {placeSize capability : Nat} {startIndex : Integer t}
    (done : a.allocateInitialFamily pc placeSize startIndex capability = .ok a') : ∃ fid, (a'.family fid).LaidOut := by
  dsimp only [allocateInitialFamily] at done
  obtain ⟨⟨fid, familyTable⟩, _, rest⟩ := bind_ok done
  obtain ⟨b, registers, rest⟩ := bind_ok rest
  obtain ⟨threadTable, _, rest⟩ := bind_ok rest
  obtain ⟨alloc, _, rest⟩ := bind_ok rest
  cases rest
  have laid : (b.family fid).LaidOut := by
    refine allocateRegisters_laidOut ?_ (fun τ some => ?_) registers
    · rw [Idle, family_setFamily_self]
      rfl
    · rw [family_setFamily_self] at some
      exact absurd some (Nat.lt_irrefl 0)
  exact ⟨fid, laid⟩

end Layout
end Allocator

/-- The number of rows that the threads of the family use, with the initial shareds in front. -/
def Family.rows (family : Family t) : Nat :=
  if family.dependencies.allocationDone then family.physBlockSize else family.dependencies.numThreadsAllocated

/-- The shareds of the threads, the one that is cleaned up first in front, and before them the
dependents of that one, have different rows; each thread has those of the thread before it as dependents. -/
structure Rotates (threads : Nat → Thread t) (family : Family t) (tids slots : List Nat) : Prop where
  line : Handover (fun tid slot => ∀ τ, ((threads tid).regs τ).dependents = (family.regs τ).slot slot)
    (fun tid slot => ∀ τ, ((threads tid).regs τ).shareds = (family.regs τ).slot slot) tids slots
  distinct : slots.Nodup
  bound : ∀ slot ∈ slots, slot ≤ family.rows
  last : ∃ slot, slots.getLast? = some slot ∧ ∀ τ, (family.regs τ).lastShareds = (family.regs τ).slot slot

/-- The threads of the family are in contexts of their own, and their shareds rotate. -/
structure Windowed (threads : Nat → Thread t) (family : Family t) (tids : List Nat) : Prop where
  registers : ∀ τ, (family.regs τ).LaidOut family.physBlockSize
  shareds : ∀ τ, 0 < (family.regs τ).count.shareds → family.hasShareds = true
  contexts : ∃ context : Nat → Nat,
    (∀ tid ∈ tids, context tid < family.rows ∧ ∀ τ, ((threads tid).regs τ).InContext (family.regs τ) (context tid)) ∧
    ∀ x ∈ tids, ∀ y ∈ tids, context x = context y → x = y
  rotates : family.hasShareds = true → ∃ slots, Rotates threads family tids slots

namespace Windowed
variable {threads : Nat → Thread t} {family : Family t}

theorem start (laid : family.LaidOut) : Windowed threads family [] := by
  refine ⟨laid.registers, laid.shareds, ⟨id, nofun, nofun⟩, fun _ => ⟨[0], .start 0, List.nodup_singleton 0, ?_, 0, rfl, ?_⟩⟩
  · intro slot member
    rw [List.mem_singleton.mp member]
    exact Nat.zero_le _
  · intro τ
    rw [laid.lastShareds, FamilyRegs.slot]
    simp

end Windowed

section Rows
variable {threads threads' : Nat → Thread t} {family family' : Family t} {fid : Nat} {tids tids' : List Nat}

theorem Runs.rows_eq (runs : Runs threads fid family tids) (unfinished : family.dependencies.allocationDone = false) :
    family.rows = tids.length := by
  rw [Family.rows, unfinished, if_neg Bool.false_ne_true, runs.count]

theorem Runs.le_rows (runs : Runs threads fid family tids) : tids.length ≤ family.rows := by
  cases finished : family.dependencies.allocationDone with
  | true =>
    rw [Family.rows, finished, if_pos rfl]
    exact runs.fits
  | false => exact (runs.rows_eq finished).ge

/-- The rows become more with the threads, and stay once all threads have been created. -/
theorem Runs.rows_le (runs : Runs threads fid family tids) (runs' : Runs threads' fid family' tids')
    (more : family.dependencies.allocationDone = false → tids.length ≤ tids'.length)
    (block : family'.physBlockSize = family.physBlockSize)
    (unfinished : family'.dependencies.allocationDone = false → family.dependencies.allocationDone = false) :
    family.rows ≤ family'.rows := by
  cases finished : family.dependencies.allocationDone with
  | true =>
    have finished' : family'.dependencies.allocationDone = true := by
      refine Bool.eq_true_of_not_eq_false fun before => ?_
      rw [unfinished before] at finished
      cases finished
    rw [Family.rows, Family.rows, finished, finished', if_pos rfl, if_pos rfl, block]
  | false =>
    rw [runs.rows_eq finished]
    exact (more finished).trans runs'.le_rows

end Rows

section NewThread
variable {family : Family t} {old : Thread t} {τ : RegType}

/-- A new thread is in the first context that has not been used. -/
theorem threadRegs_new : (Allocator.threadRegs family old true τ).InContext (family.regs τ) family.dependencies.numThreadsAllocated := by
  rw [ThreadRegs.InContext, FamilyRegs.slot, Option.map_map]
  rfl

theorem threadRegs_new_shareds : (Allocator.threadRegs family old true τ).shareds =
    (family.regs τ).slot (family.dependencies.numThreadsAllocated + 1) := by
  rw [FamilyRegs.slot, Nat.add_mul, Nat.one_mul]
  cases base : (family.regs τ).base with
  | none => simp [Allocator.threadRegs, base]
  | some first =>
    simp only [Allocator.threadRegs, base, Option.map_some, if_pos]
    congr 1
    omega

end NewThread

theorem Allocator.Creates.slot {a a' : Allocator t} {fid tid : Nat} {isNew : Bool} {rest : List Nat}
    (creates : Allocator.Creates fid tid isNew rest a a') (τ : RegType) (row : Nat) :
    ((a'.family fid).regs τ).slot row = ((a.family fid).regs τ).slot row := by
  rw [creates.regs]
  rfl

namespace Windowed
variable {a a' : Allocator t} {fid tid : Nat} {tids : List Nat}

/-- A step that does not touch the threads of the family keeps their windows. -/
theorem quiet (windowed : Windowed a.threadTable.threads (a.family fid) tids)
    (runs : Runs a.threadTable.threads fid (a.family fid) tids) (quiet : Allocator.Quiet fid a a') :
    Windowed a'.threadTable.threads (a'.family fid) tids := by
  obtain ⟨registers, shareds, ⟨context, inContext, apart⟩, rotates⟩ := windowed
  have same := quiet.registers
  have kept : ∀ tid ∈ tids, (a'.threadTable.threads tid).regs = (a.threadTable.threads tid).regs := by
    intro tid member
    obtain ⟨live, owner⟩ := (runs.members tid).mp member
    exact quiet.regs tid live owner
  have rows := runs.rows_le (quiet.runs tids runs) (fun _ => Nat.le_refl _) same.physBlockSize same.unfinished
  refine ⟨?_, ?_, ⟨context, fun tid member => ?_, apart⟩, fun has => ?_⟩
  · rw [same.regs, same.physBlockSize]
    exact registers
  · rw [same.regs, same.hasShareds]
    exact shareds
  · rw [kept tid member, same.regs]
    exact ⟨(inContext tid member).1.trans_le rows, (inContext tid member).2⟩
  · obtain ⟨slots, line, distinct, bound, last⟩ := rotates (same.hasShareds ▸ has)
    refine ⟨slots, ?_, distinct, fun slot member => (bound slot member).trans rows, by rw [same.regs]; exact last⟩
    rw [same.regs]
    refine line.congr (fun tid member slot => ?_) fun tid member slot => ?_
    · rw [kept tid member]
      exact id
    · rw [kept tid member]
      exact id

/-- A new thread is put behind the others, with the rows that have not been used. -/
theorem starts (windowed : Windowed a.threadTable.threads (a.family fid) tids)
    (runs : Runs a.threadTable.threads fid (a.family fid) tids) (fresh : tid ∉ tids)
    (creates : Allocator.Creates fid tid true tids a a') :
    Windowed a'.threadTable.threads (a'.family fid) (tids ++ [tid]) := by
  obtain ⟨registers, shareds, ⟨context, inContext, apart⟩, rotates⟩ := windowed
  have rows := runs.rows_eq creates.unfinished
  have rows' := creates.runs.le_rows
  rw [List.length_append, List.length_singleton] at rows'
  have others : ∀ other ∈ tids, (a'.threadTable.threads other).regs = (a.threadTable.threads other).regs := creates.others
  have self : (a'.threadTable.threads tid).regs = Allocator.threadRegs (a.family fid) (a.thread tid) true := creates.self
  have count := runs.count
  refine ⟨fun τ => ?_, fun τ => ?_, ⟨Function.update context tid tids.length, ?_, ?_⟩, fun has => ?_⟩
  · rw [creates.regs, creates.physBlockSize]
    exact ⟨(registers τ).size, (registers τ).base⟩
  · rw [creates.regs, creates.hasShareds]
    exact shareds τ
  · intro other member
    rcases List.mem_append.mp member with before | new
    · have different : other ≠ tid := fun same => fresh (same ▸ before)
      rw [Function.update_of_ne different, others other before]
      refine ⟨by have used := (inContext other before).1; omega, fun τ => ?_⟩
      rw [creates.regs]
      exact (inContext other before).2 τ
    · rw [List.mem_singleton.mp new, Function.update_self, self]
      refine ⟨by omega, fun τ => ?_⟩
      rw [creates.regs, count]
      exact threadRegs_new
  · have used : ∀ x ∈ tids, x ≠ tid ∧ context x ≠ tids.length := fun x member =>
      ⟨fun same => fresh (same ▸ member), by have bound := (inContext x member).1; omega⟩
    intro x inX y inY same
    rcases List.mem_append.mp inX with before | new <;> rcases List.mem_append.mp inY with before' | new'
    · rw [Function.update_of_ne (used x before).1, Function.update_of_ne (used y before').1] at same
      exact apart x before y before' same
    · rw [List.mem_singleton.mp new', Function.update_of_ne (used x before).1, Function.update_self] at same
      exact absurd same (used x before).2
    · rw [List.mem_singleton.mp new, Function.update_of_ne (used y before').1, Function.update_self] at same
      exact absurd same.symm (used y before').2
    · rw [List.mem_singleton.mp new, List.mem_singleton.mp new']
  · obtain ⟨slots, line, distinct, bound, last, atLast, lastShareds⟩ := rotates (creates.hasShareds ▸ has)
    simp only [← creates.slot] at line
    refine ⟨slots ++ [tids.length + 1], ?_, ?_, ?_, tids.length + 1, List.getLast?_concat, fun τ => ?_⟩
    · refine Handover.join (line.congr ?_ ?_) atLast (fun τ => ?_) (fun τ => ?_)
      · intro other member slot
        rw [others other member]
        exact id
      · intro other member slot
        rw [others other member]
        exact id
      · rw [self, creates.slot]
        exact lastShareds τ
      · rw [self, creates.slot, count]
        exact threadRegs_new_shareds
    · rw [← List.concat_eq_append]
      exact distinct.concat fun member => by have used := bound _ member; omega
    · intro slot member
      rcases List.mem_append.mp member with before | new
      · have used := bound slot before
        omega
      · rw [List.mem_singleton.mp new]
        omega
    · rw [creates.slot, creates.regs, count]
      exact @threadRegs_new_shareds t (a.family fid) (a.thread tid) τ

/-- The thread that is cleaned up first goes behind the others. It takes the row of its
dependents for its shareds, and the next one's dependents are in the row that it leaves. -/
theorem recycles (windowed : Windowed a.threadTable.threads (a.family fid) tids)
    (runs : Runs a.threadTable.threads fid (a.family fid) tids) (member : tid ∈ tids)
    (head : (a.family fid).hasShareds = true → tids.head? = some tid)
    (creates : Allocator.Creates fid tid false (tids.erase tid) a a') :
    Windowed a'.threadTable.threads (a'.family fid) (tids.erase tid ++ [tid]) := by
  obtain ⟨registers, shareds, ⟨context, inContext, apart⟩, rotates⟩ := windowed
  have rows := runs.rows_eq creates.unfinished
  have rows' := creates.runs.le_rows
  rw [List.length_append, List.length_singleton, Allocator.length_erase_add_one member] at rows'
  have others : ∀ other ∈ tids.erase tid, (a'.threadTable.threads other).regs = (a.threadTable.threads other).regs :=
    creates.others
  have self : (a'.threadTable.threads tid).regs = Allocator.threadRegs (a.family fid) (a.thread tid) false := creates.self
  have before : ∀ other ∈ tids.erase tid ++ [tid], other ∈ tids := by
    intro other inside
    rcases List.mem_append.mp inside with old | new
    · exact List.mem_of_mem_erase old
    · exact List.mem_singleton.mp new ▸ member
  refine ⟨fun τ => ?_, fun τ => ?_, ⟨context, ?_, ?_⟩, fun has => ?_⟩
  · rw [creates.regs, creates.physBlockSize]
    exact ⟨(registers τ).size, (registers τ).base⟩
  · rw [creates.regs, creates.hasShareds]
    exact shareds τ
  · intro other inside
    refine ⟨by have used := (inContext other (before other inside)).1; omega, fun τ => ?_⟩
    rw [creates.regs]
    rcases List.mem_append.mp inside with old | new
    · rw [others other old]
      exact (inContext other (before other inside)).2 τ
    · rw [List.mem_singleton.mp new, self]
      exact (inContext tid member).2 τ
  · exact fun x inX y inY => apart x (before x inX) y (before y inY)
  · obtain ⟨slots, line, distinct, bound, last, atLast, lastShareds⟩ := rotates (creates.hasShareds ▸ has)
    obtain ⟨rest, rfl⟩ := List.head?_eq_some_iff.mp (head (creates.hasShareds ▸ has))
    rw [List.erase_cons_head] at others ⊢
    simp only [← creates.slot] at line
    obtain ⟨slot, more, rfl, front, line⟩ := line.leave
    have atEnd : more.getLast? = some last := by
      obtain ⟨next, later, rfl⟩ := List.exists_cons_of_ne_nil line.ne_nil
      rwa [List.getLast?_cons_cons] at atLast
    obtain ⟨absent, distinct⟩ := List.nodup_cons.mp distinct
    refine ⟨more ++ [slot], ?_, ?_, ?_, slot, List.getLast?_concat, fun τ => ?_⟩
    · refine Handover.join (line.congr ?_ ?_) atEnd (fun τ => ?_) (fun τ => ?_)
      · intro other inside slot
        rw [others other inside]
        exact id
      · intro other inside slot
        rw [others other inside]
        exact id
      · rw [self, creates.slot]
        exact lastShareds τ
      · rw [self]
        exact front τ
    · rw [← List.concat_eq_append]
      exact distinct.concat absent
    · intro other inside
      have used : other ≤ (a.family fid).rows := by
        rcases List.mem_append.mp inside with old | new
        · exact bound other (List.mem_cons_of_mem _ old)
        · exact List.mem_singleton.mp new ▸ bound slot List.mem_cons_self
      omega
    · rw [← front τ, creates.regs]
      rfl

/-- A thread is cleaned up after the last one has been created. -/
theorem frees (windowed : Windowed a.threadTable.threads (a.family fid) tids)
    (runs : Runs a.threadTable.threads fid (a.family fid) tids)
    (head : (a.family fid).hasShareds = true → tids.head? = some tid) (frees : Allocator.Frees fid tid tids a a') :
    Windowed a'.threadTable.threads (a'.family fid) (tids.erase tid) := by
  obtain ⟨registers, shareds, ⟨context, inContext, apart⟩, rotates⟩ := windowed
  have same := frees.registers
  have regs : ∀ other, (a'.threadTable.threads other).regs = (a.threadTable.threads other).regs := frees.regs
  have finished : (a.family fid).dependencies.allocationDone = false →
      tids.length ≤ (tids.erase tid).length := by
    rw [frees.finished]
    exact nofun
  have rows := runs.rows_le frees.runs finished same.physBlockSize same.unfinished
  refine ⟨?_, ?_, ⟨context, fun other inside => ?_, fun x inX y inY => ?_⟩, fun has => ?_⟩
  · rw [same.regs, same.physBlockSize]
    exact registers
  · rw [same.regs, same.hasShareds]
    exact shareds
  · have used := inContext other (List.mem_of_mem_erase inside)
    rw [regs, same.regs]
    exact ⟨used.1.trans_le rows, used.2⟩
  · exact apart x (List.mem_of_mem_erase inX) y (List.mem_of_mem_erase inY)
  · obtain ⟨slots, line, distinct, bound, last, atLast, lastShareds⟩ := rotates (same.hasShareds ▸ has)
    obtain ⟨rest, rfl⟩ := List.head?_eq_some_iff.mp (head (same.hasShareds ▸ has))
    obtain ⟨slot, more, rfl, _, line⟩ := line.leave
    rw [List.erase_cons_head]
    have atEnd : more.getLast? = some last := by
      obtain ⟨next, later, rfl⟩ := List.exists_cons_of_ne_nil line.ne_nil
      rwa [List.getLast?_cons_cons] at atLast
    refine ⟨more, ?_, (List.nodup_cons.mp distinct).2, fun slot inside => ?_, last, atEnd, ?_⟩
    · rw [same.regs]
      simp only [← regs] at line
      exact line
    · exact (bound slot (List.mem_cons_of_mem _ inside)).trans rows
    · rw [same.regs]
      exact lastShareds

end Windowed
end Mgsim.Drisc
