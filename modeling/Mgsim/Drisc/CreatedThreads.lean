import Mgsim.Drisc.WindowRotation

namespace Mgsim.Drisc
open Mgsim.Lib
variable {t : Target}

/-- A thread that a family has created: its entry, and the registers that it got. -/
structure Creation where
  tid : Nat
  regs : RegType → ThreadRegs

/-- An allocator, with the threads that one of its families has created since it got its registers. -/
structure Watched (t : Target) where
  allocator : Allocator t
  created : List Creation

/-- A step of the allocator, which reads no history. -/
def Watched.step (fid : Nat) (s : Watched t) (event : AllocatorEvent t) : Option (Watched t) := do
  let allocator ← s.allocator.step event
  let placed := if event.allocatesThread then s.allocator.placedIn fid else none
  pure ⟨allocator, s.created ++ placed.toList.map fun tid => ⟨tid, (allocator.thread tid).regs⟩⟩

/-- The created threads hand their shareds on, from the first one, which has the initial shareds as
dependents, to the last one. The threads `tids` have the registers with which they were created last. -/
structure Recorded (threads : Nat → Thread t) (family : Family t) (tids : List Nat) (created : List Creation) : Prop where
  line : ∃ slots : List (RegType → Option Nat),
    Handover (fun creation slot => ∀ τ, (creation.regs τ).dependents = slot τ)
      (fun creation slot => ∀ τ, (creation.regs τ).shareds = slot τ) created slots ∧
    slots.head? = some (fun τ => (family.regs τ).base) ∧ slots.getLast? = some fun τ => (family.regs τ).lastShareds
  current : ∀ tid ∈ tids, ∃ earlier later, created = earlier ++ ⟨tid, (threads tid).regs⟩ :: later ∧
    ∀ creation ∈ later, creation.tid ≠ tid

namespace Recorded
variable {threads threads' : Nat → Thread t} {family family' : Family t} {tids tids' : List Nat} {created : List Creation}

theorem start (laid : family.LaidOut) : Recorded threads family [] [] := by
  refine ⟨⟨[fun τ => (family.regs τ).base], .start _, rfl, ?_⟩, nofun⟩
  simp [laid.lastShareds]

theorem carry (recorded : Recorded threads family tids created) (regs : family'.regs = family.regs)
    (fewer : ∀ tid ∈ tids', tid ∈ tids ∧ (threads' tid).regs = (threads tid).regs) :
    Recorded threads' family' tids' created := by
  refine ⟨by rw [regs]; exact recorded.line, fun tid member => ?_⟩
  rw [(fewer tid member).2]
  exact recorded.current tid (fewer tid member).1

/-- A thread is created in the entry `tid`; the others in the block are `rest`. -/
theorem create {a a' : Allocator t} {fid tid : Nat} {isNew : Bool} {rest : List Nat}
    (recorded : Recorded a.threadTable.threads (a.family fid) tids created)
    (creates : Allocator.Creates fid tid isNew rest a a') (fewer : ∀ other ∈ rest, other ∈ tids) (fresh : tid ∉ rest) :
    Recorded a'.threadTable.threads (a'.family fid) (rest ++ [tid]) (created ++ [⟨tid, (a'.thread tid).regs⟩]) := by
  obtain ⟨slots, line, first, last⟩ := recorded.line
  have self : (a'.thread tid).regs = Allocator.threadRegs (a.family fid) (a.thread tid) isNew := creates.self
  refine ⟨⟨slots ++ [fun τ => ((a'.thread tid).regs τ).shareds], ?_, ?_, ?_⟩, fun other member => ?_⟩
  · refine line.join last (fun τ => ?_) fun τ => rfl
    rw [self]
    cases isNew <;> rfl
  · rw [List.head?_append_of_ne_nil _ line.ne_nil, first]
    congr 1
    funext τ
    rw [creates.regs]
  · rw [List.getLast?_concat]
    congr 1
    funext τ
    rw [creates.regs, self]
  · rcases List.mem_append.mp member with before | new
    · obtain ⟨earlier, later, split, none⟩ := recorded.current other (fewer other before)
      refine ⟨earlier, later ++ [⟨tid, (a'.thread tid).regs⟩], ?_, fun creation inside => ?_⟩
      · rw [show (a'.threadTable.threads other).regs = (a.threadTable.threads other).regs from creates.others other before,
          split, List.append_assoc, List.cons_append]
      · rcases List.mem_append.mp inside with old | added
        · exact none creation old
        · have different : other ≠ tid := fun same => fresh (same ▸ before)
          rw [List.mem_singleton.mp added]
          exact different.symm
    · rw [List.mem_singleton.mp new]
      exact ⟨created, [], rfl, nofun⟩

end Recorded

/-- The threads of the watched family have their windows, and are on record. -/
structure Watched.Ok (fid : Nat) (s : Watched t) : Prop where
  managed : s.allocator.Managed
  windows : ∃ tids, Runs s.allocator.threadTable.threads fid (s.allocator.family fid) tids ∧
    Windowed s.allocator.threadTable.threads (s.allocator.family fid) tids ∧
    Recorded s.allocator.threadTable.threads (s.allocator.family fid) tids s.created

/-- The order of the life cycle is kept, and the watched family is not set up again. -/
def Watched.Keeps (fid : Nat) (s : Watched t) (event : AllocatorEvent t) : Prop :=
  s.allocator.KeepsOrder event ∧ s.allocator.LeavesAlone fid event

namespace Watched
variable {fid : Nat} {s s' : Watched t} {event : AllocatorEvent t}

theorem step_eq (taken : step fid s event = some s') : s.allocator.perform event = .ok s'.allocator ∧
    s'.created = s.created ++ (if event.allocatesThread then s.allocator.placedIn fid else none).toList.map
      fun tid => ⟨tid, (s'.allocator.thread tid).regs⟩ := by
  obtain ⟨allocator, done, rest⟩ := Option.bind_eq_some_iff.mp taken
  cases rest
  exact ⟨toOption_eq_some done, rfl⟩

theorem Ok.step (ok : s.Ok fid) (keeps : Keeps fid s event) (taken : Watched.step fid s event = some s') : s'.Ok fid := by
  obtain ⟨managed, tids, runs, windowed, recorded⟩ := ok
  obtain ⟨ordered, alone⟩ := keeps
  obtain ⟨done, created⟩ := step_eq taken
  refine ⟨managed.perform ordered done, ?_⟩
  cases allocates : event.allocatesThread with
  | false =>
    have quiet := managed.quiet ordered.1 alone allocates done
    rw [allocates] at created
    rw [created]
    refine ⟨tids, quiet.runs tids runs, windowed.quiet runs quiet, ?_⟩
    rw [if_neg Bool.false_ne_true, Option.toList_none, List.map_nil, List.append_nil]
    refine recorded.carry quiet.registers.regs fun tid member => ⟨member, ?_⟩
    obtain ⟨live, owner⟩ := (runs.members tid).mp member
    exact quiet.regs tid live owner
  | true =>
    have served : s.allocator.doThreadAllocate = .ok s'.allocator := by
      cases event with
      | threadAllocate => exact done
      | _ => cases allocates
    rw [allocates, if_pos rfl] at created
    have effect := managed.allocationStep (ordered.2 allocates) served runs
    rw [created]
    generalize s.allocator.placedIn fid = placed at effect
    cases effect with
    | quiet quiet =>
      refine ⟨tids, quiet.runs tids runs, windowed.quiet runs quiet, ?_⟩
      rw [Option.toList_none, List.map_nil, List.append_nil]
      refine recorded.carry quiet.registers.regs fun tid member => ⟨member, ?_⟩
      obtain ⟨live, owner⟩ := (runs.members tid).mp member
      exact quiet.regs tid live owner
    | frees member head frees =>
      refine ⟨_, frees.runs, windowed.frees runs head frees, ?_⟩
      rw [Option.toList_none, List.map_nil, List.append_nil]
      exact recorded.carry frees.registers.regs fun tid inside => ⟨List.mem_of_mem_erase inside, frees.regs tid⟩
    | starts fresh creates =>
      exact ⟨_, creates.runs, windowed.starts runs fresh creates, recorded.create creates (fun _ => id) fresh⟩
    | recycles member head creates =>
      refine ⟨_, creates.runs, windowed.recycles runs member head creates, recorded.create creates ?_ ?_⟩
      · exact fun other inside => List.mem_of_mem_erase inside
      · exact fun inside => ((runs.nodup.mem_erase_iff).mp inside).1 rfl

theorem Ok.start {a : Allocator t} (managed : a.Managed) (laid : (a.family fid).LaidOut) : Ok fid ⟨a, []⟩ := by
  obtain ⟨tids, runs⟩ := managed.runs fid
  have none : tids = [] := List.length_eq_zero_iff.mp (runs.count.trans laid.idle)
  subst none
  exact ⟨managed, [], runs, .start laid, .start laid⟩

end Watched

namespace Windowed
variable {threads : Nat → Thread t} {family : Family t} {fid tid : Nat} {tids : List Nat} {τ : RegType}

theorem rows_le_block (runs : Runs threads fid family tids) : family.rows ≤ family.physBlockSize := by
  unfold Family.rows
  split
  · exact Nat.le_refl _
  · exact runs.count ▸ runs.fits

/-- There are registers for every class that has some. -/
theorem base_ne_none (windowed : Windowed threads family tids) (runs : Runs threads fid family tids) (member : tid ∈ tids)
    {rc : RegClass} (some : 0 < (family.regs τ).count.ofClass rc) : (family.regs τ).base ≠ none := by
  obtain ⟨context, inContext, _⟩ := windowed.contexts
  have block : 1 ≤ family.physBlockSize := (Nat.zero_lt_of_lt (inContext tid member).1).trans_le (rows_le_block runs)
  have laid := windowed.registers τ
  intro none
  have empty := laid.base.mp none
  rw [laid.size] at empty
  have threadRegisters : (family.regs τ).count.locals + (family.regs τ).count.shareds ≤
      ((family.regs τ).count.locals + (family.regs τ).count.shareds) * family.physBlockSize := Nat.le_mul_of_pos_right _ block
  cases rc <;> simp only [RegsNo.ofClass] at some <;> omega

theorem slot_ne_none {regs : FamilyRegs} {row : Nat} (valid : regs.base ≠ none) : regs.slot row ≠ none := by
  rw [FamilyRegs.slot]
  exact fun none => valid (Option.map_eq_none_iff.mp none)

theorem first_ne_none (windowed : Windowed threads family tids) (runs : Runs threads fid family tids) (member : tid ∈ tids)
    {rc : RegClass} (some : 0 < (family.regs τ).count.ofClass rc) :
    rc.first (family.regs τ) ((threads tid).regs τ) ≠ none := by
  have valid := windowed.base_ne_none runs member some
  cases rc with
  | global => exact fun none => valid (Option.map_eq_none_iff.mp none)
  | shared =>
    obtain ⟨slots, rotates⟩ := windowed.rotates (windowed.shareds τ some)
    obtain ⟨slot, _, atSlot⟩ := rotates.line.exists_back member
    rw [RegClass.first, atSlot τ]
    exact slot_ne_none valid
  | «local» =>
    obtain ⟨context, inContext, _⟩ := windowed.contexts
    rw [RegClass.first, (inContext tid member).2 τ]
    exact fun none => slot_ne_none valid (Option.map_eq_none_iff.mp none)
  | dependent =>
    obtain ⟨slots, rotates⟩ := windowed.rotates (windowed.shareds τ some)
    obtain ⟨slot, _, atSlot⟩ := rotates.line.exists_front member
    rw [RegClass.first, atSlot τ]
    exact slot_ne_none valid
  | raz => exact absurd some (Nat.lt_irrefl 0)

end Windowed

namespace Allocator

/-- The family has a thread in the entry that has not been cleaned up. -/
def Holds (a : Allocator t) (fid tid : Nat) : Prop := (a.thread tid).state ≠ .empty ∧ (a.thread tid).family = fid

/-- The register windows of a family that has created the threads `created`. -/
structure RegisterWindows (a : Allocator t) (fid : Nat) (created : List Creation) : Prop where
  disjoint : ∀ τ x y, a.Holds fid x → a.Holds fid y → x ≠ y →
    Disjoint (((a.thread x).regs τ).ownRegisters ((a.family fid).regs τ).count)
      (((a.thread y).regs τ).ownRegisters ((a.family fid).regs τ).count)
  apart : ∀ τ x, a.Holds fid x → Disjoint (RegClass.local.registers ((a.family fid).regs τ) ((a.thread x).regs τ))
    (RegClass.shared.registers ((a.family fid).regs τ) ((a.thread x).regs τ))
  inside : ∀ τ x, a.Holds fid x → ((a.thread x).regs τ).ownRegisters ((a.family fid).regs τ).count ⊆
    window ((a.family fid).regs τ).base ((a.family fid).regs τ).size
  below : ∀ τ x, a.Holds fid x → ∀ r ∈ ((a.thread x).regs τ).ownRegisters ((a.family fid).regs τ).count,
    ∀ g ∈ RegClass.global.registers ((a.family fid).regs τ) ((a.thread x).regs τ), r < g
  current : ∀ x, a.Holds fid x → ∃ earlier later, created = earlier ++ ⟨x, (a.thread x).regs⟩ :: later ∧
    ∀ creation ∈ later, creation.tid ≠ x
  first : ∀ creation ∈ created.head?, ∀ τ, (creation.regs τ).dependents = ((a.family fid).regs τ).base
  handed : created.IsChain fun earlier later => ∀ τ, (later.regs τ).dependents = (earlier.regs τ).shareds
  operands : ∀ τ x, a.Holds fid x → ∀ reg size index islocal, size / t.sizeofInteger ≠ 0 →
    translateRegister t ((a.family fid).regs τ) ((a.thread x).regs τ) reg τ size = .ok (index, islocal) →
    ∃ rc r, getRegisterClass t τ ((a.family fid).regs τ).count reg = .ok (rc, r) ∧ (islocal = true ↔ rc = .local) ∧
      (rc = .raz → index = none) ∧ (rc ≠ .raz → ∃ first, index = some first ∧
        ∀ i < size / t.sizeofInteger, first + i ∈ rc.registers ((a.family fid).regs τ) ((a.thread x).regs τ))
  globals : ∀ τ x, a.Holds fid x → a.Reaches fid .global τ ((a.thread x).regs τ)
  firstDependents : ∀ creation ∈ created.head?, ∀ τ, a.Reaches fid .firstDependent τ (creation.regs τ)
  lastShareds : ∀ creation ∈ created.getLast?, ∀ τ, a.Reaches fid .lastShared τ (creation.regs τ)

end Allocator

theorem mem_global {family : FamilyRegs} {thread : ThreadRegs} {g : Nat} (member : g ∈ RegClass.global.registers family thread) :
    ∃ base, family.base = some base ∧ base + family.size - family.count.globals ≤ g := by
  obtain ⟨first, found, lower, _⟩ := mem_window.mp member
  obtain ⟨base, atBase, rfl⟩ := Option.map_eq_some_iff.mp found
  exact ⟨base, atBase, lower⟩

namespace Watched
variable {fid : Nat} {s : Watched t}

theorem Ok.registerWindows (ok : s.Ok fid) : s.allocator.RegisterWindows fid s.created := by
  obtain ⟨managed, tids, runs, windowed, recorded⟩ := ok
  have member : ∀ {x}, s.allocator.Holds fid x → x ∈ tids := fun holds => (runs.members _).mpr holds
  obtain ⟨context, inContext, apart⟩ := windowed.contexts
  have rows := Windowed.rows_le_block runs
  have below : ∀ τ x, s.allocator.Holds fid x → ((s.allocator.thread x).regs τ).ownRegisters
      ((s.allocator.family fid).regs τ).count ⊆ ((s.allocator.family fid).regs τ).belowGlobals := by
    intro τ x holds
    have own := inContext x (member holds)
    refine ThreadRegs.ownRegisters_below (windowed.registers τ) (own.2 τ) (own.1.trans_le rows) fun some => ?_
    obtain ⟨slots, rotates⟩ := windowed.rotates (windowed.shareds τ some)
    obtain ⟨slot, inside, atSlot⟩ := rotates.line.exists_back (member holds)
    exact ⟨slot, (rotates.bound slot inside).trans rows, atSlot τ⟩
  obtain ⟨slots, line, first, last⟩ := recorded.line
  constructor
  case disjoint =>
    intro τ x y holdsX holdsY different
    have inX := member holdsX
    have inY := member holdsY
    refine ThreadRegs.ownRegisters_disjoint ((inContext x inX).2 τ) ((inContext y inY).2 τ)
      (fun same => different (apart x inX y inY same)) fun some => ?_
    obtain ⟨slots, rotates⟩ := windowed.rotates (windowed.shareds τ some)
    obtain ⟨slot, _, slot', _, distinct, atX, atY⟩ := rotates.line.apart rotates.distinct inX inY different
    exact ⟨slot, slot', distinct, atX τ, atY τ⟩
  case apart =>
    intro τ x holds
    refine Finset.disjoint_left.mpr fun r inLocals inShareds => ?_
    obtain ⟨base, place, found, lower, inside, rfl⟩ := ((inContext x (member holds)).2 τ).mem inLocals
    have some : 0 < ((s.allocator.family fid).regs τ).count.shareds := by
      obtain ⟨_, _, bottom, top⟩ := mem_window.mp inShareds
      simp only [RegsNo.ofClass] at top
      omega
    obtain ⟨slots, rotates⟩ := windowed.rotates (windowed.shareds τ some)
    obtain ⟨slot, _, atSlot⟩ := rotates.line.exists_back (member holds)
    obtain ⟨base', place', found', inside', same⟩ := ThreadRegs.mem_shareds (atSlot τ) inShareds
    cases found.symm.trans found'
    have places := (FamilyRegs.row_unique inside (by omega) (Nat.add_left_cancel same)).2
    omega
  case inside =>
    intro τ x holds r own
    obtain ⟨base, found, lower, upper⟩ := mem_window.mp (below τ x holds own)
    exact mem_window.mpr ⟨base, found, lower, by omega⟩
  case below =>
    intro τ x holds r own g global
    obtain ⟨base, found, lower, upper⟩ := mem_window.mp (below τ x holds own)
    obtain ⟨base', found', above⟩ := mem_global global
    cases found.symm.trans found'
    omega
  case current => exact fun x holds => recorded.current x (member holds)
  case first =>
    intro creation head τ
    obtain ⟨slot, atHead, front⟩ := line.head_front head
    cases first.symm.trans atHead
    exact front τ
  case handed =>
    refine line.isChain.imp fun earlier later between τ => ?_
    obtain ⟨slot, back, front⟩ := between
    exact (front τ).trans (back τ).symm
  case operands =>
    intro τ x holds reg size index islocal some done
    obtain ⟨rc, r, found, shown, isLocal, fits⟩ := translateRegister_ok done some
    refine ⟨rc, r, found, isLocal, ?_, fun real => ?_⟩
    · rintro rfl
      exact shown
    · have room := fits real
      have positive := (Nat.pos_of_ne_zero some).trans_le ((Nat.le_add_left _ _).trans room)
      have valid := windowed.first_ne_none runs (member holds) positive
      obtain ⟨first, atFirst⟩ := Option.ne_none_iff_exists'.mp valid
      have shown' : index = Option.some (first + r) := by
        rw [shown]
        exact congrArg (Option.map (· + r)) atFirst
      refine ⟨first + r, shown', fun i inOperand => mem_window.mpr ⟨first, atFirst, by omega, by omega⟩⟩
  case globals => exact fun τ x holds => .of_first rfl fun _ same => by cases same
  case firstDependents =>
    intro creation head τ
    obtain ⟨slot, atHead, front⟩ := line.head_front head
    cases first.symm.trans atHead
    exact .of_first (front τ) fun _ same => by cases same
  case lastShareds =>
    intro creation atEnd τ
    obtain ⟨slot, atLast, back⟩ := line.last_back atEnd
    cases last.symm.trans atLast
    refine .of_first (back τ) fun some _ => ?_
    obtain ⟨slots, rotates⟩ := windowed.rotates (windowed.shareds τ some)
    obtain ⟨slot, _, atSlot⟩ := rotates.last
    rw [atSlot τ]
    refine Windowed.slot_ne_none fun none => ?_
    have empty := (windowed.registers τ).base.mp none
    rw [(windowed.registers τ).size] at empty
    omega

end Watched

namespace Allocator

/-- From the layout of its registers on, in every run that keeps the order of the life cycle, the
family has its register windows. -/
theorem registerWindows_of_run {config : AllocatorConfig} {raunit : RAUnit Nat} {before : List (AllocatorEvent t)}
    {a : Allocator t} (reached : Run step KeepsOrder (initial config raunit) before a) {fid : Nat}
    (laid : (a.family fid).LaidOut) {events : List (AllocatorEvent t)} {s : Watched t}
    (run : Run (Watched.step fid) (Watched.Keeps fid) ⟨a, []⟩ events s) : s.allocator.RegisterWindows fid s.created := by
  have managed : a.Managed := by
    refine reached.invariant (managed_initial config raunit) fun s event s' ok ordered taken => ?_
    exact ok.perform ordered (toOption_eq_some taken)
  refine Watched.Ok.registerWindows (run.invariant (.start managed laid) fun s event s' ok keeps taken => ?_)
  exact ok.step keeps taken

instance (regs : FamilyRegs) (rows : Nat) : Decidable (regs.LaidOut rows) :=
  decidable_of_iff (regs.size = (regs.count.locals + regs.count.shareds) * rows + regs.count.globals + regs.count.shareds ∧
    (regs.base = none ↔ regs.size = 0)) ⟨fun laid => ⟨laid.1, laid.2⟩, fun laid => ⟨laid.size, laid.base⟩⟩

instance decidableLeavesAlone (fid : Nat) (a : Allocator t) : (event : AllocatorEvent t) → Decidable (a.LeavesAlone fid event)
  | .boot .. | .familyAllocate _ => inferInstanceAs (Decidable (_ ≠ _))
  | .setProperty other _ _ _ => inferInstanceAs (Decidable (other ≠ fid))
  | .linkMessage (.setProperty other _ _) => inferInstanceAs (Decidable (other ≠ fid))
  | .linkMessage (.create other numCores _ _) => inferInstanceAs (Decidable (numCores ≠ 0 → other ≠ fid))
  | .linkMessage (.allocate ..) | .linkMessage (.done ..) | .linkMessage (.sync ..) | .linkMessage (.detach _)
  | .linkMessage (.brk _) => .isTrue trivial
  | .familyCreate _ _ => inferInstanceAs (Decidable (_ → ∀ info ∈ a.creates.front?, info.fid ≠ fid))
  | .request .. | .allocResponse _ | .create .. | .lineLoaded | .sync .. | .detach .. | .brk _ | .syncs | .threadAllocate
  | .schedule .. | .kill _ | .store _ | .storeDone _ | .barrier _ | .load _ | .loadDone _ | .endCycle => .isTrue trivial

instance (fid : Nat) (s : Watched t) (event : AllocatorEvent t) : Decidable (s.Keeps fid event) :=
  inferInstanceAs (Decidable (_ ∧ _))

/-- The family 0 gets registers for a block of two threads with one register of each class. -/
def layOutFamily : List (AllocatorEvent .mtalpha) :=
  [.setProperty 0 7 .limit 3, .setProperty 0 7 .block 2, .create 0 7 ⟨0, 0, none, false, 0, 0⟩, .endCycle] ++
    List.replicate 5 (.familyCreate true fun _ => ⟨1, 1, 1⟩)

/-- It creates two threads, and a third one in the entry of the first. -/
def createThreads : List (AllocatorEvent .mtalpha) :=
  List.replicate 3 (.familyCreate true fun _ => ⟨1, 1, 1⟩) ++ [.endCycle, .threadAllocate, .threadAllocate] ++ endThread 0

/-- The run in which the family 0 creates three threads, and what is found at its end. -/
theorem exists_createThreads (found : Watched .mtalpha → Bool) (checked : ((@RAUnit.create Nat (fun _ => 32) fun _ =>
      128).toOption.bind fun raunit =>
      (execute (checked (fun a event => decide (a.KeepsOrder event)) step) (initial smallCore raunit)
        (allocateFamily 7 ++ layOutFamily)).bind fun a =>
      if (a.family 0).dependencies.numThreadsAllocated = 0 ∧ ((a.family 0).hasShareds = true ∧
          ∀ τ ∈ [RegType.integer, .float], ((a.family 0).regs τ).LaidOut (a.family 0).physBlockSize ∧
            ((a.family 0).regs τ).lastShareds = ((a.family 0).regs τ).base) then
        execute (checked (fun s event => decide (s.Keeps 0 event)) (Watched.step 0)) ⟨a, []⟩ createThreads
      else none).map found = some true) : ∃ (raunit : RAUnit Nat) (a : Allocator .mtalpha) (s : Watched .mtalpha),
    Run step KeepsOrder (initial smallCore raunit) (allocateFamily 7 ++ layOutFamily) a ∧ (a.family 0).LaidOut ∧
    Run (Watched.step 0) (Watched.Keeps 0) ⟨a, []⟩ createThreads s ∧ found s = true := by
  obtain ⟨s, ran, shown⟩ := Option.map_eq_some_iff.mp checked
  obtain ⟨raunit, _, ran⟩ := Option.bind_eq_some_iff.mp ran
  obtain ⟨a, reached, ran⟩ := Option.bind_eq_some_iff.mp ran
  split at ran
  · rename_i laid
    obtain ⟨idle, shareds, laid⟩ := laid
    refine ⟨raunit, a, s, run_of_checked (fun _ _ => of_decide_eq_true) reached, ⟨idle, fun τ => ?_, fun τ => ?_,
      fun _ _ => shareds⟩, run_of_checked (fun _ _ => of_decide_eq_true) ran, shown⟩
    · cases τ
      · exact (laid .integer (by decide)).1
      · exact (laid .float (by decide)).1
    · cases τ
      · exact (laid .integer (by decide)).2
      · exact (laid .float (by decide)).2
  · cases ran

/-- The third thread has the initial shareds for its own, and the shareds of the second one as dependents. -/
theorem registerWindows_of_run_block : ∃ s : Watched .mtalpha,
    s.created.map (fun creation => (creation.tid, creation.regs .integer)) =
      [(0, ⟨some 1, some 0, some 2⟩), (1, ⟨some 3, some 2, some 4⟩), (0, ⟨some 1, some 4, some 0⟩)] ∧
    s.allocator.RegisterWindows 0 s.created := by
  obtain ⟨raunit, a, s, reached, laid, run, shown⟩ := exists_createThreads (fun s =>
    decide (s.created.map (fun creation => (creation.tid, creation.regs .integer)) =
      [(0, ⟨some 1, some 0, some 2⟩), (1, ⟨some 3, some 2, some 4⟩), (0, ⟨some 1, some 4, some 0⟩)])) (by decide +kernel)
  exact ⟨s, of_decide_eq_true shown, registerWindows_of_run reached laid run⟩

/-- The globals of the family are the last of its registers: its threads do not have theirs above them. -/
theorem windows_below_globals : ∃ (raunit : RAUnit Nat) (a : Allocator .mtalpha) (s : Watched .mtalpha),
    Run step KeepsOrder (initial smallCore raunit) (allocateFamily 7 ++ layOutFamily) a ∧ (a.family 0).LaidOut ∧
    Run (Watched.step 0) (Watched.Keeps 0) ⟨a, []⟩ createThreads s ∧
    ¬ ∀ x, s.allocator.Holds 0 x →
      ∀ r ∈ ((s.allocator.thread x).regs .integer).ownRegisters ((s.allocator.family 0).regs .integer).count,
      ∀ g ∈ RegClass.global.registers ((s.allocator.family 0).regs .integer) ((s.allocator.thread x).regs .integer), g < r := by
  obtain ⟨raunit, a, s, reached, laid, run, shown⟩ := exists_createThreads (fun s =>
    decide (((s.allocator.thread 0).state ≠ .empty ∧ (s.allocator.thread 0).family = 0) ∧
      1 ∈ ((s.allocator.thread 0).regs .integer).ownRegisters ((s.allocator.family 0).regs .integer).count ∧
      5 ∈ RegClass.global.registers ((s.allocator.family 0).regs .integer) ((s.allocator.thread 0).regs .integer)))
    (by decide +kernel)
  obtain ⟨holds, own, global⟩ := of_decide_eq_true shown
  exact ⟨raunit, a, s, reached, laid, run, fun above => absurd (above 0 holds 1 own 5 global) (by decide)⟩

end Allocator
end Mgsim.Drisc
