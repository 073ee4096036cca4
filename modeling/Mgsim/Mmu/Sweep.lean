import Mgsim.Lib.Interrupted
import Mgsim.Mmu.TlbUnique

namespace Mgsim.Mmu
open Mgsim.Lib

/-- One round of `freeLines`: a locked line throws, and the table stays as it is then. -/
def Table.freeLineLeft (lambda : Line → Bool) (t : Table) (i : Nat) : Table × Option Fault :=
  if lambda (t.lines i) then
    match t.freeLine i with
    | .ok t' => (t', none)
    | .error fault => (t, some fault)
  else (t, none)

/-- `freeLines` with the table that it leaves, also where it throws. -/
def Table.freeLinesLeft (t : Table) (lambda : Line → Bool) : Table × Option Fault :=
  runUntil (freeLineLeft lambda) t (List.range t.numLines)

/-- The three ways of `invalidate`. -/
inductive InvalidateFilter
  | all
  | context (pid : Addr)
  | address (pid addr : Addr)
  deriving DecidableEq

namespace InvalidateFilter

/-- The lines of table `k` that `freeLines` works on. -/
def lambda (tlb : Tlb) : InvalidateFilter → Nat → Line → Bool
  | all, _ => fun _ => true
  | context pid, _ => fun line => line.matches (some pid) none .indexable
  | address pid addr, k => fun line => line.matches (some pid) (some (addr >>> tlb.shift k)) .indexable

def ofMsg (msg : MgtMsg) : Option InvalidateFilter :=
  let pid := (msg.get .invContextId).setWidth 64
  if msg.get .filterVAddr = 1 ∧ msg.get .filterContext = 1 then some (.address pid msg.part1)
  else if msg.get .filterVAddr = 0 ∧ msg.get .filterContext = 1 then some (.context pid)
  else if msg.get .filterVAddr = 0 ∧ msg.get .filterContext = 0 then some .all
  else none

end InvalidateFilter

/-- `invalidate` comes to the first line before the second. -/
def LineRef.Before (ref ref' : LineRef) : Prop :=
  ref.table < ref'.table ∨ ref.table = ref'.table ∧ ref.line < ref'.line

namespace Tlb

/-- One round of the loop of `invalidate`. -/
def invalidateTable (tlb : Tlb) (filter : InvalidateFilter) (left : Tlb) (k : Nat) : Tlb × Option Fault :=
  Prod.map (left.setTable k) id ((left.tables k).freeLinesLeft (filter.lambda tlb k))

/-- `invalidate` with the tables that it leaves, also where it throws. -/
def invalidateLeft (tlb : Tlb) (filter : InvalidateFilter) : Tlb × Option Fault :=
  runUntil (tlb.invalidateTable filter) tlb (List.range tlb.numTables)

theorem freeLinesWhere_eq_outcome (t : Table) (lambda : Line → Bool) :
    t.freeLinesWhere lambda = outcome (t.freeLinesLeft lambda) := by
  refine foldlM_eq_outcome (fun t i => ?_) t _
  unfold Table.freeLineLeft
  split
  · cases t.freeLine i <;> rfl
  · rfl

theorem invalidateWhere_eq_outcome (tlb : Tlb) {frees : Nat → Table → Except Fault Table}
    {filter : InvalidateFilter} (same : ∀ k t, frees k t = t.freeLinesWhere (filter.lambda tlb k)) :
    tlb.invalidateWhere frees = outcome (tlb.invalidateLeft filter) := by
  refine foldlM_eq_outcome (fun left k => ?_) tlb _
  rw [same, freeLinesWhere_eq_outcome, invalidateTable]
  rcases (left.tables k).freeLinesLeft (filter.lambda tlb k) with ⟨t, none | fault⟩ <;> rfl

/-- The message handler sees the end of a sweep and not the lines that it leaves. -/
theorem onInvalidateMsg_eq_outcome (tlb : Tlb) (msg : MgtMsg) :
    tlb.onInvalidateMsg msg =
      match InvalidateFilter.ofMsg msg with
      | some filter => outcome (tlb.invalidateLeft filter)
      | none => .error .unreachable := by
  unfold onInvalidateMsg InvalidateFilter.ofMsg
  dsimp only
  split
  · exact invalidateWhere_eq_outcome tlb fun _ _ => rfl
  · split
    · exact invalidateWhere_eq_outcome tlb fun _ _ => rfl
    · split
      · exact invalidateWhere_eq_outcome tlb fun _ _ => rfl
      · rfl

/-- The TLB with other lines in its tables. -/
def withLines (tlb : Tlb) (cells : LineRef → Line) : Tlb :=
  { tlb with tables := fun k => { tlb.tables k with lines := fun i => cells ⟨k, i⟩ } }

/-- The lines in the order in which `invalidate` comes to them. -/
def positions (tlb : Tlb) : List LineRef :=
  (List.range tlb.numTables).flatMap fun k => (List.range (tlb.tables k).numLines).map (LineRef.mk k)

section Positions
variable {tlb : Tlb} {ref ref' : LineRef}

theorem mem_positions : ref ∈ tlb.positions ↔ tlb.Inside ref := by
  obtain ⟨k, i⟩ := ref
  simp [positions, Inside]

theorem positions_ordered : tlb.positions.Pairwise LineRef.Before := by
  unfold positions
  rw [List.pairwise_flatMap]
  constructor
  · intro k _
    rw [List.pairwise_map]
    exact List.pairwise_lt_range.imp fun lower => Or.inr ⟨rfl, lower⟩
  · refine List.pairwise_lt_range.imp fun lower ref member ref' member' => ?_
    obtain ⟨i, _, rfl⟩ := List.mem_map.mp member
    obtain ⟨j, _, rfl⟩ := List.mem_map.mp member'
    exact Or.inl lower

theorem before_asymm (ref ref' : LineRef) (before : ref.Before ref') : ¬ ref'.Before ref := by
  unfold LineRef.Before at *
  omega

theorem before_or_eq_or_before (ref ref' : LineRef) : ref.Before ref' ∨ ref = ref' ∨ ref'.Before ref := by
  obtain ⟨k, i⟩ := ref
  obtain ⟨k', i'⟩ := ref'
  simp only [LineRef.Before, LineRef.mk.injEq]
  omega

theorem positions_nodup : tlb.positions.Nodup := by
  refine positions_ordered.imp fun {ref ref'} before same => ?_
  subst same
  exact before_asymm _ _ before before

end Positions

section Cells
variable {tlb : Tlb} {filter : InvalidateFilter} {ref : LineRef}

/-- The line is locked, and `freeLines` works on it. -/
def stops (tlb : Tlb) (filter : InvalidateFilter) (ref : LineRef) (line : Line) : Bool :=
  filter.lambda tlb ref.table line && line.locked

def freedIn (tlb : Tlb) (filter : InvalidateFilter) (ref : LineRef) (line : Line) : Line :=
  Table.freed (filter.lambda tlb ref.table) line

def lockedFault : Fault := .domainError "Attempt to invalidate locked TLB line"

theorem freeLineLeft_withLines (base : Tlb) (cells : LineRef → Line) (k i : Nat) :
    Prod.map ((base.withLines cells).setTable k) id
        (Table.freeLineLeft (filter.lambda tlb k) ((base.withLines cells).tables k) i) =
      Prod.map base.withLines id (sweepStep (tlb.stops filter) (tlb.freedIn filter) lockedFault cells ⟨k, i⟩) := by
  have written : ∀ line, (base.withLines cells).setTable k (((base.withLines cells).tables k).setLine i line) =
      base.withLines (Function.update cells ⟨k, i⟩ line) := by
    intro line
    simp only [withLines, setTable, Table.setLine, Tlb.mk.injEq, true_and, and_true]
    refine funext fun j => ?_
    by_cases sameTable : j = k
    · subst sameTable
      simp only [Function.update_self, Table.mk.injEq, true_and, and_true]
      refine funext fun m => ?_
      by_cases sameLine : m = i
      · subst sameLine
        simp
      · simp [sameLine]
    · rw [Function.update_of_ne sameTable]
      have others : ∀ m, Function.update cells ⟨k, i⟩ line ⟨j, m⟩ = cells ⟨j, m⟩ :=
        fun m => Function.update_of_ne (by simp [sameTable]) _ _
      simp only [others]
  have kept : (base.withLines cells).setTable k ((base.withLines cells).tables k) = base.withLines cells := by
    simp [setTable]
  have atLine : ((base.withLines cells).tables k).lines i = cells ⟨k, i⟩ := rfl
  unfold Table.freeLineLeft sweepStep stops freedIn Table.freeLine Table.freed
  simp only [atLine]
  cases filter.lambda tlb k (cells ⟨k, i⟩) with
  | false =>
    simp only [Bool.false_eq_true, if_false, Bool.false_and, Prod.map, id, Function.update_eq_self, kept]
  | true =>
    cases (cells ⟨k, i⟩).locked with
    | true => simp only [if_true, Bool.and_self, Prod.map, id, kept, lockedFault]
    | false =>
      simp only [if_true, Bool.and_false, Bool.false_eq_true, if_false, Prod.map, id, written]

/-- The loops of `invalidate` over tables and lines are one sweep. -/
theorem invalidateLeft_eq_sweep (tlb : Tlb) (filter : InvalidateFilter) :
    tlb.invalidateLeft filter = Prod.map tlb.withLines id
      (runUntil (sweepStep (tlb.stops filter) (tlb.freedIn filter) lockedFault) tlb.line tlb.positions) := by
  have table : ∀ (cells : LineRef → Line), ∀ k ∈ List.range tlb.numTables,
      tlb.invalidateTable filter (tlb.withLines cells) k = Prod.map tlb.withLines id
        (runUntil (sweepStep (tlb.stops filter) (tlb.freedIn filter) lockedFault) cells
          ((List.range (tlb.tables k).numLines).map (LineRef.mk k))) := by
    intro cells k _
    have part := @runUntil_part _ _ _ _ (fun left : Tlb => left.tables k) (fun left t => left.setTable k t)
      (fun left t => by simp [setTable]) (fun left => by simp [setTable])
      (fun left t t' => by simp [setTable]) (Table.freeLineLeft (filter.lambda tlb k)) (tlb.withLines cells)
      (List.range (tlb.tables k).numLines)
    rw [runUntil_map]
    refine part.symm.trans (runUntil_represented (fun cells i _ => ?_) cells)
    exact freeLineLeft_withLines tlb cells k i
  unfold positions
  rw [← runUntil_flatMap]
  exact runUntil_represented table tlb.line

/-- The sweep comes to the line and finds it unlocked. -/
def Reached (tlb : Tlb) (filter : InvalidateFilter) (ref : LineRef) : Prop :=
  tlb.Inside ref ∧ tlb.stops filter ref (tlb.line ref) = false ∧
    ∀ earlier, tlb.Inside earlier → earlier.Before ref → tlb.stops filter earlier (tlb.line earlier) = false

theorem mem_takeWhile_iff_reached :
    (ref ∈ tlb.positions.takeWhile fun i => !tlb.stops filter i (tlb.line i)) ↔ tlb.Reached filter ref := by
  simp only [mem_takeWhile_of_pairwise before_asymm positions_ordered, mem_positions, Bool.not_eq_true', Reached]

theorem invalidateLeft_line (reached : tlb.Reached filter ref) :
    (tlb.invalidateLeft filter).1.line ref = tlb.freedIn filter ref (tlb.line ref) := by
  rw [invalidateLeft_eq_sweep, runUntil_sweepStep positions_nodup]
  exact if_pos (mem_takeWhile_iff_reached.mpr reached)

theorem invalidateLeft_line_of_not (missed : ¬ tlb.Reached filter ref) :
    (tlb.invalidateLeft filter).1.line ref = tlb.line ref := by
  rw [invalidateLeft_eq_sweep, runUntil_sweepStep positions_nodup]
  exact if_neg fun member => missed (mem_takeWhile_iff_reached.mp member)

theorem invalidateLeft_fault : (tlb.invalidateLeft filter).2 = none ↔
    ∀ ref, tlb.Inside ref → tlb.stops filter ref (tlb.line ref) = false := by
  rw [invalidateLeft_eq_sweep, runUntil_sweepStep positions_nodup]
  simp only [Prod.map, id, ite_eq_right_iff, reduceCtorEq, imp_false, Bool.not_eq_true, List.any_eq_false,
    mem_positions]

/-- The sweep changes the lines and nothing else. -/
theorem invalidateLeft_eq_withLines :
    (tlb.invalidateLeft filter).1 = tlb.withLines (tlb.invalidateLeft filter).1.line := by
  rw [invalidateLeft_eq_sweep]
  rfl

theorem invalidateLeft_eq_self (same : ∀ ref, (tlb.invalidateLeft filter).1.line ref = tlb.line ref) :
    (tlb.invalidateLeft filter).1 = tlb := by
  rw [invalidateLeft_eq_withLines, funext same]
  rfl

end Cells

/-- A line of the TLB that matches the filter, whatever its state. -/
def Covered (tlb : Tlb) (filter : InvalidateFilter) (ref : LineRef) : Prop :=
  tlb.Inside ref ∧
    match filter with
    | .all => True
    | .context pid => (tlb.line ref).contextId = pid
    | .address pid addr => (tlb.line ref).contextId = pid ∧ (tlb.line ref).vAddr = addr >>> tlb.shift ref.table

/-- Invalidation is complete, or it fails and the tables are as before, and it
keeps to the lines that match. -/
structure AllOrNothing (tlb : Tlb) (filter : InvalidateFilter) : Prop where
  settled : (∀ ref, tlb.Covered filter ref → ((tlb.invalidateLeft filter).1.line ref).present = false) ∨
    (tlb.invalidateLeft filter).2.isSome = true ∧ (tlb.invalidateLeft filter).1 = tlb
  others : ∀ ref, ¬ tlb.Covered filter ref → (tlb.invalidateLeft filter).1.line ref = tlb.line ref

section AllOrNothing
variable {tlb : Tlb} {filter : InvalidateFilter} {ref : LineRef}

theorem stops_iff (inside : tlb.Inside ref) : tlb.stops filter ref (tlb.line ref) = true ↔
    tlb.Covered filter ref ∧ (tlb.line ref).locked = true := by
  cases filter with
  | all => simp [stops, InvalidateFilter.lambda, Covered, inside]
  | context pid =>
    simp only [stops, InvalidateFilter.lambda, Line.matches, Table.is_indexable, Covered, inside, true_and,
      Option.all_some, Option.all_none, Bool.and_true, Bool.and_eq_true, Bool.or_eq_true, beq_iff_eq]
    constructor
    · rintro ⟨⟨_, same⟩, locked⟩
      exact ⟨same.symm, locked⟩
    · rintro ⟨same, locked⟩
      exact ⟨⟨Or.inr locked, same.symm⟩, locked⟩
  | address pid addr =>
    simp only [stops, InvalidateFilter.lambda, Line.matches, Table.is_indexable, Covered, inside, true_and,
      Option.all_some, Bool.and_eq_true, Bool.or_eq_true, beq_iff_eq]
    constructor
    · rintro ⟨⟨⟨_, same⟩, addr⟩, locked⟩
      exact ⟨⟨same.symm, addr.symm⟩, locked⟩
    · rintro ⟨⟨same, addr⟩, locked⟩
      exact ⟨⟨⟨Or.inr locked, same.symm⟩, addr.symm⟩, locked⟩

theorem freedIn_present (covered : tlb.Covered filter ref) :
    (tlb.freedIn filter ref (tlb.line ref)).present = false := by
  unfold freedIn Table.freed
  split
  · rfl
  · rename_i refused
    cases filter with
    | all => exact absurd rfl refused
    | context pid =>
      simp only [InvalidateFilter.lambda, Line.matches, Table.is_indexable, Option.all_some, Option.all_none,
        Bool.and_true, Bool.and_eq_true, Bool.or_eq_true, beq_iff_eq, covered.2, and_true, not_or,
        Bool.not_eq_true] at refused
      exact refused.1
    | address pid addr =>
      simp only [InvalidateFilter.lambda, Line.matches, Table.is_indexable, Option.all_some, Bool.and_eq_true,
        Bool.or_eq_true, beq_iff_eq, covered.2.1, covered.2.2, and_true, not_or, Bool.not_eq_true] at refused
      exact refused.1

theorem freedIn_eq_self (absent : (tlb.line ref).present = false) :
    tlb.freedIn filter ref (tlb.line ref) = tlb.line ref := by
  unfold freedIn Table.freed
  split
  · rw [← absent]
  · rfl

theorem freedIn_of_not_covered (inside : tlb.Inside ref) (other : ¬ tlb.Covered filter ref) :
    tlb.freedIn filter ref (tlb.line ref) = tlb.line ref := by
  unfold freedIn Table.freed
  refine if_neg fun accepted => other ⟨inside, ?_⟩
  cases filter with
  | all => trivial
  | context pid =>
    simp only [InvalidateFilter.lambda, Line.matches, Option.all_some, Bool.and_eq_true, beq_iff_eq] at accepted
    exact accepted.1.2.symm
  | address pid addr =>
    simp only [InvalidateFilter.lambda, Line.matches, Option.all_some, Bool.and_eq_true, beq_iff_eq] at accepted
    exact ⟨accepted.1.2.symm, accepted.2.symm⟩

/-- A line that matches is reached when no line that matches is locked up to it. -/
theorem reached_iff (covered : tlb.Covered filter ref) : tlb.Reached filter ref ↔ (tlb.line ref).locked = false ∧
    ∀ other, tlb.Covered filter other → (tlb.line other).locked = true → ¬ other.Before ref := by
  constructor
  · rintro ⟨inside, passes, before⟩
    constructor
    · by_contra locked
      rw [(stops_iff inside).mpr ⟨covered, by simpa using locked⟩] at passes
      cases passes
    · intro other matched locked lower
      have passed := before other matched.1 lower
      rw [(stops_iff matched.1).mpr ⟨matched, locked⟩] at passed
      cases passed
  · rintro ⟨unlocked, first⟩
    refine ⟨covered.1, ?_, fun earlier inside lower => ?_⟩
    · by_contra stopped
      have locked := ((stops_iff covered.1).mp (by simpa using stopped)).2
      rw [unlocked] at locked
      cases locked
    · by_contra stopped
      obtain ⟨matched, locked⟩ := (stops_iff inside).mp (by simpa using stopped)
      exact first earlier matched locked lower

/-- The lines that do not match stay as they are, whether the sweep ends or not. -/
theorem line_of_not_covered (other : ¬ tlb.Covered filter ref) :
    (tlb.invalidateLeft filter).1.line ref = tlb.line ref := by
  by_cases reached : tlb.Reached filter ref
  · rw [invalidateLeft_line reached, freedIn_of_not_covered reached.1 other]
  · exact invalidateLeft_line_of_not reached

theorem present_of_missed (covered : tlb.Covered filter ref) : ((tlb.invalidateLeft filter).1.line ref).present =
    false ↔ tlb.Reached filter ref ∨ (tlb.line ref).present = false := by
  by_cases reached : tlb.Reached filter ref
  · rw [invalidateLeft_line reached]
    exact iff_of_true (freedIn_present covered) (Or.inl reached)
  · rw [invalidateLeft_line_of_not reached]
    exact ⟨Or.inr, fun either => either.resolve_left reached⟩

/-- Nothing has changed when the sweep has come to no line that it would free. -/
theorem invalidateLeft_eq_self_iff : (tlb.invalidateLeft filter).1 = tlb ↔
    ∀ ref, tlb.Covered filter ref → (tlb.line ref).present = true → ¬ tlb.Reached filter ref := by
  constructor
  · intro same ref covered present reached
    have freed := (present_of_missed covered).mpr (Or.inl reached)
    rw [same, present] at freed
    cases freed
  · intro untouched
    refine invalidateLeft_eq_self fun ref => ?_
    by_cases reached : tlb.Reached filter ref
    · rw [invalidateLeft_line reached]
      by_cases covered : tlb.Covered filter ref
      · exact freedIn_eq_self (by simpa using mt (untouched ref covered) (not_not_intro reached))
      · exact freedIn_of_not_covered reached.1 covered
    · exact invalidateLeft_line_of_not reached

/-- Invalidation is all or nothing exactly when the lines that match and are
present all stand before the locked ones that match, or all of them that are
not locked stand behind one of these. -/
theorem allOrNothing_iff (tlb : Tlb) (filter : InvalidateFilter) : tlb.AllOrNothing filter ↔
    (∀ ref, tlb.Covered filter ref → (tlb.line ref).present = true →
      ∀ other, tlb.Covered filter other → (tlb.line other).locked = true → ref.Before other) ∨
    ∀ ref, tlb.Covered filter ref → (tlb.line ref).present = true → (tlb.line ref).locked = false →
      ∃ other, tlb.Covered filter other ∧ (tlb.line other).locked = true ∧ other.Before ref := by
  constructor
  · intro result
    rcases result.settled with complete | ⟨_, same⟩
    · refine Or.inl fun ref covered present other matched locked => ?_
      have reached := ((present_of_missed covered).mp (complete ref covered)).resolve_right (by simp [present])
      obtain ⟨unlocked, first⟩ := (reached_iff covered).mp reached
      rcases before_or_eq_or_before ref other with before | rfl | after
      · exact before
      · rw [unlocked] at locked
        cases locked
      · exact absurd after (first other matched locked)
    · refine Or.inr fun ref covered present unlocked => ?_
      by_contra none
      have reached : tlb.Reached filter ref := (reached_iff covered).mpr
        ⟨unlocked, fun other matched locked before => none ⟨other, matched, locked, before⟩⟩
      exact invalidateLeft_eq_self_iff.mp same ref covered present reached
  · intro ordered
    refine ⟨?_, fun ref other => line_of_not_covered other⟩
    rcases ordered with ahead | behind
    · refine Or.inl fun ref covered => (present_of_missed covered).mpr ?_
      cases present : (tlb.line ref).present with
      | false => exact Or.inr rfl
      | true =>
        refine Or.inl ((reached_iff covered).mpr ⟨?_, fun other matched locked after => ?_⟩)
        · by_contra locked
          have before := ahead ref covered present ref covered (by simpa using locked)
          exact before_asymm _ _ before before
        · exact before_asymm _ _ after (ahead ref covered present other matched locked)
    · have untouched : (tlb.invalidateLeft filter).1 = tlb := by
        refine invalidateLeft_eq_self_iff.mpr fun ref covered present reached => ?_
        obtain ⟨unlocked, first⟩ := (reached_iff covered).mp reached
        obtain ⟨other, matched, locked, before⟩ := behind ref covered present unlocked
        exact first other matched locked before
      cases fault : (tlb.invalidateLeft filter).2 with
      | some text => exact Or.inr ⟨rfl, untouched⟩
      | none =>
        -- nothing was locked and nothing was freed, so nothing that matches was present
        refine Or.inl fun ref covered => ?_
        have passes := invalidateLeft_fault.mp fault
        have reached : tlb.Reached filter ref :=
          ⟨covered.1, passes ref covered.1, fun earlier inside _ => passes earlier inside⟩
        exact (present_of_missed covered).mpr (Or.inl reached)

end AllOrNothing

section PendingBetween

/-- Three misses, of which the first and the third are answered and used. -/
def pendingBetween : List TlbEvent :=
  [.property enableMsg, .lookup unmapped 0 0x200000000 false true, .lookup unmapped 0 0x200001000 false true, .endCycle,
    .lookup unmapped 0 0x200002000 false true, .store (refillMsg 0 2 0x300000), .store (refillMsg 2 2 0x301000),
    .lookup unmapped 0 0x200000000 true true, .lookup unmapped 0 0x200002000 true true]

/-- The sweep frees the line before the pending one and then throws. -/
theorem half_invalidated : ∃ start tlb, create 3 defaultConfig 5 = .ok start ∧
    execute Tlb.step start pendingBetween = some tlb ∧ ¬ tlb.AllOrNothing .all := by
  have trace : ((create 3 defaultConfig 5).toOption.bind fun start =>
      (execute Tlb.step start pendingBetween).map fun tlb => decide (0 < tlb.numTables ∧ 2 < (tlb.tables 0).numLines) &&
        (tlb.line ⟨0, 0⟩).present && !((tlb.invalidateLeft .all).1.line ⟨0, 0⟩).present &&
          ((tlb.invalidateLeft .all).1.line ⟨0, 2⟩).present) = some true := by
    decide +kernel
  cases created : create 3 defaultConfig 5 with
  | error fault =>
    rw [created] at trace
    cases trace
  | ok start =>
    rw [created] at trace
    obtain ⟨tlb, done, seen⟩ := Option.map_eq_some_iff.mp trace
    simp only [Bool.and_eq_true, decide_eq_true_eq, Bool.not_eq_true'] at seen
    obtain ⟨⟨⟨inside, before⟩, freed⟩, left⟩ := seen
    refine ⟨start, tlb, rfl, done, fun result => ?_⟩
    rcases result.settled with complete | ⟨_, same⟩
    · rw [complete ⟨0, 2⟩ ⟨inside, trivial⟩] at left
      cases left
    · rw [same, before] at freed
      cases freed

end PendingBetween

end Tlb

end Mgsim.Mmu
