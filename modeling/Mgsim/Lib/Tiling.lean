import Mathlib.Algebra.BigOperators.Group.List.Basic
import Mathlib.Algebra.Ring.Nat

namespace Mgsim.Lib
universe u
variable {α : Type u}

/-- The first run of `size` consecutive `false` entries, counted from `pos`,
where the last `run` entries before `pos` were `false`. -/
@[simp] def firstFit (size : Nat) : List Bool → Nat → Nat → Option Nat
  | [], _, _ => none
  | true :: rest, pos, _ => firstFit size rest (pos + 1) 0
  | false :: rest, pos, run => if run + 1 = size then some (pos - run) else firstFit size rest (pos + 1) (run + 1)

/-- `size` entries from `start` on are all `false`. -/
def Gap (bits : List Bool) (start size : Nat) : Prop := ∀ k < size, bits[start + k]? = some false

theorem Gap.inside {bits : List Bool} {start size : Nat} (gap : Gap bits start size) (positive : 0 < size) :
    start + size ≤ bits.length := by
  have last := gap (size - 1) (by omega)
  obtain ⟨bound, _⟩ := List.getElem?_eq_some_iff.mp last
  omega

theorem firstFit_sound {size : Nat} {before after : List Bool} {run start : Nat} (small : run < size)
    (found : firstFit size after before.length run = some start) (within : run ≤ before.length)
    (free : Gap (before ++ after) (before.length - run) run) : Gap (before ++ after) start size := by
  induction after generalizing before run with
  | nil => cases found
  | cons bit rest ih =>
    have longer : before ++ bit :: rest = (before ++ [bit]) ++ rest := by simp
    cases bit with
    | true =>
      rw [longer]
      simp only [firstFit] at found
      refine @ih (before ++ [true]) 0 (by omega) ?_ (Nat.zero_le _) ?_
      · simpa only [List.length_append, List.length_singleton] using found
      · intro k below
        omega
    | false =>
      have now : Gap (before ++ false :: rest) (before.length - run) (run + 1) := by
        intro k below
        by_cases last : k = run
        · have place : before.length - run + k = before.length := by omega
          rw [place]
          simp
        · exact free k (by omega)
      simp only [firstFit] at found
      split at found
      · rename_i complete
        cases found
        rw [← complete]
        exact now
      · rename_i incomplete
        rw [longer] at now ⊢
        refine @ih (before ++ [false]) (run + 1) (by omega) ?_ ?_ ?_
        · simpa only [List.length_append, List.length_singleton] using found
        · simp only [List.length_append, List.length_singleton]
          omega
        · simp only [List.length_append, List.length_singleton]
          rw [show before.length + 1 - (run + 1) = before.length - run by omega]
          exact now

/-- A search that finds nothing has passed no gap, also none that began in
the `run` entries before it. -/
theorem firstFit_complete {size : Nat} {before after : List Bool} {run start : Nat} (small : run < size)
    (failed : firstFit size after before.length run = none) (lower : before.length ≤ start + run) :
    ¬ Gap (before ++ after) start size := by
  intro gap
  induction after generalizing before run with
  | nil =>
    have bound := gap.inside (by omega)
    rw [List.append_nil] at bound
    omega
  | cons bit rest ih =>
    have longer : before ++ bit :: rest = (before ++ [bit]) ++ rest := by simp
    have length : (before ++ [bit]).length = before.length + 1 := by simp
    cases bit with
    | true =>
      have past : before.length < start := by
        by_contra notPast
        have here := gap (before.length - start) (by omega)
        rw [show start + (before.length - start) = before.length by omega] at here
        simp at here
      rw [longer] at gap
      exact @ih _ 0 (by omega) (length ▸ failed) (by omega) gap
    | false =>
      simp only [firstFit] at failed
      split at failed
      · cases failed
      · rename_i incomplete
        rw [longer] at gap
        exact @ih _ (run + 1) (by omega) (length ▸ failed) (by omega) gap

/-- The search finds a gap of this size exactly when there is one. -/
theorem firstFit_isSome_iff {size : Nat} {bits : List Bool} (positive : 0 < size) :
    (firstFit size bits 0 0).isSome ↔ ∃ start, Gap bits start size := by
  constructor
  · intro found
    obtain ⟨start, found⟩ := Option.isSome_iff_exists.mp found
    have gap := @firstFit_sound size [] bits 0 start positive found (Nat.zero_le _) fun k below => by omega
    exact ⟨start, gap⟩
  · rintro ⟨start, gap⟩
    by_contra nothing
    have failed : firstFit size bits 0 0 = none := by simpa using nothing
    exact @firstFit_complete size [] bits 0 start positive failed (by simp) gap

/-- A table in which an entry of length `n > 0` claims its own place and the
`n - 1` places after it, which hold no entries of their own. The first
`covered` places belong to an earlier entry. -/
@[simp] def Tiled : Nat → List (Nat × α) → Prop
  | covered, [] => covered = 0
  | 0, entry :: rest => Tiled (entry.1 - 1) rest
  | covered + 1, entry :: rest => entry.1 = 0 ∧ Tiled covered rest

/-- Which places of the table an entry claims. -/
@[simp] def taken : Nat → List (Nat × α) → List Bool
  | _, [] => []
  | 0, entry :: rest => (entry.1 != 0) :: taken (entry.1 - 1) rest
  | covered + 1, _ :: rest => true :: taken covered rest

@[simp] theorem taken_length (covered : Nat) (table : List (Nat × α)) : (taken covered table).length = table.length := by
  induction table generalizing covered with
  | nil => rfl
  | cons entry rest ih => cases covered <;> simp [taken, ih]

theorem Tiled.covered_le {covered : Nat} {table : List (Nat × α)} (tiled : Tiled covered table) :
    covered ≤ table.length := by
  induction table generalizing covered with
  | nil => exact Nat.le_of_eq tiled
  | cons entry rest ih =>
    cases covered with
    | zero => exact Nat.zero_le _
    | succ covered => exact Nat.succ_le_succ (ih tiled.2)

theorem tiled_replicate (n : Nat) (owner : α) : Tiled 0 (List.replicate n (0, owner)) := by
  induction n with
  | zero => rfl
  | succ n ih => exact ih

/-- Places that nothing claims stay well tiled when an earlier entry claims them. -/
theorem Tiled.cover {covered : Nat} {table : List (Nat × α)} (tiled : Tiled 0 table)
    (gap : Gap (taken 0 table) 0 covered) : Tiled covered table := by
  induction covered generalizing table with
  | zero => exact tiled
  | succ covered ih =>
    cases table with
    | nil => cases gap 0 (by omega)
    | cons entry rest =>
      have first := gap 0 (by omega)
      simp only [taken, Nat.add_zero, List.getElem?_cons_zero, Option.some.injEq, bne_eq_false_iff_eq] at first
      simp only [Tiled, taken, first, Nat.zero_sub] at tiled gap ⊢
      refine ⟨trivial, ih tiled fun k below => ?_⟩
      have next := gap (k + 1) (by omega)
      rw [show 0 + (k + 1) = (0 + k) + 1 by omega, List.getElem?_cons_succ] at next
      exact next

/-- Places whose entry gives them up stay well tiled. -/
theorem Tiled.uncover {covered : Nat} {table : List (Nat × α)} (tiled : Tiled covered table) : Tiled 0 table := by
  induction covered generalizing table with
  | zero => exact tiled
  | succ covered ih =>
    cases table with
    | nil => cases tiled
    | cons entry rest =>
      simp only [Tiled, tiled.1, Nat.zero_sub]
      exact ih tiled.2

/-- A new entry in a gap of its length keeps the table well tiled. -/
theorem Tiled.place {covered start size : Nat} {table : List (Nat × α)} (tiled : Tiled covered table)
    (positive : 0 < size) (gap : Gap (taken covered table) start size) (owner : α) :
    Tiled covered (table.set start (size, owner)) := by
  induction table generalizing covered start with
  | nil => exact tiled
  | cons entry rest ih =>
    cases start with
    | zero =>
      cases covered with
      | zero =>
        have first := gap 0 positive
        simp only [taken, Nat.add_zero, List.getElem?_cons_zero, Option.some.injEq, bne_eq_false_iff_eq] at first
        simp only [Tiled, taken, first, Nat.zero_sub, List.set_cons_zero] at tiled gap ⊢
        refine tiled.cover fun k below => ?_
        have next := gap (k + 1) (by omega)
        rw [show 0 + (k + 1) = (0 + k) + 1 by omega, List.getElem?_cons_succ] at next
        exact next
      | succ covered =>
        have first := gap 0 positive
        simp [taken] at first
    | succ start =>
      have later (bits : List Bool) (bit : Bool) (gap : Gap (bit :: bits) (start + 1) size) : Gap bits start size := by
        intro k below
        have next := gap k below
        rw [show start + 1 + k = (start + k) + 1 by omega, List.getElem?_cons_succ] at next
        exact next
      cases covered with
      | zero => exact ih tiled (later _ _ gap)
      | succ covered => exact ⟨tiled.1, ih tiled.2 (later _ _ gap)⟩

/-- Clearing an entry keeps the table well tiled. -/
theorem Tiled.clear {covered start : Nat} {table : List (Nat × α)} (tiled : Tiled covered table) (owner : α) :
    Tiled covered (table.set start (0, owner)) := by
  induction table generalizing covered start with
  | nil => exact tiled
  | cons entry rest ih =>
    cases start with
    | zero =>
      cases covered with
      | zero =>
        have within : Tiled (entry.1 - 1) rest := tiled
        exact within.uncover
      | succ covered => exact ⟨rfl, tiled.2⟩
    | succ start =>
      cases covered with
      | zero => exact ih tiled
      | succ covered => exact ⟨tiled.1, ih tiled.2⟩

theorem Tiled.past_covered {covered i : Nat} {table : List (Nat × α)} {size : Nat} {owner : α}
    (tiled : Tiled covered table) (entry : table[i]? = some (size, owner)) (positive : 0 < size) : covered ≤ i := by
  induction table generalizing covered i with
  | nil => cases entry
  | cons head rest ih =>
    cases covered with
    | zero => exact Nat.zero_le _
    | succ covered =>
      cases i with
      | zero =>
        have zero := tiled.1
        rw [List.getElem?_cons_zero, Option.some.injEq] at entry
        rw [entry] at zero
        omega
      | succ i => exact Nat.succ_le_succ (ih tiled.2 entry)

/-- The places of an entry lie inside the table. -/
theorem Tiled.inside {covered i : Nat} {table : List (Nat × α)} {size : Nat} {owner : α}
    (tiled : Tiled covered table) (entry : table[i]? = some (size, owner)) : i + size ≤ table.length := by
  induction table generalizing covered i with
  | nil => cases entry
  | cons head rest ih =>
    cases i with
    | zero =>
      rw [List.getElem?_cons_zero, Option.some.injEq] at entry
      cases covered with
      | zero =>
        have within : Tiled (head.1 - 1) rest := tiled
        have room := within.covered_le
        rw [entry] at room
        simp only [List.length_cons]
        omega
      | succ covered =>
        have zero := tiled.1
        rw [entry] at zero
        omega
    | succ i =>
      rw [List.getElem?_cons_succ] at entry
      have room : i + size ≤ rest.length := by
        cases covered with
        | zero => exact ih tiled entry
        | succ covered => exact ih tiled.2 entry
      simp only [List.length_cons]
      omega

/-- An entry ends before the next one begins. -/
theorem Tiled.apart {covered i j : Nat} {table : List (Nat × α)} {first second : Nat} {owner other : α}
    (tiled : Tiled covered table) (atFirst : table[i]? = some (first, owner)) (atSecond : table[j]? = some (second, other))
    (order : i < j) (positive : 0 < second) : i + first ≤ j := by
  induction table generalizing covered i j with
  | nil => cases atFirst
  | cons head rest ih =>
    obtain ⟨j, rfl⟩ : ∃ m, j = m + 1 := ⟨j - 1, by omega⟩
    rw [List.getElem?_cons_succ] at atSecond
    cases i with
    | zero =>
      rw [List.getElem?_cons_zero, Option.some.injEq] at atFirst
      cases covered with
      | zero =>
        have within : Tiled (head.1 - 1) rest := tiled
        have past := within.past_covered atSecond positive
        rw [atFirst] at past
        omega
      | succ covered =>
        have zero := tiled.1
        rw [atFirst] at zero
        omega
    | succ i =>
      rw [List.getElem?_cons_succ] at atFirst
      have bound : i + first ≤ j := by
        cases covered with
        | zero => exact ih tiled atFirst atSecond (by omega)
        | succ covered => exact ih tiled.2 atFirst atSecond (by omega)
      omega

/-- The sum of the lengths of all entries. -/
def claimed (table : List (Nat × α)) : Nat := (table.map Prod.fst).sum

theorem claimed_set {i : Nat} {table : List (Nat × α)} {old : Nat × α} (entry : table[i]? = some old) (new : Nat × α) :
    claimed (table.set i new) + old.1 = claimed table + new.1 := by
  induction table generalizing i with
  | nil => cases entry
  | cons head rest ih =>
    cases i with
    | zero =>
      cases entry
      simp only [claimed, List.set_cons_zero, List.map_cons, List.sum_cons]
      omega
    | succ i =>
      have later := ih entry
      simp only [claimed, List.set_cons_succ, List.map_cons, List.sum_cons] at later ⊢
      omega

/-- The places that no entry claims. -/
theorem Tiled.count_free {covered : Nat} {table : List (Nat × α)} (tiled : Tiled covered table) :
    (taken covered table).count false + claimed table + covered = table.length := by
  induction table generalizing covered with
  | nil => simpa [taken, claimed, Tiled] using tiled
  | cons entry rest ih =>
    have sum : claimed (entry :: rest) = entry.1 + claimed rest := by simp [claimed]
    cases covered with
    | succ covered =>
      have later := ih tiled.2
      have zero := tiled.1
      simp only [taken, List.count_cons_of_ne (show true ≠ false by decide), sum, List.length_cons]
      omega
    | zero =>
      have later := ih (show Tiled (entry.1 - 1) rest from tiled)
      by_cases empty : entry.1 = 0
      · simp only [taken, empty, bne_self_eq_false, List.count_cons_self, sum, List.length_cons] at later ⊢
        omega
      · have claims : (entry.1 != 0) = true := by simpa using empty
        simp only [taken, claims, List.count_cons_of_ne (show true ≠ false by decide), sum, List.length_cons]
        omega

/-- A free place is a gap of length one. -/
theorem gap_one_of_count {bits : List Bool} (some : 0 < bits.count false) : ∃ start, Gap bits start 1 := by
  obtain ⟨start, bound, atStart⟩ := List.getElem_of_mem (List.count_pos_iff.mp some)
  refine ⟨start, fun k below => ?_⟩
  rw [show start + k = start by omega]
  exact List.getElem?_eq_some_iff.mpr ⟨bound, atStart⟩

theorem Gap.entry_zero {covered start size : Nat} {table : List (Nat × α)} (gap : Gap (taken covered table) start size)
    (positive : 0 < size) : ∃ owner, table[start]? = some (0, owner) := by
  have first := gap 0 positive
  rw [Nat.add_zero] at first
  clear gap
  induction table generalizing covered start with
  | nil => cases first
  | cons head rest ih =>
    cases start with
    | zero =>
      cases covered with
      | zero =>
        simp only [taken, List.getElem?_cons_zero, Option.some.injEq, bne_eq_false_iff_eq] at first
        exact ⟨head.2, by rw [List.getElem?_cons_zero, ← first]⟩
      | succ covered => simp [taken] at first
    | succ start => cases covered <;> exact ih first

end Mgsim.Lib
