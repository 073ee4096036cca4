import Mgsim.Sim.Timeline

namespace Mgsim.Sim
open Mgsim.Lib
variable {P S A W : Type} [DecidableEq P] [DecidableEq S] [DecidableEq A]

/-- `Step` with this number of cycles ends neither aborted nor idle, and leaves `k'`. -/
def Returns (comp : Components P S A W) (bound cycles : Nat) (k k' : Kernel P S A W) : Prop :=
  ∃ fuel, k.step comp bound fuel cycles = some (.running, k') ∧ k'.aborted = false

/-- Nothing makes the loop stop before its end. -/
structure Calm (k : Kernel P S A W) : Prop where
  aborted : k.aborted = false
  suspended : k.suspended = false
  idle : k.idle = false

/-- Time is at the first clock to run. -/
def Advanced (k : Kernel P S A W) : Prop := ∃ c, k.activeClocks = some c ∧ k.cycle = (k.clocks c).cycle

section Turn
variable {comp : Components P S A W} {bound : Nat} {k k' : Kernel P S A W}

theorem Kernel.advance_spec (called : k.advance = some k') :
    k'.suspended = k.suspended ∧ (Advanced k' ∨ (k'.activeClocks = none ∧ k'.cycle = k.cycle)) := by
  unfold Kernel.advance at called
  split at called
  · rename_i none
    cases called
    exact ⟨rfl, Or.inr ⟨none, rfl⟩⟩
  · rename_i c first
    split at called
    · cases called
      exact ⟨rfl, Or.inl ⟨c, first, rfl⟩⟩
    · cases called

/-- After a turn nothing has been done, or time is at the next clock, or there is none. -/
theorem Kernel.turn_spec (called : k.turn comp bound = some k') :
    (k.suspended = true → k'.suspended = true) ∧
      (k'.idle = true ∨ Advanced k' ∨ (k'.activeClocks = none ∧ k'.cycle = k.cycle)) := by
  obtain ⟨middle, phases, rest⟩ := Option.bind_eq_some_iff.mp called
  have moves := Moves.phases phases
  obtain ⟨busy, _, rest⟩ := Option.bind_eq_some_iff.mp rest
  cases busy with
  | false =>
    cases rest
    exact ⟨moves.suspended, Or.inl rfl⟩
  | true =>
    obtain ⟨retired, ran, advanced⟩ := Option.bind_eq_some_iff.mp rest
    obtain ⟨sameCycle, sameStop, _⟩ := Kernel.retireClocks_frame ran
    obtain ⟨stop, placed⟩ := Kernel.advance_spec advanced
    refine ⟨fun stopped => (stop.trans sameStop).trans (moves.suspended stopped), Or.inr (placed.imp_right fun both => ?_)⟩
    exact ⟨both.1, (both.2.trans sameCycle).trans moves.same_cycle⟩

end Turn

section Loop
variable {comp : Components P S A W} {bound fuel endcycle later : Nat} {k k' : Kernel P S A W}

theorem Kernel.loop_ends (done : Kernel.loop comp bound endcycle fuel k = some k') : ¬ k'.Continues endcycle := by
  induction fuel generalizing k with
  | zero =>
    unfold Kernel.loop at done
    split at done
    · cases done
    · rename_i ended
      cases done
      exact ended
  | succ fuel ih =>
    unfold Kernel.loop at done
    split at done
    · obtain ⟨middle, _, rest⟩ := Option.bind_eq_some_iff.mp done
      exact ih rest
    · rename_i ended
      cases done
      exact ended

theorem Kernel.loop_stop (ended : ¬ k.Continues endcycle) : Kernel.loop comp bound endcycle fuel k = some k := by
  cases fuel <;> exact if_neg ended

theorem Kernel.loop_turn {middle : Kernel P S A W} (goes : k.Continues endcycle) (turned : k.turn comp bound = some middle)
    (rest : Kernel.loop comp bound endcycle fuel middle = some k') :
    Kernel.loop comp bound endcycle (fuel + 1) k = some k' := by
  rw [Kernel.loop, if_pos goes, turned]
  exact rest

theorem Kernel.loop_suspended (done : Kernel.loop comp bound endcycle fuel k = some k') (stopped : k.suspended = true) :
    k'.suspended = true := by
  induction fuel generalizing k with
  | zero =>
    unfold Kernel.loop at done
    split at done
    · cases done
    · cases done
      exact stopped
  | succ fuel ih =>
    unfold Kernel.loop at done
    split at done
    · obtain ⟨middle, turned, rest⟩ := Option.bind_eq_some_iff.mp done
      exact ih rest ((Kernel.turn_spec turned).1 stopped)
    · cases done
      exact stopped

theorem Calm.cycle_ge (calm : Calm k) (ended : ¬ k.Continues endcycle) : endcycle ≤ k.cycle := by
  by_contra early
  exact ended ⟨calm.aborted, Or.inl calm.suspended, calm.idle, Or.inr (Nat.lt_of_not_le early)⟩

/-- A loop that runs to its end stops with time at the next clock. -/
theorem Kernel.loop_advanced (finite : endcycle ≠ infiniteCycles) (done : Kernel.loop comp bound endcycle fuel k = some k')
    (calm : Calm k') (placed : Advanced k ∨ (k.activeClocks = none ∧ k.cycle < endcycle)) : Advanced k' := by
  induction fuel generalizing k with
  | zero =>
    unfold Kernel.loop at done
    split at done
    · cases done
    · rename_i ended
      cases done
      exact placed.resolve_right fun both => Nat.not_le.mpr both.2 (calm.cycle_ge ended)
  | succ fuel ih =>
    unfold Kernel.loop at done
    split at done
    · rename_i goes
      obtain ⟨middle, turned, rest⟩ := Option.bind_eq_some_iff.mp done
      have early : k.cycle < endcycle := goes.2.2.2.resolve_left finite
      rcases (Kernel.turn_spec turned).2 with idle | advanced | ⟨none, same⟩
      · have ended : ¬ middle.Continues endcycle := fun goes => by simp [goes.2.2.1] at idle
        rw [Kernel.loop_stop ended] at rest
        cases rest
        rw [calm.idle] at idle
        cases idle
      · exact ih rest (Or.inl advanced)
      · exact ih rest (Or.inr ⟨none, same ▸ early⟩)
    · rename_i ended
      cases done
      exact placed.resolve_right fun both => Nat.not_le.mpr both.2 (calm.cycle_ge ended)

/-- A loop to a later end stops at an earlier one on its way. -/
theorem Kernel.loop_split (finite : endcycle ≠ infiniteCycles) (laterFinite : later ≠ infiniteCycles)
    (done : Kernel.loop comp bound later fuel k = some k') (calm : Calm k') (order : endcycle ≤ later) :
    ∃ middle first second, Kernel.loop comp bound endcycle first k = some middle ∧ Calm middle ∧
      Kernel.loop comp bound later second middle = some k' := by
  induction fuel generalizing k with
  | zero =>
    unfold Kernel.loop at done
    split at done
    · cases done
    · rename_i ended
      obtain rfl := Option.some.inj done
      have stop : ¬ k.Continues endcycle := fun goes =>
        Nat.not_le.mpr (goes.2.2.2.resolve_left finite) (Nat.le_trans order (calm.cycle_ge ended))
      exact ⟨k, 0, 0, Kernel.loop_stop stop, calm, Kernel.loop_stop ended⟩
  | succ fuel ih =>
    by_cases goesLater : k.Continues later
    · have unfolded := done
      rw [Kernel.loop, if_pos goesLater] at unfolded
      obtain ⟨middle, turned, rest⟩ := Option.bind_eq_some_iff.mp unfolded
      by_cases goes : k.Continues endcycle
      · obtain ⟨stop, first, second, before, calmStop, after⟩ := ih rest
        exact ⟨stop, first + 1, second, Kernel.loop_turn goes turned before, calmStop, after⟩
      · have running : k.suspended = false := by
          by_contra stopped
          have kept := Kernel.loop_suspended done (Bool.not_eq_false _ ▸ stopped)
          rw [calm.suspended] at kept
          cases kept
        exact ⟨k, 0, fuel + 1, Kernel.loop_stop goes, ⟨goesLater.1, running, goesLater.2.2.1⟩, done⟩
    · rw [Kernel.loop_stop goesLater] at done
      obtain rfl := Option.some.inj done
      have stop : ¬ k.Continues endcycle := fun goes =>
        Nat.not_le.mpr (goes.2.2.2.resolve_left finite) (Nat.le_trans order (calm.cycle_ge goesLater))
      exact ⟨k, 0, 0, Kernel.loop_stop stop, calm, Kernel.loop_stop goesLater⟩

theorem Kernel.loop_join {middle : Kernel P S A W} {first second : Nat} (finite : endcycle ≠ infiniteCycles)
    (before : Kernel.loop comp bound endcycle first k = some middle)
    (after : Kernel.loop comp bound later second middle = some k') (order : endcycle ≤ later) :
    ∃ fuel, Kernel.loop comp bound later fuel k = some k' := by
  induction first generalizing k with
  | zero =>
    unfold Kernel.loop at before
    split at before
    · cases before
    · cases before
      exact ⟨second, after⟩
  | succ first ih =>
    unfold Kernel.loop at before
    split at before
    · rename_i goes
      obtain ⟨next, turned, rest⟩ := Option.bind_eq_some_iff.mp before
      obtain ⟨fuel, joined⟩ := ih rest
      have goesLater : k.Continues later :=
        ⟨goes.1, goes.2.1, goes.2.2.1, Or.inr (Nat.lt_of_lt_of_le (goes.2.2.2.resolve_left finite) order)⟩
      exact ⟨fuel + 1, Kernel.loop_turn goesLater turned joined⟩
    · cases before
      exact ⟨second, after⟩

end Loop

section Step
variable {comp : Components P S A W} {bound a b : Nat} {k k' k₁ k₂ : Kernel P S A W}

theorem returns_iff {cycles : Nat} : Returns comp bound cycles k k' ↔
    ∃ entered fuel done, k.enter comp bound = some entered ∧
      Kernel.loop comp bound (k.endOf cycles) fuel entered = some done ∧ Calm done ∧
      k' = { done with cycle := min done.cycle (k.endOf cycles) } := by
  constructor
  · rintro ⟨fuel, stepped, running⟩
    obtain ⟨entered, enter, rest⟩ := Option.bind_eq_some_iff.mp stepped
    obtain ⟨done, looped, left⟩ := Option.map_eq_some_iff.mp rest
    unfold Kernel.leave at left
    dsimp only at left
    split at left
    · cases left
    · rename_i unsuspended
      split at left
      · cases left
      · rename_i busy
        cases left
        exact ⟨entered, fuel, done, enter, looped, ⟨running, Bool.not_eq_true _ ▸ unsuspended, Bool.not_eq_true _ ▸ busy⟩, rfl⟩
  · rintro ⟨entered, fuel, done, enter, looped, calm, rfl⟩
    refine ⟨fuel, ?_, calm.aborted⟩
    rw [Kernel.step, enter, Option.bind_some, looped, Option.map_some, Kernel.leave]
    dsimp only
    rw [calm.suspended, calm.idle]
    rfl

theorem Kernel.enter_placed {endcycle : Nat} (entered : k.enter comp bound = some k₁) (positive : k.cycle < endcycle) :
    Advanced k₁ ∨ (k₁.activeClocks = none ∧ k₁.cycle < endcycle) := by
  obtain ⟨updated, started, rest⟩ := Option.bind_eq_some_iff.mp entered
  have same : updated.cycle = k.cycle := by
    split at started
    · exact (Moves.updateStorages started).same_cycle
    · cases started
      rfl
  dsimp only at rest
  split at rest
  · rename_i none
    cases rest
    exact Or.inr ⟨none, same.symm ▸ positive⟩
  · rename_i c first
    split at rest
    · cases rest
      exact Or.inl ⟨c, first, rfl⟩
    · cases rest

theorem Calm.eta (calm : Calm k) : { k with aborted := false, suspended := false, idle := false } = k := by
  obtain ⟨aborted, suspended, idle⟩ := calm
  cases k
  dsimp only at aborted suspended idle
  rw [aborted, suspended, idle]

/-- After the end of a run the next one goes on where it was. -/
theorem Kernel.enter_leave {endcycle : Nat} (calm : Calm k) (advanced : Advanced k) (reached : endcycle ≤ k.cycle)
    (positive : 0 < endcycle) : Kernel.enter comp bound { k with cycle := min k.cycle endcycle } = some k := by
  obtain ⟨c, first, time⟩ := advanced
  have nonzero : min k.cycle endcycle ≠ 0 := by omega
  unfold Kernel.enter
  dsimp only
  rw [if_neg nonzero, Option.bind_some]
  dsimp only
  rw [first]
  dsimp only
  rw [if_pos (show min k.cycle endcycle ≤ (k.clocks c).cycle by omega), ← time, ← first]
  exact congrArg some calm.eta

theorem endOf_of_small {cycles : Nat} (small : k.cycle + cycles < infiniteCycles) : k.endOf cycles = k.cycle + cycles := by
  have bounds : k.cycle + cycles < 2 ^ 64 - 1 := small
  unfold Kernel.endOf infiniteCycles
  rw [if_neg (by omega), Nat.mod_eq_of_lt (by omega)]

/-- As long as the cycle counter does not come to its last value, a run can be split. -/
theorem step_splits (someCycles : 0 < a) (small : k.cycle + a + b < infiniteCycles) :
    Returns comp bound (a + b) k k₂ ↔ ∃ k₁, Returns comp bound a k k₁ ∧ Returns comp bound b k₁ k₂ := by
  have whole : k.endOf (a + b) = k.cycle + a + b := by rw [endOf_of_small (by omega), Nat.add_assoc]
  have first : k.endOf a = k.cycle + a := endOf_of_small (by omega)
  have finite : k.cycle + a ≠ infiniteCycles := by omega
  have laterFinite : k.cycle + a + b ≠ infiniteCycles := by omega
  have order : k.cycle + a ≤ k.cycle + a + b := by omega
  -- `Step` goes on from the state that it has left.
  have second {entered middle : Kernel P S A W} {fuel : Nat} (enter : k.enter comp bound = some entered)
      (before : Kernel.loop comp bound (k.cycle + a) fuel entered = some middle) (calm : Calm middle) :
      Kernel.enter comp bound { middle with cycle := min middle.cycle (k.cycle + a) } = some middle ∧
        Kernel.endOf { middle with cycle := min middle.cycle (k.cycle + a) } b = k.cycle + a + b := by
    have reached := calm.cycle_ge (Kernel.loop_ends before)
    have advanced := Kernel.loop_advanced finite before calm (Kernel.enter_placed enter (by omega))
    have atEnd : min middle.cycle (k.cycle + a) = k.cycle + a := by omega
    refine ⟨Kernel.enter_leave calm advanced reached (by omega), ?_⟩
    rw [endOf_of_small (by dsimp only; omega)]
    dsimp only
    rw [atEnd]
  constructor
  · intro returns
    obtain ⟨entered, fuel, done, enter, looped, calm, rfl⟩ := returns_iff.mp returns
    rw [whole] at looped ⊢
    obtain ⟨middle, firstFuel, secondFuel, before, calmMiddle, after⟩ :=
      Kernel.loop_split finite laterFinite looped calm order
    obtain ⟨again, ending⟩ := second enter before calmMiddle
    refine ⟨{ middle with cycle := min middle.cycle (k.cycle + a) }, returns_iff.mpr ?_, returns_iff.mpr ?_⟩
    · rw [first]
      exact ⟨entered, firstFuel, middle, enter, before, calmMiddle, rfl⟩
    · rw [ending]
      exact ⟨middle, secondFuel, done, again, after, calm, rfl⟩
  · rintro ⟨k₁, firstReturns, secondReturns⟩
    obtain ⟨entered, firstFuel, middle, enter, before, calmMiddle, rfl⟩ := returns_iff.mp firstReturns
    rw [first] at before secondReturns
    obtain ⟨again, ending⟩ := second enter before calmMiddle
    obtain ⟨resumed, secondFuel, done, reenter, after, calm, rfl⟩ := returns_iff.mp secondReturns
    rw [again] at reenter
    obtain rfl := Option.some.inj reenter
    rw [ending] at after ⊢
    obtain ⟨fuel, joined⟩ := Kernel.loop_join finite before after order
    refine returns_iff.mpr ?_
    rw [whole]
    exact ⟨entered, fuel, done, enter, joined, calm, rfl⟩

end Step

section Examples

/-- One process that always has something to do. -/
def busyComponents : Components Unit Unit Unit Unit :=
  ⟨fun _ => 0, fun _ => 0, fun _ _ => some (.success, [], ()), fun _ _ => none, fun _ _ => none⟩

/-- In cycle 5, on a clock that runs in each cycle. -/
def busyKernel : Kernel Unit Unit Unit Unit where
  lastsuspend := infiniteCycles
  cycle := 5
  masterFreq := 1
  clock := none
  process := none
  numClocks := 1
  clocks := fun _ => ⟨1, 1, none, 5, some (), none, none, true⟩
  activeClocks := some 0
  phase := .commit
  aborted := false
  suspended := false
  idle := false
  processes := fun _ => ⟨.active, 1, none, some (.head 0), 0⟩
  storages := fun _ => ⟨none, false⟩
  arbitrators := fun _ => ⟨none, false⟩
  world := ()

theorem returns_of_step {comp : Components Unit Unit Unit Unit} {bound fuel cycles : Nat} {k : Kernel Unit Unit Unit Unit}
    {next : Nat} (stepped : (k.step comp bound fuel cycles).map (fun r => (r.1, r.2.aborted, r.2.cycle, (r.2.clocks 0).cycle)) =
      some (.running, false, k.endOf cycles, next)) :
    ∃ k', k.step comp bound fuel cycles = some (.running, k') ∧ Returns comp bound cycles k k' ∧ (k'.clocks 0).cycle = next := by
  obtain ⟨⟨state, k'⟩, stepped, seen⟩ := Option.map_eq_some_iff.mp stepped
  obtain ⟨rfl, rest⟩ := Prod.mk.inj seen
  obtain ⟨running, rest⟩ := Prod.mk.inj rest
  exact ⟨k', stepped, ⟨fuel, stepped, running⟩, (Prod.mk.inj rest).2⟩

theorem step_splits_busy : ∃ k₁ k₂, Returns busyComponents 1 1 busyKernel k₁ ∧ Returns busyComponents 1 1 k₁ k₂ ∧
    (k₂.clocks 0).cycle = 7 := by
  obtain ⟨k₂, _, returns, next⟩ := @returns_of_step busyComponents 1 2 2 busyKernel 7 (by decide +kernel)
  obtain ⟨k₁, first, second⟩ := (step_splits (show 0 < 1 by decide)
    (show busyKernel.cycle + 1 + 1 < infiniteCycles by decide +kernel)).mp returns
  exact ⟨k₁, k₂, first, second, next⟩

/-- The cycle counter wraps around in the second run, which then does nothing, and in the whole run, which does
not even do what the first one did. -/
theorem split_past_wrap : ¬ ∀ (k k₁ k₂ k₃ : Kernel Unit Unit Unit Unit) (a b : Nat), 0 < a → 0 < b → a + b < 2 ^ 64 →
    Returns busyComponents 1 a k k₁ → Returns busyComponents 1 b k₁ k₂ → Returns busyComponents 1 (a + b) k k₃ → k₂ = k₃ := by
  intro claimed
  have runs : ((busyKernel.step busyComponents 1 1 1).bind fun first =>
      (first.2.step busyComponents 1 1 (2 ^ 64 - 4)).map fun second =>
        (first.1, first.2.aborted, second.1, second.2.aborted, (second.2.clocks 0).cycle)) =
      some (.running, false, .running, false, 6) := by decide +kernel
  obtain ⟨⟨state₁, k₁⟩, stepped₁, rest⟩ := Option.bind_eq_some_iff.mp runs
  obtain ⟨⟨state₂, k₂⟩, stepped₂, seen⟩ := Option.map_eq_some_iff.mp rest
  simp only [Prod.mk.injEq] at seen
  obtain ⟨rfl, running₁, rfl, running₂, next₂⟩ := seen
  obtain ⟨k₃, _, returns₃, next₃⟩ := @returns_of_step busyComponents 1 1 (1 + (2 ^ 64 - 4)) busyKernel 5 (by decide +kernel)
  have same := claimed busyKernel k₁ k₂ k₃ 1 (2 ^ 64 - 4) (by decide) (by decide) (by decide)
    ⟨1, stepped₁, running₁⟩ ⟨1, stepped₂, running₂⟩ returns₃
  rw [same, next₃] at next₂
  cases next₂

end Examples

end Mgsim.Sim
