import Mgsim.Sim.Schedule

namespace Mgsim.Sim
open Mgsim.Lib KernelRecord
variable {P S A W : Type}

namespace Schedule
variable {period : Nat} {log : List Tick} {due : Option Nat}

/-- All ticks are at multiples of the period, after the first cycle. -/
theorem spaced (schedule : Schedule period log due) (positive : 0 < period) :
    (∀ t, .ran t ∈ log ∨ .idled t ∈ log → period ∣ t ∧ 0 < t) ∧ ∀ t ∈ due, period ∣ t ∧ 0 < t := by
  induction schedule with
  | start => exact ⟨by simp, by simp⟩
  | @activated log now _ _ ih =>
    refine ⟨fun t member => ih.1 t (by simpa using member), fun t member => ?_⟩
    cases member
    exact ⟨Nat.dvd_mul_left _ _, Nat.mul_pos (Nat.succ_pos _) positive⟩
  | @ran log due _ ih =>
    refine ⟨fun t member => ?_, by simp⟩
    rcases member with ran | idled
    · rcases List.mem_append.mp ran with old | new
      · exact ih.1 t (Or.inl old)
      · cases List.mem_singleton.mp new
        exact ih.2 _ rfl
    · exact ih.1 t (Or.inr (by simpa using idled))
  | @idled log due _ ih =>
    refine ⟨fun t member => ?_, ih.2⟩
    rcases member with ran | idled
    · exact ih.1 t (Or.inl (by simpa using ran))
    · rcases List.mem_append.mp idled with old | new
      · exact ih.1 t (Or.inr old)
      · cases List.mem_singleton.mp new
        exact ih.2 _ rfl

/-- A clock that is not active and has not run has no history. -/
theorem eq_nil (schedule : Schedule period log none) (never : ∀ t, .ran t ∉ log) : log = [] := by
  generalize inactive : (none : Option Nat) = due at schedule
  cases schedule with
  | start => rfl
  | activated _ _ => cases inactive
  | ran _ => exact absurd (List.mem_append_right _ (List.mem_singleton.mpr rfl)) (never _)
  | idled _ => cases inactive

end Schedule

/-- When a clock has to run next, if it is active. -/
def Timeline.due (t : Timeline) (c : ClockId) : Option Nat :=
  if (t.clocks c).activated then some (t.clocks c).cycle else none

/-- The histories of the clocks agree with their schedule. -/
structure Timely (t : Timeline) (log : ClockId → List Tick) : Prop where
  queue : ∃ items, Queue t items
  ticks : ∀ c, Schedule (t.clocks c).period (log c) (t.due c)
  ahead : ∀ c, (t.clocks c).activated = true → t.cycle ≤ (t.clocks c).cycle
  passed : ∀ c before, .ran before ∈ log c → before ≤ t.cycle ∧ before < 2 ^ 64
  bare : ∀ c, t.numClocks ≤ c → (t.clocks c).period = 0 ∧ log c = []
  positive : ∀ c < t.numClocks, 0 < (t.clocks c).period

/-- What only `CreateClock` changes, and the time. -/
structure SameRates (t t' : Timeline) : Prop where
  cycle : t'.cycle = t.cycle
  masterFreq : t'.masterFreq = t.masterFreq
  numClocks : t'.numClocks = t.numClocks
  period : ∀ c, (t'.clocks c).period = (t.clocks c).period
  frequency : ∀ c, (t'.clocks c).frequency = (t.clocks c).frequency

/-- Active clocks stay as they are, and other clocks are activated for a later cycle. -/
structure Steady (t t' : Timeline) : Prop extends SameRates t t' where
  active : ∀ c, (t.clocks c).activated = true → (t'.clocks c).activated = true ∧ (t'.clocks c).cycle = (t.clocks c).cycle
  later : ∀ c, (t.clocks c).activated = false → (t'.clocks c).activated = true → t.cycle < (t'.clocks c).cycle

/-- The next multiples of all periods are cycles. -/
def Timeline.TicksFit (t : Timeline) : Prop :=
  ∀ c < t.numClocks, (t.cycle / (t.clocks c).period + 1) * (t.clocks c).period < 2 ^ 64

namespace SameRates
variable {t₁ t₂ t₃ : Timeline}

theorem refl (t : Timeline) : SameRates t t := ⟨rfl, rfl, rfl, fun _ => rfl, fun _ => rfl⟩

theorem trans (first : SameRates t₁ t₂) (second : SameRates t₂ t₃) : SameRates t₁ t₃ where
  cycle := second.cycle.trans first.cycle
  masterFreq := second.masterFreq.trans first.masterFreq
  numClocks := second.numClocks.trans first.numClocks
  period c := (second.period c).trans (first.period c)
  frequency c := (second.frequency c).trans (first.frequency c)

theorem ticksFit (same : SameRates t₁ t₂) (fit : t₁.TicksFit) : t₂.TicksFit := by
  intro c inside
  rw [same.numClocks] at inside
  rw [same.cycle, same.period]
  exact fit c inside

end SameRates

namespace Steady
variable {t t₁ t₂ t₃ : Timeline} {log : ClockId → List Tick} {c : ClockId}

theorem refl (t : Timeline) : Steady t t :=
  ⟨.refl t, fun _ active => ⟨active, rfl⟩, fun _ inactive active => by rw [inactive] at active; cases active⟩

theorem trans (first : Steady t₁ t₂) (second : Steady t₂ t₃) : Steady t₁ t₃ where
  toSameRates := first.toSameRates.trans second.toSameRates
  active c active := by
    obtain ⟨still, same⟩ := first.active c active
    obtain ⟨always, again⟩ := second.active c still
    exact ⟨always, again.trans same⟩
  later c inactive active := by
    by_cases before : (t₂.clocks c).activated = true
    · rw [(second.active c before).2]
      exact first.later c inactive before
    · rw [← first.cycle]
      exact second.later c (Bool.not_eq_true _ ▸ before) active

/-- Due are the same clocks as before. -/
theorem due_iff (steady : Steady t₁ t₂) : t₂.Due c ↔ t₁.Due c := by
  unfold Timeline.Due
  rw [steady.cycle]
  constructor
  · rintro ⟨active, now⟩
    by_cases before : (t₁.clocks c).activated = true
    · exact ⟨before, (steady.active c before).2 ▸ now⟩
    · exact absurd now (steady.later c (Bool.not_eq_true _ ▸ before) active).ne'
  · rintro ⟨active, now⟩
    obtain ⟨still, same⟩ := steady.active c active
    exact ⟨still, same.trans now⟩

theorem noteActivations_self : noteActivations log t t = log := by
  funext c
  refine if_neg fun both => ?_
  rw [both.1] at both
  cases both.2

theorem noteActivations_trans (first : Steady t₁ t₂) (second : Steady t₂ t₃) :
    noteActivations (noteActivations log t₁ t₂) t₂ t₃ = noteActivations log t₁ t₃ := by
  funext c
  unfold noteActivations
  rw [first.cycle]
  cases before : (t₁.clocks c).activated with
  | true =>
    rw [(first.active c before).1]
    simp
  | false =>
    cases between : (t₂.clocks c).activated with
    | true =>
      rw [(second.active c between).1]
      simp
    | false => simp

end Steady

namespace Timely
variable {k k' : Kernel P S A W} {t : Timeline} {log : ClockId → List Tick} {c : ClockId}

/-- The next tick is in the future. -/
theorem lt_next (now : Nat) {period : Nat} (positive : 0 < period) : now < (now / period + 1) * period := by
  rw [Nat.mul_comm]
  exact Nat.lt_mul_div_succ now positive

/-- A clock that is put in its place will run at the next multiple of its period. -/
theorem link {front back : List ClockId} {tick : Nat} (timely : Timely t log) (queue : Queue t (front ++ back))
    (inactive : (t.clocks c).activated = false) (inside : c < t.numClocks)
    (next : tick = (t.cycle / (t.clocks c).period + 1) * (t.clocks c).period)
    (small : ∀ d ∈ front, (t.clocks d).cycle < tick) (large : ∀ d ∈ back, tick ≤ (t.clocks d).cycle) :
    Steady t (t.link front.getLast? c back.head? tick) ∧
      Timely (t.link front.getLast? c back.head? tick) (noteActivations log t (t.link front.getLast? c back.head? tick)) := by
  have future : t.cycle < tick := next ▸ lt_next t.cycle (timely.positive c inside)
  have same : SameRates t (t.link front.getLast? c back.head? tick) :=
    ⟨rfl, rfl, rfl, fun _ => Timeline.link_period, fun _ => Timeline.link_frequency⟩
  have noted : noteActivations log t (t.link front.getLast? c back.head? tick) c = log c ++ [.activated t.cycle] :=
    if_pos ⟨inactive, by rw [Timeline.link_here]⟩
  have unnoted {d : ClockId} (other : d ≠ c) : noteActivations log t (t.link front.getLast? c back.head? tick) d = log d := by
    refine if_neg fun both => ?_
    rw [Timeline.link_activated other, both.1] at both
    cases both.2
  have ranBefore {d : ClockId} {earlier : Nat}
      (member : .ran earlier ∈ noteActivations log t (t.link front.getLast? c back.head? tick) d) : .ran earlier ∈ log d := by
    by_cases here : d = c
    · rw [here, noted] at member
      rw [here]
      simpa using member
    · rwa [unnoted here] at member
  refine ⟨⟨same, fun d active => ?_, fun d was active => ?_⟩, ?_, fun d => ?_, fun d active => ?_, fun d earlier member => ?_,
    fun d outside => ?_, fun d inside => ?_⟩
  · have other : d ≠ c := by
      rintro rfl
      rw [inactive] at active
      cases active
    exact ⟨(Timeline.link_activated other).trans active, Timeline.link_cycle other⟩
  · by_cases here : d = c
    · rw [here, Timeline.link_here]
      exact future
    · rw [Timeline.link_activated here, was] at active
      cases active
  · exact ⟨_, queue.link inactive inside small large⟩
  · rw [same.period]
    by_cases here : d = c
    · have schedule := timely.ticks c
      rw [Timeline.due, inactive, if_neg Bool.false_ne_true] at schedule
      rw [here, noted, Timeline.due, Timeline.link_here, if_pos rfl]
      dsimp only
      rw [next]
      exact schedule.activated fun earlier member => (timely.passed c earlier member).1
    · rw [unnoted here, Timeline.due, Timeline.link_activated here, Timeline.link_cycle here]
      exact timely.ticks d
  · by_cases here : d = c
    · rw [here, Timeline.link_here]
      exact future.le
    · rw [Timeline.link_activated here] at active
      rw [Timeline.link_cycle here]
      exact timely.ahead d active
  · exact timely.passed d earlier (ranBefore member)
  · obtain ⟨none, never⟩ := timely.bare d outside
    have other : d ≠ c := by
      rintro rfl
      exact Nat.not_le.mpr inside outside
    exact ⟨(same.period d).trans none, (unnoted other).trans never⟩
  · rw [same.period]
    exact timely.positive d inside

/-- An activation puts the clock in its place, and notes it. -/
theorem activate (timely : Timely k.timeline log) (fit : k.timeline.TicksFit) (called : k.activateClock c = some k') :
    Steady k.timeline k'.timeline ∧ Timely k'.timeline (noteActivations log k.timeline k'.timeline) := by
  rcases Kernel.activateClock_spec called with ⟨_, rfl⟩ | ⟨inactive, positive, before, after, found, timeline⟩
  · rw [Steady.noteActivations_self]
    exact ⟨.refl _, timely⟩
  have inside : c < k.numClocks := by
    by_contra outside
    have none : (k.clocks c).period = 0 := (timely.bare c (Nat.le_of_not_lt outside)).1
    omega
  obtain ⟨items, queue⟩ := timely.queue
  obtain ⟨front, back, rfl, small, large, place⟩ := Kernel.searchPlace_spec queue.chain queue.sorted found
  rw [Option.or_none] at place
  obtain ⟨rfl, rfl⟩ := Prod.mk.inj place
  have tick : Kernel.nextTick k.cycle (k.clocks c).period = (k.cycle / (k.clocks c).period + 1) * (k.clocks c).period := by
    have small : (k.cycle / (k.clocks c).period + 1) * (k.clocks c).period < 2 ^ 64 := fit c inside
    rw [Nat.add_mul, Nat.one_mul] at small ⊢
    rw [Kernel.nextTick, Nat.mod_eq_of_lt small]
  rw [timeline]
  exact timely.link queue inactive inside tick small large

/-- The components activate clocks, and the histories tell it. -/
theorem moves (timely : Timely k.timeline log) (fit : k.timeline.TicksFit) (moves : Moves k k') :
    Steady k.timeline k'.timeline ∧ Timely k'.timeline (noteActivations log k.timeline k'.timeline) := by
  induction moves generalizing log with
  | quiet same _ =>
    rw [same, Steady.noteActivations_self]
    exact ⟨.refl _, timely⟩
  | activate called => exact timely.activate fit called
  | trans _ _ first second =>
    obtain ⟨steady, middle⟩ := first timely fit
    obtain ⟨further, after⟩ := second middle (steady.ticksFit fit)
    rw [steady.noteActivations_trans further] at after
    exact ⟨steady.trans further, after⟩

/-- The first clock has run, and is not active until it is activated again. -/
theorem retire {items : List ClockId} (timely : Timely t log) (queue : Queue t (c :: items)) (fit : t.TicksFit)
    (due : t.Due c) : Timely (t.retire c) (Function.update log c (log c ++ [.ran t.cycle])) := by
  have same {d : ClockId} (other : d ≠ c) : (t.retire c).clocks d = t.clocks d := Function.update_of_ne other _ _
  have here : (t.retire c).clocks c = { t.clocks c with activated := false } := Function.update_self ..
  have period (d : ClockId) : ((t.retire c).clocks d).period = (t.clocks d).period := by
    by_cases this : d = c
    · rw [this, here]
    · rw [same this]
  have inside := queue.created c due.1
  refine ⟨⟨items, queue.retire⟩, fun d => ?_, fun d active => ?_, fun d earlier member => ?_, fun d outside => ?_, fun d inside => ?_⟩
  · rw [period]
    by_cases this : d = c
    · have schedule := timely.ticks c
      rw [Timeline.due, if_pos due.1, due.2] at schedule
      rw [this, Function.update_self, Timeline.due, here, if_neg Bool.false_ne_true]
      exact schedule.ran
    · rw [Function.update_of_ne this, Timeline.due, same this]
      exact timely.ticks d
  · by_cases this : d = c
    · rw [this, here] at active
      cases active
    · rw [same this] at active ⊢
      exact timely.ahead d active
  · by_cases this : d = c
    · rw [this, Function.update_self] at member
      rcases List.mem_append.mp member with old | new
      · exact timely.passed c earlier old
      · cases List.mem_singleton.mp new
        have small := fit c inside
        have future := lt_next t.cycle (timely.positive c inside)
        exact ⟨Nat.le_refl _, by omega⟩
    · rw [Function.update_of_ne this] at member
      exact timely.passed d earlier member
  · obtain ⟨none, never⟩ := timely.bare d outside
    have other : d ≠ c := by
      rintro rfl
      exact Nat.not_le.mpr inside outside
    exact ⟨(period d).trans none, (Function.update_of_ne other _ _).trans never⟩
  · rw [period]
    exact timely.positive d inside

/-- An activation leaves the other clocks, and either the first clock or nothing to run in this cycle. -/
theorem activate_first (timely : Timely k.timeline log) (fit : k.timeline.TicksFit) (called : k.activateClock c = some k') :
    (∀ d, d ≠ c → (k'.timeline.clocks d).activated = (k.timeline.clocks d).activated ∧
        (k'.timeline.clocks d).cycle = (k.timeline.clocks d).cycle) ∧
      (k'.activeClocks = k.activeClocks ∨
        ∀ d, (k'.timeline.clocks d).activated = true → k.cycle < (k'.timeline.clocks d).cycle) := by
  have after := (timely.activate fit called).1
  rcases Kernel.activateClock_spec called with ⟨_, rfl⟩ | ⟨inactive, positive, before, behind, found, timeline⟩
  · exact ⟨fun _ _ => ⟨rfl, rfl⟩, Or.inl rfl⟩
  obtain ⟨items, queue⟩ := timely.queue
  obtain ⟨front, back, rfl, small, large, place⟩ := Kernel.searchPlace_spec queue.chain queue.sorted found
  rw [Option.or_none] at place
  obtain ⟨rfl, rfl⟩ := Prod.mk.inj place
  have atNew : k.cycle < (k'.timeline.clocks c).cycle := by
    refine after.later c inactive ?_
    rw [timeline, Timeline.link_here]
  refine ⟨fun d other => ?_, ?_⟩
  · rw [timeline]
    exact ⟨Timeline.link_activated other, Timeline.link_cycle other⟩
  · rcases List.eq_nil_or_concat front with rfl | ⟨front, b, rfl⟩
    · refine Or.inr fun d active => ?_
      by_cases here : d = c
      · rw [here]
        exact atNew
      · rw [timeline, Timeline.link_activated here, ← queue.active d] at active
        have late := large d active
        rw [timeline, Timeline.link_here] at atNew
        rw [timeline, Timeline.link_cycle here]
        exact Nat.lt_of_lt_of_le atNew late
    · rw [List.concat_eq_append, List.getLast?_concat] at timeline
      exact Or.inl (congrArg Timeline.activeClocks timeline)

/-- When the first clock does not run in this cycle, none does. -/
theorem none_due (timely : Timely t log) (first : ∀ c ∈ t.activeClocks, t.cycle ≠ (t.clocks c).cycle) (c : ClockId) :
    ¬ t.Due c := by
  rintro ⟨active, now⟩
  obtain ⟨items, queue⟩ := timely.queue
  have member := (queue.active c).mpr active
  cases items with
  | nil => cases member
  | cons head rest =>
    have atHead : t.activeClocks = some head := queue.chain.head_eq
    have headActive := (queue.active head).mp List.mem_cons_self
    have order : (t.clocks head).cycle ≤ (t.clocks c).cycle := by
      rcases List.mem_cons.mp member with rfl | later
      · exact Nat.le_refl _
      · exact (List.pairwise_cons.mp queue.sorted).1 c later
    have notPast := timely.ahead head headActive
    exact first head atHead (Nat.le_antisymm notPast (now ▸ order))

theorem noteRan_of_none {t' : Timeline} (none : ∀ c, ¬ t.Due c) : noteRan log t t' = log := by
  funext c
  exact if_neg (none c)

end Timely

/-- What the loop over the clocks that have run leaves: none is due, and the others are as they were. -/
structure Retired (t t' : Timeline) : Prop extends SameRates t t' where
  none : ∀ c, ¬ t'.Due c
  others : ∀ c, ¬ t.Due c → (t'.clocks c).activated = (t.clocks c).activated ∧ (t'.clocks c).cycle = (t.clocks c).cycle

namespace Timely
variable {k k' k₁ : Kernel P S A W} {log : ClockId → List Tick} {c : ClockId}

omit c in
theorem retire_timeline (k : Kernel P S A W) (c : ClockId) :
    ({ k with activeClocks := (k.clocks c).next }.setClock c { k.clocks c with activated := false }).timeline =
      k.timeline.retire c := by
  unfold Kernel.timeline Timeline.retire Kernel.setClock
  congr 1
  funext d
  by_cases here : d = c
  · rw [here]
    simp only [Function.update_self]
    rfl
  · simp only [Function.update_of_ne here]

/-- One clock that has run. -/
theorem retireClock (timely : Timely k.timeline log) (fit : k.timeline.TicksFit) (first : k.activeClocks = some c)
    (due : k.timeline.Due c) (called : k.retireClock c = some k₁) :
    SameRates k.timeline k₁.timeline ∧ ¬ k₁.timeline.Due c ∧
      (∀ d, d ≠ c → (k₁.timeline.clocks d).activated = (k.timeline.clocks d).activated ∧
        (k₁.timeline.clocks d).cycle = (k.timeline.clocks d).cycle) ∧
      ((k.clocks c).next = k₁.activeClocks ∨ ∀ d, (k₁.timeline.clocks d).activated = true → k.cycle < (k₁.timeline.clocks d).cycle) ∧
      Timely k₁.timeline (Function.update log c (log c ++ [.ran k.cycle] ++
        if (k₁.timeline.clocks c).activated then [.activated k.cycle] else [])) := by
  obtain ⟨items, queue⟩ := timely.queue
  have atHead : some c = items.head? := first.symm.trans queue.chain.head_eq
  obtain ⟨rest, rfl⟩ : ∃ rest, items = c :: rest := by
    cases items with
    | nil => cases atHead
    | cons head rest =>
      cases atHead
      exact ⟨rest, rfl⟩
  have retired := timely.retire queue fit due
  have timeline := retire_timeline k c
  unfold Kernel.retireClock at called
  dsimp only at called
  generalize { k with activeClocks := (k.clocks c).next }.setClock c { k.clocks c with activated := false } = after
    at called timeline
  rw [← timeline] at retired
  have inactive : (after.timeline.clocks c).activated = false := by
    rw [timeline, Timeline.retire]
    dsimp only
    rw [Function.update_self]
  have others (d : ClockId) (other : d ≠ c) : after.timeline.clocks d = k.timeline.clocks d := by
    rw [timeline]
    exact Function.update_of_ne other _ _
  have behind : after.activeClocks = (k.clocks c).next := congrArg Timeline.activeClocks timeline
  have now : after.cycle = k.cycle := congrArg Timeline.cycle timeline
  have same : SameRates k.timeline after.timeline := by
    rw [timeline]
    refine ⟨rfl, rfl, rfl, fun d => ?_, fun d => ?_⟩
    · by_cases here : d = c
      · rw [here, Timeline.retire]
        dsimp only
        rw [Function.update_self]
      · exact congrArg Timing.period (Function.update_of_ne here _ _)
    · by_cases here : d = c
      · rw [here, Timeline.retire]
        dsimp only
        rw [Function.update_self]
      · exact congrArg Timing.frequency (Function.update_of_ne here _ _)
  split at called
  · cases called
  split at called
  · obtain ⟨steady, again⟩ := retired.activate (same.ticksFit fit) called
    obtain ⟨unchanged, front⟩ := retired.activate_first (same.ticksFit fit) called
    refine ⟨same.trans steady.toSameRates, ?_, fun d other => ?_, ?_, ?_⟩
    · rw [steady.due_iff]
      rintro ⟨active, _⟩
      rw [inactive] at active
      cases active
    · rw [← others d other]
      exact unchanged d other
    · rw [← behind, ← now]
      exact front.imp_left Eq.symm
    · convert again using 1
      funext d
      unfold noteActivations
      by_cases here : d = c
      · rw [here, Function.update_self, Function.update_self, inactive, ← now]
        have sameTime : after.timeline.cycle = after.cycle := rfl
        have was : k.timeline.cycle = after.cycle := now.symm
        rw [sameTime, was]
        cases (k₁.timeline.clocks c).activated <;> simp
      · rw [Function.update_of_ne here, Function.update_of_ne here, (unchanged d here).1]
        simp
  · cases called
    refine ⟨same, ?_, fun d other => ?_, Or.inl behind.symm, ?_⟩
    · rintro ⟨active, _⟩
      rw [inactive] at active
      cases active
    · rw [others d other]
      exact ⟨rfl, rfl⟩
    · rw [inactive, if_neg Bool.false_ne_true, List.append_nil]
      exact retired

theorem retire_none {start : Option ClockId} (timely : Timely k.timeline log)
    (starts : start = k.activeClocks ∨ ((∀ c, ¬ k.timeline.Due c) ∧ ∀ c ∈ start, k.cycle ≠ (k.clocks c).cycle))
    (notDue : ∀ c ∈ start, k.cycle ≠ (k.clocks c).cycle) :
    Retired k.timeline k.timeline ∧ Timely k.timeline (noteRan log k.timeline k.timeline) := by
  have none (c : ClockId) : ¬ k.timeline.Due c := by
    rcases starts with rfl | ⟨none, _⟩
    · exact timely.none_due notDue c
    · exact none c
  rw [noteRan_of_none none]
  exact ⟨⟨.refl _, none, fun _ _ => ⟨rfl, rfl⟩⟩, timely⟩

/-- The loop over the clocks that have run. -/
theorem retireClocks {bound : Nat} {start : Option ClockId} (timely : Timely k.timeline log) (fit : k.timeline.TicksFit)
    (starts : start = k.activeClocks ∨
      ((∀ c, ¬ k.timeline.Due c) ∧ ∀ c ∈ start, k.cycle ≠ (k.clocks c).cycle))
    (called : Kernel.retireClocks bound start k = some k') :
    Retired k.timeline k'.timeline ∧ Timely k'.timeline (noteRan log k.timeline k'.timeline) := by
  induction bound generalizing start k log with
  | zero =>
    cases start with
    | none =>
      cases called
      exact timely.retire_none starts nofun
    | some c => cases called
  | succ bound ih =>
    cases start with
    | none =>
      cases called
      exact timely.retire_none starts nofun
    | some c =>
      unfold Kernel.retireClocks at called
      split at called
      · rename_i now
        obtain ⟨k₁, retired, later⟩ := Option.bind_eq_some_iff.mp called
        have first : k.activeClocks = some c := by
          rcases starts with same | ⟨_, notDue⟩
          · exact same.symm
          · exact absurd now (notDue c rfl)
        obtain ⟨items, queue⟩ := timely.queue
        have member : c ∈ items := List.mem_of_head? (queue.chain.head_eq.symm.trans first)
        have due : k.timeline.Due c := ⟨(queue.active c).mp member, now.symm⟩
        obtain ⟨same, past, others, goes, timely₁⟩ := timely.retireClock fit first due retired
        have goes' : (k.clocks c).next = k₁.activeClocks ∨
            ((∀ d, ¬ k₁.timeline.Due d) ∧ ∀ d ∈ (k.clocks c).next, k₁.cycle ≠ (k₁.clocks d).cycle) := by
          refine goes.imp_right fun late => ⟨fun d due => ?_, fun d behind => ?_⟩
          · have future := late d due.1
            rw [due.2, same.cycle] at future
            exact Nat.lt_irrefl _ future
          · obtain ⟨front, back, rfl⟩ := List.append_of_mem member
            have next : back.head? = some d := queue.chain.next_eq.symm.trans behind
            have inBack := List.mem_of_head? next
            have other : d ≠ c := by
              rintro rfl
              exact (List.nodup_cons.mp (List.nodup_middle.mp queue.nodup)).1 (List.mem_append_right _ inBack)
            have active := (queue.active d).mp (List.mem_append_right _ (List.mem_cons_of_mem _ inBack))
            have future := late d ((others d other).1.trans active)
            have sameTime : k₁.cycle = k.cycle := same.cycle
            rw [sameTime]
            exact future.ne
        obtain ⟨after, timely'⟩ := ih timely₁ (same.ticksFit fit) goes' later
        have dueIff {d : ClockId} (other : d ≠ c) : k₁.timeline.Due d ↔ k.timeline.Due d := by
          unfold Timeline.Due
          rw [(others d other).1, (others d other).2, same.cycle]
        refine ⟨⟨same.trans after.toSameRates, after.none, fun d notDue => ?_⟩, ?_⟩
        · have other : d ≠ c := by
            rintro rfl
            exact notDue due
          obtain ⟨active, cycle⟩ := after.others d (mt (dueIff other).mp notDue)
          exact ⟨active.trans (others d other).1, cycle.trans (others d other).2⟩
        · convert timely' using 1
          funext d
          unfold noteRan
          by_cases here : d = c
          · rw [here, if_pos due, if_neg past, Function.update_self, (after.others c past).1]
            rfl
          · rw [Function.update_of_ne here, same.cycle]
            by_cases dueD : k.timeline.Due d
            · rw [if_pos dueD, if_pos ((dueIff here).mpr dueD)]
            · rw [if_neg dueD, if_neg (mt (dueIff here).mp dueD)]
      · rename_i notNow
        cases called
        refine timely.retire_none starts fun d member => ?_
        cases member
        exact notNow

/-- Nothing could be done in this cycle. -/
theorem idled (timely : Timely k.timeline log) : Timely k.timeline (noteIdled log k.timeline) := by
  have ranBefore {c : ClockId} {before : Nat} (member : .ran before ∈ noteIdled log k.timeline c) : .ran before ∈ log c := by
    unfold noteIdled at member
    split at member
    · simpa using member
    · exact member
  refine ⟨timely.queue, fun c => ?_, timely.ahead, fun c before member => timely.passed c before (ranBefore member),
    fun c outside => ?_, timely.positive⟩
  · unfold noteIdled
    split
    · rename_i due
      have schedule := timely.ticks c
      rw [Timeline.due, if_pos due.1, due.2] at schedule ⊢
      exact schedule.idled
    · exact timely.ticks c
  · obtain ⟨none, never⟩ := timely.bare c outside
    refine ⟨none, ?_⟩
    unfold noteIdled
    rw [if_neg fun due => ?_]
    · exact never
    · obtain ⟨items, queue⟩ := timely.queue
      exact Nat.not_le.mpr (queue.created c due.1) outside

/-- Time is set, behind no tick that has been and before none that is to come. -/
theorem setTime {t : Timeline} {now : Nat} (timely : Timely t log) (ran : ∀ c before, .ran before ∈ log c → before ≤ now)
    (ahead : ∀ c, (t.clocks c).activated = true → now ≤ (t.clocks c).cycle) : Timely { t with cycle := now } log := by
  obtain ⟨items, queue⟩ := timely.queue
  exact ⟨⟨items, queue.chain, queue.nodup, queue.active, queue.sorted, queue.created⟩, timely.ticks, ahead,
    fun c before member => ⟨ran c before member, (timely.passed c before member).2⟩, timely.bare, timely.positive⟩

/-- No active clock runs before the first one. -/
theorem first_least {t : Timeline} {first : ClockId} (timely : Timely t log) (atFront : t.activeClocks = some first) {c : ClockId}
    (active : (t.clocks c).activated = true) : (t.clocks first).cycle ≤ (t.clocks c).cycle := by
  obtain ⟨items, queue⟩ := timely.queue
  have member := (queue.active c).mpr active
  have atHead := queue.chain.head_eq.symm.trans atFront
  cases items with
  | nil => cases member
  | cons head rest =>
    cases atHead
    rcases List.mem_cons.mp member with rfl | later
    · exact Nat.le_refl _
    · exact (List.pairwise_cons.mp queue.sorted).1 c later

/-- Time goes on to the first clock. -/
theorem setFirst {first : ClockId} (timely : Timely k.timeline log) (atFront : k.activeClocks = some first)
    (forward : k.cycle ≤ (k.clocks first).cycle) : Timely { k.timeline with cycle := (k.clocks first).cycle } log :=
  timely.setTime (fun c before member => Nat.le_trans (timely.passed c before member).1 forward)
    fun _ active => timely.first_least atFront active

theorem advance (timely : Timely k.timeline log) (called : k.advance = some k') :
    Timely k'.timeline log ∧ k'.idle = k.idle ∧ (∃ now, k'.timeline = { k.timeline with cycle := now }) ∧ k.cycle ≤ k'.cycle := by
  unfold Kernel.advance at called
  split at called
  · cases called
    exact ⟨timely, rfl, ⟨k.cycle, rfl⟩, Nat.le_refl _⟩
  · rename_i first atFront
    split at called
    · rename_i future
      cases called
      exact ⟨timely.setFirst atFront future.le, rfl, ⟨_, rfl⟩, future.le⟩
    · cases called

end Timely

/-- What a turn leaves as it is. -/
structure SameClocks (t t' : Timeline) : Prop where
  forward : t.cycle ≤ t'.cycle
  masterFreq : t'.masterFreq = t.masterFreq
  numClocks : t'.numClocks = t.numClocks
  period : ∀ c, (t'.clocks c).period = (t.clocks c).period
  frequency : ∀ c, (t'.clocks c).frequency = (t.clocks c).frequency

theorem SameRates.sameClocks {t t' : Timeline} {now : Nat} (same : SameRates t t') (forward : t.cycle ≤ now) :
    SameClocks t { t' with cycle := now } :=
  ⟨forward, same.masterFreq, same.numClocks, same.period, same.frequency⟩

namespace Timely
variable [DecidableEq P] [DecidableEq S] [DecidableEq A] {comp : Components P S A W} {bound : Nat} {k k' : Kernel P S A W}
  {log : ClockId → List Tick}

theorem noteIdled_activations {t t₁ : Timeline} (steady : Steady t t₁) :
    noteIdled (noteActivations log t t₁) t₁ = noteTurn log t t₁ true := by
  funext c
  unfold noteTurn noteIdled
  by_cases due : t.Due c
  · rw [if_pos due, if_pos (steady.due_iff.mpr due), if_pos rfl, steady.cycle, if_pos due, noteActivations,
      if_neg fun both => by rw [due.1] at both; cases both.1]
  · rw [if_neg due, if_neg (mt steady.due_iff.mp due)]

theorem noteRan_activations {t t₁ t₂ : Timeline} {now : Nat} (steady : Steady t t₁) (retired : Retired t₁ t₂) :
    noteRan (noteActivations log t t₁) t₁ t₂ = noteTurn log t { t₂ with cycle := now } false := by
  funext c
  unfold noteTurn noteRan
  by_cases due : t.Due c
  · rw [if_pos due, if_pos (steady.due_iff.mpr due), if_neg Bool.false_ne_true, steady.cycle, if_pos due, noteActivations,
      if_neg fun both => by rw [due.1] at both; cases both.1]
  · rw [if_neg due, if_neg (mt steady.due_iff.mp due)]
    unfold noteActivations
    dsimp only
    rw [(retired.others c (mt steady.due_iff.mp due)).1]

/-- A turn of `Step`. -/
theorem turn (timely : Timely k.timeline log) (fit : k.timeline.TicksFit) (called : k.turn comp bound = some k') :
    SameClocks k.timeline k'.timeline ∧ Timely k'.timeline (noteTurn log k.timeline k'.timeline k'.idle) := by
  obtain ⟨k₁, phases, rest⟩ := Option.bind_eq_some_iff.mp called
  obtain ⟨steady, timely₁⟩ := timely.moves fit (Moves.phases phases)
  obtain ⟨busy, _, rest⟩ := Option.bind_eq_some_iff.mp rest
  cases busy with
  | false =>
    cases rest
    refine ⟨steady.toSameRates.sameClocks steady.cycle.ge, ?_⟩
    have idle := timely₁.idled
    rw [noteIdled_activations steady] at idle
    exact idle
  | true =>
    obtain ⟨k₂, ran, advanced⟩ := Option.bind_eq_some_iff.mp rest
    have starts : Timely { k₁ with idle := false }.timeline (noteActivations log k.timeline k₁.timeline) := timely₁
    obtain ⟨retired, timely₂⟩ := starts.retireClocks (steady.ticksFit fit) (Or.inl rfl) ran
    obtain ⟨after, sameIdle, ⟨now, timeline⟩, forward⟩ := timely₂.advance advanced
    have busy : k'.idle = false := sameIdle.trans (Kernel.retireClocks_frame ran).2.2
    have sameNow : now = k'.cycle := (congrArg Timeline.cycle timeline).symm
    refine ⟨?_, ?_⟩
    · rw [timeline]
      refine (steady.toSameRates.trans retired.toSameRates).sameClocks ?_
      rw [sameNow]
      exact Nat.le_trans (retired.cycle.trans steady.cycle).ge forward
    · rw [busy, timeline]
      rw [timeline] at after
      rw [← noteRan_activations steady retired]
      exact after

end Timely

end Mgsim.Sim
