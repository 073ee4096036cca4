import Mgsim.Sim.Visits

namespace Mgsim.Sim
open Mgsim.Lib KernelRecord

theorem gcd_eq (a b : Nat) : gcd a b = Nat.gcd a b := by
  induction b using Nat.strong_induction_on generalizing a with
  | _ b ih =>
    unfold gcd
    by_cases zero : b = 0
    · rw [if_pos zero, zero, Nat.gcd_zero_right]
    · rw [if_neg zero, ih (a % b) (Nat.mod_lt _ (Nat.pos_of_ne_zero zero)), Nat.gcd_comm a b, Nat.gcd_rec b a, Nat.gcd_comm]

/-- Where the product fits into its type, `lcm` is the least common multiple. -/
theorem lcm_eq {a b : Nat} (fits : a * b < 2 ^ 64) : lcm a b = Nat.lcm a b := by
  rw [lcm, gcd_eq, Nat.mod_eq_of_lt fits, Nat.lcm_eq_mul_div]

/-- The frequencies of the clocks and their periods. -/
structure Rates (t : Timeline) (frequencies : List Nat) : Prop where
  master : frequencies ≠ [] → t.masterFreq = (frequencies : Multiset Nat).lcm
  clocks : ∀ f, f ∈ frequencies ↔ ∃ c < t.numClocks, (t.clocks c).frequency = f
  periods : ∀ c < t.numClocks, (t.clocks c).period * (t.clocks c).frequency = t.masterFreq
  positive : ∀ f ∈ frequencies, 0 < f

/-- A clock is put behind the others, with a master frequency for all of them. -/
def Timeline.addClock (t : Timeline) (frequency masterFreq : Nat) : Timeline :=
  { t with
    masterFreq := masterFreq
    numClocks := t.numClocks + 1
    clocks := fun c =>
      if c = t.numClocks then ⟨frequency, masterFreq / frequency, none, 0, false⟩
      else if c < t.numClocks then { t.clocks c with period := masterFreq / (t.clocks c).frequency }
      else t.clocks c }

variable {P S A W : Type}

section Create
variable {k k' : Kernel P S A W} {frequency : Nat} {frequencies : List Nat} {c : ClockId}

/-- What the loop over the clocks finds. -/
theorem Kernel.findClock_spec {rest first masterFreq : Nat} (fit : k.ProductsFit frequency rest first masterFreq) :
    (∃ c, first ≤ c ∧ c < first + rest ∧ (k.clocks c).frequency = frequency ∧
      k.findClock frequency rest first masterFreq = .inl c) ∨
    ∃ others, k.findClock frequency rest first masterFreq = .inr others ∧ others * frequency < 2 ^ 64 ∧
      ∀ n, others ∣ n ↔ masterFreq ∣ n ∧ ∀ c, first ≤ c → c < first + rest → (k.clocks c).frequency ∣ n := by
  induction rest generalizing first masterFreq with
  | zero => exact Or.inr ⟨masterFreq, rfl, fit, fun n => ⟨fun divides => ⟨divides, fun c low high => by omega⟩, And.left⟩⟩
  | succ rest ih =>
    by_cases found : (k.clocks first).frequency = frequency
    · exact Or.inl ⟨first, Nat.le_refl _, by omega, found, by rw [Kernel.findClock, if_pos found]⟩
    · obtain ⟨small, later⟩ := Or.resolve_left fit found
      rw [Kernel.findClock, if_neg found]
      rcases ih later with ⟨c, low, high, same, equal⟩ | ⟨others, equal, fits, divides⟩
      · exact Or.inl ⟨c, by omega, by omega, same, equal⟩
      · refine Or.inr ⟨others, equal, fits, fun n => ?_⟩
        rw [divides, lcm_eq small, Nat.lcm_dvd_iff]
        constructor
        · rintro ⟨⟨master, here⟩, behind⟩
          refine ⟨master, fun c low high => ?_⟩
          by_cases atFirst : c = first
          · exact atFirst ▸ here
          · exact behind c (by omega) (by omega)
        · rintro ⟨master, all⟩
          exact ⟨⟨master, all first (Nat.le_refl _) (by omega)⟩, fun c low high => all c (by omega) (by omega)⟩

theorem Kernel.pushClock_timeline (k : Kernel P S A W) (frequency masterFreq : Nat) :
    ((k.setMaster masterFreq).pushClock frequency (masterFreq / frequency)).timeline =
      k.timeline.addClock frequency masterFreq := by
  unfold Kernel.timeline Timeline.addClock Kernel.pushClock Kernel.setMaster
  congr 1
  funext d
  dsimp only
  by_cases new : d = k.numClocks
  · rw [new, Function.update_self, if_pos rfl]
    rfl
  · rw [Function.update_of_ne new, if_neg new]
    split <;> rfl

/-- With the same master frequency the periods stay. -/
theorem Kernel.setMaster_self (rates : Rates k.timeline frequencies) : k.setMaster k.masterFreq = k := by
  unfold Kernel.setMaster
  congr 1
  funext d
  split
  · rename_i inside
    have periods : (k.clocks d).period * (k.clocks d).frequency = k.masterFreq := rates.periods d inside
    have positive : 0 < (k.clocks d).frequency := rates.positive _ ((rates.clocks _).mpr ⟨d, inside, rfl⟩)
    rw [← periods, Nat.mul_div_cancel _ positive]
  · rfl

/-- What `CreateClock` does: it finds a clock, or adds one and computes the least common multiple. -/
theorem Kernel.createClock_spec (rates : Rates k.timeline frequencies) (fit : k.ProductsFit frequency k.numClocks 0 1)
    (called : k.createClock frequency = some (c, k')) :
    k.cycle = 0 ∧ 0 < frequency ∧
      ((k' = k ∧ frequency ∈ frequencies) ∨
        ∃ masterFreq, k'.timeline = k.timeline.addClock frequency masterFreq ∧
          (k.masterFreq ≠ masterFreq → k.Rescales frequency) ∧
          ∀ n, masterFreq ∣ n ↔ ∀ f ∈ frequencies ++ [frequency], f ∣ n) := by
  unfold Kernel.createClock at called
  split at called
  · cases called
  rename_i early
  split at called
  · cases called
  rename_i nonzero
  refine ⟨not_not.mp early, Nat.pos_of_ne_zero nonzero, ?_⟩
  rcases Kernel.findClock_spec fit with ⟨d, _, inside, same, found⟩ | ⟨others, found, fits, divides⟩
  · rw [found] at called
    cases called
    rw [Nat.zero_add] at inside
    exact Or.inl ⟨rfl, (rates.clocks frequency).mpr ⟨c, inside, same⟩⟩
  · rw [found] at called
    dsimp only at called
    split at called
    · cases called
    split at called
    · cases called
    cases called
    have lcmDivides (n : Nat) : lcm others frequency ∣ n ↔ ∀ f ∈ frequencies ++ [frequency], f ∣ n := by
      rw [lcm_eq fits, Nat.lcm_dvd_iff, divides, List.forall_mem_append, List.forall_mem_singleton]
      refine and_congr_left fun _ => ?_
      constructor
      · rintro ⟨_, all⟩ f member
        obtain ⟨d, inside, rfl⟩ := (rates.clocks f).mp member
        exact all d (Nat.zero_le _) (by rw [Nat.zero_add]; exact inside)
      · intro all
        refine ⟨Nat.one_dvd _, fun d _ inside => ?_⟩
        exact all _ ((rates.clocks _).mpr ⟨d, by rw [Nat.zero_add] at inside; exact inside, rfl⟩)
    refine Or.inr ⟨lcm others frequency, ?_, fun changed => ?_, lcmDivides⟩
    · by_cases changed : k.masterFreq ≠ lcm others frequency
      · rw [if_pos changed]
        exact Kernel.pushClock_timeline k frequency _
      · rw [if_neg changed]
        have same := not_not.mp changed
        rw [← Kernel.pushClock_timeline k frequency, ← same, Kernel.setMaster_self rates]
    · unfold Kernel.Rescales
      rw [found]
      exact changed

theorem Rates.of_same {t t' : Timeline} (rates : Rates t frequencies) (masterFreq : t'.masterFreq = t.masterFreq)
    (numClocks : t'.numClocks = t.numClocks) (period : ∀ c, (t'.clocks c).period = (t.clocks c).period)
    (frequency : ∀ c, (t'.clocks c).frequency = (t.clocks c).frequency) : Rates t' frequencies where
  master some := masterFreq.trans (rates.master some)
  clocks f := by
    rw [rates.clocks f, numClocks]
    exact exists_congr fun c => and_congr_right fun _ => by rw [frequency]
  periods c inside := by
    rw [numClocks] at inside
    rw [period, frequency, masterFreq]
    exact rates.periods c inside
  positive := rates.positive

/-- A frequency that has a clock already does not change the least common multiple. -/
theorem Rates.again {t : Timeline} (rates : Rates t frequencies) (member : frequency ∈ frequencies) :
    Rates t (frequencies ++ [frequency]) where
  master _ := by
    rw [rates.master (List.ne_nil_of_mem member)]
    refine Nat.dvd_antisymm (Multiset.lcm_dvd.mpr fun f inside => ?_) (Multiset.lcm_dvd.mpr fun f inside => ?_)
    · exact Multiset.dvd_lcm (Multiset.mem_coe.mpr (List.mem_append_left _ (Multiset.mem_coe.mp inside)))
    · refine Multiset.dvd_lcm (Multiset.mem_coe.mpr ?_)
      rcases List.mem_append.mp (Multiset.mem_coe.mp inside) with old | new
      · exact old
      · exact List.mem_singleton.mp new ▸ member
  clocks f := by
    rw [← rates.clocks f]
    constructor
    · intro inside
      rcases List.mem_append.mp inside with old | new
      · exact old
      · exact List.mem_singleton.mp new ▸ member
    · exact List.mem_append_left _
  periods := rates.periods
  positive f inside := by
    rcases List.mem_append.mp inside with old | new
    · exact rates.positive f old
    · exact List.mem_singleton.mp new ▸ rates.positive frequency member

/-- A new clock. -/
theorem Rates.addClock {t : Timeline} {masterFreq : Nat} (rates : Rates t frequencies) (positive : 0 < frequency)
    (least : ∀ n, masterFreq ∣ n ↔ ∀ f ∈ frequencies ++ [frequency], f ∣ n) :
    Rates (t.addClock frequency masterFreq) (frequencies ++ [frequency]) := by
  have divides := (least masterFreq).mp (Nat.dvd_refl _)
  have here : (t.addClock frequency masterFreq).clocks t.numClocks =
      ⟨frequency, masterFreq / frequency, none, 0, false⟩ := if_pos rfl
  have before {c : ClockId} (inside : c < t.numClocks) : (t.addClock frequency masterFreq).clocks c =
      { t.clocks c with period := masterFreq / (t.clocks c).frequency } := by
    unfold Timeline.addClock
    dsimp only
    rw [if_neg (Nat.ne_of_lt inside), if_pos inside]
  refine ⟨fun _ => ?_, fun f => ?_, fun c inside => ?_, ?_⟩
  · refine Nat.dvd_antisymm ((least _).mpr fun f member => Multiset.dvd_lcm (Multiset.mem_coe.mpr member)) ?_
    exact Multiset.lcm_dvd.mpr fun f member => divides f (Multiset.mem_coe.mp member)
  · rw [List.mem_append, rates.clocks f, List.mem_singleton]
    constructor
    · rintro (⟨c, inside, same⟩ | rfl)
      · exact ⟨c, Nat.lt_succ_of_lt inside, by rw [before inside]; exact same⟩
      · exact ⟨t.numClocks, Nat.lt_succ_self _, by rw [here]⟩
    · rintro ⟨c, inside, same⟩
      by_cases new : c = t.numClocks
      · rw [new, here] at same
        exact Or.inr same.symm
      · have old : c < t.numClocks := Nat.lt_of_le_of_ne (Nat.le_of_lt_succ inside) new
        rw [before old] at same
        exact Or.inl ⟨c, old, same⟩
  · by_cases new : c = t.numClocks
    · rw [new, here]
      exact Nat.div_mul_cancel (divides frequency (by simp))
    · have old : c < t.numClocks := Nat.lt_of_le_of_ne (Nat.le_of_lt_succ inside) new
      rw [before old]
      exact Nat.div_mul_cancel (divides _ (List.mem_append_left _ ((rates.clocks _).mpr ⟨c, old, rfl⟩)))
  · exact List.forall_mem_append.mpr ⟨rates.positive, List.forall_mem_singleton.mpr positive⟩

/-- A clock that is created before the simulation starts; when periods change no clock has a history. -/
theorem Timely.addClock {t : Timeline} {log : ClockId → List Tick} {masterFreq : Nat} (timely : Timely t log)
    (rates : Rates t frequencies) (after : Rates (t.addClock frequency masterFreq) (frequencies ++ [frequency]))
    (early : t.cycle = 0) (positive : 0 < masterFreq) (rescaled : t.masterFreq ≠ masterFreq → t.activeClocks = none) :
    Timely (t.addClock frequency masterFreq) log := by
  obtain ⟨items, queue⟩ := timely.queue
  have here : (t.addClock frequency masterFreq).clocks t.numClocks =
      ⟨frequency, masterFreq / frequency, none, 0, false⟩ := if_pos rfl
  have other {c : ClockId} (old : c ≠ t.numClocks) : ((t.addClock frequency masterFreq).clocks c).next = (t.clocks c).next ∧
      ((t.addClock frequency masterFreq).clocks c).cycle = (t.clocks c).cycle ∧
      ((t.addClock frequency masterFreq).clocks c).activated = (t.clocks c).activated := by
    unfold Timeline.addClock
    dsimp only
    rw [if_neg old]
    split <;> exact ⟨rfl, rfl, rfl⟩
  have isOld {c : ClockId} (member : c ∈ items) : c ≠ t.numClocks := by
    exact Nat.ne_of_lt (queue.created c ((queue.active c).mp member))
  -- When the master frequency changes no clock has been active, so that no clock has a history.
  have history {c : ClockId} (inside : c < t.numClocks) :
      ((t.addClock frequency masterFreq).clocks c).period = (t.clocks c).period ∨ (log c = [] ∧ (t.clocks c).activated = false) := by
    by_cases same : t.masterFreq = masterFreq
    · refine Or.inl ?_
      have periods := rates.periods c inside
      have some : 0 < (t.clocks c).frequency := rates.positive _ ((rates.clocks _).mpr ⟨c, inside, rfl⟩)
      unfold Timeline.addClock
      dsimp only
      rw [if_neg (Nat.ne_of_lt inside), if_pos inside, ← same, ← periods]
      exact Nat.mul_div_cancel _ some
    · refine Or.inr ?_
      have none := queue.chain.head_eq.symm.trans (rescaled same)
      have inactive : (t.clocks c).activated = false := by
        rw [← Bool.not_eq_true, ← queue.active c, List.head?_eq_none_iff.mp none]
        exact List.not_mem_nil
      have schedule := timely.ticks c
      rw [Timeline.due, inactive, if_neg Bool.false_ne_true] at schedule
      refine ⟨schedule.eq_nil fun before member => ?_, inactive⟩
      have notLater := (timely.passed c before member).1
      have afterStart := ((schedule.spaced (timely.positive c inside)).1 before (Or.inl member)).2
      exact Nat.lt_irrefl 0 (Nat.lt_of_lt_of_le afterStart (early ▸ notLater))
  refine ⟨⟨items, ?_, queue.nodup, fun c => ?_, queue.sorted.imp_of_mem ?_, fun c active => ?_⟩, fun c => ?_, fun c active => ?_,
    timely.passed, fun c outside => ?_, fun c inside => ?_⟩
  · exact queue.chain.congr fun c member => (other (isOld member)).1
  · by_cases new : c = t.numClocks
    · rw [new, here]
      exact ⟨fun member => absurd rfl (isOld member), by simp⟩
    · rw [(other new).2.2]
      exact queue.active c
  · intro c d first second order
    rwa [(other (isOld first)).2.1, (other (isOld second)).2.1]
  · by_cases new : c = t.numClocks
    · rw [new]
      exact Nat.lt_succ_self _
    · rw [(other new).2.2] at active
      exact Nat.lt_succ_of_lt (queue.created c active)
  · by_cases new : c = t.numClocks
    · rw [new, (timely.bare t.numClocks (Nat.le_refl _)).2, Timeline.due, here]
      exact .start
    · rw [Timeline.due, (other new).2.1, (other new).2.2]
      by_cases inside : c < t.numClocks
      · rcases history inside with same | ⟨empty, inactive⟩
        · rw [same]
          exact timely.ticks c
        · rw [empty, inactive]
          exact .start
      · have inactive : (t.clocks c).activated = false :=
          Bool.not_eq_true _ ▸ fun active => inside (queue.created c active)
        rw [(timely.bare c (Nat.le_of_not_lt inside)).2, inactive]
        exact .start
  · by_cases new : c = t.numClocks
    · rw [new, here] at active
      cases active
    · rw [(other new).2.2] at active
      rw [(other new).2.1]
      exact timely.ahead c active
  · have beyond : t.numClocks < c := outside
    unfold Timeline.addClock
    dsimp only
    rw [if_neg (Nat.ne_of_gt beyond), if_neg (Nat.not_lt.mpr beyond.le)]
    exact timely.bare c beyond.le
  · have product := after.periods c inside
    refine Nat.pos_of_ne_zero fun zero => ?_
    rw [zero, Nat.zero_mul] at product
    exact Nat.lt_irrefl 0 (Nat.lt_of_lt_of_eq positive product.symm)

end Create

/-- What holds in every run. -/
structure Scheduled (r : KernelRecord P S A W) : Prop where
  rates : Rates r.kernel.timeline r.frequencies
  timely : Timely r.kernel.timeline r.log
  limit : ∀ endcycle ∈ r.ending, ∀ c before, .ran before ∈ r.log c → before ≤ endcycle

namespace Scheduled
variable {r r' : KernelRecord P S A W}

theorem of_moves {k : Kernel P S A W} (scheduled : Scheduled r) (fit : r.kernel.TicksFit) (moves : Moves r.kernel k) :
    Rates k.timeline r.frequencies ∧ Timely k.timeline (noteActivations r.log r.kernel.timeline k.timeline) := by
  obtain ⟨steady, timely⟩ := scheduled.timely.moves fit moves
  exact ⟨scheduled.rates.of_same steady.masterFreq steady.numClocks steady.period steady.frequency, timely⟩

variable [DecidableEq P] [DecidableEq S] [DecidableEq A] {comp : Components P S A W} {bound : Nat}

theorem createClock {frequency : Nat} (scheduled : Scheduled r) (allowed : r.Guard (.createClock frequency))
    (taken : r.step comp bound (.createClock frequency) = some r') : Scheduled r' := by
  unfold KernelRecord.step at taken
  dsimp only at taken
  split at taken
  · cases taken
  obtain ⟨⟨c, k⟩, called, rfl⟩ := Option.map_eq_some_iff.mp taken
  obtain ⟨early, positive, ⟨rfl, member⟩ | ⟨masterFreq, timeline, changed, least⟩⟩ :=
    Kernel.createClock_spec scheduled.rates allowed.1 called
  · exact ⟨scheduled.rates.again member, scheduled.timely, scheduled.limit⟩
  · have after := scheduled.rates.addClock positive least
    have masterPositive : 0 < masterFreq := by
      have isLcm : masterFreq = _ := after.master (by simp)
      refine Nat.pos_of_ne_zero fun zero => ?_
      have member := (Multiset.lcm_eq_zero_iff _).mp (isLcm.symm.trans zero)
      exact Nat.lt_irrefl 0 (after.positive 0 (Multiset.mem_coe.mp member))
    refine ⟨?_, ?_, scheduled.limit⟩
    · show Rates k.timeline _
      rw [timeline]
      exact after
    · show Timely k.timeline _
      rw [timeline]
      exact scheduled.timely.addClock scheduled.rates after early masterPositive fun different => allowed.2 (changed different)

/-- A clock is activated outside `Step`. -/
theorem activateClock {c : ClockId} (scheduled : Scheduled r) (allowed : r.Guard (.activateClock c))
    (taken : r.step comp bound (.activateClock c) = some r') : Scheduled r' := by
  unfold KernelRecord.step at taken
  dsimp only at taken
  split at taken
  · cases taken
  rename_i outside
  obtain ⟨k, called, rfl⟩ := Option.map_eq_some_iff.mp taken
  obtain ⟨rates, timely⟩ := scheduled.of_moves allowed (.activate called)
  refine ⟨rates, timely, fun endcycle member => absurd ?_ outside⟩
  exact Option.isSome_iff_exists.mpr ⟨endcycle, member⟩

theorem call {c : Call P S A} (scheduled : Scheduled r) (allowed : r.Guard (.call c))
    (taken : r.step comp bound (.call c) = some r') : Scheduled r' := by
  unfold KernelRecord.step at taken
  dsimp only at taken
  split at taken
  · cases taken
  rename_i outside
  obtain ⟨k, called, rfl⟩ := Option.map_eq_some_iff.mp taken
  obtain ⟨rates, timely⟩ := scheduled.of_moves allowed (Moves.call called)
  refine ⟨rates, timely, fun endcycle member => absurd ?_ outside⟩
  exact Option.isSome_iff_exists.mpr ⟨endcycle, member⟩

theorem ran_of_noted {log : ClockId → List Tick} {t t' : Timeline} {c : ClockId} {before : Nat}
    (member : .ran before ∈ noteActivations log t t' c) : .ran before ∈ log c := by
  unfold noteActivations at member
  split at member
  · simpa using member
  · exact member

theorem enter {cycles : Nat} (scheduled : Scheduled r) (allowed : r.Guard (.enter cycles))
    (taken : r.step comp bound (.enter cycles) = some r') : Scheduled r' := by
  unfold KernelRecord.step at taken
  dsimp only at taken
  split at taken
  · cases taken
  obtain ⟨fit, small⟩ := allowed
  obtain ⟨k, called, rfl⟩ := Option.map_eq_some_iff.mp taken
  obtain ⟨k₁, updated, rest⟩ := Option.bind_eq_some_iff.mp called
  have moves : Moves r.kernel k₁ := by
    split at updated
    · exact Moves.updateStorages updated
    · cases updated
      exact Moves.refl _
  obtain ⟨rates, timely⟩ := scheduled.of_moves fit moves
  have limit (c : ClockId) (before : Nat) (member : .ran before ∈ noteActivations r.log r.kernel.timeline k.timeline c) :
      before ≤ r.kernel.endOf cycles := by
    obtain ⟨notLater, isCycle⟩ := scheduled.timely.passed c before (ran_of_noted member)
    have notLater : before ≤ r.kernel.cycle := notLater
    unfold Kernel.endOf infiniteCycles
    split
    · rename_i infinite
      rw [infinite]
      omega
    · rename_i finite
      have small := small.resolve_left finite
      omega
  have atEnd (endcycle : Nat) (member : endcycle ∈ some (r.kernel.endOf cycles)) (c : ClockId) (before : Nat)
      (ran : .ran before ∈ noteActivations r.log r.kernel.timeline k.timeline c) : before ≤ endcycle := by
    cases member
    exact limit c before ran
  dsimp only at rest
  split at rest
  · cases rest
    exact ⟨rates, timely, atEnd⟩
  · rename_i first atFront
    split at rest
    · rename_i future
      cases rest
      exact ⟨rates.of_same rfl rfl (fun _ => rfl) (fun _ => rfl), timely.setFirst atFront future, atEnd⟩
    · cases rest

theorem turn (scheduled : Scheduled r) (allowed : r.Guard .turn) (taken : r.step comp bound .turn = some r') :
    Scheduled r' := by
  unfold KernelRecord.step at taken
  obtain ⟨endcycle, ending, rest⟩ := Option.bind_eq_some_iff.mp taken
  split at rest
  · rename_i goes
    obtain ⟨k, turned, rfl⟩ := Option.map_eq_some_iff.mp rest
    obtain ⟨same, timely⟩ := scheduled.timely.turn allowed turned
    refine ⟨scheduled.rates.of_same same.masterFreq same.numClocks same.period same.frequency, timely, ?_⟩
    intro endcycle' member c before ran
    have atEnd : some endcycle = some endcycle' := ending.symm.trans member
    cases atEnd
    have old (inLog : .ran before ∈ r.log c) : before ≤ endcycle := scheduled.limit endcycle ending c before inLog
    dsimp only at ran
    unfold noteTurn at ran
    split at ran
    · rename_i due
      unfold noteIdled noteRan at ran
      rw [if_pos due, if_pos due] at ran
      have atNow : r.kernel.cycle ≤ endcycle := by
        rcases goes.2.2.2 with infinite | finite
        · obtain ⟨items, queue⟩ := scheduled.timely.queue
          have inside := queue.created c due.1
          have fits : (r.kernel.cycle / (r.kernel.clocks c).period + 1) * (r.kernel.clocks c).period < 2 ^ 64 := allowed c inside
          have future := Timely.lt_next r.kernel.cycle (scheduled.timely.positive c inside)
          have future : r.kernel.cycle < 2 ^ 64 := Nat.lt_trans future fits
          rw [infinite, infiniteCycles]
          omega
        · exact finite.le
      split at ran
      · exact old (by simpa using ran)
      · rcases List.mem_append.mp ran with first | second
        · rcases List.mem_append.mp first with inLog | new
          · exact old inLog
          · cases List.mem_singleton.mp new
            exact atNow
        · split at second
          · cases List.mem_singleton.mp second
          · cases second
    · exact old (ran_of_noted ran)
  · cases rest

theorem leave (scheduled : Scheduled r) (taken : r.step comp bound .leave = some r') : Scheduled r' := by
  unfold KernelRecord.step at taken
  obtain ⟨endcycle, ending, rest⟩ := Option.bind_eq_some_iff.mp taken
  split at rest
  · cases rest
  · cases rest
    have timeline : (r.kernel.leave endcycle).2.timeline = { r.kernel.timeline with cycle := min r.kernel.cycle endcycle } := by
      unfold Kernel.leave
      dsimp only
      split <;> rfl
    have timely : Timely { r.kernel.timeline with cycle := min r.kernel.cycle endcycle } r.log := by
      refine scheduled.timely.setTime (fun c before member => ?_) fun c active => ?_
      · exact Nat.le_min.mpr ⟨(scheduled.timely.passed c before member).1, scheduled.limit endcycle ending c before member⟩
      · exact Nat.le_trans (Nat.min_le_left _ _) (scheduled.timely.ahead c active)
    refine ⟨?_, ?_, nofun⟩
    · show Rates (r.kernel.leave endcycle).2.timeline _
      rw [timeline]
      exact scheduled.rates.of_same rfl rfl (fun _ => rfl) (fun _ => rfl)
    · show Timely (r.kernel.leave endcycle).2.timeline _
      rw [timeline]
      exact timely

theorem step {event : KernelEvent P S A} (scheduled : Scheduled r) (allowed : r.Guard event)
    (taken : r.step comp bound event = some r') : Scheduled r' := by
  cases event with
  | createClock frequency => exact scheduled.createClock allowed taken
  | activateClock c => exact scheduled.activateClock allowed taken
  | call c => exact scheduled.call allowed taken
  | enter cycles => exact scheduled.enter allowed taken
  | turn => exact scheduled.turn allowed taken
  | leave => exact scheduled.leave taken

theorem keepsTime (scheduled : Scheduled r) : KeepsTime r where
  master := scheduled.rates.master
  clocks := scheduled.rates.clocks
  periods := scheduled.rates.periods
  queue := scheduled.timely.queue
  ticks := scheduled.timely.ticks
  multiples c t member := by
    by_cases inside : c < r.kernel.numClocks
    · exact ((scheduled.timely.ticks c).spaced (scheduled.timely.positive c inside)).1 t member |>.1
    · have empty := (scheduled.timely.bare c (Nat.le_of_not_lt inside)).2
      rw [empty] at member
      simp at member
  ahead := scheduled.timely.ahead
  visits fit _ queue _ _ bodyMoves enough := scheduled.timely.loop_visits fit queue bodyMoves enough

theorem initial (processes : P → Process P) (storages : S → Request S) (arbitrators : A → Request A) (world : W) :
    Scheduled (KernelRecord.initial (Kernel.create processes storages arbitrators world)) where
  rates := ⟨fun some => absurd rfl some, fun f => ⟨fun member => absurd member List.not_mem_nil, fun ⟨c, inside, _⟩ => absurd inside (Nat.not_lt_zero c)⟩,
    fun c inside => absurd inside (Nat.not_lt_zero c), nofun⟩
  timely := ⟨⟨[], .nil, List.nodup_nil, fun _ => ⟨nofun, nofun⟩, List.Pairwise.nil, nofun⟩, fun _ => .start, nofun, nofun,
    fun _ _ => ⟨rfl, rfl⟩, fun c inside => absurd inside (Nat.not_lt_zero c)⟩
  limit := nofun

end Scheduled

section Step
variable [DecidableEq P] [DecidableEq S] [DecidableEq A] {comp : Components P S A W} {bound fuel endcycle : Nat}
  {r : KernelRecord P S A W}

theorem execute_loop {k' : Kernel P S A W} (ending : r.ending = some endcycle)
    (done : Kernel.loop comp bound endcycle fuel r.kernel = some k') :
    ∃ turns r', execute (KernelRecord.step comp bound) r (List.replicate turns .turn ++ [.leave]) = some r' ∧
      r'.kernel = (k'.leave endcycle).2 := by
  have ended {r : KernelRecord P S A W} (ending : r.ending = some endcycle) (stop : ¬ r.kernel.Continues endcycle) :
      ∃ r', execute (KernelRecord.step comp bound) r [.leave] = some r' ∧ r'.kernel = (r.kernel.leave endcycle).2 := by
    refine ⟨{ r with kernel := (r.kernel.leave endcycle).2, ending := none }, ?_, rfl⟩
    rw [execute, KernelRecord.step, ending, Option.bind_some, if_neg stop]
    rfl
  induction fuel generalizing r with
  | zero =>
    unfold Kernel.loop at done
    split at done
    · cases done
    · rename_i stop
      cases done
      exact ⟨0, ended ending stop⟩
  | succ fuel ih =>
    unfold Kernel.loop at done
    split at done
    · rename_i goes
      obtain ⟨k₁, turned, rest⟩ := Option.bind_eq_some_iff.mp done
      have turn : r.step comp bound .turn =
          some { r with kernel := k₁, log := noteTurn r.log r.kernel.timeline k₁.timeline k₁.idle } := by
        rw [KernelRecord.step, ending, Option.bind_some, if_pos goes, turned]
        rfl
      obtain ⟨turns, r', executed, left⟩ :=
        ih (r := { r with kernel := k₁, log := noteTurn r.log r.kernel.timeline k₁.timeline k₁.idle }) ending rest
      refine ⟨turns + 1, r', ?_, left⟩
      rw [List.replicate_succ, List.cons_append, execute, turn]
      exact executed
    · rename_i stop
      cases done
      exact ⟨0, ended ending stop⟩

/-- `Step` is entered, takes its turns and is left. -/
theorem execute_step {cycles : Nat} {state : RunState} {k' : Kernel P S A W} (outside : r.ending = none)
    (stepped : r.kernel.step comp bound fuel cycles = some (state, k')) :
    ∃ turns r', execute (KernelRecord.step comp bound) r (.enter cycles :: (List.replicate turns .turn ++ [.leave])) = some r' ∧
      r'.kernel = k' := by
  obtain ⟨k₁, entered, rest⟩ := Option.bind_eq_some_iff.mp stepped
  obtain ⟨k₂, looped, left⟩ := Option.map_eq_some_iff.mp rest
  have enter : r.step comp bound (.enter cycles) = some
      ⟨k₁, r.frequencies, noteActivations r.log r.kernel.timeline k₁.timeline, some (r.kernel.endOf cycles)⟩ := by
    rw [KernelRecord.step, outside, entered]
    rfl
  obtain ⟨turns, r', executed, kernel⟩ := execute_loop
    (r := ⟨k₁, r.frequencies, noteActivations r.log r.kernel.timeline k₁.timeline, some (r.kernel.endOf cycles)⟩) rfl looped
  refine ⟨turns, r', ?_, kernel.trans (congrArg Prod.snd left)⟩
  rw [execute, enter]
  exact executed

end Step

/-- Clocks are scheduled in every run in which the numbers fit into their types and no period changes of a clock that
is active. -/
theorem clocks_keep_time [DecidableEq P] [DecidableEq S] [DecidableEq A] {comp : Components P S A W} {bound : Nat}
    {processes : P → Process P} {storages : S → Request S} {arbitrators : A → Request A} {world : W}
    {events : List (KernelEvent P S A)} {r : KernelRecord P S A W}
    (run : Run (KernelRecord.step comp bound) KernelRecord.Guard
      (.initial (.create processes storages arbitrators world)) events r) : KeepsTime r :=
  (run.invariant (Scheduled.initial processes storages arbitrators world)
    fun _ _ _ scheduled allowed taken => scheduled.step allowed taken).keepsTime

section Examples

/-- A storage whose update does nothing else. -/
def quietStorage : Components Unit Unit Unit Unit :=
  ⟨fun _ => 0, fun _ => 0, fun _ _ => none, fun _ _ => some ([], ()), fun _ _ => none⟩

def emptyKernel : Kernel Unit Unit Unit Unit :=
  .create (fun _ => ⟨.idle, 0, none, none, 0⟩) (fun _ => ⟨none, false⟩) (fun _ => ⟨none, false⟩) ()

/-- Two clocks, of which the slower one runs once. -/
def twoClocks : List (KernelEvent Unit Unit Unit) :=
  [.createClock 2, .createClock 3, .call (.registerUpdate ()), .enter 10, .turn, .turn, .leave]

theorem clocks_keep_time_twoClocks : ∃ r : KernelRecord Unit Unit Unit Unit,
    execute (KernelRecord.step quietStorage 2) (.initial emptyKernel) twoClocks = some r ∧
      r.kernel.masterFreq = 6 ∧ KeepsTime r := by
  have done : (execute (checked (fun (r : KernelRecord Unit Unit Unit Unit) e => decide (r.Guard e))
      (KernelRecord.step quietStorage 2)) (.initial emptyKernel) twoClocks).map (fun r => r.kernel.masterFreq) = some 6 := by
    decide +kernel
  obtain ⟨r, executed, master⟩ := Option.map_eq_some_iff.mp done
  have run : Run (KernelRecord.step quietStorage 2) KernelRecord.Guard (.initial emptyKernel) twoClocks r :=
    run_of_checked (fun _ _ => of_decide_eq_true) executed
  exact ⟨r, execute_of_run run, master, clocks_keep_time run⟩

/-- A second clock is created when the first one is active already. -/
def rescaleActive : List (KernelEvent Unit Unit Unit) :=
  [.createClock 1, .call (.registerUpdate ()), .createClock 2, .enter 5, .turn]

/-- The first clock has a period of two cycles then, and runs in cycle 1. -/
theorem tick_between_multiples : ∃ r : KernelRecord Unit Unit Unit Unit,
    execute (KernelRecord.step quietStorage 2) (.initial emptyKernel) rescaleActive = some r ∧
      r.log 0 = [.activated 0, .ran 1] ∧ (r.kernel.clocks 0).period = 2 ∧ ¬ KeepsTime r := by
  have done : (execute (KernelRecord.step quietStorage 2) (.initial emptyKernel) rescaleActive).map
      (fun r => (r.log 0, (r.kernel.clocks 0).period)) = some ([.activated 0, .ran 1], 2) := by
    decide +kernel
  obtain ⟨r, executed, seen⟩ := Option.map_eq_some_iff.mp done
  obtain ⟨log, period⟩ := Prod.mk.inj seen
  refine ⟨r, executed, log, period, fun keeps => ?_⟩
  have divides := keeps.multiples 0 1 (Or.inl (log ▸ by simp))
  rw [period] at divides
  exact absurd divides (by decide)

end Examples

end Mgsim.Sim
