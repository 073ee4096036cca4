import Mathlib.Data.List.Perm.Subperm
import Mathlib.Data.List.Range
import Mgsim.Lib.Chain
import Mgsim.Sim.Timeline

namespace Mgsim.Sim
open Mgsim.Lib
variable {P S A W : Type}

namespace Timeline

/-- A clock is put between two others, to run at `tick`. -/
def link (t : Timeline) (before : Option ClockId) (c : ClockId) (after : Option ClockId) (tick : Nat) : Timeline :=
  { t with
    activeClocks := if before = none then some c else t.activeClocks
    clocks := fun d =>
      if d = c then { t.clocks c with cycle := tick, next := after, activated := true }
      else if before = some d then { t.clocks d with next := some c } else t.clocks d }

/-- The first clock is taken out. -/
def retire (t : Timeline) (c : ClockId) : Timeline :=
  { t with
    activeClocks := (t.clocks c).next
    clocks := Function.update t.clocks c { t.clocks c with activated := false } }

section Link
variable {t : Timeline} {before after : Option ClockId} {c d : ClockId} {tick : Nat}

theorem link_here : (t.link before c after tick).clocks c =
    { t.clocks c with cycle := tick, next := after, activated := true } := if_pos rfl

theorem link_next (other : d ≠ c) : ((t.link before c after tick).clocks d).next =
    if before = some d then some c else (t.clocks d).next := by
  unfold link
  dsimp only
  rw [if_neg other]
  split <;> rfl

theorem link_cycle (other : d ≠ c) : ((t.link before c after tick).clocks d).cycle = (t.clocks d).cycle := by
  unfold link
  dsimp only
  rw [if_neg other]
  split <;> rfl

theorem link_activated (other : d ≠ c) :
    ((t.link before c after tick).clocks d).activated = (t.clocks d).activated := by
  unfold link
  dsimp only
  rw [if_neg other]
  split <;> rfl

theorem link_period : ((t.link before c after tick).clocks d).period = (t.clocks d).period := by
  unfold link
  dsimp only
  split
  · rename_i same
    rw [same]
  · split <;> rfl

theorem link_frequency : ((t.link before c after tick).clocks d).frequency = (t.clocks d).frequency := by
  unfold link
  dsimp only
  split
  · rename_i same
    rw [same]
  · split <;> rfl

end Link

/-- A clock that runs in this cycle. -/
def Due (t : Timeline) (c : ClockId) : Prop := (t.clocks c).activated = true ∧ (t.clocks c).cycle = t.cycle

instance (t : Timeline) (c : ClockId) : Decidable (t.Due c) := inferInstanceAs (Decidable (_ ∧ _))

end Timeline

/-- The list of the active clocks. -/
structure Queue (t : Timeline) (items : List ClockId) : Prop where
  chain : Chain (fun c => (t.clocks c).next) t.activeClocks items
  nodup : items.Nodup
  active : ∀ c, c ∈ items ↔ (t.clocks c).activated = true
  sorted : items.Pairwise fun c d => (t.clocks c).cycle ≤ (t.clocks d).cycle
  created : ∀ c, (t.clocks c).activated = true → c < t.numClocks

section Activate
variable {k k' : Kernel P S A W} {c : ClockId} {tick : Nat}

/-- The search finds the place in a sorted list. -/
theorem Kernel.searchPlace_spec {bound : Nat} {start before : Option ClockId} {items : List ClockId}
    {place : Option ClockId × Option ClockId} (chain : Chain (fun c => (k.clocks c).next) start items)
    (sorted : items.Pairwise fun c d => (k.clocks c).cycle ≤ (k.clocks d).cycle)
    (found : k.searchPlace tick bound before start = some place) :
    ∃ front back, items = front ++ back ∧ (∀ d ∈ front, (k.clocks d).cycle < tick) ∧
      (∀ d ∈ back, tick ≤ (k.clocks d).cycle) ∧ place = (front.getLast?.or before, back.head?) := by
  induction chain generalizing before bound with
  | nil =>
    have same : some (before, none) = some place := by cases bound <;> exact found
    cases same
    exact ⟨[], [], rfl, nofun, nofun, rfl⟩
  | @cons d rest inner ih =>
    cases bound with
    | zero => cases found
    | succ bound =>
      obtain ⟨later, sortedRest⟩ := List.pairwise_cons.mp sorted
      unfold Kernel.searchPlace at found
      split at found
      · rename_i earlier
        obtain ⟨front, back, rfl, small, large, rfl⟩ := ih sortedRest found
        refine ⟨d :: front, back, rfl, ?_, large, ?_⟩
        · exact List.forall_mem_cons.mpr ⟨earlier, small⟩
        · rw [List.getLast?_cons]
          cases front.getLast? <;> rfl
      · rename_i notEarlier
        cases found
        refine ⟨[], d :: rest, rfl, nofun, ?_, rfl⟩
        have first : tick ≤ (k.clocks d).cycle := Nat.le_of_not_lt notEarlier
        exact List.forall_mem_cons.mpr ⟨first, fun e member => Nat.le_trans first (later e member)⟩

/-- What an activation does to the schedule. -/
theorem Kernel.activateClock_spec (called : k.activateClock c = some k') :
    ((k.clocks c).activated = true ∧ k' = k) ∨
      ((k.clocks c).activated = false ∧ 0 < (k.clocks c).period ∧ ∃ before after,
        k.searchPlace (nextTick k.cycle (k.clocks c).period) k.numClocks none k.activeClocks = some (before, after) ∧
        k'.timeline = k.timeline.link before c after (nextTick k.cycle (k.clocks c).period)) := by
  unfold Kernel.activateClock at called
  split at called
  · rename_i already
    cases called
    exact Or.inl ⟨already, rfl⟩
  rename_i inactive
  split at called
  · cases called
  rename_i someTicks
  dsimp only at called
  split at called
  · cases called
  rename_i before after found
  cases called
  refine Or.inr ⟨Bool.not_eq_true _ ▸ inactive, Nat.pos_of_ne_zero someTicks, before, after, found, ?_⟩
  unfold Kernel.timeline Timeline.link
  cases before with
  | none =>
    congr 1
    funext d
    by_cases here : d = c
    · rw [if_pos here, here]
      simp only [Kernel.setClock, Function.update_self]
      rfl
    · rw [if_neg here, if_neg (by simp)]
      simp only [Kernel.setClock, Function.update_of_ne here]
  | some b =>
    congr 1
    funext d
    by_cases here : d = c
    · rw [if_pos here, here]
      simp only [Kernel.setClock, Function.update_self]
      by_cases same : c = b
      · simp only [same, Function.update_self]
        rfl
      · simp only [Function.update_of_ne same]
        rfl
    · rw [if_neg here]
      simp only [Kernel.setClock, Function.update_of_ne here]
      by_cases same : d = b
      · simp only [same, Function.update_self, if_true]
        rfl
      · rw [if_neg fun equal => same (Option.some.inj equal).symm, Function.update_of_ne same]

end Activate

namespace Queue
variable {t : Timeline} {items front back : List ClockId} {c : ClockId} {tick : Nat}

/-- A clock that is put in its place. -/
theorem link (queue : Queue t (front ++ back)) (inactive : (t.clocks c).activated = false) (exists_ : c < t.numClocks)
    (small : ∀ d ∈ front, (t.clocks d).cycle < tick) (large : ∀ d ∈ back, tick ≤ (t.clocks d).cycle) :
    Queue (t.link front.getLast? c back.head? tick) (front ++ c :: back) := by
  have absent : c ∉ front ++ back := by
    rw [queue.active c, inactive]
    exact Bool.false_ne_true
  have elsewhere {d : ClockId} (member : d ∈ front ++ back) : d ≠ c := ne_of_mem_of_not_mem member absent
  have cycleOf {d : ClockId} (member : d ∈ front ++ back) :
      ((t.link front.getLast? c back.head? tick).clocks d).cycle = (t.clocks d).cycle :=
    Timeline.link_cycle (elsewhere member)
  refine ⟨?_, ?_, fun d => ?_, ?_, fun d active => ?_⟩
  · rcases List.eq_nil_or_concat front with rfl | ⟨front, b, rfl⟩
    · have chain := queue.chain
      rw [List.nil_append] at chain
      refine .cons ?_
      rw [Timeline.link_here, ← chain.head_eq]
      refine chain.congr fun d member => ?_
      rw [Timeline.link_next (elsewhere member), if_neg nofun]
    · rw [List.concat_eq_append] at queue elsewhere ⊢
      have chain := queue.chain
      have nodup := queue.nodup
      rw [List.append_assoc, List.singleton_append] at chain nodup
      rw [List.append_assoc, List.singleton_append, List.getLast?_concat]
      have distinct {d : ClockId} (member : d ∈ front ++ back) : d ≠ b :=
        ne_of_mem_of_not_mem member (List.nodup_cons.mp (List.nodup_middle.mp nodup)).1
      refine chain.splice ?_ ?_ fun d member => ?_
      · rw [Timeline.link_next (elsewhere (by simp)), if_pos rfl]
      · rw [Timeline.link_here]
        exact chain.next_eq.symm
      · have inside : d ∈ front ++ [b] ++ back := by
          rw [List.append_assoc, List.singleton_append]
          exact ((List.sublist_cons_self b back).append_left front).subset member
        rw [Timeline.link_next (elsewhere inside), if_neg fun same => distinct member (Option.some.inj same).symm]
  · exact List.nodup_middle.mpr (List.nodup_cons.mpr ⟨absent, queue.nodup⟩)
  · by_cases here : d = c
    · rw [here, Timeline.link_here]
      simp
    · rw [Timeline.link_activated here, ← queue.active d]
      simp [here]
  · obtain ⟨inFront, inBack, across⟩ := List.pairwise_append.mp queue.sorted
    refine List.pairwise_append.mpr ⟨inFront.imp_of_mem ?_, List.pairwise_cons.mpr ⟨?_, inBack.imp_of_mem ?_⟩, ?_⟩
    · intro d e first second order
      rwa [cycleOf (List.mem_append_left _ first), cycleOf (List.mem_append_left _ second)]
    · intro d member
      rw [cycleOf (List.mem_append_right _ member), Timeline.link_here]
      exact large d member
    · intro d e first second order
      rwa [cycleOf (List.mem_append_right _ first), cycleOf (List.mem_append_right _ second)]
    · intro d first e second
      rw [cycleOf (List.mem_append_left _ first)]
      rcases List.mem_cons.mp second with rfl | member
      · rw [Timeline.link_here]
        exact (small d first).le
      · rw [cycleOf (List.mem_append_right _ member)]
        exact across d first e member
  · by_cases here : d = c
    · rw [here]
      exact exists_
    · rw [Timeline.link_activated here] at active
      exact queue.created d active

/-- The first clock is taken from the list. -/
theorem retire (queue : Queue t (c :: items)) : Queue (t.retire c) items := by
  obtain ⟨absent, distinct⟩ := List.nodup_cons.mp queue.nodup
  obtain ⟨_, sorted⟩ := List.pairwise_cons.mp queue.sorted
  have same {d : ClockId} (other : d ≠ c) : (t.retire c).clocks d = t.clocks d := Function.update_of_ne other _ _
  have elsewhere {d : ClockId} (member : d ∈ items) : d ≠ c := ne_of_mem_of_not_mem member absent
  refine ⟨?_, distinct, fun d => ?_, sorted.imp_of_mem ?_, fun d active => ?_⟩
  · refine queue.chain.rest.congr fun d member => ?_
    rw [same (elsewhere member)]
  · by_cases here : d = c
    · rw [here, Timeline.retire]
      dsimp only
      rw [Function.update_self]
      exact ⟨fun member => absurd member absent, nofun⟩
    · rw [same here, ← queue.active d]
      simp [here]
  · intro d e first second order
    rwa [same (elsewhere first), same (elsewhere second)]
  · by_cases here : d = c
    · rw [here, Timeline.retire] at active
      dsimp only at active
      rw [Function.update_self] at active
      cases active
    · rw [same here] at active
      exact queue.created d active

end Queue

end Mgsim.Sim
