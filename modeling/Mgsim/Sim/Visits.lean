import Mgsim.Sim.Timely

namespace Mgsim.Sim
open Mgsim.Lib KernelRecord

section Visits
variable {t : Timeline} {start : Option ClockId} {due items : List ClockId} {c : ClockId}

/-- The clocks that a loop over the due clocks meets from a clock on. -/
inductive Walks (t : Timeline) : Option ClockId → List ClockId → Prop
  | stop {first : Option ClockId} : (∀ c ∈ first, (t.clocks c).activated = true ∧ t.cycle < (t.clocks c).cycle) →
      Walks t first []
  | visit {c rest} : t.Due c → Walks t (t.clocks c).next rest → Walks t (some c) (c :: rest)

namespace Walks

theorem of_chain (chain : Chain (fun c => (t.clocks c).next) start items)
    (sorted : items.Pairwise fun c d => (t.clocks c).cycle ≤ (t.clocks d).cycle)
    (ahead : ∀ c ∈ items, (t.clocks c).activated = true ∧ t.cycle ≤ (t.clocks c).cycle) :
    Walks t start (items.filter fun c => t.Due c) := by
  induction chain with
  | nil => exact .stop nofun
  | @cons c rest _ ih =>
    obtain ⟨behind, sortedRest⟩ := List.pairwise_cons.mp sorted
    obtain ⟨here, later⟩ := List.forall_mem_cons.mp ahead
    by_cases due : t.Due c
    · have kept : (c :: rest).filter (fun d => t.Due d) = c :: rest.filter fun d => t.Due d :=
        List.filter_cons_of_pos (by simpa using due)
      rw [kept]
      exact .visit due (ih sortedRest later)
    · have future : t.cycle < (t.clocks c).cycle := Nat.lt_of_le_of_ne here.2 fun now => due ⟨here.1, now.symm⟩
      have none : (c :: rest).filter (fun d => t.Due d) = [] := by
        refine List.filter_eq_nil_iff.mpr fun d member isDue => ?_
        have dueD : t.Due d := of_decide_eq_true isDue
        rcases List.mem_cons.mp member with rfl | inRest
        · exact due dueD
        · have order := behind d inRest
          rw [dueD.2] at order
          exact Nat.not_le.mpr future order
      rw [none]
      refine .stop fun d member => ?_
      cases member
      exact ⟨here.1, future⟩

theorem eq_nil (walks : Walks t start due) (late : ∀ c ∈ start, t.cycle < (t.clocks c).cycle) : due = [] := by
  cases walks with
  | stop _ => rfl
  | visit isDue _ => exact absurd isDue.2 (late _ rfl).ne'

/-- A clock that is put into the list for a later cycle is not met. -/
theorem link {front back : List ClockId} {tick : Nat} (walks : Walks t start due) (queue : Queue t (front ++ back))
    (inactive : (t.clocks c).activated = false) (future : t.cycle < tick) (large : ∀ d ∈ back, tick ≤ (t.clocks d).cycle) :
    Walks (t.link front.getLast? c back.head? tick) start due := by
  have other {d : ClockId} (active : (t.clocks d).activated = true) : d ≠ c := by
    rintro rfl
    rw [inactive] at active
    cases active
  induction walks with
  | stop late =>
    refine .stop fun d member => ?_
    obtain ⟨active, later⟩ := late d member
    rw [Timeline.link_activated (other active), Timeline.link_cycle (other active)]
    exact ⟨active, later⟩
  | @visit d rest isDue walks ih =>
    refine .visit ?_ ?_
    · unfold Timeline.Due
      rw [Timeline.link_activated (other isDue.1), Timeline.link_cycle (other isDue.1)]
      exact isDue
    · rw [Timeline.link_next (other isDue.1)]
      by_cases before : front.getLast? = some d
      · obtain ⟨front, rfl⟩ := List.getLast?_eq_some_iff.mp before
        have chain := queue.chain
        rw [List.append_assoc, List.singleton_append] at chain
        have next : (t.clocks d).next = back.head? := chain.next_eq
        rw [next] at walks
        -- Behind the new clock no clock is due.
        have none : rest = [] := walks.eq_nil fun e member => Nat.lt_of_lt_of_le future (large e (List.mem_of_head? member))
        rw [if_pos before, none]
        refine .stop fun e member => ?_
        cases member
        rw [Timeline.link_here]
        exact ⟨rfl, future⟩
      · rw [if_neg before]
        exact ih

end Walks

variable {P S A W : Type} {k k' : Kernel P S A W} {log : ClockId → List Tick}

/-- What components do does not change which clocks a loop meets. -/
theorem Walks.moves (walks : Walks k.timeline start due) (timely : Timely k.timeline log) (fit : k.timeline.TicksFit)
    (moves : Moves k k') : Walks k'.timeline start due := by
  induction moves generalizing log with
  | quiet same _ =>
    rw [same]
    exact walks
  | @activate k k' c called =>
    rcases Kernel.activateClock_spec called with ⟨_, rfl⟩ | ⟨inactive, positive, before, after, found, timeline⟩
    · exact walks
    obtain ⟨items, queue⟩ := timely.queue
    obtain ⟨front, back, rfl, _, large, place⟩ := Kernel.searchPlace_spec queue.chain queue.sorted found
    rw [Option.or_none] at place
    obtain ⟨rfl, rfl⟩ := Prod.mk.inj place
    have atNew := (timely.activate fit called).1.later c inactive (by rw [timeline, Timeline.link_here])
    rw [timeline, Timeline.link_here] at atNew
    rw [timeline]
    exact walks.link queue inactive atNew large
  | trans first _ before after =>
    obtain ⟨steady, middle⟩ := timely.moves fit first
    exact after (before walks timely fit) middle (steady.ticksFit fit)

/-- A loop calls its body once for each clock that it meets, while the body puts clocks into the list. -/
theorem Walks.forClocks {body : ClockId → Kernel P S A W → Option (Kernel P S A W)} {bound : Nat}
    (bodyMoves : ∀ c k k', body c k = some k' → Moves k k') (walks : Walks k.timeline start due)
    (timely : Timely k.timeline log) (fit : k.timeline.TicksFit) (enough : due.length < bound) :
    Kernel.forClocks body bound start k = due.foldlM (fun k c => body c k) k := by
  induction due generalizing bound start k log with
  | nil =>
    obtain ⟨more, rfl⟩ := Nat.exists_eq_succ_of_ne_zero (Nat.ne_of_gt enough)
    cases walks with
    | stop late =>
      cases start with
      | none => rfl
      | some c =>
        have later : k.cycle < (k.clocks c).cycle := (late c rfl).2
        rw [Kernel.forClocks, if_neg later.ne]
        rfl
  | cons c rest ih =>
    obtain ⟨more, rfl⟩ := Nat.exists_eq_succ_of_ne_zero (Nat.ne_of_gt (Nat.zero_lt_of_lt enough))
    have all := walks
    cases walks with
    | visit isDue _ =>
      have now : k.cycle = (k.clocks c).cycle := isDue.2.symm
      rw [Kernel.forClocks, if_pos now, List.foldlM_cons]
      cases called : body c k with
      | none => rfl
      | some k₁ =>
        have moves := bodyMoves c k k₁ called
        obtain ⟨steady, after⟩ := timely.moves fit moves
        have again := all.moves timely fit moves
        cases again with
        | visit _ behind =>
          exact ih behind after (steady.ticksFit fit) (by simpa using enough)

/-- The loops of a turn call their bodies once for each clock that is due. -/
theorem Timely.loop_visits {body : ClockId → Kernel P S A W → Option (Kernel P S A W)} {bound : Nat}
    (timely : Timely k.timeline log) (fit : k.timeline.TicksFit) (queue : Queue k.timeline items)
    (bodyMoves : ∀ c k k', body c k = some k' → Moves k k') (enough : items.length < bound) :
    Kernel.forClocks body bound k.activeClocks k =
      (items.filter fun c => k.timeline.Due c).foldlM (fun k c => body c k) k := by
  refine Walks.forClocks bodyMoves (.of_chain queue.chain queue.sorted fun c member => ?_) timely fit ?_
  · have active := (queue.active c).mp member
    exact ⟨active, timely.ahead c active⟩
  · exact Nat.lt_of_le_of_lt (List.length_filter_le _ _) enough

end Visits

end Mgsim.Sim
