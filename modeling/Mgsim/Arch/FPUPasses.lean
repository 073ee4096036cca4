import Mgsim.Arch.FPUWork

namespace Mgsim.Arch.FPU
open Mgsim.Lib Mgsim.Drisc Relation

variable {t : Target} {c : FPUConf t}

section Passes
variable {s s' : FPU c} {commit ok : Bool} {ready : c.UnitId → Bool}

theorem feedUnit_isSome (commit : Bool) {p : Pass c} (books : Books p.fpu) (source : c.SourceId) : ∃ q, feedUnit commit p source = some q := by
  unfold feedUnit
  split
  · exact ⟨_, rfl⟩
  · next op rest front =>
    obtain ⟨_, known, _⟩ := books.queued source op (front ▸ List.mem_cons_self)
    obtain ⟨i, unit⟩ := unitOf_isSome source (books.accepted _ _ _ known).2.2
    dsimp only
    rw [unit]
    dsimp only
    split
    · exact ⟨_, rfl⟩
    · exact ⟨_, rfl⟩

theorem foldlM_feedUnit_isSome (commit : Bool) {p : Pass c} (books : Books p.fpu) (sources : List c.SourceId) : ∃ q, sources.foldlM (feedUnit commit) p = some q := by
  induction sources generalizing p with
  | nil => exact ⟨p, rfl⟩
  | cons source sources ih =>
    obtain ⟨next, fed⟩ := feedUnit_isSome commit books source
    have books' : Books next.fpu := by
      rcases feedUnit_moved fed with same | moved
      · rwa [same]
      · exact books.moved moved
    obtain ⟨q, rest⟩ := ih books'
    exact ⟨q, by rw [List.foldlM_cons, fed]; exact rest⟩

/-- A pass never fails on operations that are supported. -/
theorem doPipeline_isSome (timed : c.Timed) (kept : Kept s) (commit : Bool) (ready : c.UnitId → Bool) :
    ∃ s' ok, doPipeline commit ready s = some (s', ok) := by
  have advanced := kept.moves timed (advanceUnits_moved commit ready s)
  obtain ⟨q, fed⟩ := foldlM_feedUnit_isSome commit advanced.books (rotated c (advanceUnits commit ready s).fpu.lastSource)
  unfold doPipeline
  rw [show feedUnits commit (advanceUnits commit ready s) = some q from fed]
  exact ⟨_, _, rfl⟩

theorem cycle_isSome (timed : c.Timed) (kept : Kept s) (ready : c.UnitId → Bool) : ∃ s', s.cycle ready = some s' := by
  unfold cycle
  split
  · obtain ⟨checked, ok, check⟩ := doPipeline_isSome timed kept false ready
    rw [check]
    cases ok
    · exact ⟨_, rfl⟩
    · obtain ⟨committed, _, commit⟩ := doPipeline_isSome timed (kept.doPipeline timed check) true ready
      dsimp only
      rw [commit]
      exact ⟨_, rfl⟩
  · exact ⟨_, rfl⟩

/-- The pass that checks leaves the slots and the queues as they are. -/
structure Unmoved (s s' : FPU c) : Prop where
  slots : s'.slots = s.slots
  inputs : s'.inputs = s.inputs
  active : s'.active = s.active

theorem advanceUnit_unmoved (ready : c.UnitId → Bool) (p : Pass c) (i : c.UnitId) : Unmoved p.fpu (advanceUnit false ready p i).fpu := by
  unfold advanceUnit
  split
  · exact ⟨rfl, rfl, rfl⟩
  · next res rest front =>
    dsimp only
    split
    · rcases onCompletion_cases p.fpu false (ready i) i res with blocked | ⟨free, stalled | done⟩
      · rw [blocked]
        exact ⟨rfl, rfl, rfl⟩
      · rw [stalled]
        exact ⟨rfl, rfl, rfl⟩
      · rw [done]
        dsimp only
        rw [if_neg (by decide)]
        split
        · exact ⟨rfl, rfl, rfl⟩
        · exact ⟨rfl, rfl, rfl⟩
    · exact ⟨rfl, rfl, rfl⟩

theorem feedUnit_unmoved {p q : Pass c} {source : c.SourceId} (fed : feedUnit false p source = some q) : q.fpu = p.fpu := by
  unfold feedUnit at fed
  split at fed
  · cases fed
    rfl
  · dsimp only at fed
    split at fed
    · cases fed
    · split at fed
      · cases fed
        rfl
      · cases fed
        rfl

theorem foldl_advanceUnit_unmoved (ready : c.UnitId → Bool) (units : List c.UnitId) (p : Pass c) :
    Unmoved p.fpu (units.foldl (advanceUnit false ready) p).fpu := by
  induction units generalizing p with
  | nil => exact ⟨rfl, rfl, rfl⟩
  | cons i units ih =>
    have first := advanceUnit_unmoved ready p i
    have rest := ih (advanceUnit false ready p i)
    exact ⟨rest.slots.trans first.slots, rest.inputs.trans first.inputs, rest.active.trans first.active⟩

theorem foldlM_feedUnit_unmoved {sources : List c.SourceId} {p q : Pass c} (fed : sources.foldlM (feedUnit false) p = some q) :
    q.fpu = p.fpu := by
  induction sources generalizing p with
  | nil =>
    cases fed
    rfl
  | cons source sources ih =>
    rw [List.foldlM_cons] at fed
    obtain ⟨next, first, rest⟩ := Option.bind_eq_some_iff.1 fed
    exact (ih rest).trans (feedUnit_unmoved first)

theorem check_unmoved (done : doPipeline false ready s = some (s', ok)) : Unmoved s s' := by
  obtain ⟨q, fed, _, rfl⟩ := doPipeline_parts done
  rw [if_neg (by decide), foldlM_feedUnit_unmoved fed]
  exact foldl_advanceUnit_unmoved ready _ ⟨s, 0, 0, 0, 0, 0⟩

theorem advanceUnit_counts (commit : Bool) (ready : c.UnitId → Bool) (p : Pass c) (i : c.UnitId)
    (some : p.unitsFailed < p.unitsActive) :
    (advanceUnit commit ready p i).unitsFailed < (advanceUnit commit ready p i).unitsActive := by
  unfold advanceUnit
  split
  · exact some
  · next res rest front =>
    dsimp only
    split
    · split
      · exact Nat.succ_lt_succ some
      · split
        · exact Nat.lt_succ_of_lt some
        · exact Nat.lt_succ_of_lt some
    · exact Nat.lt_succ_of_lt some

theorem foldl_advanceUnit_counts (commit : Bool) (ready : c.UnitId → Bool) (units : List c.UnitId) (p : Pass c)
    (some : p.unitsFailed < p.unitsActive) :
    (units.foldl (advanceUnit commit ready) p).unitsFailed < (units.foldl (advanceUnit commit ready) p).unitsActive := by
  induction units generalizing p with
  | nil => exact some
  | cons i units ih => exact ih _ (advanceUnit_counts commit ready p i some)

theorem feedUnit_counts {p q : Pass c} {source : c.SourceId} (fed : feedUnit commit p source = some q) :
    (q.unitsFailed = p.unitsFailed ∧ q.unitsActive = p.unitsActive) ∧
      (p.sourcesFailed < p.sourcesActive → q.sourcesFailed < q.sourcesActive) := by
  unfold feedUnit at fed
  split at fed
  · cases fed
    exact ⟨⟨rfl, rfl⟩, id⟩
  · dsimp only at fed
    split at fed
    · cases fed
    · split at fed
      · cases fed
        exact ⟨⟨rfl, rfl⟩, Nat.succ_lt_succ⟩
      · cases fed
        exact ⟨⟨rfl, rfl⟩, Nat.lt_succ_of_lt⟩

theorem foldlM_feedUnit_counts {sources : List c.SourceId} {p q : Pass c} (fed : sources.foldlM (feedUnit commit) p = some q) :
    (q.unitsFailed = p.unitsFailed ∧ q.unitsActive = p.unitsActive) ∧
      (p.sourcesFailed < p.sourcesActive → q.sourcesFailed < q.sourcesActive) := by
  induction sources generalizing p with
  | nil =>
    cases fed
    exact ⟨⟨rfl, rfl⟩, id⟩
  | cons source sources ih =>
    rw [List.foldlM_cons] at fed
    obtain ⟨next, first, rest⟩ := Option.bind_eq_some_iff.1 fed
    have before := feedUnit_counts first
    have after := ih rest
    exact ⟨⟨after.1.1.trans before.1.1, after.1.2.trans before.1.2⟩, fun less => after.2 (before.2 less)⟩

theorem foldl_advanceUnit_idle {units : List c.UnitId} {p : Pass c} (idle : ∀ i ∈ units, p.fpu.slots i = []) :
    units.foldl (advanceUnit commit ready) p = p := by
  induction units with
  | nil => rfl
  | cons i units ih =>
    have first : advanceUnit commit ready p i = p := by
      rw [advanceUnit, idle i List.mem_cons_self]
    rw [List.foldl_cons, first]
    exact ih fun j member => idle j (List.mem_cons_of_mem _ member)

theorem foldlM_feedUnit_idle {sources : List c.SourceId} {p : Pass c} (idle : ∀ source ∈ sources, p.fpu.inputs source = []) :
    sources.foldlM (feedUnit commit) p = some p := by
  induction sources with
  | nil => rfl
  | cons source sources ih =>
    have first : feedUnit commit p source = some p := by
      rw [feedUnit, idle source List.mem_cons_self]
    rw [List.foldlM_cons, first]
    exact ih fun j member => idle j (List.mem_cons_of_mem _ member)

/-- A unit has its source in this cycle. -/
def Held (s : FPU c) (i : c.UnitId) (source : c.SourceId) : Prop := s.lastWrite source = s.now ∧ s.lastUnit source = i

theorem Held.mark {i : c.UnitId} {source : c.SourceId} (held : Held s i source) {unit : c.UnitId} {other : c.SourceId}
    (free : ¬ (s.lastWrite other = s.now ∧ s.lastUnit other ≠ unit)) : Held (s.mark unit other) i source := by
  by_cases same : source = other
  · subst same
    have unit_eq := not_not.1 fun different => free ⟨held.1, different⟩
    exact ⟨Function.update_self .., (Function.update_self ..).trans (unit_eq.symm.trans held.2)⟩
  · exact ⟨(Function.update_of_ne same ..).trans held.1, (Function.update_of_ne same ..).trans held.2⟩

theorem Held.moves {i : c.UnitId} {source : c.SourceId} (held : Held s i source) (moves : ReflTransGen Moved s s') :
    Held s' i source := by
  induction moves with
  | refl => exact held
  | tail _ moved ih =>
    cases moved with
    | mark unit source free => exact ih.mark free
    | advance i front early => exact ih
    | next i front free more => exact ih.mark free
    | complete i front late free last => exact ih.mark free
    | accept source i front unit room => exact ih

theorem onCompletion_ready (commit : Bool) {i : c.UnitId} {res : OpResult c}
    (free : ¬ (s.lastWrite res.source = s.now ∧ s.lastUnit res.source ≠ i)) :
    onCompletion s commit true i res =
      (true, if commit then (s.mark i res.source).write i res else s.mark i res.source) := by
  rw [onCompletion, if_neg free]
  rfl

section Served
variable {p : Pass c} {i : c.UnitId} {res : OpResult c} {rest : List (OpResult c)}

/-- A unit that may write, and whose register file accepts, passes the check. -/
theorem advanceUnit_checked (front : p.fpu.slots i = res :: rest) (accepts : ready i = true)
    (free : ¬ (p.fpu.lastWrite res.source = p.fpu.now ∧ p.fpu.lastUnit res.source ≠ i)) :
    ((advanceUnit false ready p i).unitsFailed = p.unitsFailed ∧
        (advanceUnit false ready p i).unitsActive = p.unitsActive + 1) ∧
      (res.state = (c.units.get i).latency → Held (advanceUnit false ready p i).fpu i res.source) := by
  have held : Held (p.fpu.mark i res.source) i res.source := ⟨Function.update_self .., Function.update_self ..⟩
  unfold advanceUnit
  rw [front]
  dsimp only
  split
  · rw [accepts, onCompletion_ready false free]
    dsimp only
    rw [if_neg (by simp)]
    split
    · exact ⟨⟨rfl, rfl⟩, fun _ => held⟩
    · exact ⟨⟨rfl, rfl⟩, fun _ => held⟩
  · next early => exact ⟨⟨rfl, rfl⟩, fun late => absurd late early⟩

/-- It then makes its step. -/
theorem advanceUnit_committed (timed : c.Timed) (kept : Kept p.fpu) (front : p.fpu.slots i = res :: rest)
    (accepts : ready i = true) (free : res.state = (c.units.get i).latency →
      ¬ (p.fpu.lastWrite res.source = p.fpu.now ∧ p.fpu.lastUnit res.source ≠ i)) :
    (advanceUnit true ready p i).fpu.work < p.fpu.work := by
  unfold advanceUnit
  rw [front]
  dsimp only
  split
  · next late =>
    rw [accepts, onCompletion_ready true (free late)]
    dsimp only
    rw [if_neg (by simp)]
    split
    · exact work_complete timed kept front
    · next more => exact work_next kept front more
  · next early => exact work_advance timed kept front early

end Served

/-- A source whose unit is empty has its turn. -/
theorem feedUnit_served (commit : Bool) {p : Pass c} {source : c.SourceId} {op : Operation} {rest : List Operation}
    (front : p.fpu.inputs source = op :: rest) {i : c.UnitId} (unit : unitOf source op.op = some i)
    (empty : p.fpu.slots i = []) :
    feedUnit commit p source = some { p with
      sourcesActive := p.sourcesActive + 1
      fpu := if commit then p.fpu.accept source i op rest else p.fpu
      unitsFull := p.unitsFull + 1 } := by
  have room : p.fpu.busy i = false := by
    rw [busy, empty]
    rfl
  simp only [feedUnit, front, unit, room, Bool.false_eq_true, if_false]

end Passes

/-- What a cycle finds when it begins. -/
structure Settled (s : FPU c) : Prop where
  past : ∀ source, s.lastWrite source ≤ s.now
  fresh : (∀ source, s.lastWrite source < s.now) ∨ ∀ i, s.slots i = []
  active : ∀ i, s.slots i ≠ [] → s.active = true

section Settled
variable {s s' : FPU c} {ready : c.UnitId → Bool} {ok : Bool}

theorem mark_past (past : ∀ source, s.lastWrite source ≤ s.now) (unit : c.UnitId) (other source : c.SourceId) :
    (s.mark unit other).lastWrite source ≤ (s.mark unit other).now := by
  by_cases same : source = other
  · subst same
    exact (Function.update_self ..).le
  · exact (Function.update_of_ne same ..).le.trans (past source)

theorem moves_past (past : ∀ source, s.lastWrite source ≤ s.now) (moves : ReflTransGen Moved s s') (source : c.SourceId) :
    s'.lastWrite source ≤ s'.now := by
  induction moves generalizing source with
  | refl => exact past source
  | tail _ moved ih =>
    cases moved with
    | mark unit other free => exact mark_past ih unit other source
    | advance i front early => exact ih source
    | @next i res rest front free more => exact mark_past ih i res.source source
    | @complete i res rest front late free last => exact mark_past ih i res.source source
    | accept other i front unit room => exact ih source

theorem doPipeline_past {commit : Bool} (past : ∀ source, s.lastWrite source ≤ s.now)
    (done : doPipeline commit ready s = some (s', ok)) (source : c.SourceId) : s'.lastWrite source ≤ s'.now := by
  obtain ⟨between, last, active, moves, rfl⟩ := doPipeline_moved done
  exact moves_past past moves source

/-- The count of full units is positive while a unit has something in its slots. -/
theorem advanceUnit_full (ready : c.UnitId → Bool) (p : Pass c) (i : c.UnitId) : p.unitsFull ≤ (advanceUnit true ready p i).unitsFull ∧
    ((advanceUnit true ready p i).fpu.slots i ≠ [] → 0 < (advanceUnit true ready p i).unitsFull) ∧
    ∀ j ≠ i, (advanceUnit true ready p i).fpu.slots j = p.fpu.slots j := by
  unfold advanceUnit
  split
  · next empty => exact ⟨le_rfl, fun full => absurd empty full, fun _ _ => rfl⟩
  · next res rest front =>
    dsimp only
    split
    · rcases onCompletion_cases p.fpu true (ready i) i res with blocked | ⟨free, stalled | done⟩
      · rw [blocked]
        exact ⟨Nat.le_succ _, fun _ => Nat.succ_pos _, fun _ _ => rfl⟩
      · rw [stalled]
        exact ⟨Nat.le_succ _, fun _ => Nat.succ_pos _, fun _ _ => rfl⟩
      · rw [done]
        dsimp only
        rw [if_neg (by simp)]
        split
        · refine ⟨?_, fun full => ?_, fun j different => Function.update_of_ne different ..⟩
          · dsimp only
            split
            · exact le_rfl
            · exact Nat.le_succ _
          · cases rest with
            | nil => exact absurd (Function.update_self ..) full
            | cons next rest => exact Nat.succ_pos _
        · exact ⟨Nat.le_succ _, fun _ => Nat.succ_pos _, fun j different => Function.update_of_ne different ..⟩
    · exact ⟨Nat.le_succ _, fun _ => Nat.succ_pos _, fun j different => Function.update_of_ne different ..⟩

theorem foldl_advanceUnit_full (ready : c.UnitId → Bool) (units : List c.UnitId) (p : Pass c) :
    p.unitsFull ≤ (units.foldl (advanceUnit true ready) p).unitsFull ∧ ∀ i,
      (units.foldl (advanceUnit true ready) p).fpu.slots i ≠ [] →
        0 < (units.foldl (advanceUnit true ready) p).unitsFull ∨ i ∉ units ∧ p.fpu.slots i ≠ [] := by
  induction units generalizing p with
  | nil => exact ⟨le_rfl, fun i full => Or.inr ⟨List.not_mem_nil, full⟩⟩
  | cons i units ih =>
    obtain ⟨more, here, others⟩ := advanceUnit_full ready p i
    obtain ⟨later, rest⟩ := ih (advanceUnit true ready p i)
    refine ⟨more.trans later, fun j full => ?_⟩
    rcases rest j full with positive | ⟨absent, before⟩
    · exact Or.inl positive
    · by_cases same : j = i
      · subst same
        exact Or.inl ((here before).trans_le later)
      · rw [others j same] at before
        exact Or.inr ⟨List.not_mem_cons_of_ne_of_not_mem same absent, before⟩

theorem feedUnit_full {p q : Pass c} {source : c.SourceId} (fed : feedUnit true p source = some q)
    (full : ∀ i, p.fpu.slots i ≠ [] → 0 < p.unitsFull) : ∀ i, q.fpu.slots i ≠ [] → 0 < q.unitsFull := by
  unfold feedUnit at fed
  split at fed
  · cases fed
    exact full
  · dsimp only at fed
    split at fed
    · cases fed
    · split at fed
      · cases fed
        exact full
      · cases fed
        exact fun _ _ => Nat.succ_pos _

theorem foldlM_feedUnit_full {sources : List c.SourceId} {p q : Pass c} (fed : sources.foldlM (feedUnit true) p = some q)
    (full : ∀ i, p.fpu.slots i ≠ [] → 0 < p.unitsFull) : ∀ i, q.fpu.slots i ≠ [] → 0 < q.unitsFull := by
  induction sources generalizing p with
  | nil =>
    cases fed
    exact full
  | cons source sources ih =>
    rw [List.foldlM_cons] at fed
    obtain ⟨next, first, rest⟩ := Option.bind_eq_some_iff.1 fed
    exact ih rest (feedUnit_full first full)

theorem commit_active (done : doPipeline true ready s = some (s', ok)) (i : c.UnitId) (full : s'.slots i ≠ []) :
    s'.active = true := by
  obtain ⟨q, fed, _, rfl⟩ := doPipeline_parts done
  rw [if_pos rfl] at full ⊢
  refine decide_eq_true (foldlM_feedUnit_full fed (fun i full => ?_) i full)
  rcases (foldl_advanceUnit_full ready (List.finRange c.units.length) ⟨s, 0, 0, 0, 0, 0⟩).2 i full with positive | ⟨absent, _⟩
  · exact positive
  · exact absurd (List.mem_finRange i) absent

theorem Settled.cycle (settled : Settled s) (taken : s.cycle ready = some s') : Settled s' := by
  rcases cycle_cases taken with rfl | ⟨checked, check, rfl⟩ | ⟨checked, committed, ok, check, commit, rfl⟩
  · exact ⟨fun source => (settled.past source).trans (Nat.le_succ _),
      Or.inl fun source => Nat.lt_succ_of_le (settled.past source), settled.active⟩
  · have past := doPipeline_past settled.past check
    have now := doPipeline_now check
    have same := check_unmoved check
    refine ⟨fun source => ?_, Or.inl fun source => ?_, fun i full => ?_⟩
    · exact ((past source).trans now.le).trans (Nat.le_succ _)
    · exact Nat.lt_succ_of_le ((past source).trans now.le)
    · exact same.active.trans (settled.active i (same.slots ▸ full))
  · have past := doPipeline_past (doPipeline_past settled.past check) commit
    have now := (doPipeline_now commit).trans (doPipeline_now check)
    refine ⟨fun source => ?_, Or.inl fun source => ?_, fun i full => ?_⟩
    · exact ((past source).trans now.le).trans (Nat.le_succ _)
    · exact Nat.lt_succ_of_le ((past source).trans now.le)
    · have on : committed.active = true := commit_active commit i full
      exact on

theorem Settled.step {event : Event c} (settled : Settled s) (taken : s.step event = some s') : Settled s' := by
  cases event with
  | cycle ready => exact settled.cycle taken
  | queue source fop size rav rbv rc =>
    change s.queueOperation source fop size rav rbv rc = some s' at taken
    unfold FPU.queueOperation at taken
    split at taken
    · cases taken
      exact ⟨settled.past, settled.fresh, settled.active⟩
    · cases taken

theorem Settled.initial : Settled (FPU.initial c) :=
  ⟨fun _ => le_rfl, Or.inr fun _ => rfl, fun _ full => absurd rfl full⟩

end Settled

end Mgsim.Arch.FPU
