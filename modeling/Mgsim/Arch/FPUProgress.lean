import Mgsim.Arch.FPUPasses

namespace Mgsim.Arch.FPU
open Mgsim.Lib Mgsim.Drisc Relation

variable {t : Target} {c : FPUConf t}

section Progress
variable {s : FPU c} {ready : c.UnitId → Bool}

/-- The first element of a list that meets a condition, with those before it. -/
theorem exists_first {α : Type} (busy : α → Prop) (list : List α) :
    (∀ x ∈ list, ¬ busy x) ∨ ∃ before x after, list = before ++ x :: after ∧ (∀ y ∈ before, ¬ busy y) ∧ busy x := by
  classical
  rcases found : list.find? fun x => busy x with _ | x
  · exact Or.inl fun x member => by simpa using List.find?_eq_none.1 found x member
  · obtain ⟨holds, before, after, same, none⟩ := List.find?_eq_some_iff_append.1 found
    exact Or.inr ⟨before, x, after, same, fun y member => by simpa using none y member, by simpa using holds⟩

theorem doPipeline_ok {commit ok : Bool} {s' : FPU c} {q : Pass c} (fed : feedUnits commit (advanceUnits commit ready s) = some q)
    (done : doPipeline commit ready s = some (s', ok))
    (some : q.unitsFailed < q.unitsActive ∨ q.sourcesFailed < q.sourcesActive) : ok = true := by
  obtain ⟨q', fed', rfl, _⟩ := doPipeline_parts done
  cases Option.some.inj (fed.symm.trans fed')
  rcases some with units | sources
  · rw [decide_eq_false units.ne]
    rfl
  · rw [decide_eq_false sources.ne, Bool.and_false]
    rfl

section First
variable {i : c.UnitId} {before after : List c.UnitId} {res : OpResult c} {rest : List (OpResult c)}

/-- The first loop, when the units before one of them have nothing. -/
theorem advanceUnits_first (commit : Bool) (ready : c.UnitId → Bool) (all : List.finRange c.units.length = before ++ i :: after)
    (idle : ∀ j ∈ before, s.slots j = []) : advanceUnits commit ready s =
      after.foldl (advanceUnit commit ready) (advanceUnit commit ready ⟨s, 0, 0, 0, 0, 0⟩ i) := by
  have same : before.foldl (advanceUnit commit ready) ⟨s, 0, 0, 0, 0, 0⟩ = ⟨s, 0, 0, 0, 0, 0⟩ := foldl_advanceUnit_idle idle
  rw [advanceUnits, all, List.foldl_append, same, List.foldl_cons]

/-- The first unit that has something passes the check, and keeps its source for this cycle. -/
theorem unit_checked {s' : FPU c} {ok : Bool} (all : List.finRange c.units.length = before ++ i :: after)
    (idle : ∀ j ∈ before, s.slots j = []) (front : s.slots i = res :: rest) (accepts : ready i = true)
    (fresh : s.lastWrite res.source < s.now) (check : doPipeline false ready s = some (s', ok)) :
    ok = true ∧ (res.state = (c.units.get i).latency → Held s' i res.source) := by
  obtain ⟨q, fed, _, last⟩ := doPipeline_parts check
  have loop := advanceUnits_first false ready all idle
  obtain ⟨⟨failed, active⟩, held⟩ := advanceUnit_checked (p := ⟨s, 0, 0, 0, 0, 0⟩) front accepts fun taken => fresh.ne taken.1
  constructor
  · refine doPipeline_ok fed check (Or.inl ?_)
    obtain ⟨⟨sameFailed, sameActive⟩, _⟩ := foldlM_feedUnit_counts fed
    rw [sameFailed, sameActive, loop]
    refine foldl_advanceUnit_counts false ready after _ ?_
    rw [failed, active]
    exact Nat.zero_lt_one
  · intro late
    have moves := foldl_advanceUnit_moved false ready after (advanceUnit false ready ⟨s, 0, 0, 0, 0, 0⟩ i)
    rw [← loop] at moves
    rw [last, if_neg (by decide)]
    exact (held late).moves (moves.trans (feedUnits_moved fed))

/-- It then makes its step. -/
theorem unit_committed {s' : FPU c} {ok : Bool} (timed : c.Timed) (kept : Kept s)
    (all : List.finRange c.units.length = before ++ i :: after) (idle : ∀ j ∈ before, s.slots j = [])
    (front : s.slots i = res :: rest) (accepts : ready i = true)
    (held : res.state = (c.units.get i).latency → Held s i res.source)
    (commit : doPipeline true ready s = some (s', ok)) : s'.work < s.work := by
  obtain ⟨q, fed, _, rfl⟩ := doPipeline_parts commit
  have loop := advanceUnits_first true ready all idle
  have step : (advanceUnit true ready ⟨s, 0, 0, 0, 0, 0⟩ i).fpu.work < s.work :=
    advanceUnit_committed timed kept front accepts fun late taken => taken.2 (held late).2
  have keptStep : Kept (advanceUnit true ready ⟨s, 0, 0, 0, 0, 0⟩ i).fpu :=
    kept.moves timed (foldl_advanceUnit_moved true ready [i] ⟨s, 0, 0, 0, 0, 0⟩)
  have moves := foldl_advanceUnit_moved true ready after (advanceUnit true ready ⟨s, 0, 0, 0, 0, 0⟩ i)
  rw [← loop] at moves
  exact (work_moves timed keptStep (moves.trans (feedUnits_moved fed))).trans_lt step

end First

/-- With work in a unit, a cycle in which all register files accept makes a step. -/
theorem unit_works (timed : c.Timed) (kept : Kept s) (settled : Settled s) (accepts : ∀ i, ready i = true)
    (full : ∃ i, s.slots i ≠ []) : ∃ checked committed ok, doPipeline false ready s = some (checked, true) ∧
      doPipeline true ready checked = some (committed, ok) ∧ committed.work < s.work := by
  obtain ⟨k, slots⟩ := full
  have fresh := settled.fresh.resolve_right fun empty => slots (empty k)
  rcases exists_first (fun i => s.slots i ≠ []) (List.finRange c.units.length) with none | ⟨before, i, after, all, others, busy⟩
  · exact absurd slots (none k (List.mem_finRange k))
  have idle : ∀ j ∈ before, s.slots j = [] := fun j member => not_not.1 (others j member)
  obtain ⟨res, rest, front⟩ := List.exists_cons_of_ne_nil busy
  obtain ⟨checked, ok, check⟩ := doPipeline_isSome timed kept false ready
  obtain ⟨rfl, held⟩ := unit_checked all idle front (accepts i) (fresh res.source) check
  obtain ⟨sameSlots, sameInputs, _⟩ := check_unmoved check
  obtain ⟨committed, ok', commit⟩ := doPipeline_isSome timed (kept.doPipeline timed check) true ready
  refine ⟨checked, committed, ok', check, commit, ?_⟩
  have less := unit_committed timed (kept.doPipeline timed check) all (sameSlots ▸ idle) (sameSlots ▸ front) (accepts i) held commit
  rwa [work, work, sameSlots, sameInputs] at less

/-- The second loop, when all units are empty: the first source with an operation gets its unit. -/
theorem feedUnits_first (commit : Bool) (books : Books s) (empty : ∀ i, s.slots i = []) {k : c.SourceId}
    (waiting : s.inputs k ≠ []) {q : Pass c} (fed : feedUnits commit (advanceUnits commit ready s) = some q) :
    q.sourcesFailed < q.sourcesActive ∧ ∃ source i op rest, s.inputs source = op :: rest ∧ unitOf source op.op = some i ∧
      ReflTransGen Moved (if commit then s.accept source i op rest else s) q.fpu := by
  have none : advanceUnits commit ready s = ⟨s, 0, 0, 0, 0, 0⟩ := foldl_advanceUnit_idle fun i _ => empty i
  rw [none] at fed
  change (rotated c s.lastSource).foldlM (feedUnit commit) ⟨s, 0, 0, 0, 0, 0⟩ = some q at fed
  rcases exists_first (fun source => s.inputs source ≠ []) (rotated c s.lastSource) with
    absent | ⟨before, source, after, all, others, busy⟩
  · exact absurd waiting (absent k (mem_rotation _ k))
  have idle : ∀ j ∈ before, s.inputs j = [] := fun j member => not_not.1 (others j member)
  obtain ⟨op, rest, front⟩ := List.exists_cons_of_ne_nil busy
  obtain ⟨_, known, _⟩ := books.queued source op (front ▸ List.mem_cons_self)
  obtain ⟨i, unit⟩ := unitOf_isSome source (books.accepted _ _ _ known).2.2
  have skipped : before.foldlM (feedUnit commit) ⟨s, 0, 0, 0, 0, 0⟩ = some ⟨s, 0, 0, 0, 0, 0⟩ := foldlM_feedUnit_idle idle
  have served := feedUnit_served commit (p := ⟨s, 0, 0, 0, 0, 0⟩) front unit (empty i)
  rw [all, List.foldlM_append, skipped, Option.bind_eq_bind, Option.bind_some, List.foldlM_cons, served,
    Option.bind_eq_bind, Option.bind_some] at fed
  exact ⟨(foldlM_feedUnit_counts fed).2 Nat.zero_lt_one, source, i, op, rest, front, unit, foldlM_feedUnit_moved fed⟩

/-- With all units empty, a cycle takes an operation from a queue. -/
theorem source_works (timed : c.Timed) (kept : Kept s) (ready : c.UnitId → Bool) (empty : ∀ i, s.slots i = [])
    (waiting : ∃ source, s.inputs source ≠ []) : ∃ checked committed ok, doPipeline false ready s = some (checked, true) ∧
      doPipeline true ready checked = some (committed, ok) ∧ committed.work < s.work := by
  obtain ⟨k, queue⟩ := waiting
  obtain ⟨checked, ok, check⟩ := doPipeline_isSome timed kept false ready
  obtain ⟨q, fed, _⟩ := doPipeline_parts check
  have rfl := doPipeline_ok fed check (Or.inr (feedUnits_first false kept.books empty queue fed).1)
  obtain ⟨sameSlots, sameInputs, _⟩ := check_unmoved check
  have keptChecked := kept.doPipeline timed check
  obtain ⟨committed, ok', commit⟩ := doPipeline_isSome timed keptChecked true ready
  refine ⟨checked, committed, ok', by rw [check, rfl], commit, ?_⟩
  obtain ⟨q', fed', _, last⟩ := doPipeline_parts commit
  obtain ⟨_, source, i, op, rest, front, unit, moves⟩ :=
    feedUnits_first true keptChecked.books (sameSlots ▸ empty) (sameInputs ▸ queue) fed'
  have room : checked.busy i = false := by
    rw [busy, sameSlots, empty i]
    rfl
  have step := work_accept timed front unit
  have less := (work_moves timed (keptChecked.moved timed (.accept source i front unit room)) moves).trans_lt step
  rw [last]
  rwa [work, work, sameSlots, sameInputs] at less

/-- A cycle in which all register files accept makes a step, as long as something remains to be done. -/
theorem cycle_works (timed : c.Timed) (kept : Kept s) (settled : Settled s) (accepts : ∀ i, ready i = true)
    {s' : FPU c} (taken : s.cycle ready = some s') (more : s.work ≠ 0) : s'.work < s.work := by
  have finish (awake : s.awake = true) (works : ∃ checked committed ok, doPipeline false ready s = some (checked, true) ∧
      doPipeline true ready checked = some (committed, ok) ∧ committed.work < s.work) : s'.work < s.work := by
    obtain ⟨checked, committed, ok, check, commit, less⟩ := works
    rw [cycle, if_pos awake, check] at taken
    dsimp only at taken
    rw [commit] at taken
    cases taken
    exact less
  by_cases full : ∃ i, s.slots i ≠ []
  · obtain ⟨i, slots⟩ := full
    refine finish ?_ (unit_works timed kept settled accepts ⟨i, slots⟩)
    rw [awake, settled.active i slots, Bool.true_or]
  · have empty : ∀ i, s.slots i = [] := fun i => not_not.1 fun slots => full ⟨i, slots⟩
    have waiting : ∃ source, s.inputs source ≠ [] := by
      by_contra none
      have slots : account (fun i slots => (slots.map (slotWork i)).sum) s.slots = 0 :=
        account_eq_zero.2 fun i => by rw [empty i, List.map_nil, List.sum_nil]
      have inputs : account (fun source ops => (ops.map (queueWork source)).sum) s.inputs = 0 :=
        account_eq_zero.2 fun source => by
          rw [not_not.1 fun queue => none ⟨source, queue⟩, List.map_nil, List.sum_nil]
      exact more (by rw [work, slots, inputs])
    refine finish ?_ (source_works timed kept ready empty waiting)
    obtain ⟨source, queue⟩ := waiting
    rw [awake, List.any_eq_true.2 ⟨source, List.mem_finRange _, by simpa using queue⟩, Bool.or_true]

theorem doPipeline_work_le {s' : FPU c} {commit ok : Bool} (timed : c.Timed) (kept : Kept s)
    (done : doPipeline commit ready s = some (s', ok)) : s'.work ≤ s.work := by
  obtain ⟨between, last, active, moves, rfl⟩ := doPipeline_moved done
  have less := work_moves timed kept moves
  exact less

theorem cycle_work_le {s' : FPU c} (timed : c.Timed) (kept : Kept s) (taken : s.cycle ready = some s') : s'.work ≤ s.work := by
  rcases cycle_cases taken with rfl | ⟨checked, check, rfl⟩ | ⟨checked, committed, ok, check, commit, rfl⟩
  · exact le_rfl
  · have less := doPipeline_work_le timed kept check
    exact less
  · have less := doPipeline_work_le timed (kept.doPipeline timed check) commit
    exact less.trans (doPipeline_work_le timed kept check)

theorem moves_accepted {s' : FPU c} (moves : ReflTransGen Moved s s') : s'.accepted = s.accepted := by
  induction moves with
  | refl => rfl
  | tail _ moved ih =>
    cases moved with
    | mark unit source free => exact ih
    | advance i front early => exact ih
    | next i front free more => exact ih
    | complete i front late free last => exact ih
    | accept source i front unit room => exact ih

theorem doPipeline_accepted {s' : FPU c} {commit ok : Bool} (done : doPipeline commit ready s = some (s', ok)) :
    s'.accepted = s.accepted := by
  obtain ⟨between, last, active, moves, rfl⟩ := doPipeline_moved done
  have same := moves_accepted moves
  exact same

theorem cycle_accepted {s' : FPU c} (taken : s.cycle ready = some s') : s'.accepted = s.accepted := by
  rcases cycle_cases taken with rfl | ⟨checked, check, rfl⟩ | ⟨checked, committed, ok, check, commit, rfl⟩
  · rfl
  · have same := doPipeline_accepted check
    exact same
  · have same := doPipeline_accepted commit
    exact same.trans (doPipeline_accepted check)

/-- Whatever the stalls, enough cycles in which all register files accept finish all that has been queued. -/
theorem cycles_finish (timed : c.Timed) (kept : Kept s) (settled : Settled s) (stalls : List (c.UnitId → Bool))
    (enough : s.work ≤ stalls.countP fun ready => decide (∀ i, ready i = true)) :
    ∃ s', execute step s (stalls.map Event.cycle) = some s' ∧ Kept s' ∧ s'.accepted = s.accepted ∧ s'.work = 0 := by
  induction stalls generalizing s with
  | nil => exact ⟨s, rfl, kept, rfl, Nat.le_zero.1 enough⟩
  | cons ready stalls ih =>
    obtain ⟨next, taken⟩ := cycle_isSome timed kept ready
    have less : next.work ≤ stalls.countP fun ready => decide (∀ i, ready i = true) := by
      rw [List.countP_cons] at enough
      have never := cycle_work_le timed kept taken
      by_cases accepts : ∀ i, ready i = true
      · have works := cycle_works timed kept settled accepts taken
        rw [decide_eq_true accepts, if_pos rfl] at enough
        omega
      · rw [decide_eq_false accepts, if_neg (by decide)] at enough
        omega
    obtain ⟨last, done, keptLast, accepted, zero⟩ := ih (kept.cycle timed taken) (settled.cycle taken) less
    refine ⟨last, ?_, keptLast, accepted.trans (cycle_accepted taken), zero⟩
    rw [List.map_cons, execute, show s.step (.cycle ready) = some next from taken]
    exact done

end Progress

/-- What has become of the operations that have been queued, and how the units have served them. -/
structure Completion (s : FPU c) : Prop where
  written : ∀ (id : Nat) (source : c.SourceId) (op : Operation), s.accepted[id]? = some (source, op) →
    s.writesOf id <+: expected c source op
  whole : ∀ (id : Nat) (source : c.SourceId) (op : Operation), s.accepted[id]? = some (source, op) →
    (∀ x, id ∉ (s.inputs x).map Operation.id) → (∀ i, id ∉ ids (s.slots i)) → s.writesOf id = expected c source op
  known : ∀ w ∈ s.writes, w.id < s.accepted.length
  order : ∀ i, s.entered i = s.left i ++ ids (s.slots i)
  slots : ∀ i, (s.slots i).Pairwise fun older younger => younger.state < older.state
  latency : ∀ i, ∀ res ∈ s.slots i, 1 ≤ res.state ∧ res.state ≤ (c.units.get i).latency
  single : ∀ w ∈ s.writes, ∀ w' ∈ s.writes, w.cycle = w'.cycle → w.source = w'.source → w.unit = w'.unit

theorem Books.whole {s : FPU c} (books : Books s) {id : Nat} {source : c.SourceId} {op : Operation}
    (known : s.accepted[id]? = some (source, op)) (waits : ∀ x, id ∉ (s.inputs x).map Operation.id)
    (runs : ∀ i, id ∉ ids (s.slots i)) : s.writesOf id = expected c source op := by
  cases place : s.place id with
  | queued x => exact absurd (books.waiting id source op x known place) (waits x)
  | running i => exact absurd (books.running id source op i known place) (runs i)
  | completed => exact books.completed id source op known place

theorem Kept.completion {s : FPU c} (kept : Kept s) : Completion s := by
  refine ⟨fun id source op known => ?_, fun id source op known => kept.books.whole known, kept.books.unwritten, kept.order,
    kept.apart.decreasing, kept.apart.inside, kept.marks.single⟩
  have same := (kept.books.accepted id source op known).1
  cases place : s.place id with
  | queued x =>
    obtain ⟨waiting, queue, named⟩ := List.mem_map.1 (kept.books.waiting id source op x known place)
    have unwritten := (kept.books.queued x waiting queue).2.2
    rw [named] at unwritten
    rw [unwritten]
    exact List.nil_prefix
  | running i =>
    obtain ⟨res, slot, named⟩ := List.mem_map.1 (kept.books.running id source op i known place)
    obtain ⟨started, holds⟩ := kept.books.started i res slot
    rw [← named] at known ⊢
    cases Option.some.inj (holds.accepted.symm.trans known)
    rw [holds.writes]
    exact List.take_prefix ..
  | completed => exact (kept.books.completed id source op known place) ▸ List.prefix_rfl

/-- The FPU with latencies that its counters can reach, on operations that it supports: every register of a destination
is written once, with its slice, as soon as the register files accept; a cycle never fails. -/
theorem completes (timed : c.Timed) {events : List (Event c)} {s : FPU c} (run : Run step Supported (initial c) events s) :
    Completion s ∧ (∀ ready, ∃ s', s.cycle ready = some s') ∧
      ∃ n, ∀ stalls : List (c.UnitId → Bool), n ≤ stalls.countP (fun ready => decide (∀ i, ready i = true)) →
        ∃ s', execute step s (stalls.map Event.cycle) = some s' ∧
          ∀ (id : Nat) (source : c.SourceId) (op : Operation), s.accepted[id]? = some (source, op) →
            s'.writesOf id = expected c source op := by
  have kept : Kept s := run.invariant Kept.initial fun s e s' holds allowed taken => holds.step timed allowed taken
  have settled : Settled s := run.invariant Settled.initial fun s e s' holds _ taken => holds.step taken
  refine ⟨kept.completion, cycle_isSome timed kept, s.work, fun stalls enough => ?_⟩
  obtain ⟨last, done, keptLast, accepted, zero⟩ := cycles_finish timed kept settled stalls enough
  obtain ⟨slots, inputs⟩ := work_eq_zero timed keptLast zero
  refine ⟨last, done, fun id source op known => keptLast.books.whole (accepted ▸ known) (fun x => ?_) fun i => ?_⟩
  · rw [inputs x]
    exact List.not_mem_nil
  · rw [slots i]
    exact List.not_mem_nil

/-- An FPU that takes two cycles, for values that fill two registers. -/
def adder : FPUConf .mtsparc where
  units := [⟨2, true, [.add]⟩]
  numSources := 1
  inputQueueSize := 1
  compute _ _ rav rbv := rav + rbv

/-- A value for two registers, and the cycles that it takes. -/
def addition : List (Event adder) :=
  [.queue ⟨0, by decide⟩ .add 8 (5 <<< 32) 7 ⟨.float, 2⟩, .cycle fun _ => true, .cycle fun _ => true, .cycle fun _ => true,
    .cycle fun _ => true]

theorem addition_completes : ∃ s, Run step Supported (initial adder) addition s ∧
    s.writes.map (fun w => (w.address.index, w.value)) = [(2, 5), (3, 7)] ∧ Completion s := by
  have timed : adder.Timed := by
    unfold FPUConf.Timed
    decide
  have supported : adder.Supports .add 8 := ⟨by decide, by decide⟩
  have allowed : ∀ e ∈ addition, ∀ s, Supported s e := by
    intro e member s
    rcases List.mem_cons.1 member with rfl | cycle
    · exact supported
    · simp only [List.mem_cons, List.not_mem_nil, or_false, or_self] at cycle
      rw [cycle]
      trivial
  have run := run_of_execute allowed (show execute step (initial adder) addition = some _ from rfl)
  exact ⟨_, run, by decide, (completes timed run).1⟩

/-- A unit without a latency, as the constructor accepts it. -/
def prompt : FPUConf .mtalpha where
  units := [⟨0, true, [.add]⟩]
  numSources := 1
  inputQueueSize := 1
  compute _ _ rav rbv := rav + rbv

/-- An operation is past the latency as soon as it is in such a unit. -/
theorem past_latency : ¬ ∀ (t : Target) (c : FPUConf t), c.Accepted → ∀ (events : List (Event c)) (s : FPU c),
    Run step (fun _ _ => True) (initial c) events s → Completion s := by
  intro all
  have run : Run step (fun _ _ => True) (initial prompt) [.queue ⟨0, by decide⟩ .add 8 5 7 ⟨.float, 2⟩, .cycle fun _ => true] _ :=
    .next (.next .start trivial rfl) trivial rfl
  have bound := (all .mtalpha prompt ⟨by decide, by decide⟩ _ _ run).latency ⟨0, by decide⟩ _ List.mem_cons_self
  exact absurd bound.2 (by decide)

end Mgsim.Arch.FPU
