import Mathlib.Logic.Relation
import Mgsim.Arch.FPU

namespace Mgsim.Arch
open Mgsim.Drisc

variable {t : Target} {c : FPUConf t}

/-- The latencies with which the counters of the slots work. -/
def FPUConf.Timed (c : FPUConf t) : Prop := ∀ i, 1 ≤ (c.units.get i).latency ∧ (c.units.get i).latency < 2 ^ 32

namespace FPU

/-- What a cycle can do to the state, bit by bit. -/
inductive Moved (s : FPU c) : FPU c → Prop
  | mark (unit : c.UnitId) (source : c.SourceId) (free : ¬ (s.lastWrite source = s.now ∧ s.lastUnit source ≠ unit)) :
      Moved s (s.mark unit source)
  | advance (i : c.UnitId) {res : OpResult c} {rest : List (OpResult c)} (front : s.slots i = res :: rest)
      (early : res.state ≠ (c.units.get i).latency) : Moved s (s.setSlots i ((res :: rest).map bump))
  | next (i : c.UnitId) {res : OpResult c} {rest : List (OpResult c)} (front : s.slots i = res :: rest)
      (free : ¬ (s.lastWrite res.source = s.now ∧ s.lastUnit res.source ≠ i)) (more : res.index + 1 ≠ registers t res.size) :
      Moved s (((s.mark i res.source).write i res).setSlots i ({ res with index := res.index + 1 } :: rest))
  | complete (i : c.UnitId) {res : OpResult c} {rest : List (OpResult c)} (front : s.slots i = res :: rest)
      (late : res.state = (c.units.get i).latency)
      (free : ¬ (s.lastWrite res.source = s.now ∧ s.lastUnit res.source ≠ i)) (last : res.index + 1 = registers t res.size) :
      Moved s (((s.mark i res.source).write i res).complete i res rest)
  | accept (source : c.SourceId) (i : c.UnitId) {op : Operation} {rest : List Operation}
      (front : s.inputs source = op :: rest) (unit : unitOf source op.op = some i) (room : s.busy i = false) :
      Moved s (s.accept source i op rest)

theorem onCompletion_cases (s : FPU c) (commit ready : Bool) (i : c.UnitId) (res : OpResult c) :
    onCompletion s commit ready i res = (false, s) ∨
      ¬ (s.lastWrite res.source = s.now ∧ s.lastUnit res.source ≠ i) ∧
        (onCompletion s commit ready i res = (false, s.mark i res.source) ∨
          onCompletion s commit ready i res =
            (true, if commit then (s.mark i res.source).write i res else s.mark i res.source)) := by
  unfold onCompletion
  split
  · exact Or.inl rfl
  · next free =>
    refine Or.inr ⟨free, ?_⟩
    cases ready
    · exact Or.inl rfl
    · exact Or.inr rfl

theorem advanceUnit_moved (commit : Bool) (ready : c.UnitId → Bool) (p : Pass c) (i : c.UnitId) :
    (advanceUnit commit ready p i).fpu = p.fpu ∨ Moved p.fpu (advanceUnit commit ready p i).fpu := by
  unfold advanceUnit
  split
  · exact Or.inl rfl
  · next res rest front =>
    dsimp only
    split
    · next late =>
      rcases onCompletion_cases p.fpu commit (ready i) i res with blocked | ⟨free, stalled | done⟩
      · rw [blocked]
        exact Or.inl rfl
      · rw [stalled]
        exact Or.inr (.mark i res.source free)
      · rw [done]
        dsimp only
        rw [if_neg (by decide)]
        split
        · next last =>
          cases commit
          · exact Or.inr (.mark i res.source free)
          · exact Or.inr (.complete i front late free last)
        · next more =>
          cases commit
          · exact Or.inr (.mark i res.source free)
          · exact Or.inr (.next i front free more)
    · next early =>
      cases commit
      · exact Or.inl rfl
      · exact Or.inr (.advance i front early)

theorem feedUnit_moved {commit : Bool} {p q : Pass c} {source : c.SourceId} (fed : feedUnit commit p source = some q) :
    q.fpu = p.fpu ∨ Moved p.fpu q.fpu := by
  unfold feedUnit at fed
  split at fed
  · cases fed
    exact Or.inl rfl
  · next op rest front =>
    dsimp only at fed
    split at fed
    · cases fed
    · next i unit =>
      split at fed
      · cases fed
        exact Or.inl rfl
      · next room =>
        cases fed
        cases commit
        · exact Or.inl rfl
        · exact Or.inr (.accept source i front unit (by simpa using room))

open Relation in
theorem foldl_advanceUnit_moved (commit : Bool) (ready : c.UnitId → Bool) (units : List c.UnitId) (p : Pass c) :
    ReflTransGen Moved p.fpu (units.foldl (advanceUnit commit ready) p).fpu := by
  induction units generalizing p with
  | nil => exact .refl
  | cons i units ih =>
    rcases advanceUnit_moved commit ready p i with same | moved
    · have rest := ih (advanceUnit commit ready p i)
      rwa [same] at rest
    · exact .head moved (ih _)

open Relation in
theorem foldlM_feedUnit_moved {commit : Bool} {sources : List c.SourceId} {p q : Pass c}
    (fed : sources.foldlM (feedUnit commit) p = some q) : ReflTransGen Moved p.fpu q.fpu := by
  induction sources generalizing p with
  | nil =>
    cases fed
    exact .refl
  | cons source sources ih =>
    rw [List.foldlM_cons] at fed
    obtain ⟨next, first, rest⟩ := Option.bind_eq_some_iff.1 fed
    rcases feedUnit_moved first with same | moved
    · have rest := ih rest
      rwa [same] at rest
    · exact .head moved (ih rest)

open Relation in
theorem advanceUnits_moved (commit : Bool) (ready : c.UnitId → Bool) (s : FPU c) :
    ReflTransGen Moved s (advanceUnits commit ready s).fpu :=
  foldl_advanceUnit_moved commit ready (List.finRange c.units.length) ⟨s, 0, 0, 0, 0, 0⟩

open Relation in
theorem feedUnits_moved {commit : Bool} {p q : Pass c} (fed : feedUnits commit p = some q) : ReflTransGen Moved p.fpu q.fpu :=
  foldlM_feedUnit_moved fed

/-- The parts of a pass over the pipelines. -/
theorem doPipeline_parts {commit ok : Bool} {ready : c.UnitId → Bool} {s s' : FPU c}
    (done : doPipeline commit ready s = some (s', ok)) : ∃ q, feedUnits commit (advanceUnits commit ready s) = some q ∧
      ok = !(decide (q.unitsFailed = q.unitsActive) && decide (q.sourcesFailed = q.sourcesActive)) ∧
      s' = if commit then
          { q.fpu with lastSource := (q.fpu.lastSource + 1) % c.numSources, active := 0 < q.unitsFull }
        else q.fpu := by
  unfold doPipeline at done
  split at done
  · cases done
  · next q fed =>
    cases done
    exact ⟨q, fed, rfl, rfl⟩

open Relation in
/-- A pass over the pipelines moves the state bit by bit; what it does beyond that is of no account. -/
theorem doPipeline_moved {commit ok : Bool} {ready : c.UnitId → Bool} {s s' : FPU c}
    (done : doPipeline commit ready s = some (s', ok)) : ∃ between last active, ReflTransGen Moved s between ∧
      s' = { between with lastSource := last, active := active } := by
  obtain ⟨q, fed, _, rfl⟩ := doPipeline_parts done
  have moves := (advanceUnits_moved commit ready s).trans (feedUnits_moved fed)
  cases commit
  · exact ⟨q.fpu, q.fpu.lastSource, q.fpu.active, moves, rfl⟩
  · exact ⟨q.fpu, _, _, moves, rfl⟩

/-- The slots of a unit are apart, and none is past the latency. -/
structure Apart (s : FPU c) : Prop where
  decreasing : ∀ i, (s.slots i).Pairwise fun older younger => younger.state < older.state
  inside : ∀ i, ∀ res ∈ s.slots i, 1 ≤ res.state ∧ res.state ≤ (c.units.get i).latency

theorem bump_state {res : OpResult c} {latency : Nat} (small : res.state < latency) (bound : latency < 2 ^ 32) :
    (bump res).state = res.state + 1 := by
  rw [bump]
  exact Nat.mod_eq_of_lt (by omega)

theorem Apart.bumped {latency : Nat} {slots : List (OpResult c)} (bound : latency < 2 ^ 32)
    (decreasing : slots.Pairwise fun older younger => younger.state < older.state)
    (below : ∀ res ∈ slots, 1 ≤ res.state ∧ res.state < latency) :
    (slots.map bump).Pairwise (fun older younger => younger.state < older.state) ∧
      ∀ res ∈ slots.map bump, 1 ≤ res.state ∧ res.state ≤ latency := by
  constructor
  · rw [List.pairwise_map]
    refine decreasing.imp_of_mem fun {a b} left right less => ?_
    rw [bump_state (below a left).2 bound, bump_state (below b right).2 bound]
    omega
  · intro res member
    obtain ⟨old, here, rfl⟩ := List.mem_map.1 member
    have bounds := below old here
    rw [bump_state bounds.2 bound]
    omega

theorem Apart.update {s s' : FPU c} (apart : Apart s) {i : c.UnitId} {slots : List (OpResult c)}
    (changed : s'.slots = Function.update s.slots i slots)
    (fresh : slots.Pairwise (fun older younger => younger.state < older.state) ∧
      ∀ res ∈ slots, 1 ≤ res.state ∧ res.state ≤ (c.units.get i).latency) : Apart s' := by
  constructor
  · intro j
    rw [changed]
    by_cases same : j = i
    · rw [same, Function.update_self]
      exact fresh.1
    · rw [Function.update_of_ne same]
      exact apart.decreasing j
  · intro j
    rw [changed]
    by_cases same : j = i
    · rw [same, Function.update_self]
      exact fresh.2
    · rw [Function.update_of_ne same]
      exact apart.inside j

/-- Only the oldest operation of a unit can be at its latency. -/
theorem Apart.younger {s : FPU c} (apart : Apart s) {i : c.UnitId} {res : OpResult c} {rest : List (OpResult c)}
    (front : s.slots i = res :: rest) :
    rest.Pairwise (fun older younger => younger.state < older.state) ∧
      ∀ other ∈ rest, 1 ≤ other.state ∧ other.state < res.state := by
  have decreasing := apart.decreasing i
  have inside := apart.inside i
  rw [front] at decreasing inside
  obtain ⟨first, others⟩ := List.pairwise_cons.1 decreasing
  exact ⟨others, fun other member => ⟨(inside other (List.mem_cons_of_mem _ member)).1, first other member⟩⟩

/-- Where a unit takes an operation, all that it has are past the first slot. -/
theorem Apart.old {s : FPU c} (apart : Apart s) {i : c.UnitId} (room : s.busy i = false) :
    ∀ res ∈ s.slots i, 1 < res.state := by
  intro res member
  rcases List.eq_nil_or_concat (s.slots i) with none | ⟨older, back, slots⟩
  · rw [none] at member
    exact absurd member List.not_mem_nil
  · rw [List.concat_eq_append] at slots
    have decreasing := apart.decreasing i
    have bounds := apart.inside i back (by rw [slots]; simp)
    rw [busy, slots, List.getLast?_concat] at room
    have notFirst : back.state ≠ 1 := by
      intro first
      simp [first] at room
    rw [slots] at decreasing member
    rcases List.mem_append.1 member with before | last
    · have less := (List.pairwise_append.1 decreasing).2.2 res before back List.mem_cons_self
      omega
    · rw [List.mem_singleton.1 last]
      omega

theorem Apart.moved {s s' : FPU c} (timed : c.Timed) (apart : Apart s) (moved : Moved s s') : Apart s' := by
  cases moved with
  | mark unit source free => exact ⟨apart.decreasing, apart.inside⟩
  | @advance i res rest front early =>
    have oldest := apart.inside i res (front ▸ List.mem_cons_self)
    have decreasing := apart.decreasing i
    rw [front] at decreasing
    refine apart.update rfl (Apart.bumped (timed i).2 decreasing fun other member => ?_)
    rcases List.mem_cons.1 member with rfl | later
    · omega
    · have less := (apart.younger front).2 other later
      omega
  | @next i res rest front free more =>
    have oldest := apart.inside i res (front ▸ List.mem_cons_self)
    obtain ⟨others, younger⟩ := apart.younger front
    refine apart.update rfl ⟨List.pairwise_cons.2 ⟨fun other member => (younger other member).2, others⟩,
      fun other member => ?_⟩
    rcases List.mem_cons.1 member with rfl | later
    · exact oldest
    · have less := younger other later
      omega
  | @complete i res rest front late free last =>
    obtain ⟨others, younger⟩ := apart.younger front
    refine apart.update rfl (Apart.bumped (timed i).2 others fun other member => ?_)
    have less := younger other member
    omega
  | @accept source i op rest front unit room =>
    refine apart.update rfl ⟨List.pairwise_append.2 ⟨apart.decreasing i, List.pairwise_singleton _ _, ?_⟩, ?_⟩
    · intro older member younger single
      rw [List.mem_singleton.1 single]
      exact apart.old room older member
    · intro res member
      rcases List.mem_append.1 member with old | new
      · exact apart.inside i res old
      · rw [List.mem_singleton.1 new]
        exact ⟨le_rfl, (timed i).1⟩

def ids (slots : List (OpResult c)) : List Nat := slots.map OpResult.id

theorem ids_bump (slots : List (OpResult c)) : ids (slots.map bump) = ids slots := by
  rw [ids, List.map_map]
  rfl

/-- What has entered a unit has left it in this order, or is still in it. -/
def InOrder (s : FPU c) : Prop := ∀ i, s.entered i = s.left i ++ ids (s.slots i)

theorem InOrder.moved {s s' : FPU c} (order : InOrder s) (moved : Moved s s') : InOrder s' := by
  intro j
  have before := order j
  cases moved with
  | mark unit source free => exact before
  | @advance i res rest front early =>
    by_cases same : j = i
    · subst same
      rw [front] at before
      simpa only [setSlots, Function.update_self, ids_bump] using before
    · simpa only [setSlots, Function.update_of_ne same] using before
  | @next i res rest front free more =>
    by_cases same : j = i
    · subst same
      rw [front] at before
      simp only [setSlots, FPU.write, FPU.mark, Function.update_self]
      exact before
    · simpa only [setSlots, FPU.write, FPU.mark, Function.update_of_ne same] using before
  | @complete i res rest front late free last =>
    by_cases same : j = i
    · subst same
      rw [front] at before
      simp only [complete, FPU.write, FPU.mark, Function.update_self, ids_bump, List.append_assoc]
      exact before
    · simpa only [complete, FPU.write, FPU.mark, Function.update_of_ne same] using before
  | @accept source i op rest front unit room =>
    by_cases same : j = i
    · subst same
      simp only [accept, Function.update_self, before, ids, List.map_append, List.append_assoc]
      rfl
    · simpa only [accept, Function.update_of_ne same] using before

/-- The marks of a source belong to the unit that has written for it in this cycle, and no other one has. -/
structure Marked (s : FPU c) : Prop where
  past : ∀ w ∈ s.writes, w.cycle ≤ s.now
  marked : ∀ w ∈ s.writes, w.cycle = s.now → s.lastWrite w.source = s.now ∧ s.lastUnit w.source = w.unit
  single : ∀ w ∈ s.writes, ∀ w' ∈ s.writes, w.cycle = w'.cycle → w.source = w'.source → w.unit = w'.unit

theorem Marked.mark {s : FPU c} (marks : Marked s) {unit : c.UnitId} {source : c.SourceId}
    (free : ¬ (s.lastWrite source = s.now ∧ s.lastUnit source ≠ unit)) : Marked (s.mark unit source) := by
  refine ⟨marks.past, fun w member now => ?_, marks.single⟩
  obtain ⟨cycle, same⟩ := marks.marked w member now
  by_cases here : w.source = source
  · subst here
    have again := not_not.1 fun other => free ⟨cycle, other⟩
    simp only [FPU.mark, Function.update_self, true_and]
    rw [← again, same]
  · simp only [FPU.mark, Function.update_of_ne here]
    exact ⟨cycle, same⟩

theorem Marked.write {s : FPU c} (marks : Marked s) (unit : c.UnitId) (res : OpResult c)
    (marked : s.lastWrite res.source = s.now ∧ s.lastUnit res.source = unit) : Marked (s.write unit res) := by
  have newer : ∀ w ∈ s.writes, w.cycle = s.now → w.source = res.source → w.unit = unit := by
    intro w member now same
    have unique := (marks.marked w member now).2
    rw [same, marked.2] at unique
    exact Fin.ext unique.symm
  refine ⟨fun w member => ?_, fun w member now => ?_, fun w member w' member' cycle source => ?_⟩
  · rcases List.mem_append.1 member with old | new
    · exact marks.past w old
    · rw [List.mem_singleton.1 new]
      exact le_rfl
  · rcases List.mem_append.1 member with old | new
    · exact marks.marked w old now
    · rw [List.mem_singleton.1 new]
      exact marked
  · rcases List.mem_append.1 member with old | new <;> rcases List.mem_append.1 member' with old' | new'
    · exact marks.single w old w' old' cycle source
    · rw [List.mem_singleton.1 new'] at cycle source ⊢
      exact newer w old cycle source
    · rw [List.mem_singleton.1 new] at cycle source ⊢
      exact (newer w' old' cycle.symm source.symm).symm
    · rw [List.mem_singleton.1 new, List.mem_singleton.1 new']

theorem Marked.moved {s s' : FPU c} (marks : Marked s) (moved : Moved s s') : Marked s' := by
  cases moved with
  | mark unit source free => exact marks.mark free
  | advance i front early => exact ⟨marks.past, marks.marked, marks.single⟩
  | @next i res rest front free more =>
    have after := (marks.mark free).write i res ⟨Function.update_self .., Function.update_self ..⟩
    exact ⟨after.past, after.marked, after.single⟩
  | @complete i res rest front late free last =>
    have after := (marks.mark free).write i res ⟨Function.update_self .., Function.update_self ..⟩
    exact ⟨after.past, after.marked, after.single⟩
  | accept source i front unit room => exact ⟨marks.past, marks.marked, marks.single⟩

end FPU
end Mgsim.Arch
