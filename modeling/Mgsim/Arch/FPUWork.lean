import Mathlib.Algebra.Order.BigOperators.Group.List
import Mgsim.Lib.Account
import Mgsim.Arch.FPUCompletion

namespace Mgsim.Arch.FPU
open Mgsim.Lib Mgsim.Drisc Relation

variable {t : Target} {c : FPUConf t}

/-- What a unit still has to do for a result. -/
def slotWork (i : c.UnitId) (res : OpResult c) : Nat :=
  (c.units.get i).latency - res.state + (registers t res.size - res.index)

/-- What remains to be done for an operation that waits, with the step that takes it from its queue. -/
def queueWork (source : c.SourceId) (op : Operation) : Nat :=
  match unitOf source op.op with
  | none => 0
  | some i => (c.units.get i).latency + registers t op.size

/-- What remains to be done. -/
def work (s : FPU c) : Nat :=
  account (fun i slots => (slots.map (slotWork i)).sum) s.slots +
    account (fun source ops => (ops.map (queueWork source)).sum) s.inputs

/-- A supported operation has a unit. -/
theorem unitOf_isSome (source : c.SourceId) {op : FPUOperation} {size : Nat} (supported : c.Supports op size) :
    ∃ i, unitOf source op = some i := by
  have nonempty := List.length_pos_iff.2 supported.1
  exact ⟨_, List.getElem?_eq_getElem (Nat.mod_lt _ nonempty)⟩

section Work
variable {s s' : FPU c} {i : c.UnitId} {res : OpResult c} {rest : List (OpResult c)}

theorem work_lt_of_slots {slots : List (OpResult c)} (changed : s'.slots = Function.update s.slots i slots)
    (inputs : s'.inputs = s.inputs) (less : (slots.map (slotWork i)).sum < ((s.slots i).map (slotWork i)).sum) :
    s'.work < s.work := by
  have moved := account_update (fun i slots => (slots.map (slotWork i)).sum) s.slots i slots
  rw [work, work, changed, inputs]
  omega

theorem slotWork_bump (bound : (c.units.get i).latency < 2 ^ 32) (small : res.state < (c.units.get i).latency) :
    slotWork i (bump res) + 1 = slotWork i res := by
  have state := bump_state small bound
  unfold slotWork
  rw [state, show (bump res).size = res.size from rfl, show (bump res).index = res.index from rfl]
  omega

theorem sum_bump_le {slots : List (OpResult c)} (bound : (c.units.get i).latency < 2 ^ 32)
    (small : ∀ res ∈ slots, res.state < (c.units.get i).latency) :
    ((slots.map bump).map (slotWork i)).sum ≤ (slots.map (slotWork i)).sum := by
  rw [List.map_map]
  refine List.sum_le_sum fun res member => ?_
  have less := slotWork_bump bound (small res member)
  rw [Function.comp_apply]
  omega

theorem work_advance (timed : c.Timed) (kept : Kept s) (front : s.slots i = res :: rest)
    (early : res.state ≠ (c.units.get i).latency) : (s.setSlots i ((res :: rest).map bump)).work < s.work := by
  have oldest := (kept.apart.inside i res (front ▸ List.mem_cons_self)).2
  have younger := kept.apart.younger front
  refine work_lt_of_slots rfl rfl ?_
  have others := sum_bump_le (timed i).2 fun other member => (younger.2 other member).2.trans_le oldest
  have first := slotWork_bump (timed i).2 (Nat.lt_of_le_of_ne oldest early)
  rw [front, List.map_cons, List.map_cons, List.map_cons, List.sum_cons, List.sum_cons]
  omega

theorem work_next (kept : Kept s) (front : s.slots i = res :: rest) (more : res.index + 1 ≠ registers t res.size) :
    (((s.mark i res.source).write i res).setSlots i ({ res with index := res.index + 1 } :: rest)).work < s.work := by
  obtain ⟨op, started⟩ := kept.books.started i res (front ▸ List.mem_cons_self)
  have index := started.index
  refine work_lt_of_slots rfl rfl ?_
  rw [front, List.map_cons, List.map_cons, List.sum_cons, List.sum_cons]
  simp only [slotWork]
  omega

theorem work_complete (timed : c.Timed) (kept : Kept s) (front : s.slots i = res :: rest) :
    (((s.mark i res.source).write i res).complete i res rest).work < s.work := by
  obtain ⟨op, started⟩ := kept.books.started i res (front ▸ List.mem_cons_self)
  have index := started.index
  have oldest := (kept.apart.inside i res (front ▸ List.mem_cons_self)).2
  have younger := kept.apart.younger front
  have others := sum_bump_le (timed i).2 fun other member => (younger.2 other member).2.trans_le oldest
  refine work_lt_of_slots rfl rfl ?_
  rw [front, List.map_cons, List.sum_cons]
  have first : 0 < slotWork i res := by
    unfold slotWork
    omega
  omega

theorem work_accept (timed : c.Timed) {source : c.SourceId} {op : Operation} {waiting : List Operation}
    (front : s.inputs source = op :: waiting) (unit : unitOf source op.op = some i) :
    (s.accept source i op waiting).work < s.work := by
  have slots := account_update (fun i slots => (slots.map (slotWork i)).sum) s.slots i (s.slots i ++ [calculateResult source op])
  have inputs := account_update (fun source ops => (ops.map (queueWork source)).sum) s.inputs source waiting
  have before : queueWork source op = (c.units.get i).latency + registers t op.size := by
    rw [queueWork, unit]
  have after : slotWork i (calculateResult source op) = (c.units.get i).latency - 1 + (registers t op.size - 0) := rfl
  have latency := (timed i).1
  simp only [List.map_append, List.map_cons, List.map_nil, List.sum_append, List.sum_cons, List.sum_nil, front, before,
    after] at slots inputs
  simp only [work, FPU.accept]
  omega

theorem work_moved (timed : c.Timed) (kept : Kept s) (moved : Moved s s') : s'.work ≤ s.work := by
  cases moved with
  | mark unit source free => exact le_rfl
  | advance i front early => exact (work_advance timed kept front early).le
  | next i front free more => exact (work_next kept front more).le
  | complete i front late free last => exact (work_complete timed kept front).le
  | accept source i front unit room => exact (work_accept timed front unit).le

theorem work_moves (timed : c.Timed) (kept : Kept s) (moves : ReflTransGen Moved s s') : s'.work ≤ s.work := by
  induction moves with
  | refl => exact le_rfl
  | tail before moved ih => exact (work_moved timed (kept.moves timed before) moved).trans ih

/-- When nothing remains to be done, nothing waits and nothing runs. -/
theorem work_eq_zero (timed : c.Timed) (kept : Kept s) (zero : s.work = 0) :
    (∀ i, s.slots i = []) ∧ ∀ source, s.inputs source = [] := by
  rw [work, Nat.add_eq_zero_iff, account_eq_zero, account_eq_zero] at zero
  constructor
  · intro i
    rcases slots : s.slots i with _ | ⟨res, rest⟩
    · rfl
    · obtain ⟨op, started⟩ := kept.books.started i res (slots ▸ List.mem_cons_self)
      have index := started.index
      have none := zero.1 i
      rw [slots, List.map_cons, List.sum_cons, slotWork] at none
      omega
  · intro source
    rcases inputs : s.inputs source with _ | ⟨op, rest⟩
    · rfl
    · obtain ⟨_, known, _⟩ := kept.books.queued source op (inputs ▸ List.mem_cons_self)
      obtain ⟨_, wide, supported⟩ := kept.books.accepted _ _ _ known
      obtain ⟨i, unit⟩ := unitOf_isSome source supported
      have none := zero.2 source
      rw [inputs, List.map_cons, List.sum_cons, queueWork, unit] at none
      dsimp only at none
      omega

end Work

end Mgsim.Arch.FPU
