import Mathlib.Logic.Function.Basic
import Mathlib.Data.List.Nodup

namespace Mgsim.Lib
universe u v
variable {κ : Type u} {β : Type v} [DecidableEq κ]

/-- A loop that changes the entry of each key in a table by itself; `none` where one of the changes fails. -/
def forEach (change : β → Option β) (keys : List κ) (table : κ → β) : Option (κ → β) :=
  keys.foldlM (fun t k => (change (t k)).map (Function.update t k)) table

variable {change : β → Option β} {keys : List κ} {table : κ → β}

theorem forEach_cons (k : κ) :
    forEach change (k :: keys) table = (change (table k)).bind fun v => forEach change keys (Function.update table k v) := by
  unfold forEach
  rw [List.foldlM_cons]
  cases change (table k) <;> rfl

/-- Every key is visited once, with the entry that it has had in the beginning. -/
theorem forEach_eq {changed : κ → β} (distinct : keys.Nodup)
    (each : ∀ k ∈ keys, change (table k) = some (changed k)) :
    forEach change keys table = some fun k => if k ∈ keys then changed k else table k := by
  induction keys generalizing table with
  | nil => rfl
  | cons k keys ih =>
    obtain ⟨fresh, distinct⟩ := List.nodup_cons.mp distinct
    have rest : ∀ k' ∈ keys, change (Function.update table k (changed k) k') = some (changed k') := by
      intro k' member
      rw [Function.update_of_ne (ne_of_mem_of_not_mem member fresh)]
      exact each k' (List.mem_cons_of_mem _ member)
    rw [forEach_cons, each k List.mem_cons_self, Option.bind_some, ih distinct rest]
    congr 1
    funext k'
    by_cases later : k' ∈ keys
    · rw [if_pos later, if_pos (List.mem_cons_of_mem _ later)]
    · rw [if_neg later]
      by_cases same : k' = k
      · rw [same, Function.update_self, if_pos List.mem_cons_self]
      · rw [Function.update_of_ne same, if_neg fun member => (List.mem_cons.mp member).elim same later]

/-- The loop succeeds if each of the changes does. -/
theorem forEach_spec {result : κ → β → Prop} (distinct : keys.Nodup)
    (each : ∀ k ∈ keys, ∃ v, change (table k) = some v ∧ result k v) :
    ∃ t, forEach change keys table = some t ∧ (∀ k ∈ keys, result k (t k)) ∧ ∀ k ∉ keys, t k = table k := by
  have changed : ∀ k ∈ keys, change (table k) = some ((change (table k)).getD (table k)) := by
    intro k member
    obtain ⟨v, done, -⟩ := each k member
    rw [done, Option.getD_some]
  refine ⟨_, forEach_eq distinct changed, fun k member => ?_, fun k absent => if_neg absent⟩
  obtain ⟨v, done, good⟩ := each k member
  rwa [if_pos member, done, Option.getD_some]

end Mgsim.Lib
