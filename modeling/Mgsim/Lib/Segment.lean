import Mathlib.Data.List.Nodup
import Mathlib.Logic.Function.Basic

namespace Mgsim.Lib
universe u
variable {α : Type u}

/-- The items of a linked list from `first` to `last`: each is linked to the one behind it, and
the link of the last one is not used. -/
inductive Segment (next : α → α) : α → List α → α → Prop
  | last {a : α} : Segment next a [a] a
  | cons {a last : α} {rest : List α} : Segment next (next a) rest last → Segment next a (a :: rest) last

namespace Segment
variable {next next' : α → α} {first last : α} {items : List α}

theorem ne_nil (segment : Segment next first items last) : items ≠ [] := by
  cases segment <;> exact List.cons_ne_nil _ _

theorem eq_cons (segment : Segment next first items last) : ∃ rest, items = first :: rest := by
  cases segment <;> exact ⟨_, rfl⟩

theorem last_mem (segment : Segment next first items last) : last ∈ items := by
  induction segment with
  | last => exact List.mem_cons_self
  | cons _ ih => exact List.mem_cons_of_mem _ ih

/-- The first item is the last one only in a list of one item. -/
theorem tail_eq_nil {rest : List α} (segment : Segment next first (first :: rest) last) (nodup : (first :: rest).Nodup) :
    first = last ↔ rest = [] := by
  cases segment with
  | last => exact ⟨fun _ => rfl, fun _ => rfl⟩
  | cons inner =>
    constructor
    · rintro rfl
      exact absurd inner.last_mem (List.nodup_cons.mp nodup).1
    · intro none
      exact absurd none inner.ne_nil

/-- Without its first item, a list starts at the link of that item. -/
theorem rest {rest : List α} (segment : Segment next first (first :: rest) last) (more : rest ≠ []) :
    Segment next (next first) rest last := by
  cases segment with
  | last => exact absurd rfl more
  | cons inner => exact inner

theorem cons_cons_iff {a b : α} {rest : List α} :
    Segment next first (a :: b :: rest) last ↔ first = a ∧ Segment next (next a) (b :: rest) last := by
  constructor
  · intro segment
    cases segment with
    | cons inner => exact ⟨rfl, inner⟩
  · rintro ⟨rfl, inner⟩
    exact .cons inner

theorem singleton_iff {a : α} : Segment next first [a] last ↔ first = a ∧ a = last := by
  constructor
  · intro segment
    cases segment with
    | last => exact ⟨rfl, rfl⟩
    | cons inner => exact absurd rfl inner.ne_nil
  · rintro ⟨rfl, rfl⟩
    exact .last

/-- Whether elements are linked, computed along the list. -/
def decide [DecidableEq α] (next : α → α) : (first : α) → (items : List α) → (last : α) →
    Decidable (Segment next first items last)
  | _, [], _ => .isFalse fun segment => segment.ne_nil rfl
  | _, [_], _ => decidable_of_iff' _ singleton_iff
  | _, a :: b :: rest, last =>
    have := decide next (next a) (b :: rest) last
    decidable_of_iff' _ cons_cons_iff

instance [DecidableEq α] : Decidable (Segment next first items last) := decide next first items last

theorem congr (segment : Segment next first items last) (same : ∀ a ∈ items, next' a = next a) :
    Segment next' first items last := by
  induction segment with
  | last => exact .last
  | @cons a last rest _ ih =>
    refine .cons ?_
    rw [same a List.mem_cons_self]
    exact ih fun b member => same b (List.mem_cons_of_mem _ member)

theorem update [DecidableEq α] (segment : Segment next first items last) {a link : α} (other : a ∉ items) :
    Segment (Function.update next a link) first items last := by
  refine segment.congr fun b member => Function.update_of_ne ?_ _ _
  rintro rfl
  exact other member

/-- A list is linked behind the last item of another. -/
theorem append [DecidableEq α] {first' last' : α} {items' : List α} (segment : Segment next first items last)
    (nodup : items.Nodup) (behind : Segment next first' items' last') (apart : last ∉ items') :
    Segment (Function.update next last first') first (items ++ items') last' := by
  induction segment with
  | last =>
    refine .cons ?_
    rw [Function.update_self]
    exact behind.update apart
  | @cons a last rest inner ih =>
    obtain ⟨absent, distinct⟩ := List.nodup_cons.mp nodup
    refine .cons ?_
    rw [Function.update_of_ne (ne_of_mem_of_not_mem inner.last_mem absent).symm]
    exact ih distinct apart

end Segment

/-- The items that an iterator meets from `index` on, which stops at `last`. -/
def walk [DecidableEq α] (next : α → α) (last : α) : Nat → α → List α
  | 0, _ => []
  | fuel + 1, index => if index = last then [index] else index :: walk next last fuel (next index)

theorem Segment.walk_eq [DecidableEq α] {next : α → α} {first last : α} {items : List α}
    (segment : Segment next first items last) (nodup : items.Nodup) {fuel : Nat} (enough : items.length ≤ fuel) :
    walk next last fuel first = items := by
  induction segment generalizing fuel with
  | last =>
    obtain ⟨more, rfl⟩ := Nat.exists_eq_succ_of_ne_zero (show fuel ≠ 0 by simp at enough; omega)
    rw [walk, if_pos rfl]
  | @cons a last rest inner ih =>
    obtain ⟨absent, distinct⟩ := List.nodup_cons.mp nodup
    rw [List.length_cons] at enough
    obtain ⟨more, rfl⟩ := Nat.exists_eq_succ_of_ne_zero (show fuel ≠ 0 by omega)
    rw [walk, if_neg (ne_of_mem_of_not_mem inner.last_mem absent).symm, ih distinct (by omega)]

end Mgsim.Lib
