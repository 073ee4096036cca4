import Mathlib.Data.List.Nodup
import Mathlib.Logic.Function.Basic

namespace Mgsim.Lib
universe u
variable {α : Type u}

/-- The items of a chain in order: each is linked to the one behind it by `next`. -/
inductive Chain (next : α → Option α) : Option α → List α → Prop
  | nil : Chain next none []
  | cons {a : α} {rest : List α} : Chain next (next a) rest → Chain next (some a) (a :: rest)

/-- At most `fuel` items of a chain. -/
def follow (next : α → Option α) : Nat → Option α → List α
  | 0, _ => []
  | _, none => []
  | fuel + 1, some a => a :: follow next fuel (next a)

namespace Chain
variable {next next' : α → Option α} {head : Option α} {items : List α}

theorem head_eq (chain : Chain next head items) : head = items.head? := by
  cases chain with
  | nil => rfl
  | cons _ => rfl

theorem rest {a : α} (chain : Chain next head (a :: items)) : Chain next (next a) items := by
  cases chain with
  | cons inner => exact inner

theorem congr (chain : Chain next head items) (same : ∀ a ∈ items, next' a = next a) : Chain next' head items := by
  induction chain with
  | nil => exact .nil
  | @cons a rest _ ih =>
    refine .cons ?_
    rw [same a List.mem_cons_self]
    exact ih fun b member => same b (List.mem_cons_of_mem _ member)

/-- No item of a chain without repetitions is linked to itself. -/
theorem next_ne (chain : Chain next head items) (nodup : items.Nodup) {a : α} (member : a ∈ items) : next a ≠ some a := by
  induction chain with
  | nil => exact absurd member List.not_mem_nil
  | @cons b rest inner ih =>
    obtain ⟨absent, distinct⟩ := List.nodup_cons.mp nodup
    rcases List.mem_cons.mp member with rfl | later
    · intro same
      rw [inner.head_eq] at same
      exact absent (List.mem_of_head? same)
    · exact ih distinct later

/-- An item is put in front of a chain in which it is not. -/
theorem push [DecidableEq α] (chain : Chain next head items) {a : α} (fresh : a ∉ items) :
    Chain (Function.update next a head) (some a) (a :: items) := by
  refine .cons ?_
  rw [Function.update_self]
  refine chain.congr fun b member => Function.update_of_ne ?_ _ _
  rintro rfl
  exact fresh member

theorem update [DecidableEq α] (chain : Chain next head items) {a : α} {link : Option α} (other : a ∉ items) :
    Chain (Function.update next a link) head items := by
  refine chain.congr fun b member => Function.update_of_ne ?_ _ _
  rintro rfl
  exact other member

/-- An item is linked behind the last one of a chain. -/
theorem snoc (chain : Chain next head items) {a : α} (nodup : items.Nodup) (atNew : next' a = none)
    (atLast : ∀ b ∈ items.getLast?, next' b = some a) (others : ∀ b ∈ items, b ∉ items.getLast? → next' b = next b) :
    Chain next' (items ++ [a]).head? (items ++ [a]) := by
  induction chain with
  | nil =>
    refine .cons ?_
    rw [atNew]
    exact .nil
  | @cons b rest inner ih =>
    refine .cons ?_
    obtain ⟨absent, distinct⟩ := List.nodup_cons.mp nodup
    cases rest with
    | nil =>
      rw [atLast b (by simp)]
      refine .cons ?_
      rw [atNew]
      exact .nil
    | cons c rest =>
      have behind : next b = some c := by
        rw [inner.head_eq]
        rfl
      have inside : b ∉ (b :: c :: rest).getLast? := by
        intro last
        rw [List.getLast?_cons_cons] at last
        exact absent (List.mem_of_getLast? last)
      rw [others b List.mem_cons_self inside, behind]
      refine ih distinct ?_ ?_
      · intro d last
        exact atLast d (by rwa [List.getLast?_cons_cons])
      · intro d member notLast
        exact others d (List.mem_cons_of_mem _ member) (by rwa [List.getLast?_cons_cons])

/-- An item is linked to the one behind it. -/
theorem next_eq {front back : List α} {a : α} (chain : Chain next head (front ++ a :: back)) : next a = back.head? := by
  induction front generalizing head with
  | nil =>
    cases chain with
    | cons inner => exact inner.head_eq
  | cons _ _ ih =>
    cases chain with
    | cons inner => exact ih inner

/-- An item is linked behind an item of a chain. -/
theorem splice {front back : List α} {a b : α} (chain : Chain next head (front ++ b :: back)) (atB : next' b = some a)
    (atA : next' a = next b) (others : ∀ x ∈ front ++ back, next' x = next x) :
    Chain next' head (front ++ b :: a :: back) := by
  induction front generalizing head with
  | nil =>
    cases chain with
    | cons inner =>
      refine .cons ?_
      rw [atB]
      refine .cons ?_
      rw [atA]
      exact inner.congr others
  | cons x rest ih =>
    cases chain with
    | cons inner =>
      refine .cons ?_
      rw [others x List.mem_cons_self]
      exact ih inner fun y member => others y (List.mem_cons_of_mem _ member)

/-- Enough fuel follows the whole chain. -/
theorem follow_eq (chain : Chain next head items) {fuel : Nat} (enough : items.length ≤ fuel) :
    follow next fuel head = items := by
  induction chain generalizing fuel with
  | nil => cases fuel <;> rfl
  | cons _ ih =>
    cases fuel with
    | zero => simp at enough
    | succ fuel => rw [follow, ih (by simpa using enough)]

end Chain

end Mgsim.Lib
