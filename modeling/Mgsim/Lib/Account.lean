import Mathlib.Algebra.Order.BigOperators.Group.Finset
import Mathlib.Algebra.Order.BigOperators.Group.Multiset
import Mathlib.Data.Fintype.Basic

namespace Mgsim.Lib
universe u v w
variable {ι : Type u} {β : Type v} [Fintype ι]

/-- The sum over the entries of a table. -/
def account {M : Type w} [AddCommMonoid M] (f : ι → β → M) (g : ι → β) : M := ∑ i, f i (g i)

section Update
variable [DecidableEq ι]

/-- Replacing one entry moves the account by the new value less the old one. -/
theorem account_update {M : Type w} [AddCommMonoid M] (f : ι → β → M) (g : ι → β) (k : ι) (v : β) :
    account f (Function.update g k v) + f k (g k) = account f g + f k v := by
  have others : ∑ i ∈ Finset.univ.erase k, f i (Function.update g k v i) = ∑ i ∈ Finset.univ.erase k, f i (g i) := by
    refine Finset.sum_congr rfl fun i member => ?_
    rw [Function.update_of_ne (Finset.ne_of_mem_erase member)]
  have before := Finset.add_sum_erase Finset.univ (fun i => f i (g i)) (Finset.mem_univ k)
  have after := Finset.add_sum_erase Finset.univ (fun i => f i (Function.update g k v i)) (Finset.mem_univ k)
  simp only [Function.update_self] at after
  rw [account, account, ← before, ← after, others]
  ac_rfl

theorem le_account (f : ι → β → Nat) (g : ι → β) (k : ι) : f k (g k) ≤ account f g := by
  have before := Finset.add_sum_erase Finset.univ (fun i => f i (g i)) (Finset.mem_univ k)
  rw [account, ← before]
  exact Nat.le_add_right _ _

theorem account_pair {f : ι → β → Nat} {g : ι → β} {i j : ι} (different : i ≠ j) : f i (g i) + f j (g j) ≤ account f g := by
  rw [account, ← Finset.add_sum_erase Finset.univ _ (Finset.mem_univ i)]
  refine Nat.add_le_add_left ?_ _
  exact Finset.single_le_sum (f := fun i => f i (g i)) (fun _ _ => Nat.zero_le _)
    (Finset.mem_erase.mpr ⟨Ne.symm different, Finset.mem_univ j⟩)

/-- With a total of one, two entries that count are the same. -/
theorem eq_of_account_le_one {f : ι → β → Nat} {g : ι → β} (total : account f g ≤ 1) {i j : ι}
    (first : 0 < f i (g i)) (second : 0 < f j (g j)) : i = j := by
  by_contra different
  have pair := account_pair (f := f) (g := g) different
  omega

end Update

theorem account_congr {M : Type w} [AddCommMonoid M] {f : ι → β → M} {g g' : ι → β}
    (same : ∀ i, f i (g' i) = f i (g i)) : account f g' = account f g :=
  Finset.sum_congr rfl fun i _ => same i

theorem account_eq_zero {f : ι → β → Nat} {g : ι → β} : account f g = 0 ↔ ∀ i, f i (g i) = 0 := by
  rw [account, Finset.sum_eq_zero_iff]
  exact ⟨fun all i => all i (Finset.mem_univ i), fun all i _ => all i⟩

/-- An account that only one entry can move is the value of this entry. -/
theorem account_of_only {f : ι → β → Nat} {g : ι → β} (k : ι) (others : ∀ i ≠ k, f i (g i) = 0) :
    account f g = f k (g k) := by
  rw [account]
  exact Finset.sum_eq_single k (fun i _ different => others i different) fun absent => absurd (Finset.mem_univ k) absent

/-- The sum of a weight over a bag. -/
def weigh {α : Type u} (w : α → Nat) (bag : Multiset α) : Nat := (bag.map w).sum

section Weigh
variable {α : Type u} {w : α → Nat} {bag other : Multiset α} {x y : α}

@[simp] theorem weigh_zero : weigh w 0 = 0 := rfl

@[simp] theorem weigh_cons : weigh w (x ::ₘ bag) = w x + weigh w bag := by
  rw [weigh, Multiset.map_cons, Multiset.sum_cons]
  rfl

theorem weigh_eq_zero : weigh w bag = 0 ↔ ∀ x ∈ bag, w x = 0 := by
  rw [weigh, Multiset.sum_eq_zero_iff]
  simp

theorem le_weigh (member : x ∈ bag) : w x ≤ weigh w bag := by
  obtain ⟨rest, rfl⟩ := Multiset.exists_cons_of_mem member
  rw [weigh_cons]
  exact Nat.le_add_right _ _

end Weigh

/-- The sum over a bag, in any measure: `weigh` for what is not a number. -/
def total {α : Type u} {M : Type w} [AddCommMonoid M] (f : α → M) (bag : Multiset α) : M := (bag.map f).sum

section Total
variable {α : Type u} {M : Type w} [AddCommMonoid M] {f : α → M} {bag other : Multiset α} {x : α} {list list' : List α}

@[simp] theorem total_zero : total f 0 = 0 := rfl

@[simp] theorem total_cons : total f (x ::ₘ bag) = f x + total f bag := by
  rw [total, Multiset.map_cons, Multiset.sum_cons]
  rfl

theorem total_append : total f (list ++ list' : List α) = total f (list : Multiset α) + total f (list' : Multiset α) := by
  rw [total, ← Multiset.coe_add, Multiset.map_add, Multiset.sum_add]
  rfl

@[simp] theorem total_singleton : total f ([x] : List α) = f x := by
  rw [total, Multiset.map_coe, Multiset.sum_coe, List.map_singleton, List.sum_singleton]

/-- An optional element adds its measure. -/
theorem total_elim {x : Option α} : total f (x.elim bag (· ::ₘ bag)) = x.elim 0 f + total f bag := by
  cases x with
  | none => rw [Option.elim_none, Option.elim_none, zero_add]
  | some x => exact total_cons

end Total

end Mgsim.Lib
