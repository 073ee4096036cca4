import Mathlib.Data.List.Basic
import Mathlib.Data.List.Induction
import Mathlib.Data.List.FinRange
import Mathlib.Data.List.TakeWhile
import Mathlib.Algebra.Ring.Nat

namespace Mgsim.Lib

section Bisect
universe u
variable {α : Type u}

/-- Binary search for the first item that fails a test, among `len` items from `cursor` on. There is no result if it
looks at an item that is not there. -/
def bisect (p : α → Bool) (xs : List α) (cursor len : Nat) : Option Nat :=
  if len = 0 then some cursor else
    match xs[cursor + len / 2]? with
    | none => none
    | some x => if p x then bisect p xs (cursor + len / 2 + 1) (len - len / 2 - 1) else bisect p xs cursor (len / 2)
termination_by len

variable {p : α → Bool} {xs before after : List α} {cursor len : Nat}

theorem getElem?_test (passing : ∀ x ∈ before, p x = true) (failing : ∀ x ∈ after, p x = false) {i : Nat} {x : α}
    (item : (before ++ after)[i]? = some x) : p x = decide (i < before.length) := by
  by_cases inside : i < before.length
  · rw [List.getElem?_append_left inside] at item
    rw [passing x (List.mem_of_getElem? item), decide_eq_true inside]
  · rw [List.getElem?_append_right (by omega)] at item
    rw [failing x (List.mem_of_getElem? item), decide_eq_false inside]

theorem bisect_eq (passing : ∀ x ∈ before, p x = true) (failing : ∀ x ∈ after, p x = false)
    (low : cursor ≤ before.length) (high : before.length ≤ cursor + len) (fits : cursor + len ≤ (before ++ after).length) :
    bisect p (before ++ after) cursor len = some before.length := by
  induction len using Nat.strongRecOn generalizing cursor with
  | _ len ih =>
    rw [bisect]
    split
    · congr 1
      omega
    · next some =>
      have item := List.getElem?_eq_getElem (show cursor + len / 2 < (before ++ after).length by omega)
      have test := getElem?_test passing failing item
      rw [item]
      dsimp only
      rw [test]
      by_cases inside : cursor + len / 2 < before.length
      · rw [decide_eq_true inside, if_pos rfl]
        exact ih _ (by omega) (by omega) (by omega) (by omega)
      · rw [decide_eq_false inside, if_neg Bool.false_ne_true]
        exact ih _ (by omega) low (by omega) (by omega)

/-- A list in which the items that pass a test come first. -/
theorem filter_append_filter_not (sorted : xs.Pairwise fun a b => p b = true → p a = true) :
    xs = xs.filter p ++ xs.filter fun x => !p x := by
  induction xs with
  | nil => rfl
  | cons x xs ih =>
    obtain ⟨first, rest⟩ := List.pairwise_cons.1 sorted
    cases test : p x with
    | true =>
      rw [List.filter_cons_of_pos test, List.filter_cons_of_neg (by simp [test]), List.cons_append, ← ih rest]
    | false =>
      have none : xs.filter p = [] := List.filter_eq_nil_iff.2 fun y member pass => by
        rw [first y member pass] at test
        cases test
      have all : (xs.filter fun x => !p x) = xs := List.filter_eq_self.2 fun y member => by
        simpa using List.filter_eq_nil_iff.1 none y member
      rw [List.filter_cons_of_neg (by simp [test]), none, List.filter_cons_of_pos (by simp [test]), all, List.nil_append]

end Bisect

section Least
universe u
variable {α : Type u}

/-- A loop that remembers the candidate with the least key below a bound. -/
def least (key : α → Nat) (candidate : α → Bool) (bound : Nat) (items : List α) : Nat × Option α :=
  items.foldl (fun best a => if candidate a = true ∧ key a < best.1 then (key a, some a) else best) (bound, none)

variable {key : α → Nat} {candidate : α → Bool} {bound : Nat}

theorem least_snoc (items : List α) (z : α) :
    least key candidate bound (items ++ [z]) =
      if candidate z = true ∧ key z < (least key candidate bound items).1 then (key z, some z)
      else least key candidate bound items := by
  unfold least
  rw [List.foldl_append]
  rfl

/-- The loop finds a candidate below the bound that no other one is below. -/
theorem least_spec (items : List α) :
    (least key candidate bound items = (bound, none) ∧ ∀ a ∈ items, candidate a = true → bound ≤ key a) ∨
      ∃ a ∈ items, candidate a = true ∧ key a < bound ∧ least key candidate bound items = (key a, some a) ∧
        ∀ b ∈ items, candidate b = true → key a ≤ key b := by
  induction items using List.reverseRecOn with
  | nil => exact Or.inl ⟨rfl, nofun⟩
  | append_singleton rest z ih =>
    rw [least_snoc]
    rcases ih with ⟨none, above⟩ | ⟨a, member, atA, below, found, first⟩
    · rw [none]
      by_cases closer : candidate z = true ∧ key z < bound
      · refine Or.inr ⟨z, by simp, closer.1, closer.2, if_pos closer, fun b member atB => ?_⟩
        rcases List.mem_append.mp member with earlier | new
        · exact Nat.le_trans (Nat.le_of_lt closer.2) (above b earlier atB)
        · exact Nat.le_of_eq (by rw [List.mem_singleton.mp new])
      · refine Or.inl ⟨if_neg closer, fun b member atB => ?_⟩
        rcases List.mem_append.mp member with earlier | new
        · exact above b earlier atB
        · rw [List.mem_singleton.mp new] at atB ⊢
          exact Nat.not_lt.mp fun less => closer ⟨atB, less⟩
    · rw [found]
      refine Or.inr ?_
      by_cases closer : candidate z = true ∧ key z < key a
      · refine ⟨z, by simp, closer.1, Nat.lt_trans closer.2 below, if_pos closer, fun b member atB => ?_⟩
        rcases List.mem_append.mp member with earlier | new
        · exact Nat.le_trans (Nat.le_of_lt closer.2) (first b earlier atB)
        · exact Nat.le_of_eq (by rw [List.mem_singleton.mp new])
      · refine ⟨a, List.mem_append_left _ member, atA, below, if_neg closer, fun b member atB => ?_⟩
        rcases List.mem_append.mp member with earlier | new
        · exact first b earlier atB
        · rw [List.mem_singleton.mp new] at atB ⊢
          exact Nat.not_lt.mp fun less => closer ⟨atB, less⟩

end Least

section Rotation
variable {n : Nat}

/-- The numbers from `last` on, once around. -/
def rotation (n last : Nat) : List (Fin n) :=
  (List.finRange n).map fun k => ⟨(last + k.val) % n, Nat.mod_lt _ (Nat.zero_lt_of_lt k.isLt)⟩

theorem length_rotation (last : Nat) : (rotation n last).length = n := by
  rw [rotation, List.length_map, List.length_finRange]

theorem getElem_rotation {last k : Nat} (inside : k < (rotation n last).length) :
    ((rotation n last)[k]).val = (last + k) % n := by
  simp [rotation]

/-- How far a number is away from the start. -/
theorem ahead_eq {last k : Nat} (small : k < n) : ((last + k) % n + n - last % n) % n = k := by
  have start := Nat.mod_lt last (Nat.zero_lt_of_lt small)
  rw [← Nat.mod_add_mod]
  rcases Nat.lt_or_ge (last % n + k) n with less | more
  · rw [Nat.mod_eq_of_lt less, show last % n + k + n - last % n = k + n by omega, Nat.add_mod_right, Nat.mod_eq_of_lt small]
  · have wrapped : (last % n + k) % n = last % n + k - n := by
      rw [Nat.mod_eq_sub_mod more, Nat.mod_eq_of_lt (by omega)]
    rw [wrapped, show last % n + k - n + n - last % n = k by omega, Nat.mod_eq_of_lt small]

theorem getElem_ahead (last : Nat) (x : Fin n) (inside : (x.val + n - last % n) % n < (rotation n last).length) :
    (rotation n last)[(x.val + n - last % n) % n] = x := by
  have start := Nat.mod_lt last (Nat.zero_lt_of_lt x.isLt)
  refine Fin.ext ?_
  rw [getElem_rotation, Nat.add_mod_mod, ← Nat.mod_add_mod, show last % n + (x.val + n - last % n) = x.val + n by omega,
    Nat.add_mod_right, Nat.mod_eq_of_lt x.isLt]

theorem mem_rotation (last : Nat) (x : Fin n) : x ∈ rotation n last := by
  have inside : (x.val + n - last % n) % n < (rotation n last).length := by
    rw [length_rotation]
    exact Nat.mod_lt _ (Nat.zero_lt_of_lt x.isLt)
  rw [← getElem_ahead last x inside]
  exact List.getElem_mem inside

/-- The first number that a search finds is ahead of the others that it could find. -/
theorem find?_rotation {last : Nat} {p : Fin n → Bool} {i : Fin n} (found : (rotation n last).find? p = some i) :
    p i = true ∧ ∀ x, p x = true → (i.val + n - last % n) % n ≤ (x.val + n - last % n) % n := by
  obtain ⟨holds, k, inside, here, before⟩ := List.find?_eq_some_iff_getElem.1 found
  refine ⟨holds, fun x other => ?_⟩
  have small : k < n := inside.trans_eq (length_rotation last)
  have place : (i.val + n - last % n) % n = k := by
    rw [← here, getElem_rotation, ahead_eq small]
  rw [place]
  by_contra earlier
  have inside' : (x.val + n - last % n) % n < (rotation n last).length := by omega
  have absent := before _ (Nat.lt_of_not_le earlier)
  rw [getElem_ahead last x inside', other] at absent
  cases absent

end Rotation

section Spans
universe u
variable {α : Type u} {p q : α → Bool} {line rest : List α}

/-- A span of items that pass a test ends at the latest before an item that fails it. -/
theorem takeWhile_append_stop (stop : ∀ x, rest.head? = some x → p x = false) :
    (line ++ rest).takeWhile p = line.takeWhile p := by
  induction line with
  | nil =>
    cases rest with
    | nil => rfl
    | cons x rest => exact List.takeWhile_cons_of_neg (by simp [stop x rfl])
  | cons x line ih => rw [List.cons_append, List.takeWhile_cons, List.takeWhile_cons, ih]

theorem dropWhile_append_stop (stop : ∀ x, rest.head? = some x → p x = false) :
    (line ++ rest).dropWhile p = line.dropWhile p ++ rest := by
  induction line with
  | nil =>
    cases rest with
    | nil => rfl
    | cons x rest => exact List.dropWhile_cons_of_neg (by simp [stop x rfl])
  | cons x line ih =>
    rw [List.cons_append, List.dropWhile_cons, List.dropWhile_cons, ih]
    split <;> rfl

theorem takeWhile_span (all : ∀ x ∈ line, p x = true) (stop : ∀ x, rest.head? = some x → p x = false) :
    (line ++ rest).takeWhile p = line := by
  rw [takeWhile_append_stop stop, List.takeWhile_eq_self_iff.mpr all]

theorem dropWhile_span (all : ∀ x ∈ line, p x = true) (stop : ∀ x, rest.head? = some x → p x = false) :
    (line ++ rest).dropWhile p = rest := by
  rw [dropWhile_append_stop stop, List.dropWhile_eq_nil_iff.mpr all, List.nil_append]

/-- A list is cut in one way before the first separator. -/
theorem span_inj {sep : α} {other after : List α} (fails : p sep = false) (all : ∀ x ∈ line, p x = true)
    (all' : ∀ x ∈ other, p x = true) (same : line ++ sep :: rest = other ++ sep :: after) :
    line = other ∧ rest = after := by
  have stop (rest : List α) : ∀ x, (sep :: rest).head? = some x → p x = false := by
    intro x first
    cases first
    exact fails
  have lines := takeWhile_span all (stop rest)
  rw [same, takeWhile_span all' (stop after)] at lines
  subst lines
  exact ⟨rfl, List.tail_eq_of_cons_eq (List.append_cancel_left same)⟩

/-- A shorter span at the front can be cut off before or after the longer one. -/
theorem takeWhile_dropWhile_comm (le : ∀ x, q x = true → p x = true) (line : List α) :
    (line.dropWhile q).takeWhile p = (line.takeWhile p).dropWhile q := by
  induction line with
  | nil => rfl
  | cons x line ih =>
    by_cases inside : q x = true
    · rw [List.dropWhile_cons_of_pos inside, ih, List.takeWhile_cons_of_pos (le x inside),
        List.dropWhile_cons_of_pos inside]
    · rw [List.dropWhile_cons_of_neg inside]
      by_cases within : p x = true
      · rw [List.takeWhile_cons_of_pos within, List.dropWhile_cons_of_neg inside]
      · rw [List.takeWhile_cons_of_neg within]
        rfl

theorem head?_dropWhile_fails {x : α} (first : (line.dropWhile p).head? = some x) : p x = false := by
  have stop := List.head?_dropWhile_not p line
  rwa [first] at stop

end Spans

end Mgsim.Lib
