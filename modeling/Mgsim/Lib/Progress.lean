import Mathlib.Tactic.Common
import Mathlib.Data.List.Basic

namespace Mgsim.Lib

section Bypass
universe u
variable {σ : Type u}

/-- A stretch of a run in which somebody waits, with the number of the steps that pass it by. -/
inductive Passed (calm bypass : σ → σ → Prop) (start : σ) : Nat → σ → Prop
  | start : Passed calm bypass start 0 start
  | calm {k s s'} : Passed calm bypass start k s → calm s s' → Passed calm bypass start k s'
  | bypass {k s s'} : Passed calm bypass start k s → bypass s s' → Passed calm bypass start (k + 1) s'

/-- Where every step that passes somebody by gains on it, and no other step
loses what has been gained, it is not passed by more often than that. -/
theorem Passed.add_gain_le {calm bypass : σ → σ → Prop} {start s : σ} {k : Nat} {gain : σ → Nat} {inv : σ → Prop}
    (passed : Passed calm bypass start k s) (initial : inv start)
    (stays : ∀ s s', inv s → calm s s' → inv s' ∧ gain s ≤ gain s')
    (gains : ∀ s s', inv s → bypass s s' → inv s' ∧ gain s < gain s') : inv s ∧ k + gain start ≤ gain s := by
  induction passed with
  | start => exact ⟨initial, by omega⟩
  | calm _ step ih =>
    obtain ⟨kept, bound⟩ := ih
    obtain ⟨kept', more⟩ := stays _ _ kept step
    exact ⟨kept', by omega⟩
  | bypass _ step ih =>
    obtain ⟨kept, bound⟩ := ih
    obtain ⟨kept', more⟩ := gains _ _ kept step
    exact ⟨kept', by omega⟩

end Bypass

section Rounds
universe u
variable {α : Type u} {round history : List α} {done k : Nat} {x : α}

/-- The history of something that goes through a round again and again: `done` whole
rounds, and the first `k` steps of one more. -/
def rounds (round : List α) (done k : Nat) : List α := (List.replicate done round).flatten ++ round.take k

/-- The history consists of rounds in which nothing is left out, the last of which is at its step `k`. -/
def InRounds (round history : List α) (k : Nat) : Prop := k < round.length ∧ ∃ done, history = rounds round done k

namespace InRounds

theorem start (nonempty : round ≠ []) : InRounds round [] 0 :=
  ⟨List.length_pos_of_ne_nil nonempty, 0, rfl⟩

/-- The next step of the round, which is not its last one. -/
theorem next (inside : InRounds round history k) (more : k + 1 < round.length) (step : round[k]? = some x) :
    InRounds round (history ++ [x]) (k + 1) := by
  obtain ⟨_, done, rfl⟩ := inside
  refine ⟨more, done, ?_⟩
  rw [rounds, rounds, List.append_assoc, List.take_add_one, step]
  rfl

/-- The last step of the round. -/
theorem close (inside : InRounds round history k) (last : k + 1 = round.length) (step : round[k]? = some x) :
    InRounds round (history ++ [x]) 0 := by
  obtain ⟨below, done, rfl⟩ := inside
  refine ⟨Nat.zero_lt_of_lt below, done + 1, ?_⟩
  have whole : round.take k ++ [x] = round := by
    have grown : round.take (k + 1) = round.take k ++ [x] := by
      rw [List.take_add_one, step]
      rfl
    rw [← grown, last, List.take_length]
  rw [rounds, rounds, List.append_assoc, whole, List.replicate_succ', List.flatten_append]
  simp

end InRounds

end Rounds

section Passing
universe u
variable {α : Type u} {f : Nat → α} {p : α → Bool} {m : Nat} {before after : List α} {x : α}

/-- The elements of a sequence before a place that meet a condition. -/
def passing (f : Nat → α) (p : α → Bool) (m : Nat) : List α := ((List.range m).map f).filter p

theorem passing_zero : passing f p 0 = [] := rfl

theorem passing_succ_of_pos (holds : p (f m) = true) : passing f p (m + 1) = passing f p m ++ [f m] := by
  rw [passing, List.range_succ, List.map_append, List.filter_append]
  exact congrArg _ (List.filter_cons_of_pos holds)

theorem passing_succ_of_neg (fails : p (f m) = false) : passing f p (m + 1) = passing f p m := by
  rw [passing, List.range_succ, List.map_append, List.filter_append]
  have none : [f m].filter p = [] := List.filter_cons_of_neg (by rw [fails]; decide)
  exact (congrArg _ none).trans (List.append_nil _)

theorem holds_of_mem_passing (member : x ∈ passing f p m) : p x = true := (List.mem_filter.1 member).2

/-- What lies before an element are the elements before its place. -/
theorem passing_split (split : passing f p m = before ++ x :: after) : ∃ j, x = f j ∧ before = passing f p j := by
  induction m generalizing after with
  | zero => cases List.append_ne_nil_of_right_ne_nil _ (List.cons_ne_nil x after) split.symm
  | succ m ih =>
    cases holds : p (f m) with
    | false =>
      rw [passing_succ_of_neg holds] at split
      exact ih split
    | true =>
      rw [passing_succ_of_pos holds] at split
      rcases List.eq_nil_or_concat after with rfl | ⟨rest, last, rfl⟩
      · obtain ⟨same, single⟩ := List.append_inj' split rfl
        cases single
        exact ⟨m, rfl, same.symm⟩
      · rw [List.concat_eq_append, ← List.cons_append, ← List.append_assoc] at split
        exact ih (List.append_inj' split rfl).1

end Passing

end Mgsim.Lib
