import Mathlib.Data.List.Nodup
import Mathlib.Data.List.TakeWhile
import Mathlib.Logic.Function.Basic

namespace Mgsim.Lib
universe u v w x
variable {σ : Type u} {τ : Type v} {ι : Type w} {ε : Type x}

/-- A loop whose body may throw. A fault ends the loop, and the state stays as
the rounds before it and the broken round have left it. -/
def runUntil (step : σ → ι → σ × Option ε) : σ → List ι → σ × Option ε
  | s, [] => (s, none)
  | s, i :: rest =>
    match step s i with
    | (s', none) => runUntil step s' rest
    | (s', some fault) => (s', some fault)

theorem runUntil_cons (step : σ → ι → σ × Option ε) (s : σ) (i : ι) (rest : List ι) :
    runUntil step s (i :: rest) =
      match step s i with
      | (s', none) => runUntil step s' rest
      | (s', some fault) => (s', some fault) := rfl

theorem runUntil_append (step : σ → ι → σ × Option ε) (s : σ) (first second : List ι) :
    runUntil step s (first ++ second) =
      match runUntil step s first with
      | (s', none) => runUntil step s' second
      | (s', some fault) => (s', some fault) := by
  induction first generalizing s with
  | nil => rfl
  | cons i rest ih =>
    simp only [List.cons_append, runUntil_cons]
    split
    · exact ih _
    · rfl

theorem runUntil_map {κ : Type*} (step : σ → ι → σ × Option ε) (f : κ → ι) (s : σ) (rounds : List κ) :
    runUntil step s (rounds.map f) = runUntil (fun s k => step s (f k)) s rounds := by
  induction rounds generalizing s with
  | nil => rfl
  | cons k rest ih =>
    simp only [List.map_cons, runUntil_cons]
    split
    · exact ih _
    · rfl

/-- Two nested loops are one loop. -/
theorem runUntil_flatMap {κ : Type*} (step : σ → ι → σ × Option ε) (inner : κ → List ι) (s : σ) (rounds : List κ) :
    runUntil (fun s k => runUntil step s (inner k)) s rounds = runUntil step s (rounds.flatMap inner) := by
  induction rounds generalizing s with
  | nil => rfl
  | cons k rest ih =>
    rw [List.flatMap_cons, runUntil_append, runUntil_cons]
    rcases runUntil step s (inner k) with ⟨s', none | fault⟩
    · exact ih s'
    · rfl

/-- What the caller of a loop that may throw sees of it. -/
def outcome : σ × Option ε → Except ε σ
  | (s, none) => .ok s
  | (_, some fault) => .error fault

/-- A loop in `Except` is this loop without the state that a fault leaves. -/
theorem foldlM_eq_outcome {step : σ → ι → Except ε σ} {step' : σ → ι → σ × Option ε}
    (same : ∀ s i, step s i = outcome (step' s i)) (s : σ) (rounds : List ι) :
    rounds.foldlM step s = outcome (runUntil step' s rounds) := by
  induction rounds generalizing s with
  | nil => rfl
  | cons i rest ih =>
    rw [List.foldlM_cons, same, runUntil_cons]
    rcases step' s i with ⟨s', none | fault⟩
    · exact ih s'
    · rfl

/-- A loop through a representation of its state. -/
theorem runUntil_represented {step : σ → ι → σ × Option ε} {step' : τ → ι → τ × Option ε} {represent : τ → σ}
    {rounds : List ι} (same : ∀ t, ∀ i ∈ rounds, step (represent t) i = Prod.map represent id (step' t i)) (t : τ) :
    runUntil step (represent t) rounds = Prod.map represent id (runUntil step' t rounds) := by
  induction rounds generalizing t with
  | nil => rfl
  | cons i rest ih =>
    have later := ih fun t j member => same t j (List.mem_cons_of_mem i member)
    rw [runUntil_cons, runUntil_cons, same t i List.mem_cons_self]
    rcases step' t i with ⟨t', none | fault⟩
    · exact later t'
    · rfl

/-- A loop that works on one part of a state. -/
theorem runUntil_part {get : σ → τ} {put : σ → τ → σ} (get_put : ∀ s t, get (put s t) = t)
    (put_get : ∀ s, put s (get s) = s) (put_put : ∀ s t t', put (put s t) t' = put s t')
    (step : τ → ι → τ × Option ε) (s : σ) (rounds : List ι) :
    runUntil (fun s i => Prod.map (put s) id (step (get s) i)) s rounds =
      Prod.map (put s) id (runUntil step (get s) rounds) := by
  have body : ∀ t, ∀ i ∈ rounds, (fun s i => Prod.map (put s) id (step (get s) i)) (put s t) i =
      Prod.map (put s) id (step t i) := by
    intro t i _
    rcases outcome : step t i with ⟨t', fault⟩
    simp only [get_put, outcome, Prod.map, put_put]
  have inside := @runUntil_represented _ _ _ _ (fun s i => Prod.map (put s) id (step (get s) i)) _ _ _ body (get s)
  rwa [put_get] at inside

section Sweep
variable {α : Type*} [DecidableEq ι]

/-- One round of a sweep: a cell that stops the sweep stays, another is changed. -/
def sweepStep (stops : ι → α → Bool) (change : ι → α → α) (fault : ε) (cells : ι → α) (i : ι) :
    (ι → α) × Option ε :=
  if stops i (cells i) then (cells, some fault)
  else (Function.update cells i (change i (cells i)), none)

/-- A sweep over different cells, from cells that it sees as they were in `seen`. -/
theorem runUntil_sweepStep_of_seen {stops : ι → α → Bool} {change : ι → α → α} {fault : ε} {rounds : List ι}
    (nodup : rounds.Nodup) {cells seen : ι → α} (same : ∀ i ∈ rounds, cells i = seen i) :
    runUntil (sweepStep stops change fault) cells rounds =
      (fun j => if j ∈ rounds.takeWhile fun i => !stops i (seen i) then change j (seen j) else cells j,
        if rounds.any fun i => stops i (seen i) then some fault else none) := by
  induction rounds generalizing cells with
  | nil => simp [runUntil]
  | cons i rest ih =>
    obtain ⟨fresh, nodup⟩ := List.nodup_cons.mp nodup
    have here := same i List.mem_cons_self
    cases stopped : stops i (seen i) with
    | true => simp [runUntil_cons, sweepStep, here, stopped]
    | false =>
      -- what this round writes is read by no later round
      have later : ∀ j ∈ rest, Function.update cells i (change i (seen i)) j = seen j := by
        intro j member
        rw [Function.update_of_ne (by rintro rfl; exact fresh member)]
        exact same j (List.mem_cons_of_mem i member)
      simp only [runUntil_cons, sweepStep, here, stopped, Bool.false_eq_true, if_false, ih nodup later, List.any_cons,
        Bool.false_or, List.takeWhile_cons, Bool.not_false, if_true]
      refine Prod.ext (funext fun j => ?_) rfl
      by_cases other : j = i
      · subst other
        have passed : j ∉ rest.takeWhile fun i => !stops i (seen i) :=
          fun member => fresh ((List.takeWhile_prefix _).mem member)
        simp [passed]
      · simp [other]

/-- A sweep over different cells changes the ones before the first that stops it. -/
theorem runUntil_sweepStep {stops : ι → α → Bool} {change : ι → α → α} {fault : ε} {rounds : List ι}
    (nodup : rounds.Nodup) (cells : ι → α) :
    runUntil (sweepStep stops change fault) cells rounds =
      (fun j => if j ∈ rounds.takeWhile fun i => !stops i (cells i) then change j (cells j) else cells j,
        if rounds.any fun i => stops i (cells i) then some fault else none) :=
  runUntil_sweepStep_of_seen nodup fun _ _ => rfl

end Sweep

/-- The start of an ordered list that meets `p`: what meets it with all before it. -/
theorem mem_takeWhile_of_pairwise {r : ι → ι → Prop} (asymm : ∀ x y, r x y → ¬ r y x) {p : ι → Bool} {l : List ι}
    (ordered : l.Pairwise r) {x : ι} : x ∈ l.takeWhile p ↔ x ∈ l ∧ p x = true ∧ ∀ y ∈ l, r y x → p y = true := by
  induction l with
  | nil => simp
  | cons a rest ih =>
    obtain ⟨first, ordered⟩ := List.pairwise_cons.mp ordered
    rw [List.takeWhile_cons]
    split
    · rename_i met
      rw [List.mem_cons, ih ordered]
      constructor
      · rintro (rfl | ⟨member, atX, before⟩)
        · refine ⟨List.mem_cons_self, met, fun y member lower => ?_⟩
          rcases List.mem_cons.mp member with rfl | later
          · exact met
          · exact absurd lower (asymm _ _ (first y later))
        · refine ⟨List.mem_cons_of_mem a member, atX, fun y inside lower => ?_⟩
          rcases List.mem_cons.mp inside with rfl | later
          · exact met
          · exact before y later lower
      · rintro ⟨member, atX, before⟩
        rcases List.mem_cons.mp member with rfl | later
        · exact Or.inl rfl
        · exact Or.inr ⟨later, atX, fun y inside lower => before y (List.mem_cons_of_mem a inside) lower⟩
    · rename_i unmet
      constructor
      · intro member
        cases member
      · rintro ⟨member, atX, before⟩
        rcases List.mem_cons.mp member with rfl | later
        · exact absurd atX unmet
        · exact absurd (before a List.mem_cons_self (first x later)) unmet

end Mgsim.Lib
