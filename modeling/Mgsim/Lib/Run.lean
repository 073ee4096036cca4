import Mathlib.Data.List.Induction

namespace Mgsim.Lib

section Runs

universe u v
variable {σ : Type u} {ε : Type v}

/-- Runs of a partial step function in which every step taken meets `guard`.
The events are kept in the order in which they happened. -/
inductive Run (step : σ → ε → Option σ) (guard : σ → ε → Prop) (start : σ) : List ε → σ → Prop
  | start : Run step guard start [] start
  | next {events state event after} : Run step guard start events state → guard state event →
      step state event = some after → Run step guard start (events ++ [event]) after

variable {step : σ → ε → Option σ} {guard : σ → ε → Prop} {start state : σ} {events : List ε}

/-- The induction rule of a run: what holds at the start and survives every
guarded step holds in every state the run reaches. -/
theorem Run.invariant {I : σ → Prop} (atStart : I start)
    (kept : ∀ s e s', I s → guard s e → step s e = some s' → I s')
    (run : Run step guard start events state) : I state := by
  induction run with
  | start => exact atStart
  | next _ allowed taken ih => exact kept _ _ _ ih allowed taken

theorem Run.weaken {weaker : σ → ε → Prop} (implies : ∀ s e, guard s e → weaker s e)
    (run : Run step guard start events state) : Run step weaker start events state := by
  induction run with
  | start => exact .start
  | next _ allowed taken ih => exact .next ih (implies _ _ allowed) taken

/-- The last step of a run. -/
theorem Run.last_step {event : ε} (run : Run step guard start (events ++ [event]) state) :
    ∃ before, Run step guard start events before ∧ guard before event ∧ step before event = some state := by
  generalize equation : events ++ [event] = all at run
  cases run with
  | start => exact absurd equation (by simp)
  | next earlier allowed taken =>
    obtain ⟨rfl, same⟩ := List.append_inj' equation rfl
    cases same
    exact ⟨_, earlier, allowed, taken⟩

/-- The state that a run has reached before its last events. -/
theorem Run.earlier {first rest : List ε} (run : Run step guard start (first ++ rest) state) :
    ∃ before, Run step guard start first before := by
  induction rest using List.reverseRecOn generalizing state with
  | nil => exact ⟨state, by rwa [List.append_nil] at run⟩
  | append_singleton rest event ih =>
    rw [← List.append_assoc] at run
    obtain ⟨before, run, _⟩ := run.last_step
    exact ih run

theorem Run.append {middle : σ} {rest : List ε} (first : Run step guard start events middle)
    (second : Run step guard middle rest state) : Run step guard start (events ++ rest) state := by
  induction second with
  | start => rwa [List.append_nil]
  | next _ allowed taken ih =>
    rw [← List.append_assoc]
    exact .next ih allowed taken

/-- The executable run: the state after a list of events, if none of them fails. -/
def execute (step : σ → ε → Option σ) : σ → List ε → Option σ
  | s, [] => some s
  | s, e :: rest => (step s e).bind fun s' => execute step s' rest

theorem execute_append (s : σ) (first second : List ε) :
    execute step s (first ++ second) = (execute step s first).bind fun m => execute step m second := by
  induction first generalizing s with
  | nil => rfl
  | cons e rest ih =>
    simp only [List.cons_append, execute]
    cases step s e with
    | none => rfl
    | some m => exact ih m

theorem execute_of_run (run : Run step guard start events state) : execute step start events = some state := by
  induction run with
  | start => rfl
  | next _ _ taken ih =>
    rw [execute_append, ih, Option.bind_some, execute, taken]
    rfl

/-- The events determine the state. -/
theorem Run.unique {guard' : σ → ε → Prop} {state' : σ} (run : Run step guard start events state)
    (run' : Run step guard' start events state') : state = state' :=
  Option.some.inj ((execute_of_run run).symm.trans (execute_of_run run'))

/-- An executed list of events is a run, when the guard asks nothing of these events. -/
theorem run_of_execute {s s' : σ} {events : List ε} (allowed : ∀ e ∈ events, ∀ s, guard s e)
    (done : execute step s events = some s') : Run step guard s events s' := by
  induction events using List.reverseRecOn generalizing s' with
  | nil =>
    cases Option.some.inj done
    exact .start
  | append_singleton rest e ih =>
    rw [execute_append] at done
    obtain ⟨middle, before, last⟩ := Option.bind_eq_some_iff.mp done
    obtain ⟨after, taken, same⟩ := Option.bind_eq_some_iff.mp last
    cases Option.some.inj same
    have earlier := ih (fun e member => allowed e (List.mem_append_left _ member)) before
    exact .next earlier (allowed e (by simp) _) taken

/-- The step function, where only checked steps are possible. -/
def checked (check : σ → ε → Bool) (step : σ → ε → Option σ) (s : σ) (e : ε) : Option σ :=
  if check s e then step s e else none

/-- An execution of checked steps is a run, when the check is enough for the guard. -/
theorem run_of_checked {check : σ → ε → Bool} {s s' : σ} {events : List ε}
    (enough : ∀ s e, check s e = true → guard s e) (done : execute (checked check step) s events = some s') :
    Run step guard s events s' := by
  induction events using List.reverseRecOn generalizing s' with
  | nil =>
    cases Option.some.inj done
    exact .start
  | append_singleton rest e ih =>
    rw [execute_append] at done
    obtain ⟨middle, before, last⟩ := Option.bind_eq_some_iff.mp done
    obtain ⟨after, taken, same⟩ := Option.bind_eq_some_iff.mp last
    cases Option.some.inj same
    unfold checked at taken
    split at taken
    · rename_i accepted
      exact .next (ih before) (enough _ _ accepted) taken
    · cases taken

end Runs

section Faultless
universe u v
variable {σ : Type u} {ι : Type v} {step : σ → ι → σ} {clean safe : σ → Prop} {guard spares : σ → ι → Prop} {start : σ}
  {inputs : List ι}

/-- The invariant holds as long as every guarded step spares it. -/
theorem clean_of_spared (initial : clean start)
    (kept : ∀ s i, clean s → guard s i → spares s i → clean (step s i))
    (allowed : ∀ done i, done ++ [i] <+: inputs → guard (done.foldl step start) i)
    (spared : ∀ done i, done ++ [i] <+: inputs → spares (done.foldl step start) i) : clean (inputs.foldl step start) := by
  induction inputs using List.reverseRecOn with
  | nil => exact initial
  | append_singleton rest i ih =>
    rw [List.foldl_append]
    refine kept _ i (ih (fun done j pre => ?_) fun done j pre => ?_) (allowed rest i (List.prefix_refl _))
      (spared rest i (List.prefix_refl _))
    · exact allowed done j (pre.trans (List.prefix_append _ _))
    · exact spared done j (pre.trans (List.prefix_append _ _))

/-- When every step from a clean state either keeps it clean or makes it
unsafe, a run is safe in all its states exactly when all its steps are of the first kind. -/
theorem safe_iff_spared (initial : clean start) (sound : ∀ s, clean s → safe s)
    (kept : ∀ s i, clean s → guard s i → spares s i → clean (step s i))
    (broken : ∀ s i, clean s → guard s i → ¬ spares s i → ¬ safe (step s i))
    (allowed : ∀ done i, done ++ [i] <+: inputs → guard (done.foldl step start) i) :
    (∀ done, done <+: inputs → safe (done.foldl step start)) ↔
      ∀ done i, done ++ [i] <+: inputs → spares (done.foldl step start) i := by
  constructor
  · intro always
    have blame : ∀ done i, done ++ [i] <+: inputs → clean (done.foldl step start) →
        spares (done.foldl step start) i := by
      intro done i pre here
      by_contra bad
      refine broken _ i here (allowed done i pre) bad ?_
      have after := always _ pre
      rwa [List.foldl_append] at after
    have stays : ∀ done, done <+: inputs → clean (done.foldl step start) := by
      intro done
      induction done using List.reverseRecOn with
      | nil => exact fun _ => initial
      | append_singleton rest i ih =>
        intro pre
        have here := ih ((List.prefix_append _ _).trans pre)
        rw [List.foldl_append]
        exact kept _ i here (allowed rest i pre) (blame rest i pre here)
    exact fun done i pre => blame done i pre (stays done ((List.prefix_append _ _).trans pre))
  · intro spared done pre
    refine sound _ (clean_of_spared initial kept (fun first i earlier => ?_) fun first i earlier => ?_)
    · exact allowed first i (earlier.trans pre)
    · exact spared first i (earlier.trans pre)

end Faultless

end Mgsim.Lib
