import Mathlib.Data.Nat.Init

namespace Mgsim.Lib
variable {ε α β : Type}

/-- A condition without which a computation does not go on. -/
def require (condition : Prop) [Decidable condition] (failure : ε) : Except ε Unit :=
  if condition then .ok () else .error failure

/-- The value of a computation that can fail without saying why. -/
def orElse (failure : ε) : Option α → Except ε α
  | some a => .ok a
  | none => .error failure

/-- A part of a computation that is left out where the condition does not hold. -/
def applyIf (condition : Bool) (f : α → Except ε α) (a : α) : Except ε α := if condition then f a else .ok a

theorem bind_ok {x : Except ε α} {f : α → Except ε β} {b : β} (done : x >>= f = .ok b) :
    ∃ a, x = .ok a ∧ f a = .ok b := by
  cases x with
  | error e => cases done
  | ok a => exact ⟨a, rfl, done⟩

theorem require_ok {condition : Prop} [Decidable condition] {failure : ε} {u : Unit}
    (done : require condition failure = .ok u) : condition := by
  unfold require at done
  split at done
  · assumption
  · cases done

theorem require_bind_ok {condition : Prop} [Decidable condition] {failure : ε} {f : Unit → Except ε β} {b : β}
    (done : require condition failure >>= f = .ok b) : condition ∧ f () = .ok b := by
  obtain ⟨_, met, rest⟩ := bind_ok done
  exact ⟨require_ok met, rest⟩

theorem applyIf_ok {condition : Bool} {f : α → Except ε α} {a b : α} (done : applyIf condition f a = .ok b) :
    (condition = true ∧ f a = .ok b) ∨ (condition = false ∧ b = a) := by
  unfold applyIf at done
  split at done
  · rename_i met
    exact Or.inl ⟨met, done⟩
  · rename_i unmet
    exact Or.inr ⟨by simpa using unmet, (Except.ok.inj done).symm⟩

theorem orElse_ok {failure : ε} {x : Option α} {a : α} (done : orElse failure x = .ok a) : x = some a := by
  cases x with
  | none => cases done
  | some b => rw [Except.ok.inj done]

theorem toOption_eq_some {x : Except ε α} {a : α} (done : x.toOption = some a) : x = .ok a := by
  cases x with
  | error e => cases done
  | ok b => rw [Option.some.inj done]

end Mgsim.Lib
