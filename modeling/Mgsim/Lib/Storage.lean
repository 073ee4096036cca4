import Mathlib.Tactic.Common
import Mathlib.Data.Option.Basic

namespace Mgsim.Lib

section Flag
/-- A flag whose changes take effect at the end of the cycle. It can be changed once in a cycle. -/
structure Flag where
  isSet : Bool
  updated : Bool
  new : Bool
  deriving DecidableEq

namespace Flag

def create (set : Bool) : Flag := ⟨false, false, set⟩

/-- `Set` and `Clear`: `none` when the flag has been changed in this cycle. -/
def assign (flag : Flag) (value : Bool) : Option Flag :=
  if flag.updated then none else some { flag with new := value, updated := true }

def set (flag : Flag) : Option Flag := flag.assign true

def clear (flag : Flag) : Option Flag := flag.assign false

/-- A change whose refusal is ignored. -/
def put (flag : Flag) (value : Bool) : Flag := (flag.assign value).getD flag

/-- `Update`: the change of this cycle takes effect. -/
def update (flag : Flag) : Flag := ⟨flag.new, false, flag.new⟩

variable {flag flag' : Flag} {value : Bool}

theorem assign_eq_some (done : flag.assign value = some flag') :
    flag.updated = false ∧ flag' = { flag with new := value, updated := true } := by
  unfold assign at done
  split at done
  · cases done
  · rename_i fresh
    cases done
    exact ⟨by simpa using fresh, rfl⟩

theorem assign_eq_none (refused : flag.assign value = none) : flag.updated = true := by
  unfold assign at refused
  split at refused
  · assumption
  · cases refused

theorem put_fresh (fresh : flag.updated = false) (value : Bool) :
    flag.put value = { flag with new := value, updated := true } := by
  rw [put, assign, if_neg (by simp [fresh]), Option.getD_some]

theorem put_updated (updated : flag.updated = true) (value : Bool) : flag.put value = flag := by
  rw [put, assign, if_pos updated, Option.getD_none]

end Flag

end Flag

section Register
universe u

/-- A place for one value, whose changes take effect at the end of the cycle. -/
structure Register (α : Type u) where
  value : Option α
  written : Option α
  cleared : Bool

namespace Register
variable {α : Type u}

def create : Register α := ⟨none, none, false⟩

/-- `Write`; `none` where its assertion fails. -/
def write (register : Register α) (item : α) : Option (Register α) :=
  if register.written.isSome then none else some { register with written := some item }

/-- `Clear`; `none` where its assertions fail. -/
def clear (register : Register α) : Option (Register α) :=
  if register.cleared ∨ register.value.isNone then none else some { register with cleared := true }

/-- `Update`: a value that is written counts more than a clear. -/
def update (register : Register α) : Register α :=
  ⟨if register.written.isSome then register.written else if register.cleared then none else register.value, none, false⟩

/-- What the register holds with the changes of this cycle. -/
def contents (register : Register α) : List α :=
  (if register.cleared then [] else register.value.toList) ++ register.written.toList

variable {register register' : Register α} {item : α}

theorem contents_write (done : register.write item = some register') : register'.contents = register.contents ++ [item] ∧
    register'.value = register.value ∧ register'.cleared = register.cleared ∧ register'.written = some item := by
  unfold write at done
  split at done
  · cases done
  · next fresh =>
    cases done
    rw [contents, contents, Option.not_isSome_iff_eq_none.1 fresh]
    exact ⟨by simp, rfl, rfl, rfl⟩

theorem clear_of_value (fresh : register.cleared = false) (value : register.value = some item) :
    register.clear = some { register with cleared := true } := by
  rw [clear, if_neg (by simp [fresh, value])]

/-- A register that is written only when it is empty keeps what it holds. -/
theorem contents_update (waits : register.written ≠ none → register.value = none) : register.update.contents = register.contents := by
  unfold contents update
  rcases written : register.written with _ | item
  · cases register.cleared
    · simp
    · simp
  · have empty := waits (by rw [written]; simp)
    rw [empty]
    simp

end Register

end Register

end Mgsim.Lib
