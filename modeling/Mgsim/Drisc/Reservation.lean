import Mgsim.Drisc.RegisterBlocks
import Mgsim.Drisc.FamilyCreation

namespace Mgsim.Drisc
open Mgsim.Lib

namespace RAUnit
variable {LFID : Type}

/-- The blocks of a register type that no family has. -/
def TypeInfo.freeBlocks (type : TypeInfo LFID) : Nat := (taken 0 type.list).count false

/-- The family that a call is made for. -/
def Call.fid : Call LFID → LFID
  | .reserveContext fid | .takeExclusive fid | .unreserveContext fid | .alloc fid _ _ | .free fid => fid

variable [DecidableEq LFID]

theorem step_held {s s' : State LFID} {call : Call LFID} (taken : step s call = some s') {other : LFID}
    (different : other ≠ call.fid) : s'.held other = s.held other := by
  cases call with
  | takeExclusive fid =>
    cases taken
    exact Function.update_of_ne different _ _
  | reserveContext fid =>
    simp only [step] at taken
    split at taken
    · cases taken
      exact Function.update_of_ne different _ _
    · cases taken
  | unreserveContext fid =>
    simp only [step] at taken
    split at taken
    · cases taken
      exact Function.update_of_ne different _ _
    · cases taken
  | alloc fid context sizes =>
    simp only [step] at taken
    split at taken
    · cases taken
      exact Function.update_of_ne different _ _
    · cases taken
      rfl
    · cases taken
  | free fid =>
    simp only [step] at taken
    split at taken
    · split at taken
      · cases taken
        exact Function.update_of_ne different _ _
      · cases taken
    · cases taken

variable [Fintype LFID] {blockSize size : RegType → Nat} {s s' : State LFID} {fid : LFID}

omit [DecidableEq LFID] in
/-- The free blocks are those of the normal counter, the reserved contexts and the exclusive block. -/
theorem Kept.freeBlocks {blockSize size : Nat} {τ : RegType} {type : TypeInfo LFID} {held : LFID → Holding}
    (kept : Kept blockSize size τ type held) :
    type.freeBlocks = type.free.normal + reservations held + type.free.exclusive := by
  have counted := kept.tiled.count_free
  have normal := kept.normal
  rw [TypeInfo.freeBlocks]
  omega

/-- A family with a reserved context finds a block of each type. -/
theorem Consistent.hasRoom (ok : Consistent blockSize size s) (waiting : s.held fid = .reserved) {sizes : RegType → Nat}
    (small : ∀ τ, sizes τ ≤ blockSize τ) (τ : RegType) : (s.unit τ).HasRoom (sizes τ) .reserved := by
  have kept := ok.kept τ
  by_cases empty : sizes τ = 0
  · exact Or.inl empty
  · have one : (s.unit τ).blocks (sizes τ) = 1 := by
      have positive := kept.positive
      have bound := small τ
      rw [TypeInfo.blocks, kept.same]
      exact Nat.div_eq_of_lt_le (by omega) (by omega)
    have mine : (s.held fid).reservations ≤ reservations s.held := le_account (fun _ h => h.reservations) s.held fid
    rw [waiting] at mine
    have free := kept.freeBlocks
    rw [TypeInfo.freeBlocks] at free
    have some_ : 0 < (taken 0 (s.unit τ).list).count false := by
      simp only [Holding.reservations] at mine
      omega
    refine Or.inr ⟨?_, one ▸ gap_one_of_count some_⟩
    rw [one]
    simp

/-- An `Alloc` for a reserved context succeeds if a block of each type is enough. -/
theorem Consistent.alloc_reserved (ok : Consistent blockSize size s) (waiting : s.held fid = .reserved)
    {sizes : RegType → Nat} (small : ∀ τ, sizes τ ≤ blockSize τ) :
    ∃ unit indices, s.unit.alloc sizes fid .reserved = .ok (unit, indices) := by
  have before : s.held fid = .before .reserved := waiting
  obtain ⟨unit, base, found, _⟩ := ok.alloc_room before (ok.hasRoom waiting small)
  exact ⟨unit, base, found⟩

end RAUnit

end Mgsim.Drisc
