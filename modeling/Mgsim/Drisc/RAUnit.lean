import Mgsim.Drisc.Register
import Mgsim.Lib.Tiling

namespace Mgsim.Drisc
open Mgsim.Lib

inductive ContextType
  | normal
  | reserved
  | exclusive
  deriving DecidableEq

/-- A loop over the register types, which stops at the first error. -/
def eachType {ε β : Type} (body : RegType → Except ε β) : Except ε (RegType → β) :=
  match body .integer with
  | .error e => .error e
  | .ok first =>
    match body .float with
    | .error e => .error e
    | .ok second => .ok fun
      | .integer => first
      | .float => second

theorem eachType_of_ok {ε β : Type} {body : RegType → Except ε β} {results : RegType → β}
    (all : ∀ τ, body τ = .ok (results τ)) : eachType body = .ok results := by
  simp only [eachType, all, Except.ok.injEq]
  funext τ
  cases τ <;> rfl

theorem eachType_ok {ε β : Type} {body : RegType → Except ε β} {results : RegType → β}
    (done : eachType body = .ok results) (τ : RegType) : body τ = .ok (results τ) := by
  unfold eachType at done
  split at done
  · cases done
  · rename_i first atFirst
    split at done
    · cases done
    · rename_i second atSecond
      cases done
      cases τ with
      | integer => exact atFirst
      | float => exact atSecond

theorem eachType_of_error {ε β : Type} {body : RegType → Except ε β} {e : ε}
    (only : ∀ τ, body τ = .error e ∨ ∃ result, body τ = .ok result) (some : ∃ τ, body τ = .error e) :
    eachType body = .error e := by
  obtain ⟨τ, failed⟩ := some
  unfold eachType
  rcases only .integer with first | ⟨result, first⟩
  · rw [first]
  · rw [first]
    cases τ with
    | integer => cases first.symm.trans failed
    | float => rw [failed]

namespace RAUnit

/-- `Alloc` has returned false, or an assertion has failed. -/
inductive Failure
  | noRoom
  | assertion
  deriving DecidableEq

/-- The number of free blocks of each context type. -/
structure Free where
  normal : Nat
  reserved : Nat
  exclusive : Nat
  deriving DecidableEq

def Free.get (free : Free) : ContextType → Nat
  | .normal => free.normal
  | .reserved => free.reserved
  | .exclusive => free.exclusive

/-- One block of this context is used: `type.free[context]--`. -/
def Free.use (free : Free) : ContextType → Free
  | .normal => { free with normal := free.normal - 1 }
  | .reserved => { free with reserved := free.reserved - 1 }
  | .exclusive => { free with exclusive := free.exclusive - 1 }

/-- The administration of one register type. An entry of `list` at the first
block of an allocation has its number of blocks and its family. -/
structure TypeInfo (LFID : Type) where
  list : List (Nat × Option LFID)
  blockSize : Nat
  free : Free
  deriving DecidableEq

variable {LFID : Type}

def isPowerOfTwo (x : Nat) : Bool := x &&& (x - 1) == 0

/-- The constructor's work for one register type. -/
def TypeInfo.create (blocksizeName : String) (contextSize blockSize size : Nat) : Except String (TypeInfo LFID) :=
  if blockSize = 0 ∨ isPowerOfTwo blockSize = false then .error (blocksizeName ++ " is not a power of two")
  else if blockSize < contextSize then .error (blocksizeName ++ " is smaller than a context")
  else if size % blockSize ≠ 0 then .error (blocksizeName ++ " does not divide the register file size")
  else if size / blockSize < 2 then
    .error (blocksizeName ++ ": there must be at least two allocation blocks of registers")
  else .ok ⟨List.replicate (size / blockSize) (0, none), blockSize, ⟨size / blockSize - 1, 0, 1⟩⟩

def blocksizeName : RegType → String
  | .integer => "IntRegistersBlockSize"
  | .float => "FltRegistersBlockSize"

/-- The number of blocks for this many registers, rounded up. -/
def TypeInfo.blocks (type : TypeInfo LFID) (size : Nat) : Nat := (size + type.blockSize - 1) / type.blockSize

/-- The search for a contiguous free area of `size` blocks, on the rest of the
list from `pos` on. It still skips `used` blocks of the area it has met, and
has seen `run` free blocks since the start of the free area. -/
def search (size : Nat) : List (Nat × Option LFID) → Nat → Nat → Nat → Option Nat
  | [], _, _, _ => none
  | _ :: rest, pos, used + 1, _ => search size rest (pos + 1) used 0
  | entry :: rest, pos, 0, run =>
    if entry.1 ≠ 0 then search size rest (pos + 1) (entry.1 - 1) 0
    else if run + 1 = size then some (pos - run)
    else search size rest (pos + 1) 0 (run + 1)

theorem TypeInfo.create_ok {blocksizeName : String} {contextSize blockSize size : Nat} {type : TypeInfo LFID}
    (made : TypeInfo.create blocksizeName contextSize blockSize size = .ok type) :
    0 < blockSize ∧ size / blockSize * blockSize = size ∧ 2 ≤ size / blockSize ∧
      type = ⟨List.replicate (size / blockSize) (0, none), blockSize, ⟨size / blockSize - 1, 0, 1⟩⟩ := by
  unfold create at made
  split at made
  · cases made
  · rename_i power
    split at made
    · cases made
    · split at made
      · cases made
      · rename_i divides
        split at made
        · cases made
        · rename_i enough
          cases made
          refine ⟨Nat.pos_of_ne_zero fun zero => power (Or.inl zero), ?_, by omega, rfl⟩
          exact Nat.div_mul_cancel (Nat.dvd_of_mod_eq_zero (not_not.mp divides))

/-- The first loop of `Alloc` for one register type: the base index of a free
area, and none (`INVALID_REG_INDEX`) if no registers are asked for. -/
def TypeInfo.find (type : TypeInfo LFID) (size : Nat) (context : ContextType) : Except Failure (Option Nat) :=
  if size = 0 then .ok none
  else
    let free := if context = .normal then type.free.normal else type.free.normal + 1
    if type.list.length < free then .error .assertion
    else if free < type.blocks size then .error .noRoom
    else
      match search (type.blocks size) type.list 0 0 0 with
      | none => .error .noRoom
      | some start => .ok (some (start * type.blockSize))

/-- The second loop of `Alloc` for one register type. A reserved context
without registers goes back to the normal pool. -/
def TypeInfo.commit (type : TypeInfo LFID) (fid : LFID) (context : ContextType) (size : Nat) :
    Option Nat → Except Failure (TypeInfo LFID)
  | none =>
    if context = .reserved then .ok { type with free := { type.free with normal := type.free.normal + 1 } }
    else .ok type
  | some index =>
    let list := type.list.set (index / type.blockSize) (type.blocks size, some fid)
    if context = .normal then
      if type.free.normal < type.blocks size then .error .assertion
      else .ok { type with list, free := { type.free with normal := type.free.normal - type.blocks size } }
    else if type.free.get context = 0 then .error .assertion
    else
      let free := type.free.use context
      if free.normal < type.blocks size - 1 then .error .assertion
      else .ok { type with list, free := { free with normal := free.normal - (type.blocks size - 1) } }

/-- One block of an exclusive area goes to the exclusive pool, the others to
the normal pool. -/
def TypeInfo.release (type : TypeInfo LFID) (context : ContextType) : Option Nat → Except Failure (TypeInfo LFID)
  | none => .ok type
  | some index =>
    match type.list[index / type.blockSize]? with
    | none => .error .assertion
    | some (size, owner) =>
      let list := type.list.set (index / type.blockSize) (0, owner)
      if size = 0 then .error .assertion
      else if context = .exclusive then
        if type.free.exclusive ≠ 0 then .error .assertion
        else .ok { type with list, free := { type.free with exclusive := 1, normal := type.free.normal + (size - 1) } }
      else .ok { type with list, free := { type.free with normal := type.free.normal + size } }

def TypeInfo.reserveContext (type : TypeInfo LFID) : Except Failure (TypeInfo LFID) :=
  if type.free.normal = 0 then .error .assertion
  else .ok { type with free :=
    { type.free with normal := type.free.normal - 1, reserved := type.free.reserved + 1 } }

def TypeInfo.unreserveContext (type : TypeInfo LFID) : Except Failure (TypeInfo LFID) :=
  if type.free.reserved = 0 then .error .assertion
  else .ok { type with free :=
    { type.free with reserved := type.free.reserved - 1, normal := type.free.normal + 1 } }

end RAUnit

/-- The register allocation unit: `m_types`. -/
def RAUnit (LFID : Type) : Type := RegType → RAUnit.TypeInfo LFID

namespace RAUnit
variable {LFID : Type}

def create (blockSize size : RegType → Nat) : Except String (RAUnit LFID) :=
  eachType fun τ => TypeInfo.create (blocksizeName τ) 32 (blockSize τ) (size τ)

def getNumFreeContexts (unit : RAUnit LFID) (context : ContextType) : Nat :=
  min ((unit .integer).free.get context) ((unit .float).free.get context)

def reserveContext (unit : RAUnit LFID) : Except Failure (RAUnit LFID) :=
  eachType fun τ => (unit τ).reserveContext

def unreserveContext (unit : RAUnit LFID) : Except Failure (RAUnit LFID) :=
  eachType fun τ => (unit τ).unreserveContext

/-- The new state and the base indices. All types have found their registers
before the first of them changes. -/
def alloc (unit : RAUnit LFID) (sizes : RegType → Nat) (fid : LFID) (context : ContextType) :
    Except Failure (RAUnit LFID × (RegType → Option Nat)) :=
  match eachType fun τ => (unit τ).find (sizes τ) context with
  | .error e => .error e
  | .ok indices =>
    match eachType fun τ => (unit τ).commit fid context (sizes τ) (indices τ) with
    | .error e => .error e
    | .ok after => .ok (after, indices)

def free (unit : RAUnit LFID) (indices : RegType → Option Nat) (context : ContextType) :
    Except Failure (RAUnit LFID) :=
  eachType fun τ => (unit τ).release context (indices τ)

theorem getNumFreeContexts_le (unit : RAUnit LFID) (context : ContextType) (τ : RegType) :
    unit.getNumFreeContexts context ≤ (unit τ).free.get context := by
  cases τ with
  | integer => exact Nat.min_le_left _ _
  | float => exact Nat.min_le_right _ _

section Search
variable {size : Nat} {list : List (Nat × Option LFID)}

/-- The search is the first fit on the blocks that no area claims. -/
theorem search_eq_firstFit (pos used run : Nat) (outside : used ≠ 0 → run = 0) :
    search size list pos used run = firstFit size (taken used list) pos run := by
  induction list generalizing pos used run with
  | nil => cases used <;> rfl
  | cons entry rest ih =>
    cases used with
    | succ used => exact ih _ _ _ fun _ => rfl
    | zero =>
      by_cases isFree : entry.1 = 0
      · simp only [search, taken, isFree, ne_eq, not_true_eq_false, if_false, bne_self_eq_false, firstFit, Nat.zero_sub]
        rw [ih _ 0 _ fun absent => absurd rfl absent]
      · have claimedHere : (entry.1 != 0) = true := by simpa using isFree
        simp only [search, taken, isFree, ne_eq, not_false_eq_true, if_true, claimedHere, firstFit]
        exact ih _ _ _ fun _ => rfl

/-- There are enough free blocks, and a contiguous area among them. -/
def TypeInfo.HasRoom (type : TypeInfo LFID) (size : Nat) (context : ContextType) : Prop :=
  size = 0 ∨ type.blocks size ≤ (if context = .normal then type.free.normal else type.free.normal + 1) ∧
    ∃ start, Gap (taken 0 type.list) start (type.blocks size)

theorem TypeInfo.blocks_pos {type : TypeInfo LFID} (positive : 0 < type.blockSize) (some : size ≠ 0) :
    0 < type.blocks size := by
  unfold blocks
  exact Nat.div_pos (by omega) positive

/-- What the first loop of `Alloc` gives: no base for no registers, else the
base of a free area, and a failure exactly without room. -/
theorem TypeInfo.find_spec {type : TypeInfo LFID} {context : ContextType} (positive : 0 < type.blockSize)
    (fits : (if context = .normal then type.free.normal else type.free.normal + 1) ≤ type.list.length) :
    (type.find size context = .error .noRoom ∧ ¬ type.HasRoom size context) ∨
    (type.find size context = .ok none ∧ size = 0) ∨
    ∃ start, type.find size context = .ok (some (start * type.blockSize)) ∧ size ≠ 0 ∧
      Gap (taken 0 type.list) start (type.blocks size) ∧
      type.blocks size ≤ (if context = .normal then type.free.normal else type.free.normal + 1) := by
  by_cases empty : size = 0
  · exact Or.inr (Or.inl ⟨by simp [find, empty], empty⟩)
  have nonempty := blocks_pos positive empty
  have same := @search_eq_firstFit LFID (type.blocks size) type.list 0 0 0 fun _ => rfl
  have found := @firstFit_isSome_iff (type.blocks size) (taken 0 type.list) nonempty
  rw [← same] at found
  simp only [find, empty, if_false, Nat.not_lt.mpr fits, HasRoom, false_or]
  generalize (if context = .normal then type.free.normal else type.free.normal + 1) = free
  by_cases short : free < type.blocks size
  · rw [if_pos short]
    exact Or.inl ⟨rfl, fun room => by omega⟩
  · rw [if_neg short]
    cases result : search (type.blocks size) type.list 0 0 0 with
    | none =>
      rw [result] at found
      exact Or.inl ⟨rfl, fun room => by simpa using found.mpr room.2⟩
    | some start =>
      have gap := @firstFit_sound (type.blocks size) [] (taken 0 type.list) 0 start nonempty
        (same ▸ result) (Nat.zero_le _) fun k below => by omega
      exact Or.inr (Or.inr ⟨start, rfl, empty, gap, by omega⟩)

end Search

end RAUnit
end Mgsim.Drisc
