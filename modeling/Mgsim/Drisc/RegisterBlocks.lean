import Mgsim.Drisc.RAUnit
import Mgsim.Lib.Account
import Mgsim.Lib.Run

namespace Mgsim.Drisc.RAUnit
open Mgsim.Lib

/-- What a family entry holds of the register allocation unit: nothing, a
reserved context, the exclusive context, or registers (`family.regs`) that
were allocated for a context. -/
inductive Holding
  | nothing
  | reserved
  | exclusive
  | registers (context : ContextType) (sizes : RegType → Nat) (base : RegType → Option Nat)

/-- What a family entry has to hold before registers are allocated for this
context. The initial family takes a normal context. -/
@[simp] def Holding.before : ContextType → Holding
  | .normal => .nothing
  | .reserved => .reserved
  | .exclusive => .exclusive

/-- The base index and the number of blocks of a family's registers. -/
@[simp] def Holding.area (τ : RegType) (blockSize : Nat) : Holding → Option (Nat × Nat)
  | .registers _ sizes base => (base τ).map fun index => (index, (sizes τ + blockSize - 1) / blockSize)
  | _ => none

@[simp] def Holding.blocks (τ : RegType) (blockSize : Nat) (holding : Holding) : Nat :=
  (holding.area τ blockSize).elim 0 Prod.snd

@[simp] def Holding.reservations : Holding → Nat
  | .reserved => 1
  | _ => 0

@[simp] def Holding.exclusives : Holding → Nat
  | .exclusive => 1
  | .registers .exclusive _ _ => 1
  | _ => 0

/-- Whether a family uses the exclusive block of a register type. -/
@[simp] def Holding.exclusiveBlocks (τ : RegType) : Holding → Nat
  | .registers .exclusive _ base => if (base τ).isSome then 1 else 0
  | _ => 0

/-- The unit, and what the allocator has taken from it for each family entry. -/
structure State (LFID : Type) where
  unit : RAUnit LFID
  held : LFID → Holding

/-- The calls of the allocator: `AllocateContext` and `ReleaseContext`, `Alloc`
in `AllocateRegisters`, and `Free` in `DecreaseFamilyDependency`. -/
inductive Call (LFID : Type)
  | reserveContext (fid : LFID)
  | takeExclusive (fid : LFID)
  | unreserveContext (fid : LFID)
  | alloc (fid : LFID) (context : ContextType) (sizes : RegType → Nat)
  | free (fid : LFID)

variable {LFID : Type} [DecidableEq LFID]

/-- The state after a call, and none when an assertion of the unit fails. -/
def step (s : State LFID) : Call LFID → Option (State LFID)
  | .reserveContext fid =>
    match s.unit.reserveContext with
    | .ok unit => some ⟨unit, Function.update s.held fid .reserved⟩
    | .error _ => none
  | .takeExclusive fid => some ⟨s.unit, Function.update s.held fid .exclusive⟩
  | .unreserveContext fid =>
    match s.unit.unreserveContext with
    | .ok unit => some ⟨unit, Function.update s.held fid .nothing⟩
    | .error _ => none
  | .alloc fid context sizes =>
    match s.unit.alloc sizes fid context with
    | .ok (unit, indices) => some ⟨unit, Function.update s.held fid (.registers context sizes indices)⟩
    | .error .noRoom => some s
    | .error .assertion => none
  | .free fid =>
    match s.held fid with
    | .registers context _ base =>
      match s.unit.free base (if context = .exclusive then .exclusive else .normal) with
      | .ok unit => some ⟨unit, Function.update s.held fid .nothing⟩
      | .error _ => none
    | _ => none

/-- The calls that the allocator can make in a state: `AllocateContext` takes
an empty family entry and only an available context, the exclusive one while
no other family has it; the other calls follow what the family holds. -/
def MayCall (s : State LFID) : Call LFID → Prop
  | .reserveContext fid => s.held fid = .nothing ∧ 0 < s.unit.getNumFreeContexts .normal
  | .takeExclusive fid =>
    s.held fid = .nothing ∧ 0 < s.unit.getNumFreeContexts .exclusive ∧ ∀ other, (s.held other).exclusives = 0
  | .unreserveContext fid => s.held fid = .reserved
  | .alloc fid context _ => s.held fid = .before context
  | .free fid => ∃ context sizes base, s.held fid = .registers context sizes base

/-- A call does not leave a reserved context behind: an `Alloc` for a reserved
context that finds room asks for registers of every type. -/
def UsesReservation (s : State LFID) : Call LFID → Prop
  | .alloc _ .reserved sizes => (∀ τ, (s.unit τ).HasRoom (sizes τ) .reserved) → ∀ τ, sizes τ ≠ 0
  | _ => True

/-- The registers of a family: the base index and the size of its blocks. -/
def State.run (s : State LFID) (τ : RegType) (fid : LFID) : Option (Nat × Nat) :=
  ((s.held fid).area τ (s.unit τ).blockSize).map fun area => (area.1, area.2 * (s.unit τ).blockSize)

variable [Fintype LFID]

/-- The number of families with a reserved context. -/
def reservations (held : LFID → Holding) : Nat := account (fun _ holding => holding.reservations) held

/-- The number of families with the exclusive context. -/
def exclusives (held : LFID → Holding) : Nat := account (fun _ holding => holding.exclusives) held

def exclusiveBlocks (τ : RegType) (held : LFID → Holding) : Nat :=
  account (fun _ holding => holding.exclusiveBlocks τ) held

/-- The number of blocks of all families. -/
def heldBlocks (τ : RegType) (blockSize : Nat) (held : LFID → Holding) : Nat :=
  account (fun _ holding => holding.blocks τ blockSize) held

/-- The runs of blocks of live families are disjoint, aligned and inside the
register file, and the counters of each type add up to its blocks. -/
structure Sound (blockSize size : RegType → Nat) (s : State LFID) : Prop where
  disjoint : ∀ τ fid other base registers base' registers', fid ≠ other → s.run τ fid = some (base, registers) →
    s.run τ other = some (base', registers') → base + registers ≤ base' ∨ base' + registers' ≤ base
  aligned : ∀ τ fid base registers, s.run τ fid = some (base, registers) → blockSize τ ∣ base ∧ blockSize τ ∣ registers
  inside : ∀ τ fid base registers, s.run τ fid = some (base, registers) → 0 < registers ∧ base + registers ≤ size τ
  allocated : ∀ τ, heldBlocks τ (blockSize τ) s.held = claimed (s.unit τ).list
  counters : ∀ τ, (s.unit τ).free.normal + (s.unit τ).free.reserved + (s.unit τ).free.exclusive +
    claimed (s.unit τ).list = size τ / blockSize τ

/-- What every call keeps, for one register type. The normal counter makes up
for the reservations of the families, not for the reserved counter. -/
structure Kept (blockSize size : Nat) (τ : RegType) (type : TypeInfo LFID) (held : LFID → Holding) : Prop where
  same : type.blockSize = blockSize
  positive : 0 < blockSize
  length : type.list.length * blockSize = size
  tiled : Tiled 0 type.list
  owned : ∀ fid base blocks, (held fid).area τ blockSize = some (base, blocks) →
    0 < blocks ∧ blockSize ∣ base ∧ type.list[base / blockSize]? = some (blocks, some fid)
  normal : type.free.normal + reservations held + type.free.exclusive +
    claimed type.list = type.list.length
  reserved : reservations held ≤ type.free.reserved
  exclusive : type.free.exclusive + exclusiveBlocks τ held = 1
  allocated : heldBlocks τ blockSize held = claimed type.list

section Operations
variable {blockSize size : Nat} {τ : RegType} {type : TypeInfo LFID} {held : LFID → Holding} {fid : LFID}

/-- The four sums over the families, when one of them changes. -/
theorem update_sums (τ : RegType) (blockSize : Nat) (held : LFID → Holding) (fid : LFID) (holding : Holding) :
    reservations (Function.update held fid holding) + (held fid).reservations =
      reservations held + holding.reservations ∧
    exclusives (Function.update held fid holding) + (held fid).exclusives = exclusives held + holding.exclusives ∧
    exclusiveBlocks τ (Function.update held fid holding) + (held fid).exclusiveBlocks τ =
      exclusiveBlocks τ held + holding.exclusiveBlocks τ ∧
    heldBlocks τ blockSize (Function.update held fid holding) + (held fid).blocks τ blockSize =
      heldBlocks τ blockSize held + holding.blocks τ blockSize :=
  ⟨account_update _ _ _ _, account_update _ _ _ _, account_update _ _ _ _, account_update _ _ _ _⟩

/-- The areas of the other families, when a family without one takes none. -/
theorem Kept.owned_update {holding : Holding} {list : List (Nat × Option LFID)} (kept : Kept blockSize size τ type held)
    (noArea : holding.area τ blockSize = none)
    (others : ∀ other base blocks, other ≠ fid → (held other).area τ blockSize = some (base, blocks) →
      list[base / blockSize]? = type.list[base / blockSize]?) (other : LFID) (base blocks : Nat)
    (area : (Function.update held fid holding other).area τ blockSize = some (base, blocks)) :
    0 < blocks ∧ blockSize ∣ base ∧ list[base / blockSize]? = some (blocks, some other) := by
  by_cases self : other = fid
  · subst self
    rw [Function.update_self, noArea] at area
    cases area
  · rw [Function.update_of_ne self] at area
    obtain ⟨nonempty, aligned, entry⟩ := kept.owned other base blocks area
    exact ⟨nonempty, aligned, (others other base blocks self area).trans entry⟩

theorem Kept.reserveContext (kept : Kept blockSize size τ type held) (available : 0 < type.free.normal)
    (idle : held fid = .nothing) : ∃ type', type.reserveContext = .ok type' ∧
      Kept blockSize size τ type' (Function.update held fid .reserved) ∧
      type'.free.reserved = type.free.reserved + 1 := by
  refine ⟨_, if_neg (by omega), ?_, rfl⟩
  obtain ⟨reservations, _, exclusive, blocks⟩ := update_sums τ blockSize held fid .reserved
  rw [idle] at reservations exclusive blocks
  simp only [Holding.reservations, Holding.exclusiveBlocks, Holding.blocks, Holding.area, Option.elim_none,
    Nat.add_zero] at reservations exclusive blocks
  have normal := kept.normal
  have reserved := kept.reserved
  exact {
    same := kept.same
    positive := kept.positive
    length := kept.length
    tiled := kept.tiled
    owned := kept.owned_update rfl fun _ _ _ _ _ => rfl
    normal := by simp only; omega
    reserved := by simp only; omega
    exclusive := exclusive ▸ kept.exclusive
    allocated := blocks.trans kept.allocated }

theorem Kept.unreserveContext (kept : Kept blockSize size τ type held) (waiting : held fid = .reserved) :
    ∃ type', type.unreserveContext = .ok type' ∧
      Kept blockSize size τ type' (Function.update held fid .nothing) ∧
      type'.free.reserved + 1 = type.free.reserved := by
  obtain ⟨reservations, _, exclusive, blocks⟩ := update_sums τ blockSize held fid .nothing
  rw [waiting] at reservations exclusive blocks
  simp only [Holding.reservations, Holding.exclusiveBlocks, Holding.blocks, Holding.area, Option.elim_none,
    Nat.add_zero] at reservations exclusive blocks
  have normal := kept.normal
  have reserved := kept.reserved
  refine ⟨_, if_neg (by omega), ?_, by simp only; omega⟩
  exact {
    same := kept.same
    positive := kept.positive
    length := kept.length
    tiled := kept.tiled
    owned := kept.owned_update rfl fun _ _ _ _ _ => rfl
    normal := by simp only; omega
    reserved := by simp only; omega
    exclusive := exclusive ▸ kept.exclusive
    allocated := blocks.trans kept.allocated }

/-- The exclusive context is taken without a call of the unit. -/
theorem Kept.takeExclusive (kept : Kept blockSize size τ type held) (idle : held fid = .nothing) :
    Kept blockSize size τ type (Function.update held fid .exclusive) := by
  obtain ⟨reservations, _, exclusive, blocks⟩ := update_sums τ blockSize held fid .exclusive
  rw [idle] at reservations exclusive blocks
  simp only [Holding.reservations, Holding.exclusiveBlocks, Holding.blocks, Holding.area, Option.elim_none,
    Nat.add_zero] at reservations exclusive blocks
  exact {
    same := kept.same
    positive := kept.positive
    length := kept.length
    tiled := kept.tiled
    owned := kept.owned_update rfl fun _ _ _ _ _ => rfl
    normal := reservations ▸ kept.normal
    reserved := reservations ▸ kept.reserved
    exclusive := exclusive ▸ kept.exclusive
    allocated := blocks.trans kept.allocated }

theorem exclusiveBlocks_le (τ : RegType) (holding : Holding) : holding.exclusiveBlocks τ ≤ holding.exclusives := by
  rcases holding with _ | _ | _ | ⟨context, sizes, base⟩
  · exact Nat.le_refl _
  · exact Nat.le_refl _
  · exact Nat.zero_le _
  · cases context with
    | normal => exact Nat.le_refl _
    | reserved => exact Nat.le_refl _
    | exclusive =>
      simp only [Holding.exclusiveBlocks, Holding.exclusives]
      split <;> omega

/-- The exclusive block is free while its family has no registers. -/
theorem Kept.exclusive_free (kept : Kept blockSize size τ type held) (only : exclusives held ≤ 1)
    (waiting : held fid = .exclusive) : type.free.exclusive = 1 := by
  have here : 0 < (held fid).exclusives := by rw [waiting]; exact Nat.one_pos
  have unused : exclusiveBlocks τ held = 0 := by
    refine account_eq_zero.mpr fun other => ?_
    by_contra used
    have there := exclusiveBlocks_le τ (held other)
    have total : account (fun _ (holding : Holding) => holding.exclusives) held ≤ 1 := only
    have same := eq_of_account_le_one total here (show 0 < (held other).exclusives by omega)
    rw [← same, waiting] at used
    exact used rfl
  have exclusive := kept.exclusive
  omega

/-- The search never looks for more blocks than there are. -/
theorem Kept.fits (kept : Kept blockSize size τ type held) (only : exclusives held ≤ 1) {context : ContextType}
    (waiting : held fid = .before context) :
    (if context = .normal then type.free.normal else type.free.normal + 1) ≤ type.list.length := by
  have normal := kept.normal
  cases context with
  | normal => simp only [if_true]; omega
  | reserved =>
    have some : (held fid).reservations ≤ reservations held := le_account (fun _ h => h.reservations) held fid
    rw [waiting] at some
    simp only [Holding.before, Holding.reservations] at some
    simp only [reduceCtorEq, if_false]
    omega
  | exclusive =>
    have block := kept.exclusive_free only waiting
    simp only [reduceCtorEq, if_false]
    omega

/-- A family that takes no registers of this type gives a reserved context back
to the normal pool, but not to the reserved counter. -/
theorem Kept.commit_none (kept : Kept blockSize size τ type held) {context : ContextType} {sizes : RegType → Nat}
    {base : RegType → Option Nat} (waiting : held fid = .before context) (unused : base τ = none) (count : Nat) :
    ∃ type', type.commit fid context count (base τ) = .ok type' ∧
      Kept blockSize size τ type' (Function.update held fid (.registers context sizes base)) ∧
      type'.free.reserved = type.free.reserved := by
  obtain ⟨reservation, _, exclusive, blocks⟩ := update_sums τ blockSize held fid (.registers context sizes base)
  have noArea : (Holding.registers context sizes base).area τ blockSize = none := by
    simp only [Holding.area, unused, Option.map_none]
  have noBlock : (Holding.registers context sizes base).exclusiveBlocks τ = 0 := by
    cases context <;> simp [Holding.exclusiveBlocks, unused]
  rw [waiting, noBlock] at exclusive
  rw [waiting] at reservation blocks
  simp only [Holding.blocks, noArea, Option.elim_none, Nat.add_zero] at blocks
  have normal := kept.normal
  have reserved := kept.reserved
  have exclusiveKept := kept.exclusive
  have before : (Holding.before context).exclusiveBlocks τ = 0 ∧ (Holding.before context).area τ blockSize = none := by
    cases context <;> exact ⟨rfl, rfl⟩
  rw [before.1] at exclusive
  rw [before.2, Option.elim_none] at blocks
  rw [unused]
  by_cases special : context = .reserved
  · subst special
    refine ⟨_, rfl, ?_, rfl⟩
    simp only [Holding.before, Holding.reservations] at reservation
    exact {
      same := kept.same
      positive := kept.positive
      length := kept.length
      tiled := kept.tiled
      owned := kept.owned_update noArea fun _ _ _ _ _ => rfl
      normal := by simp only; omega
      reserved := by simp only; omega
      exclusive := by simp only; omega
      allocated := blocks.trans kept.allocated }
  · have unchanged : reservations (Function.update held fid (.registers context sizes base)) = reservations held := by
      cases context with
      | normal => exact reservation
      | reserved => exact absurd rfl special
      | exclusive => exact reservation
    refine ⟨type, by simp [TypeInfo.commit, special], ?_, rfl⟩
    exact {
      same := kept.same
      positive := kept.positive
      length := kept.length
      tiled := kept.tiled
      owned := kept.owned_update noArea fun _ _ _ _ _ => rfl
      normal := by omega
      reserved := by omega
      exclusive := by omega
      allocated := blocks.trans kept.allocated }

/-- The new area lies where no area was, so all other areas keep their entries. -/
theorem Kept.commit_some (kept : Kept blockSize size τ type held) (only : exclusives held ≤ 1)
    {context : ContextType} {sizes : RegType → Nat} {base : RegType → Option Nat} {start : Nat}
    (waiting : held fid = .before context) (found : base τ = some (start * type.blockSize)) (used : sizes τ ≠ 0)
    (gap : Gap (taken 0 type.list) start (type.blocks (sizes τ)))
    (enough : type.blocks (sizes τ) ≤ if context = .normal then type.free.normal else type.free.normal + 1) :
    ∃ type', type.commit fid context (sizes τ) (base τ) = .ok type' ∧
      Kept blockSize size τ type' (Function.update held fid (.registers context sizes base)) ∧
      type'.free.reserved + (if context = .reserved then 1 else 0) = type.free.reserved := by
  have same := kept.same
  subst same
  have nonempty := TypeInfo.blocks_pos kept.positive used
  obtain ⟨oldOwner, empty⟩ := gap.entry_zero nonempty
  have place : start * type.blockSize / type.blockSize = start := Nat.mul_div_cancel _ kept.positive
  have more := claimed_set empty (type.blocks (sizes τ), some fid)
  obtain ⟨reservation, _, exclusive, blocks⟩ :=
    update_sums τ type.blockSize held fid (.registers context sizes base)
  have area : (Holding.registers context sizes base).area τ type.blockSize =
      some (start * type.blockSize, type.blocks (sizes τ)) := by
    simp only [Holding.area, found, Option.map_some, TypeInfo.blocks]
  have owned (other : LFID) (base' blocks' : Nat)
      (there : (Function.update held fid (.registers context sizes base) other).area τ type.blockSize =
        some (base', blocks')) : 0 < blocks' ∧ type.blockSize ∣ base' ∧
        (type.list.set start (type.blocks (sizes τ), some fid))[base' / type.blockSize]? = some (blocks', some other) := by
    have within := (List.getElem?_eq_some_iff.mp empty).1
    by_cases self : other = fid
    · subst self
      rw [Function.update_self, area] at there
      cases there
      refine ⟨nonempty, Nat.dvd_mul_left _ _, ?_⟩
      rw [place, List.getElem?_set_self within]
    · rw [Function.update_of_ne self] at there
      obtain ⟨positive, aligned, entry⟩ := kept.owned other base' blocks' there
      have apart : start ≠ base' / type.blockSize := by
        intro clash
        rw [← clash, empty] at entry
        cases entry
        omega
      exact ⟨positive, aligned, (List.getElem?_set_ne apart).trans entry⟩
  have list : (type.list.set start (type.blocks (sizes τ), some fid)).length = type.list.length := List.length_set
  have normal := kept.normal
  have reserved := kept.reserved
  have exclusiveKept := kept.exclusive
  have allocated := kept.allocated
  have before : (Holding.before context).exclusiveBlocks τ = 0 ∧
      (Holding.before context).blocks τ type.blockSize = 0 := by
    cases context <;> exact ⟨rfl, rfl⟩
  rw [waiting, before.1] at exclusive
  rw [waiting, before.2] at blocks
  rw [waiting] at reservation
  have isSome : (base τ).isSome = true := by rw [found]; rfl
  simp only [Holding.blocks, area, Option.elim_some] at blocks
  rw [found, TypeInfo.commit, place]
  cases context with
  | normal =>
    simp only [if_true] at enough
    simp only [Holding.before, Holding.reservations, Holding.exclusiveBlocks] at reservation exclusive
    refine ⟨_, by rw [if_pos rfl, if_neg (by omega)], ?_, by simp⟩
    exact {
      same := rfl
      positive := kept.positive
      length := by simp only [list]; exact kept.length
      tiled := kept.tiled.place nonempty gap _
      owned := owned
      normal := by simp only [list]; omega
      reserved := by simp only; omega
      exclusive := by simp only; omega
      allocated := by simp only; omega }
  | reserved =>
    have one : (held fid).reservations ≤ reservations held := le_account (fun _ h => h.reservations) held fid
    rw [waiting] at one
    simp only [reduceCtorEq, if_false] at enough
    simp only [Holding.before, Holding.reservations, Holding.exclusiveBlocks] at reservation exclusive one
    refine ⟨_, by
      rw [if_neg (by simp), if_neg (by simp only [Free.get]; omega),
        if_neg (by simp only [Free.use]; omega)], ?_, by simp only [Free.use, if_true]; omega⟩
    exact {
      same := rfl
      positive := kept.positive
      length := by simp only [list]; exact kept.length
      tiled := kept.tiled.place nonempty gap _
      owned := owned
      normal := by simp only [list, Free.use]; omega
      reserved := by simp only [Free.use]; omega
      exclusive := by simp only [Free.use]; omega
      allocated := by simp only; omega }
  | exclusive =>
    have block := kept.exclusive_free only waiting
    simp only [reduceCtorEq, if_false] at enough
    simp only [Holding.before, Holding.reservations, Holding.exclusiveBlocks, isSome, if_true] at reservation exclusive
    refine ⟨_, by
      rw [if_neg (by simp), if_neg (by simp only [Free.get]; omega),
        if_neg (by simp only [Free.use]; omega)], ?_, by simp [Free.use]⟩
    exact {
      same := rfl
      positive := kept.positive
      length := by simp only [list]; exact kept.length
      tiled := kept.tiled.place nonempty gap _
      owned := owned
      normal := by simp only [list, Free.use]; omega
      reserved := by simp only [Free.use]; omega
      exclusive := by simp only [Free.use]; omega
      allocated := by simp only; omega }

/-- `Free` finds the family's own entry, so it takes the area of no other. -/
theorem Kept.release (kept : Kept blockSize size τ type held) {context : ContextType} {sizes : RegType → Nat}
    {base : RegType → Option Nat} (live : held fid = .registers context sizes base) :
    ∃ type', type.release (if context = .exclusive then .exclusive else .normal) (base τ) = .ok type' ∧
      Kept blockSize size τ type' (Function.update held fid .nothing) ∧
      type'.free.reserved = type.free.reserved := by
  have same := kept.same
  subst same
  obtain ⟨reservation, _, exclusive, blocks⟩ := update_sums τ type.blockSize held fid .nothing
  have none : Holding.nothing.blocks τ type.blockSize = 0 := rfl
  have noReservation : (Holding.registers context sizes base).reservations = 0 := rfl
  rw [live, noReservation] at reservation
  rw [live] at exclusive blocks
  simp only [none, Holding.reservations, Nat.add_zero] at reservation blocks
  have normal := kept.normal
  have reserved := kept.reserved
  have exclusiveKept := kept.exclusive
  have allocated := kept.allocated
  cases atBase : base τ with
  | none =>
    have noArea : (Holding.registers context sizes base).blocks τ type.blockSize = 0 := by
      simp only [Holding.blocks, Holding.area, atBase, Option.map_none, Option.elim_none]
    have noBlock : (Holding.registers context sizes base).exclusiveBlocks τ = 0 := by
      cases context <;> simp [Holding.exclusiveBlocks, atBase]
    rw [noBlock] at exclusive
    rw [noArea] at blocks
    simp only [Holding.exclusiveBlocks, Nat.add_zero] at exclusive blocks
    refine ⟨type, rfl, ?_, rfl⟩
    exact {
      same := rfl
      positive := kept.positive
      length := kept.length
      tiled := kept.tiled
      owned := kept.owned_update rfl fun _ _ _ _ _ => rfl
      normal := by omega
      reserved := by omega
      exclusive := by omega
      allocated := blocks.trans allocated }
  | some index =>
    have area : (Holding.registers context sizes base).area τ type.blockSize =
        some (index, type.blocks (sizes τ)) := by
      simp only [Holding.area, atBase, Option.map_some, TypeInfo.blocks]
    obtain ⟨positive, _, entry⟩ := kept.owned fid index _ (live ▸ area)
    have less := claimed_set entry (0, some fid)
    have isSome : (base τ).isSome = true := by rw [atBase]; rfl
    simp only [Holding.blocks, area, Option.elim_some] at blocks
    have list : (type.list.set (index / type.blockSize) (0, some fid)).length = type.list.length := List.length_set
    have others (other : LFID) (base' blocks' : Nat) (different : other ≠ fid)
        (there : (held other).area τ type.blockSize = some (base', blocks')) :
        (type.list.set (index / type.blockSize) (0, some fid))[base' / type.blockSize]? =
          type.list[base' / type.blockSize]? := by
      obtain ⟨_, _, entry'⟩ := kept.owned other base' blocks' there
      refine List.getElem?_set_ne fun clash => ?_
      rw [← clash, entry] at entry'
      cases entry'
      exact different rfl
    have notZero : type.blocks (sizes τ) ≠ 0 := by omega
    have kind (context' : ContextType) : type.release context' (some index) =
        if context' = .exclusive then
          if type.free.exclusive ≠ 0 then .error .assertion
          else .ok { type with
            list := type.list.set (index / type.blockSize) (0, some fid)
            free := { type.free with exclusive := 1, normal := type.free.normal + (type.blocks (sizes τ) - 1) } }
        else .ok { type with
          list := type.list.set (index / type.blockSize) (0, some fid)
          free := { type.free with normal := type.free.normal + type.blocks (sizes τ) } } := by
      simp only [TypeInfo.release, entry, notZero, if_false]
    by_cases special : context = .exclusive
    · subst special
      simp only [Holding.exclusiveBlocks, isSome, if_true] at exclusive
      rw [if_pos rfl, kind, if_pos rfl, if_neg (by omega)]
      refine ⟨_, rfl, ?_, rfl⟩
      exact {
        same := rfl
        positive := kept.positive
        length := by simp only [list]; exact kept.length
        tiled := kept.tiled.clear _
        owned := kept.owned_update rfl others
        normal := by simp only [list]; omega
        reserved := by simp only; omega
        exclusive := by simp only; omega
        allocated := by simp only; omega }
    · have noBlock : (Holding.registers context sizes base).exclusiveBlocks τ = 0 := by
        cases context with
        | normal => rfl
        | reserved => rfl
        | exclusive => exact absurd rfl special
      rw [noBlock] at exclusive
      simp only [Holding.exclusiveBlocks, Nat.add_zero] at exclusive
      rw [if_neg special, kind, if_neg (by simp)]
      refine ⟨_, rfl, ?_, rfl⟩
      exact {
        same := rfl
        positive := kept.positive
        length := by simp only [list]; exact kept.length
        tiled := kept.tiled.clear _
        owned := kept.owned_update rfl others
        normal := by simp only [list]; omega
        reserved := by simp only; omega
        exclusive := by simp only; omega
        allocated := by simp only; omega }

end Operations

/-- What every call of the allocator keeps. -/
structure Consistent (blockSize size : RegType → Nat) (s : State LFID) : Prop where
  kept : ∀ τ, Kept (blockSize τ) (size τ) τ (s.unit τ) s.held
  only : exclusives s.held ≤ 1

/-- The reserved blocks in the counter that no family has reserved. -/
def State.spare (s : State LFID) (τ : RegType) : Nat := (s.unit τ).free.reserved - reservations s.held

section Steps
variable {blockSize size : RegType → Nat} {s s' : State LFID} {call : Call LFID} {fid : LFID}

theorem Consistent.reserveContext (ok : Consistent blockSize size s) (may : MayCall s (.reserveContext fid)) :
    ∃ s', step s (.reserveContext fid) = some s' ∧ Consistent blockSize size s' ∧ ∀ τ, s'.spare τ = s.spare τ := by
  obtain ⟨idle, available⟩ := may
  choose unit made kept counter using fun τ => (ok.kept τ).reserveContext
    (Nat.lt_of_lt_of_le available (s.unit.getNumFreeContexts_le .normal τ)) idle
  obtain ⟨reservation, exclusive, _⟩ := update_sums .integer 0 s.held fid .reserved
  rw [idle] at reservation exclusive
  simp only [Holding.reservations, Holding.exclusives] at reservation exclusive
  have only := ok.only
  refine ⟨⟨unit, Function.update s.held fid .reserved⟩, ?_, ⟨kept, by simp only; omega⟩, fun τ => ?_⟩
  · simp only [step, RAUnit.reserveContext, eachType_of_ok made]
  · have more := counter τ
    simp only [State.spare]
    omega

theorem Consistent.takeExclusive (ok : Consistent blockSize size s) (may : MayCall s (.takeExclusive fid)) :
    ∃ s', step s (.takeExclusive fid) = some s' ∧ Consistent blockSize size s' ∧ ∀ τ, s'.spare τ = s.spare τ := by
  obtain ⟨idle, _, free⟩ := may
  obtain ⟨reservation, exclusive, _⟩ := update_sums .integer 0 s.held fid .exclusive
  have nobody : exclusives s.held = 0 := account_eq_zero.mpr free
  rw [idle] at reservation exclusive
  simp only [Holding.reservations, Holding.exclusives] at reservation exclusive
  refine ⟨_, rfl, ⟨fun τ => (ok.kept τ).takeExclusive idle, by simp only; omega⟩, fun τ => ?_⟩
  simp only [State.spare]
  omega

theorem Consistent.unreserveContext (ok : Consistent blockSize size s) (may : MayCall s (.unreserveContext fid)) :
    ∃ s', step s (.unreserveContext fid) = some s' ∧ Consistent blockSize size s' ∧ ∀ τ, s'.spare τ = s.spare τ := by
  have waiting : s.held fid = .reserved := may
  choose unit made kept counter using fun τ => (ok.kept τ).unreserveContext waiting
  obtain ⟨reservation, exclusive, _⟩ := update_sums .integer 0 s.held fid .nothing
  rw [waiting] at reservation exclusive
  simp only [Holding.reservations, Holding.exclusives] at reservation exclusive
  have only := ok.only
  refine ⟨⟨unit, Function.update s.held fid .nothing⟩, ?_, ⟨kept, by simp only; omega⟩, fun τ => ?_⟩
  · simp only [step, RAUnit.unreserveContext, eachType_of_ok made]
  · have less := counter τ
    simp only [State.spare]
    omega

theorem Consistent.free (ok : Consistent blockSize size s) (may : MayCall s (.free fid)) :
    ∃ s', step s (.free fid) = some s' ∧ Consistent blockSize size s' ∧ ∀ τ, s'.spare τ = s.spare τ := by
  obtain ⟨context, sizes, base, live⟩ := may
  choose unit made kept counter using fun τ => (ok.kept τ).release live
  obtain ⟨reservation, exclusive, _⟩ := update_sums .integer 0 s.held fid .nothing
  rw [live] at reservation exclusive
  simp only [Holding.reservations, Holding.exclusives, Nat.add_zero] at reservation exclusive
  have only := ok.only
  refine ⟨⟨unit, Function.update s.held fid .nothing⟩, ?_, ⟨kept, by simp only; omega⟩, fun τ => ?_⟩
  · simp only [step, live, RAUnit.free, eachType_of_ok made]
  · have same := counter τ
    simp only [State.spare]
    omega

/-- The search of `Alloc` for one register type in a reachable state. -/
theorem Consistent.find_spec (ok : Consistent blockSize size s) {context : ContextType}
    (waiting : s.held fid = .before context) (registers : Nat) (τ : RegType) :
    ((s.unit τ).find registers context = .error .noRoom ∧ ¬ (s.unit τ).HasRoom registers context) ∨
    ((s.unit τ).find registers context = .ok none ∧ registers = 0) ∨
    ∃ start, (s.unit τ).find registers context = .ok (some (start * (s.unit τ).blockSize)) ∧ registers ≠ 0 ∧
      Gap (taken 0 (s.unit τ).list) start ((s.unit τ).blocks registers) ∧
      (s.unit τ).blocks registers ≤
        (if context = .normal then (s.unit τ).free.normal else (s.unit τ).free.normal + 1) :=
  TypeInfo.find_spec ((ok.kept τ).same ▸ (ok.kept τ).positive) ((ok.kept τ).fits ok.only waiting)

/-- With room for every type, `Alloc` gives the family its registers; a reserved
context without registers of a type stays in the counter. -/
theorem Consistent.alloc_room (ok : Consistent blockSize size s) {context : ContextType} {sizes : RegType → Nat}
    (waiting : s.held fid = .before context) (room : ∀ τ, (s.unit τ).HasRoom (sizes τ) context) :
    ∃ unit base, s.unit.alloc sizes fid context = .ok (unit, base) ∧
      Consistent blockSize size ⟨unit, Function.update s.held fid (.registers context sizes base)⟩ ∧
      ∀ τ, State.spare ⟨unit, Function.update s.held fid (.registers context sizes base)⟩ τ =
        s.spare τ + if context = .reserved ∧ sizes τ = 0 then 1 else 0 := by
  have found (τ : RegType) : ∃ index, (s.unit τ).find (sizes τ) context = .ok index ∧
      (index = none ∧ sizes τ = 0 ∨ ∃ start, index = some (start * (s.unit τ).blockSize) ∧ sizes τ ≠ 0 ∧
        Gap (taken 0 (s.unit τ).list) start ((s.unit τ).blocks (sizes τ)) ∧
        (s.unit τ).blocks (sizes τ) ≤
          if context = .normal then (s.unit τ).free.normal else (s.unit τ).free.normal + 1) := by
    rcases ok.find_spec waiting (sizes τ) τ with ⟨_, noRoom⟩ | ⟨done, empty⟩ | ⟨start, done, rest⟩
    · exact absurd (room τ) noRoom
    · exact ⟨none, done, Or.inl ⟨rfl, empty⟩⟩
    · exact ⟨some _, done, Or.inr ⟨start, rfl, rest⟩⟩
  choose base done place using found
  have commits (τ : RegType) : ∃ type', (s.unit τ).commit fid context (sizes τ) (base τ) = .ok type' ∧
      Kept (blockSize τ) (size τ) τ type' (Function.update s.held fid (.registers context sizes base)) ∧
      type'.free.reserved + (if context = .reserved ∧ sizes τ ≠ 0 then 1 else 0) =
        (s.unit τ).free.reserved := by
    rcases place τ with ⟨unused, empty⟩ | ⟨start, atStart, used, gap, enough⟩
    · obtain ⟨type', made, kept, counter⟩ := (ok.kept τ).commit_none waiting unused (sizes τ)
      exact ⟨type', made, kept, by simpa [empty] using counter⟩
    · obtain ⟨type', made, kept, counter⟩ := (ok.kept τ).commit_some ok.only waiting atStart used gap enough
      exact ⟨type', made, kept, by simpa [used] using counter⟩
  choose unit made kept counter using commits
  obtain ⟨reservation, exclusive, _⟩ := update_sums .integer 0 s.held fid (.registers context sizes base)
  have only := ok.only
  rw [waiting] at reservation exclusive
  refine ⟨unit, base, ?_, ⟨kept, ?_⟩, fun τ => ?_⟩
  · simp only [RAUnit.alloc, eachType_of_ok done, eachType_of_ok made]
  · cases context <;> simp only [Holding.before, Holding.exclusives] at exclusive ⊢ <;> omega
  · have change := counter τ
    have before := (ok.kept τ).reserved
    have after := (kept τ).reserved
    simp only [State.spare]
    cases context with
    | normal => simp [Holding.before, Holding.reservations] at reservation change ⊢; omega
    | exclusive => simp [Holding.before, Holding.reservations] at reservation change ⊢; omega
    | reserved =>
      simp only [Holding.before, Holding.reservations, true_and] at reservation change ⊢
      by_cases empty : sizes τ = 0
      · simp only [empty, ne_eq, not_true_eq_false, if_false, if_true] at change ⊢
        omega
      · simp only [empty, ne_eq, not_false_eq_true, if_false, if_true] at change ⊢
        omega

theorem Consistent.alloc_noRoom (ok : Consistent blockSize size s) {context : ContextType} {sizes : RegType → Nat}
    (waiting : s.held fid = .before context) {τ : RegType} (noRoom : ¬ (s.unit τ).HasRoom (sizes τ) context) :
    s.unit.alloc sizes fid context = .error .noRoom := by
  have spec (υ : RegType) := ok.find_spec waiting (sizes υ) υ
  have failed : eachType (fun τ => (s.unit τ).find (sizes τ) context) = .error .noRoom := by
    refine eachType_of_error (fun υ => ?_) ⟨τ, ?_⟩
    · rcases spec υ with ⟨failed, _⟩ | ⟨done, _⟩ | ⟨start, done, _⟩
      · exact Or.inl failed
      · exact Or.inr ⟨_, done⟩
      · exact Or.inr ⟨_, done⟩
    · rcases spec τ with ⟨failed, _⟩ | ⟨_, empty⟩ | ⟨start, _, _, gap, enough⟩
      · exact failed
      · exact absurd (Or.inl empty) noRoom
      · exact absurd (Or.inr ⟨enough, start, gap⟩) noRoom
  simp only [RAUnit.alloc, failed]

/-- `Alloc` either finds no room and changes nothing, or gives the family its
registers. -/
theorem Consistent.alloc (ok : Consistent blockSize size s) {context : ContextType} {sizes : RegType → Nat}
    (may : MayCall s (.alloc fid context sizes)) :
    ∃ s', step s (.alloc fid context sizes) = some s' ∧ Consistent blockSize size s' ∧
      ((∃ τ, ¬ (s.unit τ).HasRoom (sizes τ) context) ∧ s' = s ∨
        (∀ τ, (s.unit τ).HasRoom (sizes τ) context) ∧
          ∀ τ, s'.spare τ = s.spare τ + if context = .reserved ∧ sizes τ = 0 then 1 else 0) := by
  have waiting : s.held fid = .before context := may
  by_cases room : ∀ τ, (s.unit τ).HasRoom (sizes τ) context
  · obtain ⟨unit, base, found, after, change⟩ := ok.alloc_room waiting room
    exact ⟨_, by simp only [step, found], after, Or.inr ⟨room, change⟩⟩
  · obtain ⟨τ, noRoom⟩ := not_forall.mp room
    exact ⟨s, by simp only [step, ok.alloc_noRoom waiting noRoom], ok, Or.inl ⟨⟨τ, noRoom⟩, rfl⟩⟩

/-- Every call that the allocator can make goes through without an assertion;
the spare reserved blocks grow exactly when a reservation is left behind. -/
theorem Consistent.step (ok : Consistent blockSize size s) (may : MayCall s call) :
    ∃ s', step s call = some s' ∧ Consistent blockSize size s' ∧ (∀ τ, s.spare τ ≤ s'.spare τ) ∧
      (UsesReservation s call ↔ ∀ τ, s'.spare τ = s.spare τ) := by
  cases call with
  | reserveContext fid =>
    obtain ⟨s', taken, after, same⟩ := ok.reserveContext may
    exact ⟨s', taken, after, fun τ => (same τ).ge, fun _ => same, fun _ => trivial⟩
  | takeExclusive fid =>
    obtain ⟨s', taken, after, same⟩ := ok.takeExclusive may
    exact ⟨s', taken, after, fun τ => (same τ).ge, fun _ => same, fun _ => trivial⟩
  | unreserveContext fid =>
    obtain ⟨s', taken, after, same⟩ := ok.unreserveContext may
    exact ⟨s', taken, after, fun τ => (same τ).ge, fun _ => same, fun _ => trivial⟩
  | free fid =>
    obtain ⟨s', taken, after, same⟩ := ok.free may
    exact ⟨s', taken, after, fun τ => (same τ).ge, fun _ => same, fun _ => trivial⟩
  | alloc fid context sizes =>
    obtain ⟨s', taken, after, ⟨⟨τ, noRoom⟩, rfl⟩ | ⟨room, change⟩⟩ := ok.alloc may
    · refine ⟨s', taken, after, fun τ => Nat.le_refl _, fun _ τ => rfl, fun _ => ?_⟩
      cases context with
      | reserved => exact fun all => absurd (all τ) noRoom
      | normal => trivial
      | exclusive => trivial
    · refine ⟨s', taken, after, fun τ => by rw [change]; exact Nat.le_add_right _ _, ?_⟩
      cases context with
      | normal => exact ⟨fun _ τ => change τ, fun _ => trivial⟩
      | exclusive => exact ⟨fun _ τ => change τ, fun _ => trivial⟩
      | reserved =>
        constructor
        · intro uses τ
          rw [change, if_neg (fun both => uses room τ both.2)]
          rfl
        · intro same _ τ empty
          have more := change τ
          rw [same, if_pos ⟨rfl, empty⟩] at more
          omega

end Steps

omit [DecidableEq LFID] in
/-- A unit that the constructor makes has all its blocks free. -/
theorem consistent_create {blockSize size : RegType → Nat} {unit : RAUnit LFID}
    (made : RAUnit.create blockSize size = .ok unit) :
    Consistent blockSize size (⟨unit, fun _ => .nothing⟩ : State LFID) ∧
      ∀ τ, (⟨unit, fun _ => .nothing⟩ : State LFID).spare τ = 0 := by
  have none : reservations (fun _ : LFID => Holding.nothing) = 0 := account_eq_zero.mpr fun _ => rfl
  refine ⟨⟨fun τ => ?_, Nat.le_trans (Nat.le_of_eq (account_eq_zero.mpr fun _ => rfl)) (Nat.zero_le _)⟩, fun τ => ?_⟩
  rotate_left
  · simp only [State.spare, (TypeInfo.create_ok (eachType_ok made τ)).2.2.2, Nat.zero_sub]
  obtain ⟨positive, multiple, two, start⟩ := TypeInfo.create_ok (eachType_ok made τ)
  have empty : claimed (List.replicate (size τ / blockSize τ) ((0, Option.none) : Nat × Option LFID)) = 0 := by
    simp [claimed]
  simp only [start]
  exact {
    same := rfl
    positive := positive
    length := by simpa using multiple
    tiled := tiled_replicate _ _
    owned := fun _ _ _ area => by cases area
    normal := by simp only [none, empty, List.length_replicate]; omega
    reserved := by rw [none]
    exclusive := congrArg (1 + ·) (account_eq_zero.mpr fun _ => rfl)
    allocated := (account_eq_zero.mpr fun _ => rfl).trans empty.symm }

omit [DecidableEq LFID] in
/-- In a consistent state only spare reserved blocks disturb the sum of the counters. -/
theorem Consistent.sound_iff {blockSize size : RegType → Nat} {s : State LFID} (ok : Consistent blockSize size s) :
    Sound blockSize size s ↔ ∀ τ, s.spare τ = 0 := by
  have total (τ : RegType) : (s.unit τ).list.length = size τ / blockSize τ := by
    rw [← (ok.kept τ).length, Nat.mul_div_cancel _ (ok.kept τ).positive]
  have sum (τ : RegType) := (ok.kept τ).normal
  have counted (τ : RegType) := (ok.kept τ).reserved
  constructor
  · intro sound τ
    have counters := sound.counters τ
    rw [← total] at counters
    have normal := sum τ
    simp only [State.spare]
    omega
  · intro unspare
    have place (τ : RegType) (fid : LFID) (base registers : Nat) (area : s.run τ fid = some (base, registers)) :
        ∃ start blocks, base = start * blockSize τ ∧ registers = blocks * blockSize τ ∧ 0 < blocks ∧
          (s.unit τ).list[start]? = some (blocks, some fid) := by
      obtain ⟨⟨base', blocks⟩, held, pair⟩ := Option.map_eq_some_iff.mp area
      rw [(ok.kept τ).same] at held pair
      cases pair
      obtain ⟨nonempty, aligned, entry⟩ := (ok.kept τ).owned fid base' blocks held
      exact ⟨base' / blockSize τ, blocks, (Nat.div_mul_cancel aligned).symm, rfl, nonempty, entry⟩
    constructor
    · intro τ fid other base registers base' registers' different first second
      obtain ⟨start, blocks, rfl, rfl, nonempty, entry⟩ := place τ fid base registers first
      obtain ⟨start', blocks', rfl, rfl, nonempty', entry'⟩ := place τ other base' registers' second
      rw [← Nat.add_mul, ← Nat.add_mul]
      rcases Nat.lt_trichotomy start start' with order | same | order
      · exact Or.inl (Nat.mul_le_mul_right _ ((ok.kept τ).tiled.apart entry entry' order nonempty'))
      · rw [same, entry'] at entry
        cases entry
        exact absurd rfl different
      · exact Or.inr (Nat.mul_le_mul_right _ ((ok.kept τ).tiled.apart entry' entry order nonempty))
    · intro τ fid base registers area
      obtain ⟨start, blocks, rfl, rfl, _, _⟩ := place τ fid base registers area
      exact ⟨Nat.dvd_mul_left _ _, Nat.dvd_mul_left _ _⟩
    · intro τ fid base registers area
      obtain ⟨start, blocks, rfl, rfl, nonempty, entry⟩ := place τ fid base registers area
      refine ⟨Nat.mul_pos nonempty (ok.kept τ).positive, ?_⟩
      rw [← Nat.add_mul, ← (ok.kept τ).length]
      exact Nat.mul_le_mul_right _ ((ok.kept τ).tiled.inside entry)
    · exact fun τ => (ok.kept τ).allocated
    · intro τ
      have none := unspare τ
      have normal := sum τ
      have reserved := counted τ
      simp only [State.spare] at none
      rw [← total]
      omega

/-- In every run of calls that the allocator can make, the areas of the
families and the counters are sound as long as no reservation is left behind. -/
theorem register_blocks_sound {blockSize size : RegType → Nat} {unit : RAUnit LFID} {s : State LFID}
    {calls : List (Call LFID)} (made : RAUnit.create blockSize size = .ok unit)
    (run : Run step MayCall ⟨unit, fun _ => .nothing⟩ calls s) :
    Sound blockSize size s ↔
      Run step (fun s call => MayCall s call ∧ UsesReservation s call) ⟨unit, fun _ => .nothing⟩ calls s := by
  have begin := consistent_create made
  have every : Consistent blockSize size s ∧ ((∀ τ, s.spare τ = 0) →
      Run step (fun s call => MayCall s call ∧ UsesReservation s call) ⟨unit, fun _ => .nothing⟩ calls s) := by
    induction run with
    | start => exact ⟨begin.1, fun _ => .start⟩
    | next _ may taken ih =>
      obtain ⟨after, taken', ok, more, uses⟩ := ih.1.step may
      cases taken.symm.trans taken'
      refine ⟨ok, fun unspare => ?_⟩
      have before (τ : RegType) := Nat.eq_zero_of_le_zero (unspare τ ▸ more τ)
      exact .next (ih.2 before) ⟨may, uses.mpr fun τ => (unspare τ).trans (before τ).symm⟩ taken
  rw [every.1.sound_iff]
  refine ⟨every.2, fun careful => ?_⟩
  have zero := careful.invariant (I := fun s => Consistent blockSize size s ∧ ∀ τ, s.spare τ = 0) begin
    fun s call s' before allowed taken => by
      obtain ⟨after, taken', ok, _, uses⟩ := before.1.step allowed.1
      cases taken.symm.trans taken'
      exact ⟨ok, fun τ => (uses.mp allowed.2 τ).trans (before.2 τ)⟩
  exact zero.2

/-- One register of each type for a family whose context was reserved. -/
theorem register_blocks_sound_family : ∃ (unit : RAUnit (Fin 2)) (s : State (Fin 2)),
    RAUnit.create (fun _ => 32) (fun _ => 128) = .ok unit ∧
    Run step MayCall ⟨unit, fun _ => .nothing⟩ [.reserveContext 0, .alloc 0 .reserved fun _ => 1] s ∧
    Sound (fun _ => 32) (fun _ => 128) s := by
  have run : ∃ (unit : RAUnit (Fin 2)) (s : State (Fin 2)), RAUnit.create (fun _ => 32) (fun _ => 128) = .ok unit ∧
      Run step (fun s call => MayCall s call ∧ UsesReservation s call) ⟨unit, fun _ => .nothing⟩
        [.reserveContext 0, .alloc 0 .reserved fun _ => 1] s := by
    refine ⟨_, _, rfl, .next (.next .start ⟨⟨rfl, ?_⟩, trivial⟩ rfl) ⟨?_, fun _ τ => Nat.one_ne_zero⟩ rfl⟩
    · rfl
    · decide
  obtain ⟨unit, s, made, careful⟩ := run
  have plain := careful.weaken fun _ _ both => both.1
  exact ⟨unit, s, made, plain, (register_blocks_sound made plain).mpr careful⟩

/-- A family without float registers: its reserved float block goes back to
the normal counter and stays in the reserved one. -/
theorem reservation_left_behind : ∃ (unit : RAUnit (Fin 2)) (s : State (Fin 2)),
    RAUnit.create (fun _ => 32) (fun _ => 128) = .ok unit ∧
    Run step MayCall ⟨unit, fun _ => .nothing⟩
      [.reserveContext 0, .alloc 0 .reserved fun | .integer => 1 | .float => 0] s ∧
    (s.unit .float).free = ⟨3, 1, 1⟩ ∧ claimed (s.unit .float).list = 0 ∧
    ¬ Sound (fun _ => 32) (fun _ => 128) s := by
  refine ⟨_, _, rfl, .next (.next .start ⟨rfl, ?_⟩ rfl) ?_ rfl, rfl, rfl, fun sound => ?_⟩
  · rfl
  · exact absurd (sound.counters .float) (by decide)
  · decide

end Mgsim.Drisc.RAUnit
