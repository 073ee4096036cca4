import Mgsim.Drisc.FamilyCreation
import Mathlib.Order.Interval.Finset.Nat

namespace Mgsim.Drisc
open Mgsim.Lib

inductive RegClass
  | global
  | shared
  | local
  | dependent
  | raz
  deriving DecidableEq

/-- The remote registers that `GetRemoteRegisterAddress` knows. -/
inductive RemoteRegType
  | global
  | firstDependent
  | lastShared
  deriving DecidableEq

namespace RegsNo

/-- The order of the classes of the microthreaded instruction sets, with the index in the class. -/
def classify (regs : RegsNo) (addr : Nat) : RegClass × Nat :=
  if addr < regs.locals then (.local, addr)
  else
    let addr := addr - regs.locals
    if addr < regs.globals then (.global, addr)
    else
      let addr := addr - regs.globals
      if addr < regs.shareds then (.shared, addr)
      else
        let addr := addr - regs.shareds
        if addr < regs.shareds then (.dependent, addr) else (.raz, 0)

/-- The number of registers of a class. -/
def ofClass (regs : RegsNo) : RegClass → Nat
  | .global => regs.globals
  | .shared | .dependent => regs.shareds
  | .local => regs.locals
  | .raz => 0

end RegsNo

/-- Each instruction set has its own `GetRegisterClass`. -/
def getRegisterClass (t : Target) (type : RegType) (regs : RegsNo) (addr : Nat) : Except Failure (RegClass × Nat) :=
  match t with
  | .mtalpha => do
    require (regs.globals < 32 ∧ regs.shareds < 32 ∧ regs.locals < 32) .assertion
    pure (regs.classify addr)
  | .mtsparc => do
    require (regs.globals < 32 ∧ regs.shareds < 32 ∧ (type = .integer ∧ regs.locals < 32 ∨ regs.locals ≤ 32)) .assertion
    if type = .integer then
      -- integer register 0 reads as zero, floating point register 0 does not
      if addr = 0 then pure (.raz, addr) else pure (regs.classify (addr - 1))
    else pure (regs.classify addr)
  | .mips32 | .mips32el | .or1k => if 0 < addr ∧ addr - 1 < regs.locals then .ok (.local, addr - 1) else .ok (.raz, 0)

/-- The instruction set has registers for all classes. -/
def Target.isMicrothreaded : Target → Bool
  | .mtalpha | .mtsparc => true
  | .mips32 | .mips32el | .or1k => false

/-- The register that the operand `reg` of `size` bytes begins at, and whether it is a local one. -/
def translateRegister (t : Target) (family : FamilyRegs) (thread : ThreadRegs) (reg : Nat) (type : RegType) (size : Nat) :
    Except Failure (Option Nat × Bool) := do
  require (size % t.sizeofInteger = 0) .assertion
  let nRegs := size / t.sizeofInteger
  if nRegs = 0 then pure (some reg, false)
  else do
    let (rc, reg) ← getRegisterClass t type family.count reg
    match rc with
    | .global => do
      require (reg + nRegs ≤ family.count.globals) .exception
      pure (family.base.map (· + family.size - family.count.globals + reg), false)
    | .shared => do
      require (reg + nRegs ≤ family.count.shareds) .exception
      pure (thread.shareds.map (· + reg), false)
    | .local => do
      require (reg + nRegs ≤ family.count.locals) .exception
      pure (thread.locals.map (· + reg), true)
    | .dependent => do
      require (reg + nRegs ≤ family.count.shareds) .exception
      require (thread.dependents ≠ none) .assertion
      pure (thread.dependents.map (· + reg), false)
    | .raz => pure (none, false)

/-- The register `index` of the family's globals, of the dependents of its first thread, or
of the shareds of its last one. -/
def Allocator.getRemoteRegisterAddress {t : Target} (a : Allocator t) (fid : Nat) (kind : RemoteRegType) (type : RegType)
    (index : Nat) : Except Failure (Option Nat) := do
  let family := a.family fid
  let regs := family.regs type
  require (family.state ≠ .empty) .assertion
  match kind with
  | .global =>
    pure (if index < regs.count.globals then regs.base.map (· + regs.size - regs.count.globals + index) else none)
  | .lastShared => do
    require (regs.lastShareds ≠ none) .assertion
    pure (if index < regs.count.shareds then regs.lastShareds.map (· + index) else none)
  | .firstDependent => pure (if index < regs.count.shareds then regs.base.map (· + index) else none)

/-- The registers from the first one on; none if it is invalid. -/
def window (first : Option Nat) (count : Nat) : Finset Nat :=
  match first with
  | none => ∅
  | some first => Finset.Ico first (first + count)

theorem mem_window {first : Option Nat} {count r : Nat} :
    r ∈ window first count ↔ ∃ base, first = some base ∧ base ≤ r ∧ r < base + count := by
  cases first <;> simp [window]

namespace RegClass

/-- The first register of a class in a thread. -/
def first (rc : RegClass) (family : FamilyRegs) (thread : ThreadRegs) : Option Nat :=
  match rc with
  | .global => family.base.map (· + family.size - family.count.globals)
  | .shared => thread.shareds
  | .local => thread.locals
  | .dependent => thread.dependents
  | .raz => none

/-- The registers of a class in a thread. -/
def registers (rc : RegClass) (family : FamilyRegs) (thread : ThreadRegs) : Finset Nat :=
  window (rc.first family thread) (family.count.ofClass rc)

end RegClass

section Operands
variable {t : Target} {family : FamilyRegs} {thread : ThreadRegs} {reg size : Nat} {type : RegType}

/-- What an operand of at least one register is translated to. -/
theorem translateRegister_ok {index : Option Nat} {islocal : Bool}
    (done : translateRegister t family thread reg type size = .ok (index, islocal)) (some : size / t.sizeofInteger ≠ 0) :
    ∃ rc r, getRegisterClass t type family.count reg = .ok (rc, r) ∧ index = (rc.first family thread).map (· + r) ∧
      (islocal = true ↔ rc = .local) ∧ (rc ≠ .raz → r + size / t.sizeofInteger ≤ family.count.ofClass rc) := by
  unfold translateRegister at done
  obtain ⟨_, done⟩ := require_bind_ok done
  rw [if_neg some] at done
  obtain ⟨⟨rc, r⟩, found, done⟩ := bind_ok done
  refine ⟨rc, r, found, ?_⟩
  cases rc with
  | global =>
    obtain ⟨fits, done⟩ := require_bind_ok done
    cases done
    exact ⟨by rw [RegClass.first, Option.map_map]; rfl, by simp, fun _ => fits⟩
  | shared =>
    obtain ⟨fits, done⟩ := require_bind_ok done
    cases done
    exact ⟨rfl, by simp, fun _ => fits⟩
  | «local» =>
    obtain ⟨fits, done⟩ := require_bind_ok done
    cases done
    exact ⟨rfl, by simp, fun _ => fits⟩
  | dependent =>
    obtain ⟨fits, done⟩ := require_bind_ok done
    obtain ⟨_, done⟩ := require_bind_ok done
    cases done
    exact ⟨rfl, by simp, fun _ => fits⟩
  | raz =>
    cases done
    exact ⟨rfl, by simp, fun real => absurd rfl real⟩

theorem Target.sizeofInteger_pos (t : Target) : 0 < t.sizeofInteger := by
  cases t <;> decide

/-- An operand of one register in one of the classes is accepted. -/
theorem translateRegister_one {rc : RegClass} {r : Nat} (found : getRegisterClass t type family.count reg = .ok (rc, r))
    (fits : r < family.count.ofClass rc) (valid : rc = .dependent → thread.dependents ≠ none) :
    translateRegister t family thread reg type t.sizeofInteger =
      .ok ((rc.first family thread).map (· + r), decide (rc = .local)) := by
  have positive := t.sizeofInteger_pos
  have one : t.sizeofInteger / t.sizeofInteger = 1 := Nat.div_self positive
  unfold translateRegister
  rw [Nat.mod_self, one, found]
  cases rc with
  | global =>
    rw [RegsNo.ofClass] at fits
    rw [RegClass.first, Option.map_map]
    simp [require, bind, Except.bind, pure, Except.pure, Nat.succ_le_of_lt fits, Function.comp_def]
  | shared =>
    rw [RegsNo.ofClass] at fits
    simp [require, bind, Except.bind, pure, Except.pure, Nat.succ_le_of_lt fits, RegClass.first]
  | «local» =>
    rw [RegsNo.ofClass] at fits
    simp [require, bind, Except.bind, pure, Except.pure, Nat.succ_le_of_lt fits, RegClass.first]
  | dependent =>
    rw [RegsNo.ofClass] at fits
    simp [require, bind, Except.bind, pure, Except.pure, Nat.succ_le_of_lt fits, RegClass.first, valid]
  | raz => exact absurd fits (Nat.not_lt_zero r)

/-- The operand that is the first register of a class. -/
def RegsNo.offset (regs : RegsNo) : RegClass → Nat
  | .local | .raz => 0
  | .global => regs.locals
  | .shared => regs.locals + regs.globals
  | .dependent => regs.locals + regs.globals + regs.shareds

theorem RegsNo.classify_offset {regs : RegsNo} {rc : RegClass} {r : Nat} (inside : r < regs.ofClass rc) :
    regs.classify (regs.offset rc + r) = (rc, r) := by
  cases rc with
  | raz => exact absurd inside (Nat.not_lt_zero r)
  | _ => grind [RegsNo.classify, RegsNo.offset, RegsNo.ofClass]

/-- The counts are five bits wide, and the create of a family checks that there are operands for all registers. -/
def RegsNo.Fits (t : Target) (type : RegType) (regs : RegsNo) : Prop :=
  regs.globals < 32 ∧ regs.shareds < 32 ∧ regs.globals + 2 * regs.shareds + regs.locals ≤ maxRegs t type

theorem RegsNo.offset_add_lt {regs : RegsNo} {rc : RegClass} {r : Nat} (inside : r < regs.ofClass rc) :
    regs.offset rc + r < regs.globals + 2 * regs.shareds + regs.locals := by
  cases rc <;> simp only [RegsNo.offset, RegsNo.ofClass] at inside ⊢ <;> omega

/-- In a microthreaded instruction set, every register of a class has an operand of five bits. -/
theorem exists_operand {regs : RegsNo} {rc : RegClass} {r : Nat} (windows : t.isMicrothreaded = true)
    (fits : regs.Fits t type) (inside : r < regs.ofClass rc) :
    ∃ reg < 32, getRegisterClass t type regs reg = .ok (rc, r) := by
  obtain ⟨globals, shareds, all⟩ := fits
  have found := RegsNo.classify_offset inside
  have bound := RegsNo.offset_add_lt inside
  cases t with
  | mtalpha =>
    have few : regs.globals + 2 * regs.shareds + regs.locals ≤ 31 := by cases type <;> exact all
    have locals : regs.locals < 32 := by omega
    refine ⟨regs.offset rc + r, by omega, ?_⟩
    simp [getRegisterClass, require, bind, Except.bind, pure, Except.pure, found, globals, shareds, locals]
  | mtsparc =>
    cases type with
    | integer =>
      have few : regs.globals + 2 * regs.shareds + regs.locals ≤ 31 := all
      have locals : regs.locals < 32 := by omega
      refine ⟨regs.offset rc + r + 1, by omega, ?_⟩
      simp [getRegisterClass, require, bind, Except.bind, pure, Except.pure, found, globals, shareds, locals]
    | float =>
      have few : regs.globals + 2 * regs.shareds + regs.locals ≤ 32 := all
      have locals : regs.locals ≤ 32 := by omega
      refine ⟨regs.offset rc + r, by omega, ?_⟩
      simp [getRegisterClass, require, bind, Except.bind, pure, Except.pure, found, globals, shareds, locals]
  | _ => cases windows

end Operands

/-- The class of the remote registers of a kind. -/
def RemoteRegType.regClass : RemoteRegType → RegClass
  | .global => .global
  | .firstDependent => .dependent
  | .lastShared => .shared

/-- The first remote register of a kind. -/
def RemoteRegType.first (kind : RemoteRegType) (regs : FamilyRegs) : Option Nat :=
  match kind with
  | .global => regs.base.map (· + regs.size - regs.count.globals)
  | .firstDependent => regs.base
  | .lastShared => regs.lastShareds

namespace Allocator
variable {t : Target} {a : Allocator t} {fid index : Nat} {kind : RemoteRegType} {type : RegType}

theorem getRemoteRegisterAddress_ok {found : Option Nat} (done : a.getRemoteRegisterAddress fid kind type index = .ok found) :
    found = if index < ((a.family fid).regs type).count.ofClass kind.regClass then
      (kind.first ((a.family fid).regs type)).map (· + index) else none := by
  obtain ⟨_, done⟩ := require_bind_ok done
  cases kind with
  | global =>
    rw [RemoteRegType.first, Option.map_map]
    exact (Except.ok.inj done).symm
  | firstDependent => exact (Except.ok.inj done).symm
  | lastShared =>
    obtain ⟨_, done⟩ := require_bind_ok done
    exact (Except.ok.inj done).symm

theorem getRemoteRegisterAddress_eq (used : (a.family fid).state ≠ .empty)
    (valid : kind = .lastShared → ((a.family fid).regs type).lastShareds ≠ none) :
    a.getRemoteRegisterAddress fid kind type index =
      .ok (if index < ((a.family fid).regs type).count.ofClass kind.regClass then
        (kind.first ((a.family fid).regs type)).map (· + index) else none) := by
  unfold getRemoteRegisterAddress
  dsimp only
  rw [require, if_pos used]
  cases kind with
  | global =>
    rw [RemoteRegType.first, Option.map_map]
    rfl
  | firstDependent => rfl
  | lastShared =>
    dsimp only
    rw [require, if_pos (valid rfl)]
    rfl

/-- The remote registers of a kind are what the operands of their class are translated to in the
thread. The other way, each of them has an operand if the instruction set has operands for its class. -/
structure Reaches (a : Allocator t) (fid : Nat) (kind : RemoteRegType) (type : RegType) (thread : ThreadRegs) : Prop where
  operand : ∀ reg r index islocal, (a.family fid).state ≠ .empty →
    getRegisterClass t type ((a.family fid).regs type).count reg = .ok (kind.regClass, r) →
    translateRegister t ((a.family fid).regs type) thread reg type t.sizeofInteger = .ok (index, islocal) →
    a.getRemoteRegisterAddress fid kind type r = .ok index
  remote : t.isMicrothreaded = true → ((a.family fid).regs type).count.Fits t type → ∀ r index,
    a.getRemoteRegisterAddress fid kind type r = .ok (some index) → ∃ reg < 32,
      getRegisterClass t type ((a.family fid).regs type).count reg = .ok (kind.regClass, r) ∧ ∃ islocal,
        translateRegister t ((a.family fid).regs type) thread reg type t.sizeofInteger = .ok (some index, islocal)

theorem Reaches.of_first {thread : ThreadRegs}
    (same : kind.regClass.first ((a.family fid).regs type) thread = kind.first ((a.family fid).regs type))
    (valid : 0 < ((a.family fid).regs type).count.shareds → kind = .lastShared →
      ((a.family fid).regs type).lastShareds ≠ none) : a.Reaches fid kind type thread where
  operand reg r index islocal used found done := by
    have positive := t.sizeofInteger_pos
    have one : t.sizeofInteger / t.sizeofInteger = 1 := Nat.div_self positive
    obtain ⟨rc, r', found', shown, _, fits⟩ := translateRegister_ok done (by rw [one]; exact Nat.one_ne_zero)
    cases found.symm.trans found'
    rw [one] at fits
    have inside : r < ((a.family fid).regs type).count.ofClass kind.regClass := fits (by cases kind <;> exact nofun)
    have shareds : kind = .lastShared → ((a.family fid).regs type).lastShareds ≠ none := by
      rintro rfl
      exact valid (Nat.zero_lt_of_lt inside) rfl
    rw [getRemoteRegisterAddress_eq used shareds, if_pos inside, shown, same]
  remote windows fits r index done := by
    have shown := getRemoteRegisterAddress_ok done
    split at shown
    · rename_i inside
      obtain ⟨reg, narrow, found⟩ := exists_operand windows fits inside
      rw [← same] at shown
      refine ⟨reg, narrow, found, decide (kind.regClass = .local), ?_⟩
      rw [translateRegister_one found inside, ← shown]
      intro dependent missing
      rw [dependent, RegClass.first, missing] at shown
      cases shown
    · cases shown

end Allocator

namespace FamilyRegs

/-- The place for the shareds of a thread in front of the locals of the context `row`. The last
row has no locals behind it. -/
def slot (regs : FamilyRegs) (row : Nat) : Option Nat :=
  regs.base.map (· + row * (regs.count.shareds + regs.count.locals))

/-- The registers hold a block of `rows` threads. They begin with the initial shareds and end with the globals. -/
structure LaidOut (regs : FamilyRegs) (rows : Nat) : Prop where
  size : regs.size = (regs.count.locals + regs.count.shareds) * rows + regs.count.globals + regs.count.shareds
  base : regs.base = none ↔ regs.size = 0

/-- The registers of the family below its globals. -/
def belowGlobals (regs : FamilyRegs) : Finset Nat := window regs.base (regs.size - regs.count.globals)

variable {regs : FamilyRegs} {row row' offset n r rows : Nat}

/-- A register of a row is found from the number of the row and its place there. -/
theorem mem_slot (member : r ∈ window ((regs.slot row).map (· + offset)) n) :
    ∃ base place, regs.base = some base ∧ offset ≤ place ∧ place < offset + n ∧
      r = base + (row * (regs.count.shareds + regs.count.locals) + place) := by
  obtain ⟨first, found, lower, upper⟩ := mem_window.mp member
  rw [slot, Option.map_map] at found
  obtain ⟨base, atBase, rfl⟩ := Option.map_eq_some_iff.mp found
  simp only [Function.comp_apply] at lower upper
  exact ⟨base, r - base - row * (regs.count.shareds + regs.count.locals), atBase, by omega, by omega, by omega⟩

theorem row_unique {width place place' : Nat} (inside : place < width) (inside' : place' < width)
    (same : row * width + place = row' * width + place') : row = row' ∧ place = place' := by
  have positive : 0 < width := Nat.zero_lt_of_lt inside
  have quotient : ∀ row place, place < width → (row * width + place) / width = row := by
    intro row place inside
    rw [Nat.mul_comm, Nat.mul_add_div positive, Nat.div_eq_of_lt inside, Nat.add_zero]
  have rows : row = row' := by
    rw [← quotient row place inside, same, quotient row' place' inside']
  subst rows
  exact ⟨rfl, Nat.add_left_cancel same⟩

/-- What a place of a row is from the first register on, for the shareds of all rows up to
the last one and the locals of all rows before it. -/
theorem LaidOut.below (laid : regs.LaidOut rows) {place : Nat} {base : Nat} (found : regs.base = some base)
    (inside : row < rows ∧ place < regs.count.shareds + regs.count.locals ∨ row ≤ rows ∧ place < regs.count.shareds) :
    base + (row * (regs.count.shareds + regs.count.locals) + place) ∈ regs.belowGlobals := by
  refine mem_window.mpr ⟨base, found, Nat.le_add_right _ _, ?_⟩
  have size : regs.size - regs.count.globals = rows * (regs.count.shareds + regs.count.locals) + regs.count.shareds := by
    rw [laid.size, Nat.mul_comm, Nat.add_comm regs.count.locals]
    omega
  rw [size]
  rcases inside with ⟨before, narrow⟩ | ⟨before, narrow⟩
  · have next : (row + 1) * (regs.count.shareds + regs.count.locals) ≤ rows * (regs.count.shareds + regs.count.locals) :=
      Nat.mul_le_mul_right _ before
    rw [Nat.add_mul, Nat.one_mul] at next
    omega
  · have upTo : row * (regs.count.shareds + regs.count.locals) ≤ rows * (regs.count.shareds + regs.count.locals) :=
      Nat.mul_le_mul_right _ before
    omega

end FamilyRegs

namespace ThreadRegs

/-- The thread has the locals of the context `row`. -/
def InContext (thread : ThreadRegs) (regs : FamilyRegs) (row : Nat) : Prop :=
  thread.locals = (regs.slot row).map (· + regs.count.shareds)

/-- The locals and shareds of a thread. -/
def ownRegisters (thread : ThreadRegs) (count : RegsNo) : Finset Nat :=
  window thread.locals count.locals ∪ window thread.shareds count.shareds

variable {thread other : ThreadRegs} {regs : FamilyRegs} {row row' slot slot' rows r : Nat}

theorem InContext.mem (inContext : thread.InContext regs row) (member : r ∈ window thread.locals regs.count.locals) :
    ∃ base place, regs.base = some base ∧ regs.count.shareds ≤ place ∧
      place < regs.count.shareds + regs.count.locals ∧
      r = base + (row * (regs.count.shareds + regs.count.locals) + place) := by
  rw [inContext] at member
  exact FamilyRegs.mem_slot member

theorem mem_shareds (atSlot : thread.shareds = regs.slot slot) (member : r ∈ window thread.shareds regs.count.shareds) :
    ∃ base place, regs.base = some base ∧ place < regs.count.shareds ∧
      r = base + (slot * (regs.count.shareds + regs.count.locals) + place) := by
  have shifted : regs.slot slot = (regs.slot slot).map (· + 0) := by simp
  rw [atSlot, shifted] at member
  obtain ⟨base, place, found, _, inside, rfl⟩ := FamilyRegs.mem_slot member
  exact ⟨base, place, found, by omega, rfl⟩

/-- Threads in different contexts with their shareds in different rows have no register in common. -/
theorem ownRegisters_disjoint (inContext : thread.InContext regs row) (inContext' : other.InContext regs row')
    (contexts : row ≠ row') (slots : 0 < regs.count.shareds → ∃ slot slot', slot ≠ slot' ∧
      thread.shareds = regs.slot slot ∧ other.shareds = regs.slot slot') :
    Disjoint (thread.ownRegisters regs.count) (other.ownRegisters regs.count) := by
  refine Finset.disjoint_left.mpr fun r member member' => ?_
  have shared : ∀ {own : ThreadRegs}, r ∈ window own.shareds regs.count.shareds → 0 < regs.count.shareds := by
    intro own inside
    obtain ⟨_, _, lower, upper⟩ := mem_window.mp inside
    omega
  rcases Finset.mem_union.mp member with inLocals | inShareds <;> rcases Finset.mem_union.mp member' with inLocals' | inShareds'
  · obtain ⟨base, place, found, _, inside, rfl⟩ := inContext.mem inLocals
    obtain ⟨base', place', found', _, inside', same⟩ := inContext'.mem inLocals'
    cases found.symm.trans found'
    exact contexts (FamilyRegs.row_unique inside inside' (Nat.add_left_cancel same)).1
  · obtain ⟨_, _, _, _, atSlot'⟩ := slots (shared inShareds')
    obtain ⟨base, place, found, lower, inside, rfl⟩ := inContext.mem inLocals
    obtain ⟨base', place', found', inside', same⟩ := mem_shareds atSlot' inShareds'
    cases found.symm.trans found'
    have places := (FamilyRegs.row_unique inside (by omega) (Nat.add_left_cancel same)).2
    omega
  · obtain ⟨_, _, _, atSlot, _⟩ := slots (shared inShareds)
    obtain ⟨base, place, found, inside, rfl⟩ := mem_shareds atSlot inShareds
    obtain ⟨base', place', found', lower, inside', same⟩ := inContext'.mem inLocals'
    cases found.symm.trans found'
    have places := (FamilyRegs.row_unique (by omega) inside' (Nat.add_left_cancel same)).2
    omega
  · obtain ⟨_, _, different, atSlot, atSlot'⟩ := slots (shared inShareds)
    obtain ⟨base, place, found, inside, rfl⟩ := mem_shareds atSlot inShareds
    obtain ⟨base', place', found', inside', same⟩ := mem_shareds atSlot' inShareds'
    cases found.symm.trans found'
    exact different (FamilyRegs.row_unique (by omega) (by omega) (Nat.add_left_cancel same)).1

theorem ownRegisters_below (laid : regs.LaidOut rows) (inContext : thread.InContext regs row) (contexts : row < rows)
    (slots : 0 < regs.count.shareds → ∃ slot ≤ rows, thread.shareds = regs.slot slot) :
    thread.ownRegisters regs.count ⊆ regs.belowGlobals := by
  intro r member
  rcases Finset.mem_union.mp member with inLocals | inShareds
  · obtain ⟨base, place, found, _, inside, rfl⟩ := inContext.mem inLocals
    exact laid.below found (Or.inl ⟨contexts, inside⟩)
  · have some : 0 < regs.count.shareds := by
      obtain ⟨_, _, lower, upper⟩ := mem_window.mp inShareds
      omega
    obtain ⟨slot, inRows, atSlot⟩ := slots some
    obtain ⟨base, place, found, inside, rfl⟩ := mem_shareds atSlot inShareds
    exact laid.below found (Or.inr ⟨inRows, inside⟩)

end ThreadRegs
end Mgsim.Drisc
