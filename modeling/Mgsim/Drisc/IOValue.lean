import Mgsim.Drisc.IOInterface

namespace Mgsim.Drisc
open Mgsim.Lib Mgsim.Mmu
variable {t : Target}

/-- What a load writes that finds its data at once. -/
def Load.hitWrites (t : Target) (load : Load) (data : List Byte) : List (RegAddr × Integer t) :=
  (List.range (load.registers t)).map fun i =>
    (⟨load.rc.type, load.rc.index + i⟩, (writebackValue t (memoryStageSuccess t load data) i).value)

/-- An answer fits into a register, and its sign can be extended: words have 64 bits, or the sign is positive. -/
def Load.Fits (t : Target) (load : Load) (data : List Byte) : Prop :=
  load.size ≤ t.sizeofInteger ∧ (load.signExtend = true → load.size < t.sizeofInteger ∧
    (t.sizeofInteger = 8 ∨ (unserializeRegister t load.rc.type data).getLsbD (8 * load.size - 1) = false))

instance (load : Load) (data : List Byte) : Decidable (load.Fits t data) := by
  unfold Load.Fits
  infer_instance

theorem getLsbD_shiftedBack {w shift : Nat} (positive : shift < w) (value : BitVec w) {j : Nat} (inside : j < w) :
    ((value <<< shift).sshiftRight shift).getLsbD j =
      if shift + j < w then value.getLsbD j else value.getLsbD (w - 1 - shift) := by
  have notOver : ¬ w ≤ j := Nat.not_le.mpr inside
  have last : w - 1 < w := by omega
  have above : ¬ w - 1 < shift := by omega
  rw [BitVec.getLsbD_sshiftRight, BitVec.msb_eq_getLsbD_last, BitVec.getLsbD_shiftLeft, BitVec.getLsbD_shiftLeft,
    Nat.add_sub_cancel_left, decide_eq_false notOver, decide_eq_true last, decide_eq_false above,
    decide_eq_false (Nat.not_lt.mpr (Nat.le_add_right shift j))]
  split
  · rename_i fits
    rw [decide_eq_true fits]
    rfl
  · rfl

theorem getLsbD_signExtended {size : Nat} (positive : 0 < size) (small : size ≤ 8) (value : BitVec 64) {j : Nat}
    (inside : j < 64) : (signExtended size value).getLsbD j =
      if j < 8 * size then value.getLsbD j else value.getLsbD (8 * size - 1) := by
  have same : (8 - size) * 8 + j < 64 ↔ j < 8 * size := by omega
  have top : 64 - 1 - (8 - size) * 8 = 8 * size - 1 := by omega
  unfold signExtended
  rw [getLsbD_shiftedBack (by omega) value inside, top]
  simp only [same]

/-- Words of 32 bits come back without their sign. -/
theorem getLsbD_narrowBack {size : Nat} (small : size ≤ 4) (value : BitVec 32) {j : Nat} (inside : j < 32) :
    (((value <<< ((4 - size) * 8)).setWidth 64).sshiftRight ((4 - size) * 8)).getLsbD j =
      (decide (j < 8 * size) && value.getLsbD j) := by
  have positive : ((value <<< ((4 - size) * 8)).setWidth 64).msb = false := by
    rw [BitVec.msb_eq_getLsbD_last, BitVec.getLsbD_setWidth, BitVec.getLsbD_of_ge _ _ (by decide), Bool.and_false]
  rw [BitVec.sshiftRight_eq_of_msb_false positive, BitVec.getLsbD_ushiftRight, BitVec.getLsbD_setWidth,
    BitVec.getLsbD_shiftLeft, Nat.add_sub_cancel_left, decide_eq_false (Nat.not_lt.mpr (Nat.le_add_right _ j)),
    decide_eq_true (show (4 - size) * 8 + j < 64 by omega)]
  have same : (4 - size) * 8 + j < 32 ↔ j < 8 * size := by omega
  simp only [same, Bool.true_and, Bool.not_false, Bool.and_true]

/-- They are as they should be when the sign is positive. -/
theorem narrowBack_iff {size : Nat} (positive : 0 < size) (small : size < 4) (value : BitVec 64) :
    ((((value.setWidth 32) <<< ((4 - size) * 8)).setWidth 64).sshiftRight ((4 - size) * 8)).setWidth 32 =
      (signExtended size value).setWidth 32 ↔ value.getLsbD (8 * size - 1) = false := by
  constructor
  · intro same
    have bit := congrArg (fun word => word.getLsbD (8 * size)) same
    rw [BitVec.getLsbD_setWidth, BitVec.getLsbD_setWidth, getLsbD_narrowBack (by omega) _ (by omega),
      getLsbD_signExtended positive (by omega) _ (by omega), decide_eq_true (show 8 * size < 32 by omega),
      decide_eq_false (Nat.lt_irrefl _), if_neg (Nat.lt_irrefl _)] at bit
    exact bit.symm
  · intro plain
    refine BitVec.eq_of_getLsbD_eq fun j inside => ?_
    rw [BitVec.getLsbD_setWidth, BitVec.getLsbD_setWidth, getLsbD_narrowBack (by omega) _ inside,
      getLsbD_signExtended positive (by omega) _ (by omega), BitVec.getLsbD_setWidth, decide_eq_true inside, plain]
    by_cases low : j < 8 * size
    · rw [decide_eq_true low, if_pos low]
      simp only [Bool.true_and]
    · rw [decide_eq_false low, if_neg low]
      rfl

theorem operandWord_single (value : BitVec 64) :
    operandWord t (multiSet value t.sizeofInteger) t.sizeofInteger 0 = value.setWidth _ := by
  have first : (t.sizeofInteger / t.sizeofInteger - 1 - 0) * 8 * t.sizeofInteger = 0 := by
    cases t <;> rfl
  unfold operandWord
  rw [first, BitVec.ushiftRight_zero]
  ext i inside
  cases t <;> simp [multiGet, multiSet, Target.sizeofInteger] at inside ⊢

/-- The value that a hit writes to a single register. -/
def Load.hitValue (t : Target) (load : Load) (data : List Byte) : Integer t :=
  let value := unserializeRegister t load.rc.type data
  (if load.signExtend then signExtended load.size value else value).setWidth _

theorem Load.single {load : Load} (small : load.size ≤ t.sizeofInteger) (positive : 0 < load.size) : load.registers t = 1 := by
  unfold Load.registers
  cases t <;> simp only [Target.sizeofInteger] at small ⊢ <;> omega

theorem Load.hit_single {load : Load} (operand : load.rcvSize = t.sizeofInteger) (data : List Byte) :
    (writebackValue t (memoryStageSuccess t load data) 0).value = load.hitValue t data := by
  unfold Load.hitValue
  rw [← operandWord_single, ← operand]
  rfl

theorem responseValue_wide {load : Load} (data : List Byte) :
    IOInterface.responseValue .mtalpha load.rc.type (IOInterface.pendingValue load).memory data = load.hitValue .mtalpha data := by
  unfold IOInterface.responseValue Load.hitValue IOInterface.pendingValue
  cases load.signExtend with
  | false => rfl
  | true =>
    show ((((BitVec.setWidth 64 (unserializeRegister .mtalpha load.rc.type data)) <<< ((8 - load.size) * 8)).setWidth 64).sshiftRight
      ((8 - load.size) * 8)).setWidth 64 = (signExtended load.size (unserializeRegister .mtalpha load.rc.type data)).setWidth 64
    simp only [BitVec.setWidth_eq]
    rfl

theorem responseValue_narrow {load : Load} {data : List Byte} (narrow : t.sizeofInteger = 4) (positive : 0 < load.size)
    (small : load.signExtend = true → load.size < 4) :
    IOInterface.responseValue t load.rc.type (IOInterface.pendingValue load).memory data = load.hitValue t data ↔
      (load.signExtend = true → (unserializeRegister t load.rc.type data).getLsbD (8 * load.size - 1) = false) := by
  unfold IOInterface.responseValue Load.hitValue IOInterface.pendingValue
  cases extend : load.signExtend with
  | false => simp
  | true =>
    have same := narrowBack_iff positive (small extend) (unserializeRegister t load.rc.type data)
    rw [show (true = true → (unserializeRegister t load.rc.type data).getLsbD (8 * load.size - 1) = false) ↔
      (unserializeRegister t load.rc.type data).getLsbD (8 * load.size - 1) = false from ⟨fun f => f rfl, fun h _ => h⟩]
    cases t with
    | mtalpha => cases narrow
    | mtsparc | mips32 | mips32el | or1k => exact same

/-- An answer that fits is written as the load would write its data. -/
theorem Load.Fits.hitWrites {load : Load} {data : List Byte} (fits : load.Fits t data) (positive : 0 < load.size)
    (operand : load.rcvSize = load.registers t * t.sizeofInteger) : load.hitWrites t data =
      [(load.rc, IOInterface.responseValue t load.rc.type (IOInterface.pendingValue load).memory data)] := by
  have single := Load.single fits.1 positive
  rw [single, Nat.one_mul] at operand
  have value : IOInterface.responseValue t load.rc.type (IOInterface.pendingValue load).memory data =
      load.hitValue t data := by
    by_cases narrow : t.sizeofInteger = 4
    · refine (responseValue_narrow narrow positive fun extend => ?_).mpr fun extend => ?_
      · exact narrow ▸ (fits.2 extend).1
      · exact (fits.2 extend).2.resolve_left fun wide => absurd (wide.symm.trans narrow) (by decide)
    · cases t with
      | mtalpha => exact responseValue_wide data
      | mtsparc | mips32 | mips32el | or1k => exact absurd rfl narrow
  unfold Load.hitWrites
  rw [single, value, ← Load.hit_single operand]
  rfl

end Mgsim.Drisc
