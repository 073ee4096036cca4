import Mathlib.Algebra.Ring.Nat
import Mgsim.Lib.BitField

namespace Mgsim.Drisc
open Mgsim.Lib

/-- The loop of `byteZAP` over the last bytes; `mask` has been shifted for the ones before. -/
def byteZAPLoop : Nat → BitVec 64 → BitVec 32 → BitVec 64
  | 0, op, _ => op
  | left + 1, op, mask =>
    byteZAPLoop left (if mask &&& 1 ≠ 0 then op &&& ~~~(0xFF#64 <<< ((7 - left) * 8)) else op) (mask.sshiftRight 1)

/-- `byteZAP`. -/
def byteZAP (op : BitVec 64) (mask : BitVec 32) : BitVec 64 := byteZAPLoop 8 op mask

/-- The functions of `ExecuteINTS`. -/
inductive IntsFunc
  | mskbl | mskwl | mskll | mskql | mskwh | msklh | mskqh
  | extbl | extwl | extll | extql | extwh | extlh | extqh
  | insbl | inswl | insll | insql | inswh | inslh | insqh
  | zap | zapnot
  | sll | srl | sra
deriving DecidableEq

/-- `<<` on 64 bits, of which the host takes the count modulo 64. -/
def hostShiftLeft (value count : BitVec 64) : BitVec 64 := value <<< (count.toNat % 64)

/-- `>>` on 64 bits. -/
def hostShiftRight (value count : BitVec 64) : BitVec 64 := value >>> (count.toNat % 64)

/-- The value that `ExecuteINTS` gives to `Rc`. -/
def executeInts (func : IntsFunc) (ra rb : BitVec 64) : BitVec 64 :=
  let offset := rb &&& 7
  match func with
  -- Mask byte
  | .mskbl => byteZAP ra (0x01#32 <<< offset.toNat)
  | .mskwl => byteZAP ra (0x03#32 <<< offset.toNat)
  | .mskll => byteZAP ra (0x0F#32 <<< offset.toNat)
  | .mskql => byteZAP ra (0xFF#32 <<< offset.toNat)
  | .mskwh => byteZAP ra ((0x03#32 <<< offset.toNat).sshiftRight 8)
  | .msklh => byteZAP ra ((0x0F#32 <<< offset.toNat).sshiftRight 8)
  | .mskqh => byteZAP ra ((0xFF#32 <<< offset.toNat).sshiftRight 8)
  -- Extract byte
  | .extbl => byteZAP (hostShiftRight ra (offset * 8)) (~~~0x01#32)
  | .extwl => byteZAP (hostShiftRight ra (offset * 8)) (~~~0x03#32)
  | .extll => byteZAP (hostShiftRight ra (offset * 8)) (~~~0x0F#32)
  | .extql => byteZAP (hostShiftRight ra (offset * 8)) (~~~0xFF#32)
  | .extwh => byteZAP (hostShiftLeft ra (64 - offset * 8)) (~~~0x03#32)
  | .extlh => byteZAP (hostShiftLeft ra (64 - offset * 8)) (~~~0x0F#32)
  | .extqh => byteZAP (hostShiftLeft ra (64 - offset * 8)) (~~~0xFF#32)
  -- Insert byte
  | .insbl => byteZAP (hostShiftLeft ra (offset * 8)) (~~~(0x01#32 <<< offset.toNat))
  | .inswl => byteZAP (hostShiftLeft ra (offset * 8)) (~~~(0x03#32 <<< offset.toNat))
  | .insll => byteZAP (hostShiftLeft ra (offset * 8)) (~~~(0x0F#32 <<< offset.toNat))
  | .insql => byteZAP (hostShiftLeft ra (offset * 8)) (~~~(0xFF#32 <<< offset.toNat))
  | .inswh => byteZAP (hostShiftLeft ra (64 - offset * 8)) (~~~(0x03#32 <<< offset.toNat))
  | .inslh => byteZAP (hostShiftLeft ra (64 - offset * 8)) (~~~(0x0F#32 <<< offset.toNat))
  | .insqh => byteZAP (hostShiftLeft ra (64 - offset * 8)) (~~~(0xFF#32 <<< offset.toNat))
  -- Zero bytes
  | .zap => byteZAP ra ((rb.setWidth 8).setWidth 32)
  | .zapnot => byteZAP ra ((~~~(rb.setWidth 8)).setWidth 32)
  -- Shift
  | .sll => hostShiftLeft ra (rb &&& 0x3F)
  | .srl => hostShiftRight ra (rb &&& 0x3F)
  | .sra => ra.sshiftRight (rb &&& 0x3F).toNat

/-- The sizes of the unaligned accesses. -/
inductive AccessSize
  | word | long | quad
deriving DecidableEq

namespace AccessSize

def bytes : AccessSize → Nat
  | word => 2
  | long => 4
  | quad => 8

/-- The bytes of an access from the offset 0 on, as the code writes them. -/
def lowMask (size : AccessSize) : BitVec 32 := BitVec.ofNat 32 (2 ^ size.bytes - 1)

def insertLow : AccessSize → IntsFunc
  | word => .inswl
  | long => .insll
  | quad => .insql

def insertHigh : AccessSize → IntsFunc
  | word => .inswh
  | long => .inslh
  | quad => .insqh

def maskLow : AccessSize → IntsFunc
  | word => .mskwl
  | long => .mskll
  | quad => .mskql

def maskHigh : AccessSize → IntsFunc
  | word => .mskwh
  | long => .msklh
  | quad => .mskqh

def extractLow : AccessSize → IntsFunc
  | word => .extwl
  | long => .extll
  | quad => .extql

def extractHigh : AccessSize → IntsFunc
  | word => .extwh
  | long => .extlh
  | quad => .extqh

end AccessSize

/-- The value that an unaligned access moves, in two quadwords at a byte offset. -/
def inQuadwords (size : AccessSize) (value : BitVec 64) (offset : Nat) : BitVec 128 :=
  BitVec.ofNat 128 (value.toNat % 2 ^ (8 * size.bytes)) <<< (8 * offset)

/-- What the handbook's sequences for unaligned accesses rely on. The bytes of the two quadwords that
an insert fills are those from the offset on. -/
structure UnalignedLaws (size : AccessSize) (value rb : BitVec 64) : Prop where
  insertLow : executeInts size.insertLow value rb = (inQuadwords size value (rb.toNat % 8)).setWidth 64
  insertHigh : executeInts size.insertHigh value rb = (inQuadwords size value (rb.toNat % 8)).extractLsb' 64 64
  maskLow (quadword : BitVec 64) (i : Nat) : i < 8 →
    getField (executeInts size.maskLow quadword rb) (8 * i) 8 =
      if rb.toNat % 8 ≤ i ∧ i < rb.toNat % 8 + size.bytes then 0 else getField quadword (8 * i) 8
  maskHigh (quadword : BitVec 64) (i : Nat) : i < 8 →
    getField (executeInts size.maskHigh quadword rb) (8 * i) 8 =
      if rb.toNat % 8 ≤ 8 + i ∧ 8 + i < rb.toNat % 8 + size.bytes then 0 else getField quadword (8 * i) 8
  extract : executeInts size.extractLow ((inQuadwords size value (rb.toNat % 8)).setWidth 64) rb |||
      executeInts size.extractHigh ((inQuadwords size value (rb.toNat % 8)).extractLsb' 64 64) rb =
    BitVec.ofNat 64 (value.toNat % 2 ^ (8 * size.bytes))

/-- The bytes of the value that make the two high quadwords differ: those that `ExecuteINTS` moves to the offset
and behind it, and those that belong into the high quadword. -/
def HighBytesClear (size : AccessSize) (value : BitVec 64) (offset : Nat) : Prop :=
  ∀ i < 8, (offset ≤ i + (8 - offset) % 8 ∧ i + (8 - offset) % 8 < 8 ∧ i + (8 - offset) % 8 < offset + size.bytes) ∨
    (8 - offset ≤ i ∧ i < size.bytes) → getField value (8 * i) 8 = 0

section Bits
variable {op value rb : BitVec 64} {mask : BitVec 32} {size : AccessSize} {k : Nat}

theorem getLsbD_clearByte {j : Nat} :
    (op &&& ~~~(0xFF#64 <<< (j * 8))).getLsbD k = (op.getLsbD k && !decide (k / 8 = j)) := by
  rw [show 0xFF#64 = BitVec.ofNat 64 (2 ^ 8 - 1) from rfl]
  by_cases small : k < 64
  · simp only [BitVec.getLsbD_and, BitVec.getLsbD_not, small, decide_true, Bool.true_and, BitVec.getLsbD_shiftLeft,
      getLsbD_ones]
    congr 2
    rw [Bool.eq_iff_iff]
    simp
    omega
  · rw [BitVec.getLsbD_of_ge _ _ (by omega), BitVec.getLsbD_of_ge _ _ (by omega), Bool.false_and]

theorem getLsbD_byteZAPLoop {left : Nat} (few : left ≤ 8) : (byteZAPLoop left op mask).getLsbD k =
    (op.getLsbD k && !decide (8 - left ≤ k / 8 ∧ k / 8 < 8 ∧ mask.getLsbD (k / 8 - (8 - left)) = true)) := by
  induction left generalizing op mask with
  | zero =>
    have outside : ¬ (8 - 0 ≤ k / 8 ∧ k / 8 < 8 ∧ mask.getLsbD (k / 8 - (8 - 0)) = true) := by omega
    rw [byteZAPLoop, decide_eq_false outside, Bool.not_false, Bool.and_true]
  | succ left ih =>
    have shifted : ∀ i < 8, (mask.sshiftRight 1).getLsbD i = mask.getLsbD (i + 1) := by
      intro i small
      rw [BitVec.getLsbD_sshiftRight]
      simp [show ¬ 32 ≤ i by omega, Nat.add_comm 1 i, show i + 1 < 32 by omega]
    rw [byteZAPLoop, ih (by omega)]
    by_cases here : k / 8 = 7 - left
    · have notLater : ¬ (8 - left ≤ k / 8 ∧ k / 8 < 8 ∧ (mask.sshiftRight 1).getLsbD (k / 8 - (8 - left)) = true) := by
        omega
      have first : k / 8 - (8 - (left + 1)) = 0 := by omega
      rw [decide_eq_false notLater, Bool.not_false, Bool.and_true, first]
      by_cases set : mask.getLsbD 0 = true
      · rw [if_pos (and_one_ne_zero.mpr set), getLsbD_clearByte]
        simp [here, set]
        omega
      · rw [if_neg (and_one_ne_zero.not.mpr set)]
        rw [Bool.not_eq_true] at set
        rw [set]
        simp
    · have kept : (if mask &&& 1 ≠ 0 then op &&& ~~~(0xFF#64 <<< ((7 - left) * 8)) else op).getLsbD k =
          op.getLsbD k := by
        split
        · rw [getLsbD_clearByte, decide_eq_false here, Bool.not_false, Bool.and_true]
        · rfl
      rw [kept]
      congr 2
      rw [decide_eq_decide]
      by_cases later : 8 - left ≤ k / 8 ∧ k / 8 < 8
      · rw [shifted _ (by omega), show k / 8 - (8 - left) + 1 = k / 8 - (8 - (left + 1)) by omega]
        simp only [later, show 8 - (left + 1) ≤ k / 8 by omega, true_and]
      · have before : ¬ (8 - (left + 1) ≤ k / 8 ∧ k / 8 < 8) := by omega
        exact iff_of_false (fun all => later ⟨all.1, all.2.1⟩) fun all => before ⟨all.1, all.2.1⟩

theorem getLsbD_byteZAP (small : k < 64) : (byteZAP op mask).getLsbD k = (op.getLsbD k && !mask.getLsbD (k / 8)) := by
  have inside : k / 8 < 8 := by omega
  rw [byteZAP, getLsbD_byteZAPLoop (Nat.le_refl 8)]
  simp [inside]
theorem toNat_and_seven : (rb &&& 7).toNat = rb.toNat % 8 := by
  rw [BitVec.toNat_and]
  exact Nat.and_two_pow_sub_one_eq_mod rb.toNat 3

theorem toNat_offset_mul : ((rb &&& 7) * 8).toNat = 8 * (rb.toNat % 8) := by
  rw [BitVec.toNat_mul, toNat_and_seven]
  simp
  omega

theorem toNat_rest : (64 - (rb &&& 7) * 8).toNat = 64 - 8 * (rb.toNat % 8) := by
  rw [BitVec.toNat_sub, toNat_offset_mul]
  simp
  omega

theorem AccessSize.bytes_le (size : AccessSize) : size.bytes ≤ 8 := by
  cases size <;> decide

theorem getLsbD_lowMask_shift {b i : Nat} (small : i < 32) :
    (size.lowMask <<< b).getLsbD i = decide (b ≤ i ∧ i < b + size.bytes) := by
  rw [BitVec.getLsbD_shiftLeft, AccessSize.lowMask, getLsbD_ones, Bool.eq_iff_iff]
  simp
  omega

theorem getLsbD_lowMask_high {b i : Nat} (small : i < 8) :
    ((size.lowMask <<< b).sshiftRight 8).getLsbD i = decide (b ≤ 8 + i ∧ 8 + i < b + size.bytes) := by
  rw [BitVec.getLsbD_sshiftRight, getLsbD_lowMask_shift (by omega)]
  simp [show ¬ 32 ≤ i by omega, show 8 + i < 32 by omega]

theorem getLsbD_insertLow (small : k < 64) : (executeInts size.insertLow value rb).getLsbD k =
    (decide (8 * (rb.toNat % 8) ≤ k ∧ k / 8 < rb.toNat % 8 + size.bytes) &&
      value.getLsbD (k - 8 * (rb.toNat % 8))) := by
  have form : executeInts size.insertLow value rb =
      byteZAP (hostShiftLeft value ((rb &&& 7) * 8)) (~~~(size.lowMask <<< (rb &&& 7).toNat)) := by
    cases size <;> rfl
  rw [form, getLsbD_byteZAP small, hostShiftLeft, toNat_offset_mul, toNat_and_seven, BitVec.getLsbD_not,
    getLsbD_lowMask_shift (by omega), BitVec.getLsbD_shiftLeft, Nat.mod_eq_of_lt (by omega)]
  cases value.getLsbD (k - 8 * (rb.toNat % 8))
  · simp
  · rw [Bool.eq_iff_iff]
    simp [show k / 8 < 32 by omega, small]
    omega

theorem getLsbD_insertHigh (small : k < 64) : (executeInts size.insertHigh value rb).getLsbD k =
    (decide ((64 - 8 * (rb.toNat % 8)) % 64 ≤ k ∧ rb.toNat % 8 ≤ k / 8 ∧ k / 8 < rb.toNat % 8 + size.bytes) &&
      value.getLsbD (k - (64 - 8 * (rb.toNat % 8)) % 64)) := by
  have form : executeInts size.insertHigh value rb =
      byteZAP (hostShiftLeft value (64 - (rb &&& 7) * 8)) (~~~(size.lowMask <<< (rb &&& 7).toNat)) := by
    cases size <;> rfl
  rw [form, getLsbD_byteZAP small, hostShiftLeft, toNat_rest, toNat_and_seven, BitVec.getLsbD_not,
    getLsbD_lowMask_shift (by omega), BitVec.getLsbD_shiftLeft]
  cases value.getLsbD (k - (64 - 8 * (rb.toNat % 8)) % 64)
  · simp
  · rw [Bool.eq_iff_iff]
    simp [show k / 8 < 32 by omega, small]

theorem getLsbD_maskLow (small : k < 64) : (executeInts size.maskLow value rb).getLsbD k =
    (value.getLsbD k && !decide (rb.toNat % 8 ≤ k / 8 ∧ k / 8 < rb.toNat % 8 + size.bytes)) := by
  have form : executeInts size.maskLow value rb = byteZAP value (size.lowMask <<< (rb &&& 7).toNat) := by
    cases size <;> rfl
  rw [form, getLsbD_byteZAP small, toNat_and_seven, getLsbD_lowMask_shift (by omega)]

theorem getLsbD_maskHigh (small : k < 64) : (executeInts size.maskHigh value rb).getLsbD k =
    (value.getLsbD k && !decide (rb.toNat % 8 ≤ 8 + k / 8 ∧ 8 + k / 8 < rb.toNat % 8 + size.bytes)) := by
  have form : executeInts size.maskHigh value rb =
      byteZAP value ((size.lowMask <<< (rb &&& 7).toNat).sshiftRight 8) := by
    cases size <;> rfl
  rw [form, getLsbD_byteZAP small, toNat_and_seven, getLsbD_lowMask_high (by omega)]

theorem getLsbD_extractLow (small : k < 64) : (executeInts size.extractLow value rb).getLsbD k =
    (decide (k / 8 < size.bytes) && value.getLsbD (8 * (rb.toNat % 8) + k)) := by
  have form : executeInts size.extractLow value rb =
      byteZAP (hostShiftRight value ((rb &&& 7) * 8)) (~~~size.lowMask) := by
    cases size <;> rfl
  rw [form, getLsbD_byteZAP small, hostShiftRight, toNat_offset_mul, BitVec.getLsbD_not, AccessSize.lowMask,
    getLsbD_ones, BitVec.getLsbD_ushiftRight, Nat.mod_eq_of_lt (by omega), Bool.and_comm]
  simp [show k / 8 < 32 by omega]

theorem getLsbD_extractHigh (small : k < 64) : (executeInts size.extractHigh value rb).getLsbD k =
    (decide ((64 - 8 * (rb.toNat % 8)) % 64 ≤ k ∧ k / 8 < size.bytes) &&
      value.getLsbD (k - (64 - 8 * (rb.toNat % 8)) % 64)) := by
  have form : executeInts size.extractHigh value rb =
      byteZAP (hostShiftLeft value (64 - (rb &&& 7) * 8)) (~~~size.lowMask) := by
    cases size <;> rfl
  rw [form, getLsbD_byteZAP small, hostShiftLeft, toNat_rest, BitVec.getLsbD_not, AccessSize.lowMask, getLsbD_ones,
    BitVec.getLsbD_shiftLeft]
  cases value.getLsbD (k - (64 - 8 * (rb.toNat % 8)) % 64)
  · simp
  · rw [Bool.eq_iff_iff]
    simp [show k / 8 < 32 by omega, small]

theorem getLsbD_inQuadwords {b : Nat} : (inQuadwords size value b).getLsbD k =
    (decide (8 * b ≤ k ∧ k < 128 ∧ k - 8 * b < 8 * size.bytes) && value.getLsbD (k - 8 * b)) := by
  rw [inQuadwords, BitVec.getLsbD_shiftLeft, BitVec.getLsbD_ofNat, Nat.testBit_mod_two_pow, BitVec.testBit_toNat]
  cases value.getLsbD (k - 8 * b)
  · simp
  · rw [Bool.eq_iff_iff]
    simp
    omega

theorem getField_byte_eq_zero {i : Nat} :
    getField value (8 * i) 8 = 0 ↔ ∀ m < 8, value.getLsbD (8 * i + m) = false := by
  constructor
  · intro zero m small
    have bit : (getField value (8 * i) 8).getLsbD m = false := by
      rw [zero]
      exact BitVec.getLsbD_zero
    rwa [getField, BitVec.getLsbD_extractLsb', decide_eq_true small, Bool.true_and] at bit
  · intro clear
    apply BitVec.eq_of_getLsbD_eq
    intro m small
    rw [getField, BitVec.getLsbD_extractLsb', clear m small, Bool.and_false]
    exact BitVec.getLsbD_zero.symm

theorem insertLow_eq : executeInts size.insertLow value rb = (inQuadwords size value (rb.toNat % 8)).setWidth 64 := by
  apply BitVec.eq_of_getLsbD_eq
  intro k small
  rw [getLsbD_insertLow small, BitVec.getLsbD_setWidth, getLsbD_inQuadwords]
  cases value.getLsbD (k - 8 * (rb.toNat % 8))
  · simp
  · rw [Bool.eq_iff_iff]
    simp
    omega

theorem insertHigh_iff :
    executeInts size.insertHigh value rb = (inQuadwords size value (rb.toNat % 8)).extractLsb' 64 64 ↔
      HighBytesClear size value (rb.toNat % 8) := by
  have few := size.bytes_le
  have offset : rb.toNat % 8 < 8 := Nat.mod_lt _ (by decide)
  generalize place : rb.toNat % 8 = b at offset
  have rest : b = 0 ∧ (8 - b) % 8 = 0 ∧ (64 - 8 * b) % 64 = 0 ∨
      0 < b ∧ (8 - b) % 8 = 8 - b ∧ (64 - 8 * b) % 64 = 64 - 8 * b := by omega
  constructor
  · intro same i inside window
    rw [getField_byte_eq_zero]
    intro m small
    rcases window with moved | belongs
    · have bit := congrArg (fun x => x.getLsbD (8 * i + m + (64 - 8 * b) % 64)) same
      have inWord : 8 * i + m + (64 - 8 * b) % 64 < 64 := by omega
      simp only [getLsbD_insertHigh inWord, place, BitVec.getLsbD_extractLsb', getLsbD_inQuadwords,
        Nat.add_sub_cancel] at bit
      rw [decide_eq_true (by omega), Bool.true_and, decide_eq_true inWord, Bool.true_and, decide_eq_false (by omega),
        Bool.false_and] at bit
      exact bit
    · have bit := congrArg (fun x => x.getLsbD (8 * i + m + 8 * b - 64)) same
      have inWord : 8 * i + m + 8 * b - 64 < 64 := by omega
      simp only [getLsbD_insertHigh inWord, place, BitVec.getLsbD_extractLsb', getLsbD_inQuadwords] at bit
      rw [decide_eq_false (by omega), Bool.false_and, decide_eq_true inWord, Bool.true_and,
        decide_eq_true (by omega), Bool.true_and, show 64 + (8 * i + m + 8 * b - 64) - 8 * b = 8 * i + m by omega] at bit
      exact bit.symm
  · intro clear
    apply BitVec.eq_of_getLsbD_eq
    intro k small
    have bits : ∀ l < 64, (b ≤ l / 8 + (8 - b) % 8 ∧ l / 8 + (8 - b) % 8 < 8 ∧ l / 8 + (8 - b) % 8 < b + size.bytes) ∨
        (8 - b ≤ l / 8 ∧ l / 8 < size.bytes) → value.getLsbD l = false := by
      intro l inside window
      have bit := getField_byte_eq_zero.mp (clear (l / 8) (by omega) window) (l % 8) (by omega)
      rwa [Nat.div_add_mod] at bit
    rw [getLsbD_insertHigh small, place, BitVec.getLsbD_extractLsb', getLsbD_inQuadwords]
    have left : (decide ((64 - 8 * b) % 64 ≤ k ∧ b ≤ k / 8 ∧ k / 8 < b + size.bytes) &&
        value.getLsbD (k - (64 - 8 * b) % 64)) = false := by
      by_cases window : (64 - 8 * b) % 64 ≤ k ∧ b ≤ k / 8 ∧ k / 8 < b + size.bytes
      · rw [bits (k - (64 - 8 * b) % 64) (by omega) (Or.inl (by omega)), Bool.and_false]
      · rw [decide_eq_false window, Bool.false_and]
    have right : (decide (8 * b ≤ 64 + k ∧ 64 + k < 128 ∧ 64 + k - 8 * b < 8 * size.bytes) &&
        value.getLsbD (64 + k - 8 * b)) = false := by
      by_cases window : 8 * b ≤ 64 + k ∧ 64 + k < 128 ∧ 64 + k - 8 * b < 8 * size.bytes
      · rw [bits (64 + k - 8 * b) (by omega) (Or.inr (by omega)), Bool.and_false]
      · rw [decide_eq_false window, Bool.false_and]
    rw [left, right, Bool.and_false]

theorem getField_byte_of_masked {masked quadword : BitVec 64} {i : Nat} (filled : Nat → Prop) [DecidablePred filled]
    (inside : i < 8)
    (bits : ∀ k < 64, masked.getLsbD k = (quadword.getLsbD k && !decide (filled (k / 8)))) :
    getField masked (8 * i) 8 = if filled i then 0 else getField quadword (8 * i) 8 := by
  apply BitVec.eq_of_getLsbD_eq
  intro m small
  rw [getField, BitVec.getLsbD_extractLsb', bits _ (by omega), show (8 * i + m) / 8 = i by omega]
  split
  · rename_i here
    simp [here]
  · rename_i other
    simp [other, getField]

theorem extract_eq : executeInts size.extractLow ((inQuadwords size value (rb.toNat % 8)).setWidth 64) rb |||
      executeInts size.extractHigh ((inQuadwords size value (rb.toNat % 8)).extractLsb' 64 64) rb =
    BitVec.ofNat 64 (value.toNat % 2 ^ (8 * size.bytes)) := by
  have few := size.bytes_le
  apply BitVec.eq_of_getLsbD_eq
  intro k small
  rw [BitVec.getLsbD_or, getLsbD_extractLow small, getLsbD_extractHigh small, BitVec.getLsbD_setWidth,
    BitVec.getLsbD_extractLsb', getLsbD_inQuadwords, getLsbD_inQuadwords, BitVec.getLsbD_ofNat, Nat.testBit_mod_two_pow,
    BitVec.testBit_toNat]
  have offset : rb.toNat % 8 < 8 := Nat.mod_lt _ (by decide)
  generalize rb.toNat % 8 = b at offset
  rw [show 8 * b + k - 8 * b = k by omega]
  -- the bit comes from the low quadword, unless the offset moves it out of it
  by_cases inLow : 8 * b + k < 64
  · have right : (decide ((64 - 8 * b) % 64 ≤ k ∧ k / 8 < size.bytes) && (decide (k - (64 - 8 * b) % 64 < 64) &&
        (decide (8 * b ≤ 64 + (k - (64 - 8 * b) % 64) ∧ 64 + (k - (64 - 8 * b) % 64) < 128 ∧
          64 + (k - (64 - 8 * b) % 64) - 8 * b < 8 * size.bytes) &&
            value.getLsbD (64 + (k - (64 - 8 * b) % 64) - 8 * b)))) = false := by
      by_cases window : (64 - 8 * b) % 64 ≤ k
      · rw [decide_eq_false (p := _ ∧ _ ∧ _) (by omega), Bool.false_and, Bool.and_false, Bool.and_false]
      · rw [decide_eq_false (by omega), Bool.false_and]
    rw [right, Bool.or_false]
    cases value.getLsbD k
    · simp
    · rw [Bool.eq_iff_iff]
      simp
      omega
  · have back : 64 + (k - (64 - 8 * b) % 64) - 8 * b = k := by omega
    rw [back, decide_eq_false inLow, Bool.false_and, Bool.and_false, Bool.false_or]
    cases value.getLsbD k
    · simp
    · rw [Bool.eq_iff_iff]
      simp
      omega

/-- The instructions for unaligned accesses fit together but for `INSWH`, `INSLH` and `INSQH`, which shift to the left
and keep the bytes at the offset. -/
theorem unalignedLaws_iff (size : AccessSize) (value rb : BitVec 64) :
    UnalignedLaws size value rb ↔ HighBytesClear size value (rb.toNat % 8) := by
  constructor
  · intro laws
    exact insertHigh_iff.mp laws.insertHigh
  · intro clear
    exact {
      insertLow := insertLow_eq
      insertHigh := insertHigh_iff.mpr clear
      maskLow := fun quadword i inside =>
        getField_byte_of_masked (fun i => rb.toNat % 8 ≤ i ∧ i < rb.toNat % 8 + size.bytes) inside
          fun k small => getLsbD_maskLow small
      maskHigh := fun quadword i inside =>
        getField_byte_of_masked (fun i => rb.toNat % 8 ≤ 8 + i ∧ 8 + i < rb.toNat % 8 + size.bytes) inside
          fun k small => getLsbD_maskHigh small
      extract := extract_eq }

/-- A word at the last offset of a quadword. -/
theorem insertHigh_word_lost : ¬ ∀ (size : AccessSize) (value rb : BitVec 64), UnalignedLaws size value rb := by
  intro laws
  have high : executeInts .inswh 0x1234 7 = (inQuadwords .word 0x1234 7).extractLsb' 64 64 :=
    (laws .word 0x1234 7).insertHigh
  revert high
  decide

end Bits

end Mgsim.Drisc
