import Mathlib.Algebra.Ring.Nat
import Mgsim.Drisc.RegisterBytes
import Mgsim.Lib.BitField

namespace Mgsim.Drisc
open Mgsim.Lib

/-- `BITS<uint64_t>`. -/
def bitsUnsigned (val : BitVec 64) (offset size : Nat) : BitVec 64 := (val <<< (64 - size - offset)) >>> (64 - size)

/-- `BITS<int64_t>`. -/
def bitsSigned (val : BitVec 64) (offset size : Nat) : BitVec 64 :=
  (val <<< (64 - size - offset)).sshiftRight (64 - size)

/-- `MASK1`. -/
def mask1 (offset size : Nat) : BitVec 64 := ((1 <<< size) - 1) <<< offset

/-- The functions of `ExecuteFPTI`. -/
inductive FptiFunc
  | ctlz | ctpop | cttz
  | sextb | sextw
  | ftois | ftoit
  | perr
  | pklb | pkwb
  | unpkbl | unpkbw
  | minsb8 | minsw4 | maxsb8 | maxsw4
  | minub8 | minuw4 | maxub8 | maxuw4
deriving DecidableEq

/-- The loop of `CTLZ` from the bit `i` down to the bit 1. -/
def ctlzLoop (rbv : BitVec 64) : Nat → Nat → Nat
  | 0, count => count
  | i + 1, count => if (rbv >>> (i + 1)) &&& 1 ≠ 0 then count else ctlzLoop rbv i (count + 1)

/-- The loop of `CTPOP` over the bits below `n`. -/
def ctpopLoop (rbv : BitVec 64) : Nat → Nat
  | 0 => 0
  | i + 1 => if (rbv >>> i) &&& 1 ≠ 0 then ctpopLoop rbv i + 1 else ctpopLoop rbv i

/-- The loop of `CTTZ` over `left` bits from the bit `i` on. -/
def cttzLoop (rbv : BitVec 64) : Nat → Nat → Nat → Nat
  | 0, _, count => count
  | left + 1, i, count => if (rbv >>> i) &&& 1 ≠ 0 then count else cttzLoop rbv left (i + 1) (count + 1)

/-- The loop of `PERR` over the first bytes. -/
def perrLoop (rav rbv : BitVec 64) : Nat → BitVec 64
  | 0 => 0
  | i + 1 =>
    let a := (bitsUnsigned rav (8 * i) 8).setWidth 8
    let b := (bitsUnsigned rbv (8 * i) 8).setWidth 8
    perrLoop rav rbv i + (if a ≥ b then a - b else b - a).setWidth 64

/-- The loop of the vector instructions over the first lanes. -/
def lanesLoop (step : Nat) (lane : Nat → BitVec 64) : Nat → BitVec 64
  | 0 => 0
  | j + 1 => lanesLoop step lane j ||| ((lane (step * j) &&& mask1 0 step) <<< (step * j))

/-- `std::min<int64_t>` and its siblings. -/
def minSigned (a b : BitVec 64) : BitVec 64 := if b.slt a then b else a

def maxSigned (a b : BitVec 64) : BitVec 64 := if a.slt b then b else a

def minUnsigned (a b : BitVec 64) : BitVec 64 := if b < a then b else a

def maxUnsigned (a b : BitVec 64) : BitVec 64 := if a < b then b else a

/-- A vector instruction on signed lanes. -/
def vectorSigned (cmp : BitVec 64 → BitVec 64 → BitVec 64) (step : Nat) (rav rbv : BitVec 64) : BitVec 64 :=
  lanesLoop step (fun i => cmp (bitsSigned rav i step) (bitsSigned rbv i step)) (64 / step)

/-- A vector instruction on unsigned lanes. -/
def vectorUnsigned (cmp : BitVec 64 → BitVec 64 → BitVec 64) (step : Nat) (rav rbv : BitVec 64) : BitVec 64 :=
  lanesLoop step (fun i => cmp (bitsUnsigned rav i step) (bitsUnsigned rbv i step)) (64 / step)

/-- The value that `ExecuteFPTI` gives to `Rcv`. -/
def executeFpti (func : FptiFunc) (rav rbv : BitVec 64) : BitVec 64 :=
  match func with
  | .ctlz => BitVec.ofNat 64 (ctlzLoop rbv 63 0)
  | .ctpop => BitVec.ofNat 64 (ctpopLoop rbv 63)
  | .cttz => BitVec.ofNat 64 (cttzLoop rbv 63 0 0)
  | .sextb => (rbv.setWidth 8).signExtend 64
  | .sextw => (rbv.setWidth 16).signExtend 64
  | .ftois => unserializeRegister .mtalpha .integer (serializeRegister .mtalpha .float rav 4)
  | .ftoit => unserializeRegister .mtalpha .integer (serializeRegister .mtalpha .float rav 8)
  | .perr => perrLoop rav rbv 8
  | .pklb => (bitsUnsigned rbv 0 8 <<< 0) ||| (bitsUnsigned rbv 32 8 <<< 8)
  | .pkwb => (bitsUnsigned rbv 0 8 <<< 0) ||| (bitsUnsigned rbv 16 8 <<< 8) |||
      (bitsUnsigned rbv 32 8 <<< 16) ||| (bitsUnsigned rbv 48 8 <<< 24)
  | .unpkbl => (bitsUnsigned rbv 0 8 <<< 0) ||| (bitsUnsigned rbv 8 8 <<< 32)
  | .unpkbw => (bitsUnsigned rbv 0 8 <<< 0) ||| (bitsUnsigned rbv 8 8 <<< 16) |||
      (bitsUnsigned rbv 16 8 <<< 32) ||| (bitsUnsigned rbv 24 8 <<< 48)
  | .minsb8 => vectorSigned minSigned 8 rav rbv
  | .minsw4 => vectorSigned minSigned 16 rav rbv
  | .maxsb8 => vectorSigned maxSigned 8 rav rbv
  | .maxsw4 => vectorSigned maxSigned 16 rav rbv
  | .minub8 => vectorUnsigned minUnsigned 8 rav rbv
  | .minuw4 => vectorUnsigned minUnsigned 16 rav rbv
  | .maxub8 => vectorUnsigned maxUnsigned 8 rav rbv
  | .maxuw4 => vectorUnsigned maxUnsigned 16 rav rbv

/-- What the vector instruction does to the lanes of `step` bits, as signed numbers. -/
def LaneWiseSigned (func : FptiFunc) (step : Nat) (choose : Int → Int → Int) (rav rbv : BitVec 64) : Prop :=
  ∀ j < 64 / step, (getField (executeFpti func rav rbv) (step * j) step).toInt =
    choose (getField rav (step * j) step).toInt (getField rbv (step * j) step).toInt

/-- And as unsigned numbers. -/
def LaneWiseUnsigned (func : FptiFunc) (step : Nat) (choose : Nat → Nat → Nat) (rav rbv : BitVec 64) : Prop :=
  ∀ j < 64 / step, (getField (executeFpti func rav rbv) (step * j) step).toNat =
    choose (getField rav (step * j) step).toNat (getField rbv (step * j) step).toNat

/-- What the counts and the multimedia instructions compute. -/
structure MultimediaLaws (rav rbv : BitVec 64) : Prop where
  ctpop : executeFpti .ctpop rav rbv = rbv.cpop
  ctlz : executeFpti .ctlz rav rbv = rbv.clz
  cttz : executeFpti .cttz rav rbv = rbv.ctz
  perr : (executeFpti .perr rav rbv).toNat = ((List.range 8).map fun i =>
    ((getField rav (8 * i) 8).toNat - (getField rbv (8 * i) 8).toNat : Int).natAbs).sum
  minsb8 : LaneWiseSigned .minsb8 8 min rav rbv
  minsw4 : LaneWiseSigned .minsw4 16 min rav rbv
  maxsb8 : LaneWiseSigned .maxsb8 8 max rav rbv
  maxsw4 : LaneWiseSigned .maxsw4 16 max rav rbv
  minub8 : LaneWiseUnsigned .minub8 8 min rav rbv
  minuw4 : LaneWiseUnsigned .minuw4 16 min rav rbv
  maxub8 : LaneWiseUnsigned .maxub8 8 max rav rbv
  maxuw4 : LaneWiseUnsigned .maxuw4 16 max rav rbv
  pklb_unpkbl : executeFpti .pklb rav (executeFpti .unpkbl rav rbv) = BitVec.ofNat 64 (rbv.toNat % 2 ^ 16)
  pkwb_unpkbw : executeFpti .pkwb rav (executeFpti .unpkbw rav rbv) = BitVec.ofNat 64 (rbv.toNat % 2 ^ 32)

variable {rav rbv val : BitVec 64} {offset size step k : Nat}

theorem shifted_and_one {x : BitVec 64} {i : Nat} : (x >>> i) &&& 1 ≠ 0 ↔ x.getLsbD i = true := by
  rw [and_one_ne_zero, BitVec.getLsbD_ushiftRight]
  rfl

section Counts

/-- The loop of `CTPOP` counts the bits that it looks at. -/
theorem ctpopLoop_eq (n : Nat) : ctpopLoop rbv n = rbv.cpopNatRec n 0 := by
  induction n with
  | zero => rfl
  | succ n ih =>
    rw [BitVec.cpopNatRec_succ, BitVec.cpopNatRec_eq, ← ih, ctpopLoop]
    by_cases set : rbv.getLsbD n = true
    · rw [if_pos (shifted_and_one.mpr set), set]
      simp
    · rw [if_neg (shifted_and_one.not.mpr set), Bool.eq_false_iff.mpr set]
      rfl

theorem ctpop_iff : executeFpti .ctpop rav rbv = rbv.cpop ↔ rbv.msb = false := by
  have small := BitVec.toNat_cpop_le rbv
  have whole : rbv.cpop.toNat = ctpopLoop rbv 63 + (rbv.getLsbD 63).toNat := by
    rw [BitVec.toNat_cpop, BitVec.cpopNatRec_succ, BitVec.cpopNatRec_eq, ctpopLoop_eq, Nat.zero_add]
  rw [BitVec.msb_eq_getLsbD_last, ← BitVec.toNat_inj, executeFpti, BitVec.toNat_ofNat, Nat.mod_eq_of_lt (by omega),
    whole]
  cases rbv.getLsbD 63 <;> simp

/-- The loop of `CTLZ` finds the highest bit, if it is among those that are left. -/
theorem ctlzLoop_eq {i : Nat} (inside : i < 64) :
    ((∃ j ≤ i, rbv.getLsbD j = true) → BitVec.ofNat 64 (ctlzLoop rbv i (63 - i)) = rbv.clzAuxRec i) ∧
      ((∀ j ≤ i, rbv.getLsbD j = false) → ctlzLoop rbv i (63 - i) = 63) := by
  induction i with
  | zero =>
    refine ⟨fun ⟨j, first, set⟩ => ?_, fun _ => rfl⟩
    rw [Nat.le_zero.mp first] at set
    rw [BitVec.clzAuxRec_zero, if_pos set, ctlzLoop]
  | succ i ih =>
    have next : 63 - (i + 1) + 1 = 63 - i := by omega
    rw [BitVec.clzAuxRec_succ, ctlzLoop, next]
    by_cases set : rbv.getLsbD (i + 1) = true
    · rw [if_pos (shifted_and_one.mpr set), if_pos set]
      exact ⟨fun _ => rfl, fun clear => absurd (clear _ (Nat.le_refl _)) (by simp [set])⟩
    · rw [if_neg (shifted_and_one.not.mpr set), if_neg set]
      refine ⟨?_, fun clear => (ih (by omega)).2 fun j below => clear j (by omega)⟩
      rintro ⟨j, below, found⟩
      have other : j ≠ i + 1 := fun same => set (same ▸ found)
      exact (ih (by omega)).1 ⟨j, by omega, found⟩

theorem exists_bit (nonzero : rbv ≠ 0) : ∃ j ≤ 63, rbv.getLsbD j = true := by
  by_contra none
  refine nonzero (BitVec.eq_of_getLsbD_eq fun j inside => ?_)
  rw [BitVec.ofNat_eq_ofNat, BitVec.getLsbD_zero]
  by_contra set
  exact none ⟨j, by omega, Bool.not_eq_false _ ▸ set⟩

theorem ctlz_iff : executeFpti .ctlz rav rbv = rbv.clz ↔ rbv ≠ 0 := by
  constructor
  · rintro same rfl
    have counted : BitVec.ofNat 64 (ctlzLoop 0 63 0) = BitVec.clz 0 := same
    revert counted
    decide
  · intro nonzero
    exact (ctlzLoop_eq (by decide)).1 (exists_bit nonzero)

/-- The loop of `CTTZ` finds the lowest bit, if it is among those that are left. -/
theorem cttzLoop_spec (rbv : BitVec 64) (left i : Nat) : i ≤ cttzLoop rbv left i i ∧ cttzLoop rbv left i i ≤ i + left ∧
    (∀ j, i ≤ j → j < cttzLoop rbv left i i → rbv.getLsbD j = false) ∧
      (cttzLoop rbv left i i < i + left → rbv.getLsbD (cttzLoop rbv left i i) = true) := by
  induction left generalizing i with
  | zero =>
    rw [cttzLoop]
    exact ⟨Nat.le_refl i, Nat.le_refl i, fun j above below => absurd above (by omega),
      fun inside => absurd inside (by omega)⟩
  | succ left ih =>
    rw [cttzLoop]
    by_cases set : rbv.getLsbD i = true
    · rw [if_pos (shifted_and_one.mpr set)]
      exact ⟨Nat.le_refl i, by omega, fun j above below => absurd above (by omega), fun _ => set⟩
    · rw [if_neg (shifted_and_one.not.mpr set)]
      obtain ⟨above, inside, clear, found⟩ := ih (i + 1)
      refine ⟨by omega, by omega, fun j from_ below => ?_, fun within => found (by omega)⟩
      by_cases here : j = i
      · rw [here]
        exact Bool.eq_false_iff.mpr set
      · exact clear j (by omega) below

theorem cttz_iff : executeFpti .cttz rav rbv = rbv.ctz ↔ rbv ≠ 0 := by
  obtain ⟨_, inside, clear, found⟩ := cttzLoop_spec rbv 63 0
  have count : (executeFpti .cttz rav rbv).toNat = cttzLoop rbv 63 0 0 := by
    rw [executeFpti, BitVec.toNat_ofNat, Nat.mod_eq_of_lt (by omega)]
  constructor
  · intro same
    rw [same] at count
    refine BitVec.ctz_lt_iff_ne_zero.mp (BitVec.lt_def.mpr ?_)
    rw [count]
    exact Nat.lt_succ_of_le inside
  · intro nonzero
    have set := BitVec.getLsbD_true_ctz_of_ne_zero nonzero
    have low : rbv.ctz.toNat < 64 := BitVec.lt_of_getLsbD set
    apply BitVec.eq_of_toNat_eq
    rw [count]
    rcases Nat.lt_trichotomy (cttzLoop rbv 63 0 0) rbv.ctz.toNat with before | same | behind
    · have missed := BitVec.getLsbD_false_of_lt_ctz before
      rw [found (by omega)] at missed
      cases missed
    · exact same
    · rw [clear _ (Nat.zero_le _) behind] at set
      cases set

end Counts

section Fields

theorem getLsbD_bitsUnsigned (fits : offset + size ≤ 64) :
    (bitsUnsigned val offset size).getLsbD k = (decide (k < size) && val.getLsbD (offset + k)) := by
  rw [bitsUnsigned, BitVec.getLsbD_ushiftRight, BitVec.getLsbD_shiftLeft]
  by_cases inside : k < size
  · rw [show 64 - size + k - (64 - size - offset) = offset + k by omega]
    simp [inside, show 64 - size + k < 64 by omega, show ¬ 64 - size + k < 64 - size - offset by omega]
  · simp [inside, show ¬ 64 - size + k < 64 by omega]

theorem bitsUnsigned_eq (fits : offset + size ≤ 64) :
    bitsUnsigned val offset size = (getField val offset size).setWidth 64 := by
  apply BitVec.eq_of_getLsbD_eq
  intro k small
  rw [getLsbD_bitsUnsigned fits, BitVec.getLsbD_setWidth, getField, BitVec.getLsbD_extractLsb']
  simp [small]

theorem bitsSigned_eq (positive : 0 < size) (fits : offset + size ≤ 64) :
    bitsSigned val offset size = (getField val offset size).signExtend 64 := by
  have bit : ∀ k < size, (val <<< (64 - size - offset)).getLsbD (64 - size + k) = val.getLsbD (offset + k) := by
    intro k inside
    rw [BitVec.getLsbD_shiftLeft, show 64 - size + k - (64 - size - offset) = offset + k by omega]
    simp [show 64 - size + k < 64 by omega, show ¬ 64 - size + k < 64 - size - offset by omega]
  apply BitVec.eq_of_getLsbD_eq
  intro k small
  rw [bitsSigned, BitVec.getLsbD_sshiftRight, BitVec.getLsbD_signExtend, BitVec.msb_eq_getLsbD_last,
    BitVec.msb_eq_getLsbD_last, getField, BitVec.getLsbD_extractLsb', BitVec.getLsbD_extractLsb']
  have last := bit (size - 1) (by omega)
  rw [show 64 - size + (size - 1) = 63 by omega] at last
  by_cases inside : k < size
  · rw [if_pos (by omega), if_pos inside, bit k inside, decide_eq_false (by omega), decide_eq_true small,
      decide_eq_true inside]
    rfl
  · rw [if_neg (by omega), if_neg inside, last, decide_eq_false (by omega), decide_eq_true small,
      decide_eq_true (by omega)]
    rfl

theorem getLsbD_lanesLoop {lane : Nat → BitVec 64} {n : Nat} (ones : mask1 0 step = BitVec.ofNat 64 (2 ^ step - 1))
    (positive : 0 < step) (fits : step * n ≤ 64) : (lanesLoop step lane n).getLsbD k =
      (decide (k < step * n) && (lane (step * (k / step))).getLsbD (k % step)) := by
  induction n with
  | zero => simp [lanesLoop]
  | succ n ih =>
    have bound : step * (n + 1) = step * n + step := Nat.mul_succ step n
    rw [lanesLoop, BitVec.getLsbD_or, ih (by omega), BitVec.getLsbD_shiftLeft, BitVec.getLsbD_and, ones, getLsbD_ones]
    by_cases earlier : k < step * n
    · simp [earlier, show k < step * (n + 1) by omega]
    · by_cases here : k < step * (n + 1)
      · have place : k / step = n := Nat.div_eq_of_lt_le (by rw [Nat.mul_comm]; omega) (by rw [Nat.mul_comm]; omega)
        have rest : k % step = k - step * n := by rw [Nat.mod_eq_sub, place]
        simp [earlier, here, place, rest, show k < 64 by omega, show k - step * n < 64 by omega,
          show k - step * n < step by omega]
      · simp [earlier, here, show ¬ k - step * n < step by omega]

/-- A lane of the result. -/
theorem getField_lanesLoop {lane : Nat → BitVec 64} {n j : Nat} (ones : mask1 0 step = BitVec.ofNat 64 (2 ^ step - 1))
    (positive : 0 < step) (fits : step * n ≤ 64) (inside : j < n) :
    getField (lanesLoop step lane n) (step * j) step = (lane (step * j)).setWidth step := by
  have bound : step * j + step ≤ step * n := (Nat.mul_succ step j).symm.le.trans (Nat.mul_le_mul_left step inside)
  apply BitVec.eq_of_getLsbD_eq
  intro k small
  rw [getField, BitVec.getLsbD_extractLsb', getLsbD_lanesLoop ones positive fits, BitVec.getLsbD_setWidth,
    Nat.mul_add_div positive, Nat.div_eq_of_lt small, Nat.add_zero, Nat.mul_add_mod, Nat.mod_eq_of_lt small]
  simp [small, show step * j + k < step * n by omega]

theorem LaneWiseSigned.of_eq {func : FptiFunc} {cmp : BitVec 64 → BitVec 64 → BitVec 64} {choose : Int → Int → Int}
    (ones : mask1 0 step = BitVec.ofNat 64 (2 ^ step - 1)) (positive : 0 < step)
    (made : executeFpti func rav rbv = vectorSigned cmp step rav rbv)
    (chosen : ∀ a b : BitVec step,
      ((cmp (a.signExtend 64) (b.signExtend 64)).setWidth step).toInt = choose a.toInt b.toInt) :
    LaneWiseSigned func step choose rav rbv := by
  intro j inside
  have room : step * (64 / step) ≤ 64 := Nat.mul_div_le 64 step
  have bound : step * j + step ≤ 64 :=
    ((Nat.mul_succ step j).symm.le.trans (Nat.mul_le_mul_left step inside)).trans room
  rw [made, vectorSigned, getField_lanesLoop ones positive room inside, bitsSigned_eq positive bound,
    bitsSigned_eq positive bound, chosen]

theorem LaneWiseUnsigned.of_eq {func : FptiFunc} {cmp : BitVec 64 → BitVec 64 → BitVec 64} {choose : Nat → Nat → Nat}
    (ones : mask1 0 step = BitVec.ofNat 64 (2 ^ step - 1)) (positive : 0 < step)
    (made : executeFpti func rav rbv = vectorUnsigned cmp step rav rbv)
    (chosen : ∀ a b : BitVec step,
      ((cmp (a.setWidth 64) (b.setWidth 64)).setWidth step).toNat = choose a.toNat b.toNat) :
    LaneWiseUnsigned func step choose rav rbv := by
  intro j inside
  have room : step * (64 / step) ≤ 64 := Nat.mul_div_le 64 step
  have bound : step * j + step ≤ 64 :=
    ((Nat.mul_succ step j).symm.le.trans (Nat.mul_le_mul_left step inside)).trans room
  rw [made, vectorUnsigned, getField_lanesLoop ones positive room inside, bitsUnsigned_eq bound,
    bitsUnsigned_eq bound, chosen]

theorem setWidth_signExtend_lane (fits : step ≤ 64) (a : BitVec step) : (a.signExtend 64).setWidth step = a := by
  apply BitVec.eq_of_getLsbD_eq
  intro k small
  rw [BitVec.getLsbD_setWidth, BitVec.getLsbD_signExtend, if_pos small]
  simp [small, show k < 64 by omega]

theorem setWidth_setWidth_lane (fits : step ≤ 64) (a : BitVec step) : (a.setWidth 64).setWidth step = a := by
  rw [BitVec.setWidth_setWidth_of_le _ fits, BitVec.setWidth_eq]

theorem signed_slt (fits : step ≤ 64) (a b : BitVec step) :
    (a.signExtend 64).slt (b.signExtend 64) = decide (a.toInt < b.toInt) := by
  rw [BitVec.slt, BitVec.toInt_signExtend_of_le fits, BitVec.toInt_signExtend_of_le fits]

theorem minSigned_lane (fits : step ≤ 64) (a b : BitVec step) :
    ((minSigned (a.signExtend 64) (b.signExtend 64)).setWidth step).toInt = min a.toInt b.toInt := by
  rw [minSigned, signed_slt fits]
  by_cases less : b.toInt < a.toInt
  · rw [if_pos (decide_eq_true less), setWidth_signExtend_lane fits, min_eq_right less.le]
  · rw [if_neg (by simpa using less), setWidth_signExtend_lane fits, min_eq_left (not_lt.mp less)]

theorem maxSigned_lane (fits : step ≤ 64) (a b : BitVec step) :
    ((maxSigned (a.signExtend 64) (b.signExtend 64)).setWidth step).toInt = max a.toInt b.toInt := by
  rw [maxSigned, signed_slt fits]
  by_cases less : a.toInt < b.toInt
  · rw [if_pos (decide_eq_true less), setWidth_signExtend_lane fits, max_eq_right less.le]
  · rw [if_neg (by simpa using less), setWidth_signExtend_lane fits, max_eq_left (not_lt.mp less)]

theorem unsigned_lt (fits : step ≤ 64) (a b : BitVec step) : a.setWidth 64 < b.setWidth 64 ↔ a.toNat < b.toNat := by
  have left : a.toNat < 2 ^ 64 := a.isLt.trans_le (Nat.pow_le_pow_right (by decide) fits)
  have right : b.toNat < 2 ^ 64 := b.isLt.trans_le (Nat.pow_le_pow_right (by decide) fits)
  rw [BitVec.lt_def, BitVec.toNat_setWidth, BitVec.toNat_setWidth, Nat.mod_eq_of_lt left, Nat.mod_eq_of_lt right]

theorem minUnsigned_lane (fits : step ≤ 64) (a b : BitVec step) :
    ((minUnsigned (a.setWidth 64) (b.setWidth 64)).setWidth step).toNat = min a.toNat b.toNat := by
  rw [minUnsigned]
  by_cases less : b.toNat < a.toNat
  · rw [if_pos ((unsigned_lt fits b a).mpr less), setWidth_setWidth_lane fits, min_eq_right less.le]
  · rw [if_neg ((unsigned_lt fits b a).not.mpr less), setWidth_setWidth_lane fits, min_eq_left (not_lt.mp less)]

theorem maxUnsigned_lane (fits : step ≤ 64) (a b : BitVec step) :
    ((maxUnsigned (a.setWidth 64) (b.setWidth 64)).setWidth step).toNat = max a.toNat b.toNat := by
  rw [maxUnsigned]
  by_cases less : a.toNat < b.toNat
  · rw [if_pos ((unsigned_lt fits a b).mpr less), setWidth_setWidth_lane fits, max_eq_right less.le]
  · rw [if_neg ((unsigned_lt fits a b).not.mpr less), setWidth_setWidth_lane fits, max_eq_left (not_lt.mp less)]

end Fields

section PixelError

theorem pixel_difference (a b : BitVec 8) :
    ((if a ≥ b then a - b else b - a).setWidth 64).toNat = ((a.toNat : Int) - b.toNat).natAbs := by
  have left := a.isLt
  have right := b.isLt
  rw [BitVec.toNat_setWidth_of_le (by decide)]
  by_cases order : a ≥ b
  · have le : b.toNat ≤ a.toNat := order
    rw [if_pos order, BitVec.toNat_sub]
    omega
  · have lt : a.toNat < b.toNat := Nat.lt_of_not_le order
    rw [if_neg order, BitVec.toNat_sub]
    omega

theorem perrLoop_eq {n : Nat} (few : n ≤ 8) : (perrLoop rav rbv n).toNat = ((List.range n).map fun i =>
    ((getField rav (8 * i) 8).toNat - (getField rbv (8 * i) 8).toNat : Int).natAbs).sum ∧
      (perrLoop rav rbv n).toNat ≤ 255 * n := by
  induction n with
  | zero => exact ⟨rfl, Nat.le_refl 0⟩
  | succ n ih =>
    obtain ⟨sum, small⟩ := ih (by omega)
    have fields : ∀ x : BitVec 64, (bitsUnsigned x (8 * n) 8).setWidth 8 = getField x (8 * n) 8 := by
      intro x
      rw [bitsUnsigned_eq (by omega), setWidth_setWidth_lane (by decide)]
    have left := (getField rav (8 * n) 8).isLt
    have right := (getField rbv (8 * n) 8).isLt
    have difference := pixel_difference (getField rav (8 * n) 8) (getField rbv (8 * n) 8)
    have added : (perrLoop rav rbv (n + 1)).toNat = (perrLoop rav rbv n).toNat +
        ((getField rav (8 * n) 8).toNat - (getField rbv (8 * n) 8).toNat : Int).natAbs := by
      rw [perrLoop, fields, fields, BitVec.toNat_add, difference, Nat.mod_eq_of_lt (by omega)]
    rw [added, List.range_succ, List.map_append, List.sum_append, sum]
    refine ⟨by simp, ?_⟩
    rw [← sum]
    omega

end PixelError

section Packing

theorem pklb_unpkbl_eq :
    executeFpti .pklb rav (executeFpti .unpkbl rav rbv) = BitVec.ofNat 64 (rbv.toNat % 2 ^ 16) := by
  apply BitVec.eq_of_getLsbD_eq
  intro k small
  simp only [executeFpti, BitVec.getLsbD_or, BitVec.getLsbD_shiftLeft, BitVec.getLsbD_ofNat, Nat.testBit_mod_two_pow,
    BitVec.testBit_toNat]
  simp (disch := omega) only [getLsbD_bitsUnsigned, BitVec.getLsbD_or, BitVec.getLsbD_shiftLeft]
  have bytes : k < 8 ∨ 8 ≤ k ∧ k < 16 ∨ 16 ≤ k := by omega
  rcases bytes with first | ⟨from1, to1⟩ | above <;>
    simp (disch := omega) only [decide_eq_true, decide_eq_false, Bool.true_and, Bool.false_and, Bool.and_false,
      Bool.not_false, Bool.not_true, Bool.or_false, Bool.false_or, Nat.zero_add, Nat.sub_zero]
  exact congrArg rbv.getLsbD (by omega)

theorem pkwb_unpkbw_eq :
    executeFpti .pkwb rav (executeFpti .unpkbw rav rbv) = BitVec.ofNat 64 (rbv.toNat % 2 ^ 32) := by
  apply BitVec.eq_of_getLsbD_eq
  intro k small
  simp only [executeFpti, BitVec.getLsbD_or, BitVec.getLsbD_shiftLeft, BitVec.getLsbD_ofNat, Nat.testBit_mod_two_pow,
    BitVec.testBit_toNat]
  simp (disch := omega) only [getLsbD_bitsUnsigned, BitVec.getLsbD_or, BitVec.getLsbD_shiftLeft]
  have bytes : k < 8 ∨ 8 ≤ k ∧ k < 16 ∨ 16 ≤ k ∧ k < 24 ∨ 24 ≤ k ∧ k < 32 ∨ 32 ≤ k := by omega
  rcases bytes with first | ⟨from1, to1⟩ | ⟨from2, to2⟩ | ⟨from3, to3⟩ | above <;>
    simp (disch := omega) only [decide_eq_true, decide_eq_false, Bool.true_and, Bool.false_and, Bool.and_false,
      Bool.not_false, Bool.not_true, Bool.or_false, Bool.false_or, Nat.zero_add, Nat.sub_zero]
  · exact congrArg rbv.getLsbD (by omega)
  · exact congrArg rbv.getLsbD (by omega)
  · exact congrArg rbv.getLsbD (by omega)

end Packing

/-- All instructions compute what they should, but for `CTPOP`, which misses the highest bit, and the two other counts,
which stop at 63. -/
theorem multimediaLaws_iff (rav rbv : BitVec 64) : MultimediaLaws rav rbv ↔ rbv ≠ 0 ∧ rbv.msb = false := by
  constructor
  · intro laws
    exact ⟨ctlz_iff.mp laws.ctlz, ctpop_iff.mp laws.ctpop⟩
  · rintro ⟨nonzero, positive⟩
    have bytes : mask1 0 8 = BitVec.ofNat 64 (2 ^ 8 - 1) := by decide
    have words : mask1 0 16 = BitVec.ofNat 64 (2 ^ 16 - 1) := by decide
    exact {
      ctpop := ctpop_iff.mpr positive
      ctlz := ctlz_iff.mpr nonzero
      cttz := cttz_iff.mpr nonzero
      perr := (perrLoop_eq (Nat.le_refl 8)).1
      minsb8 := .of_eq bytes (by decide) rfl (minSigned_lane (by decide))
      minsw4 := .of_eq words (by decide) rfl (minSigned_lane (by decide))
      maxsb8 := .of_eq bytes (by decide) rfl (maxSigned_lane (by decide))
      maxsw4 := .of_eq words (by decide) rfl (maxSigned_lane (by decide))
      minub8 := .of_eq bytes (by decide) rfl (minUnsigned_lane (by decide))
      minuw4 := .of_eq words (by decide) rfl (minUnsigned_lane (by decide))
      maxub8 := .of_eq bytes (by decide) rfl (maxUnsigned_lane (by decide))
      maxuw4 := .of_eq words (by decide) rfl (maxUnsigned_lane (by decide))
      pklb_unpkbl := pklb_unpkbl_eq
      pkwb_unpkbw := pkwb_unpkbw_eq }

theorem counts_off_by_one : ¬ ∀ rav rbv : BitVec 64, MultimediaLaws rav rbv := by
  intro all
  exact ctlz_iff.mp (all 0 0).ctlz rfl

end Mgsim.Drisc
