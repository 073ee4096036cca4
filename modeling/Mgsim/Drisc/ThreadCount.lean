import Mathlib.Data.Set.Card
import Mgsim.Drisc.FamilyCreation

namespace Mgsim.Drisc

/-- The threads whose index is still before the limit, in the direction of the step. -/
def threadIndices (start limit step : Int) : Set Nat :=
  {i | 0 < step ∧ start + i * step < limit ∨ step < 0 ∧ limit < start + i * step}

/-- How far the limit is from the start, in the direction of the step. -/
def distance (start limit step : Int) : Nat := (if 0 < step then limit - start else start - limit).toNat

section Indices
variable {start limit step : Int}

/-- The threads are counted by a division that is rounded up. -/
theorem threadIndices_eq (nonzero : step ≠ 0) : threadIndices start limit step =
    Set.Iio ((distance start limit step + step.natAbs - 1) / step.natAbs) := by
  have positive : 0 < step.natAbs := Int.natAbs_pos.mpr nonzero
  have below : ∀ i : Nat, i < (distance start limit step + step.natAbs - 1) / step.natAbs ↔
      i * step.natAbs < distance start limit step := by
    intro i
    rw [Nat.lt_div_iff_mul_lt positive, Nat.mul_comm]
    omega
  ext i
  rw [Set.mem_Iio, below, threadIndices, Set.mem_setOf_eq]
  rcases Int.lt_or_gt_of_ne nonzero with down | up
  · have size : (i * step.natAbs : Int) = -(i * step) := by
      rw [Int.ofNat_natAbs_of_nonpos down.le, Int.mul_neg]
    rw [distance, if_neg (not_lt.mpr down.le), Int.lt_toNat, Nat.cast_mul, size]
    omega
  · have size : (i * step.natAbs : Int) = i * step := by rw [Int.natAbs_of_nonneg up.le]
    rw [distance, if_pos up, Int.lt_toNat, Nat.cast_mul, size]
    omega

theorem ncard_threadIndices (nonzero : step ≠ 0) : (threadIndices start limit step).ncard =
    (distance start limit step + step.natAbs - 1) / step.natAbs := by
  rw [threadIndices_eq nonzero, ← Finset.coe_range, Set.ncard_coe_finset, Finset.card_range]

end Indices

section Words
variable {w : Nat} {x y d s : BitVec w}

theorem toNat_eq_toInt_emod (x : BitVec w) : (x.toNat : Int) = x.toInt % 2 ^ w := by
  have whole := congrArg BitVec.toNat (BitVec.ofInt_toInt (x := x))
  rw [BitVec.toNat_ofInt] at whole
  have nonneg : 0 ≤ x.toInt % (2 ^ w : Nat) := Int.emod_nonneg _ (by exact_mod_cast (Nat.two_pow_pos w).ne')
  rw [← whole, Int.toNat_of_nonneg nonneg]
  push_cast
  rfl

/-- The unsigned difference is the distance of the signed values. -/
theorem toNat_sub_of_toInt_lt (less : x.toInt < y.toInt) : ((y - x).toNat : Int) = y.toInt - x.toInt := by
  have lower := BitVec.le_two_mul_toInt (x := x)
  have upper := BitVec.two_mul_toInt_lt (x := y)
  have whole : ((2 ^ w : Nat) : Int) = 2 ^ w := by push_cast; rfl
  rw [toNat_eq_toInt_emod, BitVec.toInt_sub, ← whole, Int.bmod_emod, Int.emod_eq_of_lt (by omega) (by omega)]

theorem toNat_neg_of_toInt_neg (down : x.toInt < 0) : ((-x).toNat : Int) = -x.toInt := by
  have lower := BitVec.le_two_mul_toInt (x := x)
  have whole : ((2 ^ w : Nat) : Int) = 2 ^ w := by push_cast; rfl
  rw [toNat_eq_toInt_emod, BitVec.toInt_neg, ← whole, Int.bmod_emod, Int.emod_eq_of_lt (by omega) (by omega)]

theorem toNat_of_toInt_nonneg (up : 0 ≤ x.toInt) : (x.toNat : Int) = x.toInt := by
  have upper := BitVec.two_mul_toInt_lt (x := x)
  have whole : ((2 ^ w : Nat) : Int) = 2 ^ w := by push_cast; rfl
  rw [toNat_eq_toInt_emod, ← whole, Int.emod_eq_of_lt up (by omega)]

/-- The division is rounded up exactly when the sum in front of it does not wrap around. -/
theorem ceil_div_iff (positive : 0 < s.toNat) : ((d + s - 1) / s).toNat = (d.toNat + s.toNat - 1) / s.toNat ↔
    d.toNat + s.toNat ≤ 2 ^ w := by
  have insideD := d.isLt
  have insideS := s.isLt
  have one : (1 : BitVec w).toNat = 1 := Nat.mod_eq_of_lt (show 1 < 2 ^ w by omega)
  have sum : (d + s - 1).toNat = (d.toNat + s.toNat - 1) % 2 ^ w := by
    rw [BitVec.toNat_sub, BitVec.toNat_add, one, Nat.add_mod_mod,
      show 2 ^ w - 1 + (d.toNat + s.toNat) = 2 ^ w + (d.toNat + s.toNat - 1) by omega, Nat.add_mod_left]
  rw [BitVec.toNat_udiv, sum]
  rcases Nat.lt_or_ge (d.toNat + s.toNat - 1) (2 ^ w) with fits | wraps
  · rw [Nat.mod_eq_of_lt fits]
    exact iff_of_true rfl (by omega)
  · have rest : (d.toNat + s.toNat - 1) % 2 ^ w = d.toNat + s.toNat - 1 - 2 ^ w := by
      rw [Nat.mod_eq_sub_mod wraps, Nat.mod_eq_of_lt (by omega)]
    have fewer : (d.toNat + s.toNat - 1 - 2 ^ w) / s.toNat < (d.toNat + s.toNat - 1) / s.toNat := by
      refine (Nat.div_lt_iff_lt_mul positive).mpr ?_
      have division := Nat.lt_div_mul_add positive (a := d.toNat + s.toNat - 1)
      omega
    rw [rest]
    exact iff_of_false fewer.ne (by omega)

end Words

/-- The count is right exactly when the distance and the size of a step do not exceed the range of the words together. -/
theorem calculateThreadCount_iff {t : Target} (start limit step : Integer t) (nonzero : step ≠ 0) :
    (∃ n, calculateThreadCount start limit step = .ok n ∧
        n.toNat = (threadIndices start.toInt limit.toInt step.toInt).ncard) ↔
      distance start.toInt limit.toInt step.toInt + step.toInt.natAbs ≤ 2 ^ (8 * t.sizeofInteger) := by
  have signed : step.toInt ≠ 0 := fun zero => nonzero (BitVec.toInt_inj.mp (zero.trans BitVec.toInt_zero.symm))
  rw [ncard_threadIndices signed, calculateThreadCount, if_neg nonzero]
  rcases Int.lt_or_gt_of_ne signed with down | up
  · have size : (-step).toNat = step.toInt.natAbs := by
      have value := toNat_neg_of_toInt_neg down
      omega
    have count : (if limit.slt start then start - limit else 0).toNat = distance start.toInt limit.toInt step.toInt := by
      rw [distance, if_neg (not_lt.mpr down.le)]
      split
      · rename_i less
        have value := toNat_sub_of_toInt_lt (BitVec.slt_iff_toInt_lt.mp less)
        omega
      · rename_i notLess
        have order : ¬ limit.toInt < start.toInt := fun less => notLess (BitVec.slt_iff_toInt_lt.mpr less)
        rw [show (0 : Integer t).toNat = 0 from BitVec.toNat_zero]
        omega
    have rounded := ceil_div_iff (d := if limit.slt start then start - limit else 0) (s := -step) (by omega)
    rw [count, size] at rounded
    rw [if_neg (by rw [BitVec.slt_iff_toInt_lt, show (0 : Integer t).toInt = 0 from BitVec.toInt_zero]; omega), ← rounded]
    simp
  · have size : step.toNat = step.toInt.natAbs := by
      have value := toNat_of_toInt_nonneg up.le
      omega
    have count : (if start.slt limit then limit - start else 0).toNat = distance start.toInt limit.toInt step.toInt := by
      rw [distance, if_pos up]
      split
      · rename_i less
        have value := toNat_sub_of_toInt_lt (BitVec.slt_iff_toInt_lt.mp less)
        omega
      · rename_i notLess
        have order : ¬ start.toInt < limit.toInt := fun less => notLess (BitVec.slt_iff_toInt_lt.mpr less)
        rw [show (0 : Integer t).toNat = 0 from BitVec.toNat_zero]
        omega
    have rounded := ceil_div_iff (d := if start.slt limit then limit - start else 0) (s := step) (by omega)
    rw [count, size] at rounded
    rw [if_pos (by rw [BitVec.slt_iff_toInt_lt, show (0 : Integer t).toInt = 0 from BitVec.toInt_zero]; exact up), ← rounded]
    simp

theorem calculateThreadCount_iff_three :
    (∃ n, calculateThreadCount (1 : Integer .or1k) 10 3 = .ok n ∧
        n.toNat = (threadIndices (1 : Integer .or1k).toInt (10 : Integer .or1k).toInt (3 : Integer .or1k).toInt).ncard) ↔
      distance (1 : Integer .or1k).toInt (10 : Integer .or1k).toInt (3 : Integer .or1k).toInt +
        (3 : Integer .or1k).toInt.natAbs ≤ 2 ^ (8 * Target.or1k.sizeofInteger) :=
  calculateThreadCount_iff 1 10 3 (by decide)

/-- From the least to the greatest number in steps of two, no thread is counted at all. -/
theorem whole_range_uncounted : ¬ ∃ n, calculateThreadCount (0x8000000000000000 : Integer .mtalpha) 0x7fffffffffffffff 2 =
    .ok n ∧ n.toNat = (threadIndices (-2 ^ 63) (2 ^ 63 - 1) 2).ncard := by
  rintro ⟨n, counted, right⟩
  have none : calculateThreadCount (0x8000000000000000 : Integer .mtalpha) 0x7fffffffffffffff 2 = .ok 0 := by decide
  cases none.symm.trans counted
  rw [ncard_threadIndices (by decide)] at right
  exact absurd right (by decide)

end Mgsim.Drisc
