import Mathlib.Data.BitVec
import Mathlib.Data.Nat.ModEq
import Mathlib.Data.Nat.Prime.Basic

namespace Mgsim.Lib

/-- A page number in front of an offset of `width` bits. -/
def joinPage {n : Nat} (page : BitVec n) (width : Nat) (offset : BitVec n) : BitVec n :=
  page <<< width ||| (((1 : BitVec n) <<< width) - 1 &&& offset)

variable {n width k : Nat}

theorem toNat_offsetMask (bound : width < n) : (((1 : BitVec n) <<< width) - 1).toNat = 2 ^ width - 1 := by
  have small : 2 ^ width < 2 ^ n := Nat.pow_lt_pow_right (by decide) bound
  have positive : 1 ≤ 2 ^ width := Nat.two_pow_pos width
  have one : (1 : BitVec n).toNat = 1 := Nat.mod_eq_of_lt (lt_of_le_of_lt positive small)
  have shifted : ((1 : BitVec n) <<< width).toNat = 2 ^ width := by
    rw [BitVec.toNat_shiftLeft, one, Nat.shiftLeft_eq, Nat.one_mul, Nat.mod_eq_of_lt small]
  rw [BitVec.toNat_sub_of_le (by rw [BitVec.le_def, one, shifted]; exact positive), shifted, one]

theorem toNat_offset (bound : width < n) (offset : BitVec n) :
    (((1 : BitVec n) <<< width) - 1 &&& offset).toNat = offset.toNat % 2 ^ width := by
  rw [BitVec.toNat_and, toNat_offsetMask bound, Nat.and_comm, Nat.and_two_pow_sub_one_eq_mod]

/-- Page number and offset do not share a bit, so that they can be added. -/
theorem toNat_joinPage (bound : width < n) (page offset : BitVec n) :
    (joinPage page width offset).toNat = page.toNat * 2 ^ width % 2 ^ n + offset.toNat % 2 ^ width := by
  have split : 2 ^ n = 2 ^ (n - width) * 2 ^ width := by
    rw [← Nat.pow_add]
    congr 1
    omega
  have low : offset.toNat % 2 ^ width < 2 ^ width := Nat.mod_lt _ (Nat.two_pow_pos width)
  have high : page.toNat * 2 ^ width % 2 ^ n = (page.toNat % 2 ^ (n - width)) <<< width := by
    rw [split, Nat.mul_mod_mul_right, Nat.shiftLeft_eq]
  rw [joinPage, BitVec.toNat_or, toNat_offset bound, BitVec.toNat_shiftLeft, Nat.shiftLeft_eq, high,
    Nat.shiftLeft_add_eq_or_of_lt low]

/-- An aligned number that does not change when it is scaled by a further power
of two is zero: the factor less one is odd. -/
theorem eq_zero_of_scaled {base : Nat} (positive : 0 < k) (bound : base < 2 ^ n)
    (same : base * 2 ^ k ≡ base [MOD 2 ^ n]) : base = 0 := by
  have odd : Odd (2 ^ k - 1) := by
    obtain ⟨j, rfl⟩ := Nat.exists_eq_add_of_le' positive
    refine ⟨2 ^ j - 1, ?_⟩
    have half : 1 ≤ 2 ^ j := Nat.two_pow_pos j
    rw [Nat.pow_succ]
    omega
  have factor : base * 2 ^ k - base = base * (2 ^ k - 1) := by rw [Nat.mul_sub_one]
  have divides : 2 ^ n ∣ base * (2 ^ k - 1) := by
    rw [← factor]
    exact (Nat.modEq_iff_dvd' (Nat.le_mul_of_pos_right _ (Nat.two_pow_pos k))).mp same.symm
  have coprime : Nat.Coprime (2 ^ n) (2 ^ k - 1) := (Nat.coprime_two_left.mpr odd).pow_left n
  exact Nat.eq_zero_of_dvd_of_lt (coprime.dvd_of_dvd_mul_right divides) bound

section Pages
variable {small : Nat} {base page used offset : BitVec n}

theorem toNat_base (atBase : page <<< small = base) (whole : page.toNat * 2 ^ small < 2 ^ n) :
    base.toNat = page.toNat * 2 ^ small := by
  rw [← atBase, BitVec.toNat_shiftLeft, Nat.shiftLeft_eq, Nat.mod_eq_of_lt whole]

theorem toNat_joinPage_modEq (bound : small + k < n) (atBase : page <<< small = base)
    (whole : page.toNat * 2 ^ small < 2 ^ n) :
    (joinPage page (small + k) used).toNat ≡ base.toNat * 2 ^ k + used.toNat % 2 ^ (small + k) [MOD 2 ^ n] := by
  rw [toNat_joinPage bound, Nat.pow_add, ← Nat.mul_assoc, ← toNat_base atBase whole]
  exact (Nat.mod_modEq _ _).add_right _

theorem joinPage_eq_iff_modEq (bound : small + k < n) (atBase : page <<< small = base)
    (whole : page.toNat * 2 ^ small < 2 ^ n) :
    joinPage page (small + k) used = base + offset ↔
      base.toNat * 2 ^ k + used.toNat % 2 ^ (small + k) ≡ base.toNat + offset.toNat [MOD 2 ^ n] := by
  have joined := @toNat_joinPage_modEq n k small base page used bound atBase whole
  have sum : (base + offset).toNat ≡ base.toNat + offset.toNat [MOD 2 ^ n] := by
    rw [BitVec.toNat_add]
    exact Nat.mod_modEq _ _
  rw [← BitVec.toNat_inj]
  constructor
  · intro same
    rw [same] at joined
    exact joined.symm.trans sum
  · intro same
    exact (joined.trans (same.trans sum.symm)).eq_of_lt_of_lt (BitVec.isLt _) (BitVec.isLt _)

/-- The number of a small page in front of the offset in a larger page gives the
address in the larger page only at zero. -/
theorem joinPage_eq_iff_of_offset (bound : small + k < n) (atBase : page <<< small = base)
    (whole : page.toNat * 2 ^ small < 2 ^ n) (same : used.toNat % 2 ^ (small + k) = offset.toNat) :
    joinPage page (small + k) used = base + offset ↔ k = 0 ∨ base = 0 := by
  rw [joinPage_eq_iff_modEq bound atBase whole, same]
  constructor
  · intro equal
    rcases Nat.eq_zero_or_pos k with zero | positive
    · exact Or.inl zero
    · have scaled := Nat.ModEq.add_right_cancel' _ equal
      exact Or.inr (BitVec.eq_of_toNat_eq (by simpa using eq_zero_of_scaled positive base.isLt scaled))
  · rintro (rfl | rfl)
    · rw [Nat.pow_zero, Nat.mul_one]
    · have zero : (0 : BitVec n).toNat = 0 := Nat.zero_mod _
      rw [zero, Nat.zero_mul]

/-- The same for another offset, when the larger page is aligned. -/
theorem joinPage_eq_iff (bound : small + k < n) (atBase : page <<< small = base)
    (whole : page.toNat * 2 ^ small < 2 ^ n) (aligned : base.toNat % 2 ^ (small + k) = 0)
    (low : offset.toNat < 2 ^ (small + k)) :
    joinPage page (small + k) used = base + offset ↔
      (k = 0 ∨ base = 0) ∧ used.toNat % 2 ^ (small + k) = offset.toNat := by
  constructor
  · intro formed
    have divides : 2 ^ (small + k) ∣ 2 ^ n := Nat.pow_dvd_pow 2 bound.le
    have equal := ((joinPage_eq_iff_modEq bound atBase whole).mp formed).of_dvd divides
    have highLeft : base.toNat * 2 ^ k ≡ 0 [MOD 2 ^ (small + k)] :=
      Nat.modEq_zero_iff_dvd.mpr (Dvd.dvd.mul_right (Nat.dvd_of_mod_eq_zero aligned) _)
    have highRight : base.toNat ≡ 0 [MOD 2 ^ (small + k)] := aligned
    have residue : 0 + used.toNat % 2 ^ (small + k) ≡ 0 + offset.toNat [MOD 2 ^ (small + k)] :=
      (highLeft.symm.add_right _).trans (equal.trans (highRight.add_right _))
    rw [Nat.zero_add, Nat.zero_add] at residue
    have same := residue.eq_of_lt_of_lt (Nat.mod_lt _ (Nat.two_pow_pos _)) low
    exact ⟨(joinPage_eq_iff_of_offset bound atBase whole same).mp formed, same⟩
  · rintro ⟨high, same⟩
    exact (joinPage_eq_iff_of_offset bound atBase whole same).mpr high

end Pages

end Mgsim.Lib
