import Mathlib.Algebra.Ring.Nat
import Mathlib.Data.BitVec

namespace Mgsim.Lib
variable {w : Nat} {x y : BitVec w}

/-- What a sum of words has lost is recovered by comparing it with the words. -/
theorem toNat_add_carry (x y : BitVec w) :
    (x + y).toNat + 2 ^ w * (if x + y < x ∨ x + y < y then 1 else 0) = x.toNat + y.toNat := by
  have left := x.isLt
  have right := y.isLt
  simp only [BitVec.lt_def, BitVec.toNat_add]
  by_cases fits : x.toNat + y.toNat < 2 ^ w
  · rw [Nat.mod_eq_of_lt fits, if_neg (by omega), Nat.mul_zero, Nat.add_zero]
  · rw [Nat.mod_eq_sub_mod (by omega), Nat.mod_eq_of_lt (by omega), if_pos (by omega), Nat.mul_one]
    omega

/-- A sum or a difference of two words and a carry is off by at most one wrap-around. -/
theorem toInt_ofInt_near {s : Int} (low : -2 ^ w ≤ s) (high : s < 2 ^ w) :
    (BitVec.ofInt w s).toInt = s ∨ (BitVec.ofInt w s).toInt = s - 2 ^ w ∨ (BitVec.ofInt w s).toInt = s + 2 ^ w := by
  have power : ((2 ^ w : Nat) : Int) = 2 ^ w := by norm_cast
  have positive := Nat.two_pow_pos w
  rw [BitVec.toInt_ofInt, Int.bmod_def, power]
  rcases lt_or_ge s 0 with negative | natural
  · have wrapped : s % 2 ^ w = s + 2 ^ w := by
      rw [← Int.add_emod_right, Int.emod_eq_of_lt (by omega) (by omega)]
    rw [wrapped]
    split <;> omega
  · rw [Int.emod_eq_of_lt natural high]
    split <;> omega

/-- The bits of a word are the digits of any number that it stands for. -/
theorem getLsbD_ofInt_eq_digit {i : Nat} {z : Int} (inside : i < w) :
    (BitVec.ofInt w z).getLsbD i = decide (z / 2 ^ i % 2 = 1) := by
  have power : ((2 ^ w : Nat) : Int) = 2 ^ i * (2 * 2 ^ (w - 1 - i)) := by
    push_cast
    rw [← pow_succ', ← pow_add]
    congr 1
    omega
  have positive : (0 : Int) < 2 ^ i := by exact_mod_cast Nat.two_pow_pos i
  have nonneg : 0 ≤ z % ((2 ^ w : Nat) : Int) := Int.emod_nonneg _ (by exact_mod_cast (Nat.two_pow_pos w).ne')
  have digit : z % ((2 ^ w : Nat) : Int) / 2 ^ i = z / 2 ^ i - 2 * (2 ^ (w - 1 - i) * (z / ((2 ^ w : Nat) : Int))) := by
    rw [Int.emod_def, sub_eq_add_neg, power, mul_assoc, ← mul_neg, Int.add_mul_ediv_left _ _ positive.ne', mul_assoc,
      ← sub_eq_add_neg]
  have cast : (((z % ((2 ^ w : Nat) : Int)).toNat / 2 ^ i : Nat) : Int) = z % ((2 ^ w : Nat) : Int) / 2 ^ i := by
    rw [Int.natCast_ediv, Int.toNat_of_nonneg nonneg]
    norm_cast
  rw [BitVec.getLsbD, BitVec.toNat_ofInt, Nat.testBit_eq_decide_div_mod_eq, decide_eq_decide]
  omega

section Sums
variable {x y r : BitVec (w + 1)} {c : Bool}

theorem toInt_bounds (x : BitVec (w + 1)) : -2 ^ w ≤ x.toInt ∧ x.toInt < 2 ^ w := by
  have low := x.le_toInt
  have high := x.toInt_lt
  exact ⟨by simpa using low, by simpa using high⟩

theorem two_pow_double (w : Nat) : ((2 ^ (w + 1) : Nat) : Int) = 2 * 2 ^ w := by
  rw [pow_succ, Nat.mul_comm]
  norm_cast

theorem near_of_eq {s : Int} (sum : r = BitVec.ofInt (w + 1) s) (low : -(2 * 2 ^ w) ≤ s) (high : s < 2 * 2 ^ w) :
    r.toInt = s ∨ r.toInt = s - 2 * 2 ^ w ∨ r.toInt = s + 2 * 2 ^ w := by
  have double : (2 : Int) ^ (w + 1) = 2 * 2 ^ w := by rw [pow_succ, mul_comm]
  have near := toInt_ofInt_near (w := w + 1) (s := s) (by omega) (by omega)
  rwa [← sum, double] at near

theorem toNat_eq_of_sign (x : BitVec (w + 1)) :
    (x.toNat : Int) = if x.toInt < 0 then x.toInt + 2 * 2 ^ w else x.toInt := by
  have high := x.isLt
  have double := two_pow_double w
  rw [BitVec.toInt_eq_toNat_cond, double]
  split <;> split <;> omega

/-- ``Overflow occurs on addition if both operands have the same sign and the sign of the sum is different.'' -/
theorem add_overflow (sum : r = BitVec.ofInt (w + 1) (x.toInt + y.toInt + c.toNat)) :
    (!(x.msb ^^ y.msb) && (x.msb ^^ r.msb)) =
      !decide (-2 ^ w ≤ x.toInt + y.toInt + c.toNat ∧ x.toInt + y.toInt + c.toNat < 2 ^ w) := by
  have left := toInt_bounds x
  have right := toInt_bounds y
  have result := toInt_bounds r
  have carry := c.toNat_le
  have near := near_of_eq sum (by omega) (by omega)
  rw [x.msb_eq_toInt, y.msb_eq_toInt, r.msb_eq_toInt]
  by_cases negative : x.toInt < 0 <;> by_cases other : y.toInt < 0 <;> by_cases below : r.toInt < 0 <;>
    simp [negative, other, below] <;> omega

theorem add_carry (sum : r = BitVec.ofInt (w + 1) (x.toInt + y.toInt + c.toNat)) :
    (x.msb && y.msb || !r.msb && (x.msb || y.msb)) = decide (2 ^ (w + 1) ≤ x.toNat + y.toNat + c.toNat) := by
  have left := toInt_bounds x
  have right := toInt_bounds y
  have result := toInt_bounds r
  have carry := c.toNat_le
  have near := near_of_eq sum (by omega) (by omega)
  have power := two_pow_double w
  have leftNat := toNat_eq_of_sign x
  have rightNat := toNat_eq_of_sign y
  rw [x.msb_eq_toInt, y.msb_eq_toInt, r.msb_eq_toInt]
  by_cases negative : x.toInt < 0 <;> by_cases other : y.toInt < 0 <;> by_cases below : r.toInt < 0 <;>
    simp only [negative, other, if_true, if_false] at leftNat rightNat <;>
    simp [negative, other, below] <;> omega

/-- ``Overflow occurs on subtraction if the operands have different signs and the sign of the difference differs
from the sign of the first.'' -/
theorem sub_overflow (difference : r = BitVec.ofInt (w + 1) (x.toInt - y.toInt - c.toNat)) :
    ((x.msb ^^ y.msb) && (x.msb ^^ r.msb)) =
      !decide (-2 ^ w ≤ x.toInt - y.toInt - c.toNat ∧ x.toInt - y.toInt - c.toNat < 2 ^ w) := by
  have left := toInt_bounds x
  have right := toInt_bounds y
  have result := toInt_bounds r
  have carry := c.toNat_le
  have near := near_of_eq difference (by omega) (by omega)
  rw [x.msb_eq_toInt, y.msb_eq_toInt, r.msb_eq_toInt]
  by_cases negative : x.toInt < 0 <;> by_cases other : y.toInt < 0 <;> by_cases below : r.toInt < 0 <;>
    simp [negative, other, below] <;> omega

theorem sub_borrow (difference : r = BitVec.ofInt (w + 1) (x.toInt - y.toInt - c.toNat)) :
    (!x.msb && y.msb || r.msb && (!x.msb || y.msb)) = decide (x.toNat < y.toNat + c.toNat) := by
  have left := toInt_bounds x
  have right := toInt_bounds y
  have result := toInt_bounds r
  have carry := c.toNat_le
  have near := near_of_eq difference (by omega) (by omega)
  have leftNat := toNat_eq_of_sign x
  have rightNat := toNat_eq_of_sign y
  rw [x.msb_eq_toInt, y.msb_eq_toInt, r.msb_eq_toInt]
  by_cases negative : x.toInt < 0 <;> by_cases other : y.toInt < 0 <;> by_cases below : r.toInt < 0 <;>
    simp only [negative, other, if_true, if_false] at leftNat rightNat <;>
    simp [negative, other, below] <;> omega

end Sums
end Mgsim.Lib
