import Mathlib.Data.BitVec

namespace Mgsim.Lib

section Fields
/-- The bit field of `width` bits at `pos`, counted from the low end. -/
def getField {n : Nat} (word : BitVec n) (pos width : Nat) : BitVec width :=
  word.extractLsb' pos width

/-- The word with the bit field at `pos` replaced. -/
def setField {n width : Nat} (word : BitVec n) (pos : Nat) (value : BitVec width) : BitVec n :=
  (word &&& ~~~((BitVec.allOnes width).setWidth n <<< pos)) ||| (value.setWidth n <<< pos)

variable {n : Nat} {word : BitVec n} {pos pos' width width' : Nat}

/-- A word whose low bits are set. -/
theorem getLsbD_ones {w i : Nat} : (BitVec.ofNat w (2 ^ n - 1)).getLsbD i = decide (i < w ∧ i < n) := by
  rw [BitVec.getLsbD_ofNat, Nat.testBit_two_pow_sub_one, Bool.decide_and]

theorem and_one_ne_zero {w : Nat} {x : BitVec (w + 1)} : x &&& 1 ≠ 0 ↔ x.getLsbD 0 = true := by
  rw [show (1 : BitVec (w + 1)) = 1#(w + 1) from rfl, BitVec.and_one_eq_setWidth_ofBool_getLsbD]
  cases x.getLsbD 0
  · simp
  · simp

theorem and_twoPow_ne_zero {w k : Nat} {x : BitVec w} (inside : k < w) :
    x &&& BitVec.twoPow w k ≠ 0 ↔ x.getLsbD k = true := by
  have nonzero : BitVec.twoPow w k ≠ 0#w := by
    intro zero
    have bit := congrArg (fun y => y.getLsbD k) zero
    simp [inside] at bit
  rw [BitVec.and_twoPow]
  cases x.getLsbD k <;> simp [nonzero]

theorem getLsbD_setField (value : BitVec width) (i : Nat) :
    (setField word pos value).getLsbD i =
      if pos ≤ i ∧ i < pos + width ∧ i < n then value.getLsbD (i - pos) else word.getLsbD i := by
  by_cases inside : pos ≤ i ∧ i < pos + width ∧ i < n
  · have low : i - pos < width := by omega
    have notBefore : ¬ i < pos := by omega
    simp [setField, inside, low, notBefore]
  · rw [if_neg inside]
    by_cases small : i < n
    · by_cases before : i < pos
      · simp [setField, before, small]
      · have high : ¬ i - pos < width := by omega
        simp [setField, small, before, high, BitVec.getLsbD_of_ge value (i - pos) (by omega)]
    · rw [BitVec.getLsbD_of_ge _ _ (by omega), BitVec.getLsbD_of_ge _ _ (by omega)]

/-- A field that fits into the word is read back as it was written. -/
@[simp] theorem getField_setField_self (value : BitVec width) (fits : pos + width ≤ n) :
    getField (setField word pos value) pos width = value := by
  apply BitVec.eq_of_getLsbD_eq
  intro i inside
  have place : pos ≤ pos + i ∧ pos + i < pos + width ∧ pos + i < n := by omega
  simp only [getField, BitVec.getLsbD_extractLsb', inside, decide_true, Bool.true_and, getLsbD_setField,
    if_pos place, Nat.add_sub_cancel_left]

/-- Writing one field leaves the fields beside it alone. -/
theorem getField_setField_of_disjoint (value : BitVec width)
    (disjoint : pos' + width' ≤ pos ∨ pos + width ≤ pos') :
    getField (setField word pos value) pos' width' = getField word pos' width' := by
  apply BitVec.eq_of_getLsbD_eq
  intro i inside
  have place : ¬ (pos ≤ pos' + i ∧ pos' + i < pos + width ∧ pos' + i < n) := by omega
  simp only [getField, BitVec.getLsbD_extractLsb', inside, decide_true, Bool.true_and, getLsbD_setField,
    if_neg place]

end Fields

section Aligned
/-- The mask `-2 ^ k` clears the low bits of a word. -/
theorem toNat_and_neg_twoPow {w k : Nat} (bound : k ≤ w) (a : BitVec w) :
    (a &&& -(BitVec.ofNat w (2 ^ k))).toNat = a.toNat - a.toNat % 2 ^ k := by
  have small := a.isLt
  have power : 2 ^ k ≤ 2 ^ w := Nat.pow_le_pow_right (by decide) bound
  have quotient := Nat.div_add_mod a.toNat (2 ^ k)
  rw [BitVec.toNat_and, BitVec.toNat_neg, BitVec.toNat_ofNat,
    show a.toNat - a.toNat % 2 ^ k = a.toNat / 2 ^ k * 2 ^ k by rw [Nat.mul_comm]; omega]
  rcases eq_or_lt_of_le bound with rfl | less
  · simp [Nat.div_eq_of_lt small]
  · have strict : 2 ^ k < 2 ^ w := Nat.pow_lt_pow_right (by decide) less
    rw [Nat.mod_eq_of_lt strict, Nat.mod_eq_of_lt (by omega : 2 ^ w - 2 ^ k < 2 ^ w)]
    refine Nat.eq_of_testBit_eq fun i => ?_
    have ones : 2 ^ w - 2 ^ k = 2 ^ w - ((2 ^ k - 1) + 1) := by omega
    rw [Nat.testBit_and, ones, Nat.testBit_two_pow_sub_succ (by omega), Nat.testBit_two_pow_sub_one,
      Nat.testBit_mul_two_pow, Nat.testBit_div_two_pow]
    by_cases low : i < k
    · simp [low, Nat.not_le.mpr low]
    · have high : k ≤ i := Nat.le_of_not_lt low
      by_cases inside : i < w
      · simp [low, high, inside, Nat.sub_add_cancel high]
      · have above : a.toNat.testBit i = false :=
          Nat.testBit_lt_two_pow (lt_of_lt_of_le small (Nat.pow_le_pow_right (by decide) (by omega)))
        simp [above, Nat.sub_add_cancel high]

/-- The mask `2 ^ k - 1` keeps the low bits of a word. -/
theorem toNat_and_low {w k : Nat} {a mask : BitVec w} (low : mask.toNat = 2 ^ k - 1) :
    (a &&& mask).toNat = a.toNat % 2 ^ k := by
  rw [BitVec.toNat_and, low, Nat.and_two_pow_sub_one_eq_mod]

end Aligned

section Marked
variable {w k : Nat} {x : BitVec w}

/-- The lowest set bit of a word, which marks how the word is divided. -/
theorem toNat_ctz {m : Nat} (marked : x.toNat = 2 ^ k * (2 * m + 1)) : x.ctz.toNat = k := by
  have set : x.getLsbD k = true := by
    rw [BitVec.getLsbD, marked, Nat.testBit_two_pow_mul]
    simp
  have nonzero : x ≠ 0 := by
    rintro rfl
    simp at set
  have lowest := BitVec.getLsbD_true_ctz_of_ne_zero nonzero
  rcases Nat.lt_trichotomy k x.ctz.toNat with before | same | behind
  · rw [BitVec.getLsbD_false_of_lt_ctz before] at set
    cases set
  · exact same.symm
  · rw [BitVec.getLsbD, marked, Nat.testBit_two_pow_mul] at lowest
    simp [Nat.not_le.mpr behind] at lowest

theorem marked_of_ne_zero (nonzero : x ≠ 0) : ∃ m, x.toNat = 2 ^ x.ctz.toNat * (2 * m + 1) := by
  have lowest := BitVec.getLsbD_true_ctz_of_ne_zero nonzero
  have clear : x.toNat % 2 ^ x.ctz.toNat = 0 := by
    refine Nat.eq_of_testBit_eq fun i => ?_
    rw [Nat.testBit_mod_two_pow, Nat.zero_testBit]
    by_cases below : i < x.ctz.toNat
    · rw [decide_eq_true below, Bool.true_and]
      exact BitVec.getLsbD_false_of_lt_ctz below
    · simp [below]
  have odd : x.toNat / 2 ^ x.ctz.toNat % 2 = 1 := by
    rw [BitVec.getLsbD, Nat.testBit_eq_decide_div_mod_eq] at lowest
    exact of_decide_eq_true lowest
  refine ⟨x.toNat / 2 ^ x.ctz.toNat / 2, ?_⟩
  have parts := Nat.div_add_mod x.toNat (2 ^ x.ctz.toNat)
  rw [clear, Nat.add_zero] at parts
  rw [show 2 * (x.toNat / 2 ^ x.ctz.toNat / 2) + 1 = x.toNat / 2 ^ x.ctz.toNat by omega, parts]

end Marked

end Mgsim.Lib
