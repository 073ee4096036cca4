import Mathlib.Data.Nat.Digits.Lemmas
import Mgsim.Drisc.Selector

namespace Mgsim.Drisc
open Mgsim.Mmu

namespace BankSelector

/-- The exclusive or of some digits. -/
def xorDigits (digits : List Nat) : Nat := digits.foldr (· ^^^ ·) 0

section
variable {combine : Addr → Addr → Addr} {numBanks a : Nat} {r address : Addr}

/-- The loop ends as soon as the quotient is not above the number of banks. -/
theorem fold_last (few : a / numBanks ≤ numBanks) : fold combine numBanks a r = combine r (BitVec.ofNat 64 a) := by
  rw [fold, if_neg fun more => absurd more.2 (Nat.not_lt.mpr few)]

theorem fold_more (two : 2 ≤ numBanks) (more : numBanks < a / numBanks) :
    fold combine numBanks a r = fold combine numBanks (a / numBanks) (combine r (BitVec.ofNat 64 a)) := by
  rw [fold, if_pos ⟨two, more⟩]

/-- The digits that are left when the loop ends do not cancel, unless there are none. -/
theorem last_digits (two : 2 ≤ numBanks) (few : a / numBanks ≤ numBanks) (some : a / numBanks ≠ 0) :
    Nat.digits numBanks (a / numBanks) = [a / numBanks] ∧ a / numBanks < numBanks ∨
      Nat.digits numBanks (a / numBanks) = [0, 1] := by
  rcases Nat.lt_or_eq_of_le few with below | equal
  · exact Or.inl ⟨Nat.digits_of_lt numBanks _ some below, below⟩
  · refine Or.inr ?_
    rw [equal, Nat.digits_def' two (by omega), Nat.mod_self, Nat.div_self (by omega),
      Nat.digits_of_lt numBanks 1 one_ne_zero two]

theorem digits_div (two : 2 ≤ numBanks) (a : Nat) :
    (Nat.digits numBanks a).sum = a % numBanks + (Nat.digits numBanks (a / numBanks)).sum ∧
      xorDigits (Nat.digits numBanks a) = a % numBanks ^^^ xorDigits (Nat.digits numBanks (a / numBanks)) := by
  rcases Nat.eq_zero_or_pos a with rfl | positive
  · simp [xorDigits]
  · rw [Nat.digits_def' two positive]
    exact ⟨List.sum_cons, rfl⟩

/-- The sum keeps the digits that the loop has met, and it has met all of them only when there is one. -/
theorem fold_add_eq (two : 2 ≤ numBanks) (room : r.toNat + 2 * a < 2 ^ 64) :
    (fold (· + ·) numBanks a r).toNat % numBanks = (r.toNat + (Nat.digits numBanks a).sum) % numBanks ↔ a < numBanks := by
  induction a using Nat.strong_induction_on generalizing r with
  | h a ih =>
    have added : (r + BitVec.ofNat 64 a).toNat = r.toNat + a := by
      rw [BitVec.toNat_add, BitVec.toNat_ofNat, Nat.mod_eq_of_lt (show a < 2 ^ 64 by omega), Nat.mod_eq_of_lt (by omega)]
    have half : a / numBanks ≤ a / 2 := Nat.div_le_div_left two (by decide)
    have digits := (digits_div two a).1
    rcases Nat.lt_or_ge numBanks (a / numBanks) with more | few
    · have large : numBanks ≤ a := by
        by_contra small
        rw [Nat.div_eq_of_lt (Nat.not_le.mp small)] at more
        omega
      have rest := ih (a / numBanks) (by omega) (r := r + BitVec.ofNat 64 a) (by rw [added]; omega)
      have same : (r.toNat + (Nat.digits numBanks a).sum) % numBanks =
          (r.toNat + a + (Nat.digits numBanks (a / numBanks)).sum) % numBanks := by
        rw [digits, ← Nat.add_assoc, Nat.add_mod, Nat.add_mod_mod r.toNat, ← Nat.add_mod]
      rw [fold_more two more, same, ← added, rest]
      omega
    · rw [fold_last few, added, digits, ← Nat.add_assoc]
      have kept : (r.toNat + a % numBanks + (Nat.digits numBanks (a / numBanks)).sum) % numBanks =
          (r.toNat + a + (Nat.digits numBanks (a / numBanks)).sum) % numBanks := by
        rw [Nat.add_mod, Nat.add_mod_mod r.toNat, ← Nat.add_mod]
      rw [kept, ← Nat.div_eq_zero_iff_lt (by omega)]
      constructor
      · intro same
        by_contra some
        have left : (Nat.digits numBanks (a / numBanks)).sum % numBanks = 0 := by
          have cancelled := Nat.ModEq.add_left_cancel' (r.toNat + a) (show r.toNat + a + 0 ≡
            r.toNat + a + (Nat.digits numBanks (a / numBanks)).sum [MOD numBanks] from same)
          exact cancelled.symm
        rcases last_digits two few some with ⟨one, below⟩ | two'
        · rw [one, List.sum_singleton, Nat.mod_eq_of_lt below] at left
          exact some left
        · rw [two', List.sum_cons, List.sum_singleton, Nat.mod_eq_of_lt two] at left
          omega
      · intro none
        rw [none, Nat.digits_zero, List.sum_nil, Nat.add_zero]

theorem fold_xor_eq {k : Nat} (two : 2 ≤ 2 ^ k) (room : a < 2 ^ 64) :
    (fold (· ^^^ ·) (2 ^ k) a r).toNat % 2 ^ k = r.toNat % 2 ^ k ^^^ xorDigits (Nat.digits (2 ^ k) a) ↔ a < 2 ^ k := by
  induction a using Nat.strong_induction_on generalizing r with
  | h a ih =>
    have added : (r ^^^ BitVec.ofNat 64 a).toNat % 2 ^ k = r.toNat % 2 ^ k ^^^ a % 2 ^ k := by
      rw [BitVec.toNat_xor, BitVec.toNat_ofNat, Nat.mod_eq_of_lt room, Nat.xor_mod_two_pow]
    have half : a / 2 ^ k ≤ a / 2 := Nat.div_le_div_left two (by decide)
    have digits := (digits_div two a).2
    rcases Nat.lt_or_ge (2 ^ k) (a / 2 ^ k) with more | few
    · have large : 2 ^ k ≤ a := by
        by_contra small
        rw [Nat.div_eq_of_lt (Nat.not_le.mp small)] at more
        omega
      have rest := ih (a / 2 ^ k) (by omega) (r := r ^^^ BitVec.ofNat 64 a) (by omega)
      rw [fold_more two more, digits, ← Nat.xor_assoc, ← added, rest]
      omega
    · rw [fold_last few, added, digits, ← Nat.xor_assoc, ← Nat.div_eq_zero_iff_lt (by omega)]
      constructor
      · intro same
        by_contra some
        have left : xorDigits (Nat.digits (2 ^ k) (a / 2 ^ k)) = 0 := by
          have cancelled := congrArg ((r.toNat % 2 ^ k ^^^ a % 2 ^ k) ^^^ ·) same
          simpa only [← Nat.xor_assoc, Nat.xor_self, Nat.zero_xor] using cancelled.symm
        rcases last_digits two few some with ⟨one, _⟩ | two'
        · rw [one, xorDigits, List.foldr_cons, List.foldr_nil, Nat.xor_zero] at left
          exact some left
        · rw [two'] at left
          simp [xorDigits] at left
      · intro none
        rw [none]
        simp [xorDigits]

/-- The selectors of two digits take both of them. -/
theorem map_rightAdd (two : 2 ≤ numBanks) (bound : numBanks < 2 ^ 64) (below : address.toNat < 2 ^ 63)
    (digits : address.toNat < numBanks ^ 2) :
    ((rightAdd numBanks).map address).2 = (Nat.digits numBanks address.toNat).sum % numBanks := by
  have high : address.toNat / numBanks < numBanks := Nat.div_lt_of_lt_mul (by rwa [← Nat.pow_two])
  have half : address.toNat / numBanks ≤ address.toNat := Nat.div_le_self _ _
  have last : (Nat.digits numBanks (address.toNat / numBanks)).sum = address.toNat / numBanks := by
    rcases Nat.eq_zero_or_pos (address.toNat / numBanks) with none | some
    · rw [none, Nat.digits_zero, List.sum_nil]
    · rw [Nat.digits_of_lt numBanks _ (by omega) high, List.sum_singleton]
  change (address + address / BitVec.ofNat 64 numBanks).toNat % numBanks = _
  rw [(digits_div two _).1, last, BitVec.toNat_add, BitVec.toNat_udiv, BitVec.toNat_ofNat, Nat.mod_eq_of_lt bound,
    Nat.mod_eq_of_lt (show address.toNat + address.toNat / numBanks < 2 ^ 64 by omega), Nat.mod_add_mod]

theorem map_rightXor {k : Nat} (two : 2 ≤ 2 ^ k) (bound : 2 ^ k < 2 ^ 64) (digits : address.toNat < (2 ^ k) ^ 2) :
    ((rightXor (2 ^ k)).map address).2 = xorDigits (Nat.digits (2 ^ k) address.toNat) := by
  have high : address.toNat / 2 ^ k < 2 ^ k := Nat.div_lt_of_lt_mul (by rwa [← Nat.pow_two])
  have last : xorDigits (Nat.digits (2 ^ k) (address.toNat / 2 ^ k)) = address.toNat / 2 ^ k := by
    rcases Nat.eq_zero_or_pos (address.toNat / 2 ^ k) with none | some
    · rw [none]
      simp [xorDigits]
    · rw [Nat.digits_of_lt (2 ^ k) _ (by omega) high, xorDigits, List.foldr_cons, List.foldr_nil, Nat.xor_zero]
  change (address ^^^ (address / BitVec.ofNat 64 (2 ^ k))).toNat % 2 ^ k = _
  rw [(digits_div two _).2, last, BitVec.toNat_xor, BitVec.toNat_udiv, BitVec.toNat_ofNat, Nat.mod_eq_of_lt bound,
    Nat.xor_mod_two_pow, Nat.mod_eq_of_lt high]

/-- The folding selectors are the folds of all the digits, and agree with the selectors of two digits, on the addresses
of one digit and on no others. -/
theorem folds_all_digits_iff (numBanks : Nat) (address : Addr) (two : 2 ≤ numBanks) (bound : numBanks < 2 ^ 64)
    (below : address.toNat < 2 ^ 63) :
    (((addFold numBanks).map address).2 = (Nat.digits numBanks address.toNat).sum % numBanks ↔
        address.toNat < numBanks) ∧
      (∀ k, numBanks = 2 ^ k → (((xorFold numBanks).map address).2 = xorDigits (Nat.digits numBanks address.toNat) ↔
        address.toNat < numBanks)) ∧
      (address.toNat < numBanks ^ 2 → (((addFold numBanks).map address).2 = ((rightAdd numBanks).map address).2 ↔
        address.toNat < numBanks)) ∧
      ∀ k, numBanks = 2 ^ k → address.toNat < numBanks ^ 2 →
        (((xorFold numBanks).map address).2 = ((rightXor numBanks).map address).2 ↔ address.toNat < numBanks) := by
  have add : ((addFold numBanks).map address).2 = (Nat.digits numBanks address.toNat).sum % numBanks ↔
      address.toNat < numBanks := by
    have folded := fold_add_eq two (r := 0) (a := address.toNat) (by simp; omega)
    rwa [show (0 : Addr).toNat = 0 from rfl, Nat.zero_add] at folded
  have xor : ∀ k, numBanks = 2 ^ k → (((xorFold numBanks).map address).2 = xorDigits (Nat.digits numBanks address.toNat) ↔
      address.toNat < numBanks) := by
    rintro k rfl
    have folded := fold_xor_eq two (r := 0) (a := address.toNat) (by omega)
    rwa [show (0 : Addr).toNat = 0 from rfl, Nat.zero_mod, Nat.zero_xor] at folded
  refine ⟨add, xor, fun digits => ?_, ?_⟩
  · rw [map_rightAdd two bound below digits]
    exact add
  · rintro k rfl digits
    rw [map_rightXor two bound digits]
    exact xor k rfl

theorem folds_all_digits_iff_five :
    (((addFold 2).map 5).2 = (Nat.digits 2 5).sum % 2 ↔ 5 < 2) ∧
      (∀ k, 2 = 2 ^ k → (((xorFold 2).map 5).2 = xorDigits (Nat.digits 2 5) ↔ 5 < 2)) ∧
      (5 < 2 ^ 2 → (((addFold 2).map 5).2 = ((rightAdd 2).map 5).2 ↔ 5 < 2)) ∧
      ∀ k, 2 = 2 ^ k → 5 < 2 ^ 2 → (((xorFold 2).map 5).2 = ((rightXor 2).map 5).2 ↔ 5 < 2) :=
  folds_all_digits_iff 2 5 (by decide) (by decide) (by decide)

/-- With two banks the second digit of the address 2 is not folded in. -/
theorem second_digit_lost : ¬ (((addFold 2).map 2).2 = (Nat.digits 2 2).sum % 2 ∧
    ((xorFold 2).map 2).2 = xorDigits (Nat.digits 2 2) ∧ ((addFold 2).map 2).2 = ((rightAdd 2).map 2).2 ∧
    ((xorFold 2).map 2).2 = ((rightXor 2).map 2).2) := by
  rintro ⟨sum, _⟩
  change (fold (· + ·) 2 2 0).toNat % 2 = _ at sum
  rw [fold_last (by decide)] at sum
  simp at sum

end

end BankSelector

end Mgsim.Drisc
