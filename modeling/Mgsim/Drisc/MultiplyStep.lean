import Mgsim.Drisc.SparcManual

namespace Mgsim.Drisc
open Mgsim.Lib

/-- `ExecOtherInteger` for `S_OP3_MULScc`. -/
def execMulScc (rav rbv y psr : BitVec 32) : Except BasicFault BasicResult :=
  let ravLsb := rav &&& 1
  let n : Bool := psr &&& psrIccN ≠ 0
  let v : Bool := psr &&& psrIccV ≠ 0
  let rav := rav >>> 1 ||| if n ^^ v then 0x80000000 else 0
  match execBasicInteger .add true rbv (if y &&& 1 ≠ 0 then rav else 0) y psr with
  | .error fault => .error fault
  | .ok r => .ok ⟨r.rcv, r.y >>> 1 ||| ravLsb <<< 31, r.psr⟩

/-- `MULScc` over and over, on the same multiplicand. -/
def mulSteps (multiplicand : BitVec 32) : Nat → BasicResult → Except BasicFault BasicResult
  | 0, s => .ok s
  | k + 1, s =>
    match execMulScc s.rcv multiplicand s.y s.psr with
    | .error fault => .error fault
    | .ok s => mulSteps multiplicand k s

/-- The product as the manual computes it: the multiplier in `Y` and a partial product of zero, a step for each of its
bits, a step that only shifts, and the multiplicand taken off again for a multiplier below zero. -/
def multiply (multiplier multiplicand psr : BitVec 32) : Except BasicFault (BitVec 32 × BitVec 32) :=
  match execBasicInteger .and true 0 0 multiplier psr with
  | .error fault => .error fault
  | .ok s =>
    match mulSteps multiplicand 32 s with
    | .error fault => .error fault
    | .ok s =>
      match execMulScc s.rcv 0 s.y s.psr with
      | .error fault => .error fault
      | .ok s => .ok (if multiplier.msb then s.rcv - multiplicand else s.rcv, s.y)

/-- The partial product with the sign that the condition codes keep for it. -/
def BasicResult.carried (s : BasicResult) : Int :=
  s.rcv.toNat - if s.psr.getLsbD 23 ^^ s.psr.getLsbD 21 then 2 ^ 32 else 0

/-- An addition with condition codes is the manual's but for `Z`. -/
theorem addcc (rav rbv y psr : BitVec 32) : execBasicInteger .add true rav rbv y psr =
    .ok ⟨.ofInt 32 (rav.toInt + rbv.toInt), y, Icc.store ⟨(BitVec.ofInt 32 (rav.toInt + rbv.toInt)).msb,
      BitVec.ofInt 64 (rav.toInt + rbv.toInt) = 0,
      !decide (-2 ^ 31 ≤ rav.toInt + rbv.toInt ∧ rav.toInt + rbv.toInt < 2 ^ 31), 2 ^ 32 ≤ rav.toNat + rbv.toNat⟩ psr⟩ := by
  have value : basicValue .add rav rbv y psr = .ok (.ofInt 64 (rav.toInt + rbv.toInt), y) := by
    have sum := sum_value rav rbv false
    simp only [Bool.toNat_false, Nat.cast_zero, add_zero] at sum
    rw [basicValue, ← sum]
    simp
  have overflow := add_overflow (w := 31) (x := rav) (y := rbv) (c := false) rfl
  have carry := add_carry (w := 31) (x := rav) (y := rbv) (c := false) rfl
  simp only [Bool.toNat_false, Nat.cast_zero, add_zero] at overflow carry
  simp only [execBasicInteger, value, basicFlags, getLsbD_ofInt, if_true, setWidth_ofInt, overflow, carry]
  rfl

/-- The sign that it leaves in the condition codes is the sign of the exact sum. -/
theorem addcc_carried (rav rbv y psr : BitVec 32) :
    ∃ s, execBasicInteger .add true rav rbv y psr = .ok s ∧ s.y = y ∧ s.carried = rav.toInt + rbv.toInt := by
  have left := toInt_bounds (w := 31) rav
  have right := toInt_bounds (w := 31) rbv
  refine ⟨_, addcc rav rbv y psr, rfl, ?_⟩
  simp only [BasicResult.carried, Icc.store_getLsbD, BitVec.msb_eq_toInt]
  obtain ⟨r, word⟩ : ∃ r, r = BitVec.ofInt 32 (rav.toInt + rbv.toInt) := ⟨_, rfl⟩
  have near := near_of_eq (w := 31) word (by omega) (by omega)
  have bounds := toInt_bounds (w := 31) r
  have number := toNat_eq_of_sign (w := 31) r
  rw [← word]
  by_cases below : r.toInt < 0 <;>
    by_cases fits : -2 ^ 31 ≤ rav.toInt + rbv.toInt ∧ rav.toInt + rbv.toInt < 2 ^ 31 <;>
    simp [below, fits] <;> omega

/-- A register shifted with a sign is half of the number it stands for. -/
theorem toInt_shifted (rcv : BitVec 32) (sign : Bool) : (rcv >>> 1 ||| if sign then 0x80000000 else 0).toInt =
    ((rcv.toNat : Int) - if sign then 2 ^ 32 else 0) / 2 := by
  have small := rcv.isLt
  have half : (rcv >>> 1).toNat = rcv.toNat / 2 := by simp [Nat.shiftRight_eq_div_pow]
  cases sign with
  | false =>
    have word : (rcv >>> 1 ||| if false then 0x80000000 else 0).toNat = rcv.toNat / 2 := by simp [half]
    rw [BitVec.toInt_eq_toNat_cond, word]
    simp only [Bool.false_eq_true, if_false]
    split <;> omega
  | true =>
    have word : (rcv >>> 1 ||| if true then 0x80000000 else 0).toNat = 2 ^ 31 * 1 + rcv.toNat / 2 := by
      rw [Nat.two_pow_add_eq_or_of_lt (by omega), Nat.or_comm, BitVec.toNat_or, half]
      rfl
    rw [BitVec.toInt_eq_toNat_cond, word]
    simp only [if_true]
    split <;> omega

theorem flag_eq (psr : BitVec 32) {flag : BitVec 32} {k : Nat} (bit : flag = BitVec.twoPow 32 k) (inside : k < 32) :
    decide (psr &&& flag ≠ 0) = psr.getLsbD k := by
  rw [bit, Bool.eq_iff_iff, decide_eq_true_iff]
  exact and_twoPow_ne_zero inside

/-- One step: the multiplicand is added whatever the multiplier's bit is, and the bit decides on the partial product. -/
theorem execMulScc_step (s : BasicResult) (multiplicand : BitVec 32) :
    ∃ s', execMulScc s.rcv multiplicand s.y s.psr = .ok s' ∧
      s'.carried = multiplicand.toInt + (if s.y.getLsbD 0 then s.carried / 2 else 0) ∧
      ∀ k < 32, s'.y.getLsbD k = if k = 31 then s.rcv.getLsbD 0 else s.y.getLsbD (k + 1) := by
  have n := flag_eq s.psr (show psrIccN = BitVec.twoPow 32 23 by decide) (by omega)
  have v := flag_eq s.psr (show psrIccV = BitVec.twoPow 32 21 by decide) (by omega)
  have added : (if s.y &&& 1 ≠ 0 then s.rcv >>> 1 ||| (if s.psr.getLsbD 23 ^^ s.psr.getLsbD 21 then 0x80000000 else 0)
      else 0).toInt = if s.y.getLsbD 0 then s.carried / 2 else 0 := by
    by_cases bit : s.y.getLsbD 0 = true
    · rw [if_pos (and_one_ne_zero.2 bit), if_pos bit, toInt_shifted, BasicResult.carried]
    · rw [if_neg (mt and_one_ne_zero.1 bit), if_neg bit]
      rfl
  obtain ⟨r, sum, kept, carried⟩ := addcc_carried multiplicand (if s.y &&& 1 ≠ 0 then
    s.rcv >>> 1 ||| (if s.psr.getLsbD 23 ^^ s.psr.getLsbD 21 then 0x80000000 else 0) else 0) s.y s.psr
  refine ⟨⟨r.rcv, r.y >>> 1 ||| (s.rcv &&& 1) <<< 31, r.psr⟩, ?_, ?_, ?_⟩
  · simp only [execMulScc, n, v, sum]
  · rw [← added]
    exact carried
  · intro k inside
    rw [kept, BitVec.getLsbD_or, BitVec.getLsbD_ushiftRight, BitVec.getLsbD_shiftLeft]
    split
    · next last => simp [last]
    · next before => simp [show k < 31 by omega, inside, add_comm]

/-- The partial products after each step. -/
def partials (multiplier multiplicand : BitVec 32) : Nat → Int
  | 0 => 0
  | i + 1 => multiplicand.toInt + if multiplier.getLsbD i then partials multiplier multiplicand i / 2 else 0

/-- The state after `k` steps: `Y` has the rest of the multiplier below the low bits of the partial products. -/
structure Reached (multiplier multiplicand : BitVec 32) (k : Nat) (s : BasicResult) : Prop where
  carried : s.carried = partials multiplier multiplicand k
  y : ∀ i < 32, s.y.getLsbD i =
    if i + k < 32 then multiplier.getLsbD (i + k) else decide (partials multiplier multiplicand (i + k - 32) % 2 = 1)

theorem BasicResult.getLsbD_zero (s : BasicResult) : s.rcv.getLsbD 0 = decide (s.carried % 2 = 1) := by
  rw [BitVec.getLsbD, Nat.testBit_zero, decide_eq_decide, BasicResult.carried]
  split <;> omega

theorem Reached.y_shifted {multiplier multiplicand : BitVec 32} {k : Nat} {s : BasicResult}
    (reached : Reached multiplier multiplicand k s) {i : Nat} (inside : i < 32) (early : k ≤ 32) :
    (if i = 31 then s.rcv.getLsbD 0 else s.y.getLsbD (i + 1)) = if i + (k + 1) < 32 then multiplier.getLsbD (i + (k + 1))
      else decide (partials multiplier multiplicand (i + (k + 1) - 32) % 2 = 1) := by
  split
  · next last =>
    rw [s.getLsbD_zero, reached.carried, last, if_neg (by omega), show 31 + (k + 1) - 32 = k by omega]
  · next before => rw [reached.y (i + 1) (by omega), show i + 1 + k = i + (k + 1) by omega]

theorem Reached.step {multiplier multiplicand : BitVec 32} {k : Nat} {s : BasicResult}
    (reached : Reached multiplier multiplicand k s) (early : k < 32) :
    ∃ s', execMulScc s.rcv multiplicand s.y s.psr = .ok s' ∧ Reached multiplier multiplicand (k + 1) s' := by
  obtain ⟨s', run, carried, y⟩ := execMulScc_step s multiplicand
  have bit := reached.y 0 (by omega)
  rw [if_pos (by omega), Nat.zero_add] at bit
  refine ⟨s', run, ?_, fun i inside => ?_⟩
  · rw [carried, reached.carried, bit, partials]
  · rw [y i inside, reached.y_shifted inside (by omega)]

theorem Reached.steps {multiplier multiplicand : BitVec 32} {k : Nat} {s : BasicResult}
    (reached : Reached multiplier multiplicand k s) (n : Nat) (enough : k + n ≤ 32) :
    ∃ s', mulSteps multiplicand n s = .ok s' ∧ Reached multiplier multiplicand (k + n) s' := by
  induction n generalizing k s with
  | zero => exact ⟨s, rfl, reached⟩
  | succ n ih =>
    obtain ⟨next, run, after⟩ := reached.step (by omega)
    obtain ⟨last, rest, done⟩ := ih after (by omega)
    refine ⟨last, ?_, by rwa [Nat.add_right_comm] at done⟩
    rw [mulSteps, run]
    exact rest

/-- What the whole sequence comes to: nothing is left of the high word but the correction, and the low word has the low
bits of the partial products. -/
theorem multiply_eq (multiplier multiplicand psr : BitVec 32) :
    ∃ low : BitVec 32, multiply multiplier multiplicand psr = .ok (if multiplier.msb then -multiplicand else 0, low) ∧
      ∀ i < 32, low.getLsbD i = decide (partials multiplier multiplicand (i + 1) % 2 = 1) := by
  obtain ⟨s, start, reached⟩ : ∃ s, execBasicInteger .and true 0 0 multiplier psr = .ok s ∧
      Reached multiplier multiplicand 0 s := by
    refine ⟨⟨0, multiplier, Icc.store ⟨false, true, false, false⟩ psr⟩, rfl, ?_, fun i inside => ?_⟩
    · simp only [BasicResult.carried, Icc.store_getLsbD]
      rfl
    · rw [if_pos (by omega), Nat.add_zero]
  obtain ⟨s', run, done⟩ := reached.steps 32 le_rfl
  obtain ⟨last, final, carried, y⟩ := execMulScc_step s' 0
  have clear : s'.y.getLsbD 0 = false := by
    rw [done.y 0 (by omega)]
    rfl
  rw [clear, if_neg Bool.false_ne_true] at carried
  have zero : last.rcv = 0 := by
    have small := last.rcv.isLt
    apply BitVec.eq_of_toNat_eq
    change last.carried = 0 at carried
    rw [BasicResult.carried] at carried
    split at carried <;> simp <;> omega
  refine ⟨last.y, ?_, fun i inside => ?_⟩
  · simp only [multiply, start, run, final, zero]
    simp
  · rw [y i inside, done.y_shifted inside le_rfl, if_neg (by omega), show i + (0 + 32 + 1) - 32 = i + 1 by omega]

/-- How many ones the multiplier has from bit `i` downwards, bit 0 not counted. -/
def onesBelow (multiplier : BitVec 32) : Nat → Nat
  | 0 => 0
  | i + 1 => if multiplier.getLsbD (i + 1) then onesBelow multiplier i + 1 else 0

theorem onesBelow_le (multiplier : BitVec 32) (i : Nat) : onesBelow multiplier i ≤ i := by
  induction i with
  | zero => rfl
  | succ i ih =>
    rw [onesBelow]
    split <;> omega

/-- A partial product depends on the multiplier only through the ones that have just been seen. -/
theorem partials_eq (multiplier multiplicand : BitVec 32) (i : Nat) : partials multiplier multiplicand (i + 1) =
    2 * multiplicand.toInt + -multiplicand.toInt / 2 ^ onesBelow multiplier i := by
  induction i with
  | zero =>
    rw [partials, partials, onesBelow, pow_zero, Int.ediv_one]
    split <;> omega
  | succ i ih =>
    rw [partials, ih, onesBelow]
    split
    · rw [pow_succ, ← Int.ediv_ediv_of_nonneg (Int.pow_nonneg (by omega))]
      omega
    · rw [pow_zero, Int.ediv_one]
      omega

/-- Where the sequence is right in spite of the operands that its steps mix up: the multiplicand times the multiplier
without its sign is a word, and has the digits of minus the multiplicand above each zero of the multiplier. -/
structure ProductSurvives (multiplier multiplicand : BitVec 32) : Prop where
  low : 0 ≤ multiplier.toNat * multiplicand.toInt
  high : multiplier.toNat * multiplicand.toInt < 2 ^ 32
  digits : ∀ i < 32, (multiplier * multiplicand).getLsbD i = (-multiplicand).getLsbD (onesBelow multiplier i)

theorem partials_odd (multiplier multiplicand : BitVec 32) {i : Nat} (inside : i < 32) :
    decide (partials multiplier multiplicand (i + 1) % 2 = 1) = (-multiplicand).getLsbD (onesBelow multiplier i) := by
  have word : -multiplicand = BitVec.ofInt 32 (-multiplicand.toInt) := by rw [BitVec.ofInt_neg, BitVec.ofInt_toInt]
  have small := onesBelow_le multiplier i
  rw [partials_eq, word, getLsbD_ofInt_eq_digit (by omega), decide_eq_decide]
  omega

/-- The high word is right exactly where the correction is all there is to it. -/
theorem high_iff (multiplier multiplicand : BitVec 32) : (if multiplier.msb then -multiplicand else 0) =
    BitVec.ofInt 32 (multiplier.toInt * multiplicand.toInt / 2 ^ 32) ↔
      0 ≤ multiplier.toNat * multiplicand.toInt ∧ multiplier.toNat * multiplicand.toInt < 2 ^ 32 := by
  have word : -multiplicand = BitVec.ofInt 32 (-multiplicand.toInt) := by rw [BitVec.ofInt_neg, BitVec.ofInt_toInt]
  have left := multiplier.isLt
  have right := toInt_bounds (w := 31) multiplicand
  have bound : ((multiplier.toNat : Int) * multiplicand.toInt).natAbs ≤ (2 ^ 32 - 1) * 2 ^ 31 := by
    rw [Int.natAbs_mul]
    exact Nat.mul_le_mul (by omega) (by omega)
  rw [BitVec.toInt_eq_msb_cond]
  cases multiplier.msb with
  | false =>
    rw [if_neg Bool.false_ne_true, if_neg Bool.false_ne_true, eq_comm, ofInt_eq_zero]
    omega
  | true =>
    have signed : ((multiplier.toNat : Int) - (2 ^ 32 : Nat)) * multiplicand.toInt / 2 ^ 32 =
        multiplier.toNat * multiplicand.toInt / 2 ^ 32 + -multiplicand.toInt := by
      rw [sub_mul, sub_eq_add_neg, ← mul_neg]
      exact Int.add_mul_ediv_left _ _ (by decide)
    rw [if_pos rfl, if_pos rfl, signed, word, ofInt_inj]
    omega

/-- The signed product of 64 bits: its high word and its low word. -/
def signedProduct (multiplier multiplicand : BitVec 32) : BitVec 32 × BitVec 32 :=
  let p := multiplier.toInt * multiplicand.toInt
  (.ofInt 32 (p / 2 ^ 32), .ofInt 32 p)

theorem multiply_iff (multiplier multiplicand psr : BitVec 32) :
    multiply multiplier multiplicand psr = .ok (signedProduct multiplier multiplicand) ↔
      ProductSurvives multiplier multiplicand := by
  obtain ⟨low, run, digits⟩ := multiply_eq multiplier multiplicand psr
  have word : BitVec.ofInt 32 (multiplier.toInt * multiplicand.toInt) = multiplier * multiplicand := by
    rw [BitVec.ofInt_mul, BitVec.ofInt_toInt, BitVec.ofInt_toInt]
  rw [run, Except.ok.injEq, signedProduct, Prod.mk.injEq, high_iff, word]
  constructor
  · rintro ⟨⟨nonneg, small⟩, rfl⟩
    exact ⟨nonneg, small, fun i inside => by rw [digits i inside, partials_odd multiplier multiplicand inside]⟩
  · intro survives
    refine ⟨⟨survives.low, survives.high⟩, BitVec.eq_of_getLsbD_eq fun i inside => ?_⟩
    rw [digits i inside, partials_odd multiplier multiplicand inside, survives.digits i inside]

/-- What is asked of the integer unit, for one operation and for one product. -/
structure IntegerLaws (op : BasicOp) (cc : Bool) (rav rbv y psr : BitVec 32) (multiplier multiplicand : BitVec 32) :
    Prop where
  basic : execBasicInteger op cc rav rbv y psr = manualInteger op cc rav rbv y psr
  product : multiply multiplier multiplicand psr = .ok (signedProduct multiplier multiplicand)

theorem integerLaws_iff (op : BasicOp) (cc : Bool) (rav rbv y psr multiplier multiplicand : BitVec 32) :
    IntegerLaws op cc rav rbv y psr multiplier multiplicand ↔
      FollowsManual op cc rav rbv y (psr.getLsbD 20) ∧ ProductSurvives multiplier multiplicand := by
  constructor
  · rintro ⟨basic, product⟩
    exact ⟨agree_manual.1 basic, (multiply_iff ..).1 product⟩
  · rintro ⟨follows, survives⟩
    exact ⟨agree_manual.2 follows, (multiply_iff ..).2 survives⟩

theorem product_high_lost : ¬ ∀ op cc rav rbv y psr multiplier multiplicand,
    IntegerLaws op cc rav rbv y psr multiplier multiplicand := by
  intro all
  have basic := (all .umul false 0x10000 0x10000 0 0 0 0).basic
  revert basic
  decide

end Mgsim.Drisc
