import Mathlib.Tactic.Ring
import Mgsim.Lib.Carry

namespace Mgsim.Drisc
open Mgsim.Lib

/-- `mul128b`: the high and the low quadword. -/
def mul128b (op1 op2 : BitVec 64) : BitVec 64 × BitVec 64 :=
  let op1H := op1 >>> 32
  let op1L := op1 &&& 0xFFFFFFFF
  let op2H := op2 >>> 32
  let op2L := op2 &&& 0xFFFFFFFF
  let x := op1L * op2L
  let y := (op1L * op2H) <<< 32
  let z := x + y
  let carry : BitVec 64 := if z < x ∨ z < y then 1 else 0
  let x := z
  let y := (op1H * op2L) <<< 32
  let z := x + y
  let carry := if z < x ∨ z < y then carry + 1 else carry
  (op1H * op2H + ((op1L * op2H) >>> 32) + ((op1H * op2L) >>> 32) + carry, z)

/-- The functions of `ExecuteINTM`. -/
inductive IntmFunc
  | mullV | mull | mulqV | mulq | umulh | divl | divq | udivl | udivq
deriving DecidableEq

/-- What becomes of an instruction: it has a result, it is refused, or the host's division overflows. -/
inductive IntmResult
  | done (rc : BitVec 64)
  | divisionByZero
  | overflow
deriving DecidableEq

/-- `/` on signed integers of the host. -/
def hostDivide {w : Nat} (dividend divisor : BitVec w) : Option (BitVec w) :=
  if dividend = BitVec.intMin w ∧ divisor = -1 then none else some (dividend.sdiv divisor)

/-- `ExecuteINTM`. -/
def executeIntm (func : IntmFunc) (ra rb : BitVec 64) : IntmResult :=
  match func with
  | .mullV | .mull => .done ((ra.setWidth 32 * rb.setWidth 32).signExtend 64)
  | .mulqV | .mulq => .done (mul128b ra rb).2
  | .umulh => .done (mul128b ra rb).1
  | .divl =>
    if rb.setWidth 32 = 0 then .divisionByZero else
      match hostDivide (ra.setWidth 32) (rb.setWidth 32) with
      | some rc => .done (rc.signExtend 64)
      | none => .overflow
  | .divq =>
    if rb = 0 then .divisionByZero else
      match hostDivide ra rb with
      | some rc => .done rc
      | none => .overflow
  | .udivl =>
    if rb.setWidth 32 = 0 then .divisionByZero else .done ((ra.setWidth 32 / rb.setWidth 32).setWidth 64)
  | .udivq => if rb = 0 then .divisionByZero else .done (ra / rb)

/-- The halves of the product of four halves of words, when they are added up as `mul128b` does. -/
theorem product_parts {p q r s k carry₁ carry₂ low₁ low : Nat} (first : low₁ + k * k * carry₁ = p + q % k * k)
    (second : low + k * k * carry₂ = low₁ + r % k * k) :
    (s + q / k + r / k + (carry₁ + carry₂)) * (k * k) + low = s * (k * k) + (q + r) * k + p := by
  have left := Nat.div_add_mod q k
  have right := Nat.div_add_mod r k
  calc (s + q / k + r / k + (carry₁ + carry₂)) * (k * k) + low
      = s * (k * k) + (k * (q / k)) * k + (k * (r / k)) * k + k * k * carry₁ + (low + k * k * carry₂) := by ring
    _ = s * (k * k) + (k * (q / k)) * k + (k * (r / k)) * k + (low₁ + k * k * carry₁) + r % k * k := by
      rw [second]
      ring
    _ = s * (k * k) + (k * (q / k) + q % k) * k + (k * (r / k) + r % k) * k + p := by
      rw [first]
      ring
    _ = s * (k * k) + (q + r) * k + p := by
      rw [left, right]
      ring

theorem toNat_mul_of_lt {x y : BitVec 64} (left : x.toNat < 2 ^ 32) (right : y.toNat < 2 ^ 32) :
    (x * y).toNat = x.toNat * y.toNat := by
  have bound : x.toNat * y.toNat < 2 ^ 64 := (Nat.mul_lt_mul'' left right).trans_eq (by norm_num)
  rw [BitVec.toNat_mul, Nat.mod_eq_of_lt bound]

theorem toNat_high (x : BitVec 64) : (x >>> 32).toNat = x.toNat / 2 ^ 32 := by
  rw [BitVec.toNat_ushiftRight, Nat.shiftRight_eq_div_pow]

theorem toNat_low (x : BitVec 64) : (x &&& 0xFFFFFFFF).toNat = x.toNat % 2 ^ 32 := by
  rw [BitVec.toNat_and]
  exact Nat.and_two_pow_sub_one_eq_mod x.toNat 32

theorem toNat_shiftLeft_half (x : BitVec 64) : (x <<< 32).toNat = x.toNat % 2 ^ 32 * 2 ^ 32 := by
  rw [BitVec.toNat_shiftLeft, Nat.shiftLeft_eq, show 2 ^ 64 = 2 ^ 32 * 2 ^ 32 from rfl, Nat.mul_mod_mul_right]

/-- A sum of words that is the high part of a small number does not wrap. -/
theorem toNat_sum_of_lt {s q r c : BitVec 64} {low : Nat}
    (bound : (s.toNat + q.toNat + r.toNat + c.toNat) * 2 ^ 64 + low < 2 ^ 64 * 2 ^ 64) :
    (s + q + r + c).toNat = s.toNat + q.toNat + r.toNat + c.toNat := by
  have fits : s.toNat + q.toNat + r.toNat + c.toNat < 2 ^ 64 :=
    Nat.lt_of_mul_lt_mul_right (Nat.lt_of_add_right_lt bound)
  rw [BitVec.toNat_add, BitVec.toNat_add, BitVec.toNat_add]
  omega

/-- The two quadwords of `mul128b` are those of the product. -/
theorem toNat_mul128b (op1 op2 : BitVec 64) :
    (mul128b op1 op2).1.toNat * 2 ^ 64 + (mul128b op1 op2).2.toNat = op1.toNat * op2.toNat := by
  have high₁ : (op1 >>> 32).toNat < 2 ^ 32 := by
    rw [toNat_high]
    omega
  have high₂ : (op2 >>> 32).toNat < 2 ^ 32 := by
    rw [toNat_high]
    omega
  have low₁ : (op1 &&& 0xFFFFFFFF).toNat < 2 ^ 32 := by
    rw [toNat_low]
    omega
  have low₂ : (op2 &&& 0xFFFFFFFF).toNat < 2 ^ 32 := by
    rw [toNat_low]
    omega
  have split₁ : op1.toNat = (op1 >>> 32).toNat * 2 ^ 32 + (op1 &&& 0xFFFFFFFF).toNat := by
    rw [toNat_high, toNat_low]
    omega
  have split₂ : op2.toNat = (op2 >>> 32).toNat * 2 ^ 32 + (op2 &&& 0xFFFFFFFF).toNat := by
    rw [toNat_high, toNat_low]
    omega
  have bound : op1.toNat * op2.toNat < 2 ^ 64 * 2 ^ 64 := Nat.mul_lt_mul'' op1.isLt op2.isLt
  unfold mul128b
  dsimp only
  generalize op1 >>> 32 = op1H at *
  generalize op1 &&& 0xFFFFFFFF = op1L at *
  generalize op2 >>> 32 = op2H at *
  generalize op2 &&& 0xFFFFFFFF = op2L at *
  have first := toNat_add_carry (op1L * op2L) ((op1L * op2H) <<< 32)
  generalize sum : op1L * op2L + (op1L * op2H) <<< 32 = z at first ⊢
  have second := toNat_add_carry z ((op1H * op2L) <<< 32)
  generalize z + (op1H * op2L) <<< 32 = z' at second ⊢
  rw [toNat_shiftLeft_half, toNat_mul_of_lt low₁ low₂, toNat_mul_of_lt low₁ high₂] at first
  rw [toNat_shiftLeft_half, toNat_mul_of_lt high₁ low₂] at second
  have whole := product_parts (k := 2 ^ 32) (s := op1H.toNat * op2H.toNat) first second
  have product : op1.toNat * op2.toNat = op1H.toNat * op2H.toNat * (2 ^ 32 * 2 ^ 32) +
      (op1L.toNat * op2H.toNat + op1H.toNat * op2L.toNat) * 2 ^ 32 + op1L.toNat * op2L.toNat := by
    rw [split₁, split₂]
    ring
  rw [← product, show 2 ^ 32 * 2 ^ 32 = 2 ^ 64 by norm_num] at whole
  have carry : (if z' < z ∨ z' < (op1H * op2L) <<< 32 then
        (if z < op1L * op2L ∨ z < (op1L * op2H) <<< 32 then (1 : BitVec 64) else 0) + 1
      else if z < op1L * op2L ∨ z < (op1L * op2H) <<< 32 then 1 else 0).toNat =
      (if z < op1L * op2L ∨ z < (op1L * op2H) <<< 32 then 1 else 0) +
        if z' < z ∨ z' < (op1H * op2L) <<< 32 then 1 else 0 := by
    split <;> split <;> rfl
  have middle₁ : ((op1L * op2H) >>> 32).toNat = op1L.toNat * op2H.toNat / 2 ^ 32 := by
    rw [toNat_high, toNat_mul_of_lt low₁ high₂]
  have middle₂ : ((op1H * op2L) >>> 32).toNat = op1H.toNat * op2L.toNat / 2 ^ 32 := by
    rw [toNat_high, toNat_mul_of_lt high₁ low₂]
  rw [← whole, ← middle₁, ← middle₂, ← toNat_mul_of_lt high₁ high₂, ← carry] at bound ⊢
  rw [toNat_sum_of_lt bound]

/-- The products are exact, and every pair of operands that is not refused is divided towards zero, modulo the size of
the operands. -/
structure WideArithmetic (ra rb : BitVec 64) : Prop where
  product : (mul128b ra rb).1.toNat * 2 ^ 64 + (mul128b ra rb).2.toNat = ra.toNat * rb.toNat
  mulq (func : IntmFunc) : func = .mulq ∨ func = .mulqV →
    executeIntm func ra rb = .done (BitVec.ofNat 64 (ra.toNat * rb.toNat))
  umulh : executeIntm .umulh ra rb = .done (BitVec.ofNat 64 (ra.toNat * rb.toNat / 2 ^ 64))
  divl : rb.setWidth 32 ≠ 0 → executeIntm .divl ra rb =
    .done ((BitVec.ofInt 32 ((ra.setWidth 32).toInt.tdiv (rb.setWidth 32).toInt)).signExtend 64)
  divq : rb ≠ 0 → executeIntm .divq ra rb = .done (BitVec.ofInt 64 (ra.toInt.tdiv rb.toInt))
  udivl : rb.setWidth 32 ≠ 0 →
    executeIntm .udivl ra rb = .done (BitVec.ofNat 64 ((ra.setWidth 32).toNat / (rb.setWidth 32).toNat))
  udivq : rb ≠ 0 → executeIntm .udivq ra rb = .done (BitVec.ofNat 64 (ra.toNat / rb.toNat))

theorem mul128b_low (op1 op2 : BitVec 64) : (mul128b op1 op2).2 = BitVec.ofNat 64 (op1.toNat * op2.toNat) := by
  apply BitVec.eq_of_toNat_eq
  have whole := toNat_mul128b op1 op2
  have small := (mul128b op1 op2).2.isLt
  rw [BitVec.toNat_ofNat, ← whole, Nat.mul_comm, Nat.mul_add_mod, Nat.mod_eq_of_lt small]

theorem mul128b_high (op1 op2 : BitVec 64) :
    (mul128b op1 op2).1 = BitVec.ofNat 64 (op1.toNat * op2.toNat / 2 ^ 64) := by
  apply BitVec.eq_of_toNat_eq
  have whole := toNat_mul128b op1 op2
  have small := (mul128b op1 op2).2.isLt
  rw [BitVec.toNat_ofNat, ← whole, Nat.mul_comm, Nat.mul_add_div (Nat.two_pow_pos 64), Nat.div_eq_of_lt small,
    Nat.add_zero, Nat.mod_eq_of_lt (mul128b op1 op2).1.isLt]

theorem sdiv_eq_ofInt {w : Nat} (dividend divisor : BitVec w) :
    dividend.sdiv divisor = BitVec.ofInt w (dividend.toInt.tdiv divisor.toInt) := by
  apply BitVec.eq_of_toInt_eq
  rw [BitVec.toInt_sdiv, BitVec.toInt_ofInt]

theorem hostDivide_of_not {w : Nat} {dividend divisor : BitVec w}
    (fits : ¬ (dividend = BitVec.intMin w ∧ divisor = -1)) :
    hostDivide dividend divisor = some (BitVec.ofInt w (dividend.toInt.tdiv divisor.toInt)) := by
  rw [hostDivide, if_neg fits, sdiv_eq_ofInt]

theorem divl_overflow {ra rb : BitVec 64} (least : ra.setWidth 32 = BitVec.intMin 32 ∧ rb.setWidth 32 = -1) :
    executeIntm .divl ra rb = .overflow := by
  have nonzero : rb.setWidth 32 ≠ 0 := by
    rw [least.2]
    decide
  simp only [executeIntm, if_neg nonzero, hostDivide, if_pos least]

theorem divq_overflow {ra rb : BitVec 64} (least : ra = BitVec.intMin 64 ∧ rb = -1) :
    executeIntm .divq ra rb = .overflow := by
  have nonzero : rb ≠ 0 := by
    rw [least.2]
    decide
  simp only [executeIntm, if_neg nonzero, hostDivide, if_pos least]

/-- All is as it should be, unless a signed division divides the least number by -1. -/
theorem wideArithmetic_iff (ra rb : BitVec 64) : WideArithmetic ra rb ↔
    ¬ (ra.setWidth 32 = BitVec.intMin 32 ∧ rb.setWidth 32 = -1) ∧ ¬ (ra = BitVec.intMin 64 ∧ rb = -1) := by
  constructor
  · intro laws
    constructor
    · intro least
      have nonzero : rb.setWidth 32 ≠ 0 := by
        rw [least.2]
        decide
      have result := laws.divl nonzero
      rw [divl_overflow least] at result
      cases result
    · intro least
      have nonzero : rb ≠ 0 := by
        rw [least.2]
        decide
      have result := laws.divq nonzero
      rw [divq_overflow least] at result
      cases result
  · rintro ⟨long, quad⟩
    refine ⟨toNat_mul128b ra rb, ?_, ?_, fun nonzero => ?_, fun nonzero => ?_, fun nonzero => ?_, fun nonzero => ?_⟩
    · rintro _ (rfl | rfl) <;> rw [executeIntm, mul128b_low]
    · rw [executeIntm, mul128b_high]
    · simp only [executeIntm, if_neg nonzero, hostDivide_of_not long]
    · simp only [executeIntm, if_neg nonzero, hostDivide_of_not quad]
    · rw [executeIntm, if_neg nonzero]
      congr 1
      apply BitVec.eq_of_toNat_eq
      rw [BitVec.toNat_setWidth, BitVec.toNat_udiv, BitVec.toNat_ofNat]
    · rw [executeIntm, if_neg nonzero]
      congr 1
      apply BitVec.eq_of_toNat_eq
      rw [BitVec.toNat_udiv, BitVec.toNat_ofNat, Nat.mod_eq_of_lt ((Nat.div_le_self _ _).trans_lt ra.isLt)]

theorem division_overflows : ¬ ∀ ra rb : BitVec 64, WideArithmetic ra rb := by
  intro all
  have result := (all (BitVec.intMin 64) (-1)).divq (by decide)
  rw [divq_overflow ⟨rfl, rfl⟩] at result
  cases result

end Mgsim.Drisc
