import Mgsim.Lib.BitField
import Mgsim.Drisc.SparcInteger

namespace Mgsim.Drisc
open Mgsim.Lib

/-- The integer condition codes. -/
structure Icc where
  n : Bool
  z : Bool
  v : Bool
  c : Bool
deriving DecidableEq

/-- The processor state with other condition codes. -/
def Icc.store (icc : Icc) (psr : BitVec 32) : BitVec 32 :=
  raise icc.n psrIccN (raise icc.z psrIccZ (raise icc.c psrIccC (raise icc.v psrIccV (psr &&& ~~~psrIcc))))

theorem raise_getLsbD (condition : Bool) (flag psr : BitVec 32) (k : Nat) :
    (raise condition flag psr).getLsbD k = (psr.getLsbD k || condition && flag.getLsbD k) := by
  cases condition <;> simp [raise]

/-- Bits 23 to 20 of the processor state are the condition codes; the others are kept. -/
theorem Icc.store_getLsbD (icc : Icc) (psr : BitVec 32) (k : Nat) :
    (icc.store psr).getLsbD k = if k = 23 then icc.n else if k = 22 then icc.z else if k = 21 then icc.v
      else if k = 20 then icc.c else psr.getLsbD k := by
  by_cases inside : k < 32
  · have flags : ∀ k : Fin 32, psrIccN.getLsbD k = decide (k.val = 23) ∧ psrIccZ.getLsbD k = decide (k.val = 22) ∧
        psrIccV.getLsbD k = decide (k.val = 21) ∧ psrIccC.getLsbD k = decide (k.val = 20) ∧
        (~~~psrIcc).getLsbD k = decide (k.val < 20 ∨ 23 < k.val) := by decide
    obtain ⟨n, z, v, c, rest⟩ := flags ⟨k, inside⟩
    simp only at n z v c rest
    simp only [Icc.store, raise_getLsbD, BitVec.getLsbD_and, n, z, v, c, rest]
    split_ifs <;> simp (disch := omega) only [decide_eq_true, decide_eq_false, Bool.and_true, Bool.and_false, Bool.or_false,
      Bool.false_or]
  · have outside : ∀ x : BitVec 32, x.getLsbD k = false := fun x => BitVec.getLsbD_of_ge x k (by omega)
    rw [outside, outside, if_neg (by omega), if_neg (by omega), if_neg (by omega), if_neg (by omega)]

theorem Icc.store_inj {icc icc' : Icc} {psr : BitVec 32} : icc.store psr = icc'.store psr ↔ icc = icc' := by
  refine ⟨fun same => ?_, fun same => same ▸ rfl⟩
  have bits : ∀ k, (icc.store psr).getLsbD k = (icc'.store psr).getLsbD k := fun k => by rw [same]
  simp only [Icc.store_getLsbD] at bits
  cases icc
  cases icc'
  rw [Icc.mk.injEq]
  exact ⟨by simpa using bits 23, by simpa using bits 22, by simpa using bits 21, by simpa using bits 20⟩

/-- The result, `Y` and the condition codes that the architecture manual defines. -/
structure ManualResult where
  rcv : BitVec 32
  y : BitVec 32
  icc : Icc
deriving DecidableEq

/-- `N` and `Z` always follow the result. -/
def ManualResult.plain (rcv y : BitVec 32) (v c : Bool) : ManualResult := ⟨rcv, y, ⟨rcv.msb, rcv = 0, v, c⟩⟩

def ManualResult.sum (rav rbv y : BitVec 32) (carry : Bool) : ManualResult :=
  let s := rav.toInt + rbv.toInt + carry.toNat
  .plain (.ofInt 32 s) y (!decide (-2 ^ 31 ≤ s ∧ s < 2 ^ 31)) (2 ^ 32 ≤ rav.toNat + rbv.toNat + carry.toNat)

def ManualResult.difference (rav rbv y : BitVec 32) (carry : Bool) : ManualResult :=
  let s := rav.toInt - rbv.toInt - carry.toNat
  .plain (.ofInt 32 s) y (!decide (-2 ^ 31 ≤ s ∧ s < 2 ^ 31)) (rav.toNat < rbv.toNat + carry.toNat)

/-- The low word of the product is the result, its high word goes to `Y`. -/
def ManualResult.product (p : Int) : ManualResult := .plain (.ofInt 32 p) (.ofInt 32 (p / 2 ^ 32)) false false

/-- A quotient that does not fit is replaced by the nearest number that does. -/
def ManualResult.quotient (q low high : Int) (y : BitVec 32) : ManualResult :=
  .plain (.ofInt 32 (max low (min q high))) y (!decide (low ≤ q ∧ q ≤ high)) false

def unsignedQuotient (rav rbv y : BitVec 32) : Nat := (2 ^ 32 * y.toNat + rav.toNat) / rbv.toNat

def signedQuotient (rav rbv y : BitVec 32) : Int := (2 ^ 32 * y.toInt + rav.toNat).tdiv rbv.toInt

/-- What the manual defines; a division by zero has no result. -/
def manual (op : BasicOp) (rav rbv y : BitVec 32) (carry : Bool) : Except BasicFault ManualResult :=
  match op with
  | .and => .ok (.plain (rav &&& rbv) y false false)
  | .andn => .ok (.plain (rav &&& ~~~rbv) y false false)
  | .or => .ok (.plain (rav ||| rbv) y false false)
  | .orn => .ok (.plain (rav ||| ~~~rbv) y false false)
  | .xor => .ok (.plain (rav ^^^ rbv) y false false)
  | .xnor => .ok (.plain (~~~(rav ^^^ rbv)) y false false)
  | .add => .ok (.sum rav rbv y false)
  | .addx => .ok (.sum rav rbv y carry)
  | .sub => .ok (.difference rav rbv y false)
  | .subx => .ok (.difference rav rbv y carry)
  | .umul => .ok (.product (rav.toNat * rbv.toNat))
  | .smul => .ok (.product (rav.toInt * rbv.toInt))
  | .udiv =>
    if rbv = 0 then .error .divisionByZero else .ok (.quotient (unsignedQuotient rav rbv y) 0 (2 ^ 32 - 1) y)
  | .sdiv =>
    if rbv = 0 then .error .divisionByZero else .ok (.quotient (signedQuotient rav rbv y) (-2 ^ 31) (2 ^ 31 - 1) y)

/-- An operation as the manual has it; only the variants that set them touch the condition codes. -/
def manualInteger (op : BasicOp) (cc : Bool) (rav rbv y psr : BitVec 32) : Except BasicFault BasicResult :=
  match manual op rav rbv y (psr.getLsbD 20) with
  | .error fault => .error fault
  | .ok m => .ok ⟨m.rcv, m.y, if cc then m.icc.store psr else psr⟩

/-- What keeps an operation clear of the ways in which the code leaves the manual: `Z` taken from 64 bits, an unsigned
product of 32 bits, a division that saturates only with condition codes and takes `N` before it does, and the one
quotient that the host cannot compute. -/
def FollowsManual (op : BasicOp) (cc : Bool) (rav rbv y : BitVec 32) (carry : Bool) : Prop :=
  let q := signedQuotient rav rbv y
  match op with
  | .and | .andn | .or | .orn | .xor | .xnor | .sub => True
  | .add => cc → ¬ (rav = BitVec.intMin 32 ∧ rbv = BitVec.intMin 32)
  | .addx => cc → ¬ (rav = BitVec.intMin 32 ∧ rbv = BitVec.intMin 32 ∧ carry = false)
  | .subx => cc → ¬ (rav = BitVec.intMin 32 ∧ rbv = BitVec.intMax 32 ∧ carry = true)
  | .umul => rav.toNat * rbv.toNat < 2 ^ 32
  | .smul => cc → rav = 0 ∨ rbv = 0 ∨ ¬ (2 ^ 32 : Int) ∣ rav.toInt * rbv.toInt
  | .udiv => rbv = 0 ∨ unsignedQuotient rav rbv y < 2 ^ 32 ∨
    if cc then 2 ^ 31 ≤ unsignedQuotient rav rbv y % 2 ^ 32 else unsignedQuotient rav rbv y % 2 ^ 32 = 2 ^ 32 - 1
  | .sdiv => rbv = 0 ∨ -2 ^ 31 ≤ q ∧ q < 2 ^ 31 ∨
    if cc then 2 ^ 31 ≤ q ∧ q < 2 ^ 63 ∧ q % 2 ^ 32 < 2 ^ 31 ∨ q < -2 ^ 31 ∧ 2 ^ 31 ≤ q % 2 ^ 32
    else 2 ^ 31 ≤ q ∧ q % 2 ^ 32 = 2 ^ 31 - 1 ∨ q < -2 ^ 31 ∧ q % 2 ^ 32 = 2 ^ 31

theorem carryOf_eq (psr : BitVec 32) : carryOf psr = psr.getLsbD 20 := by
  rw [carryOf, show psrIccC = BitVec.twoPow 32 20 by decide, Bool.eq_iff_iff, decide_eq_true_iff]
  exact and_twoPow_ne_zero (by omega)

section Words
variable {s t : Int} {rcv : BitVec 64}

theorem setWidth_ofInt : (BitVec.ofInt 64 s).setWidth 32 = BitVec.ofInt 32 s := by
  apply BitVec.eq_of_toNat_eq
  rw [BitVec.toNat_setWidth, BitVec.toNat_ofInt, BitVec.toNat_ofInt]
  omega

theorem getLsbD_ofInt : (BitVec.ofInt 64 s).getLsbD 31 = (BitVec.ofInt 32 s).msb := by
  rw [← setWidth_ofInt, BitVec.msb_setWidth'']

theorem ofInt_inj : BitVec.ofInt 32 s = BitVec.ofInt 32 t ↔ s % 2 ^ 32 = t % 2 ^ 32 := by
  rw [← BitVec.toNat_inj, BitVec.toNat_ofInt, BitVec.toNat_ofInt]
  omega

theorem ofInt_eq_zero : BitVec.ofInt 32 s = 0 ↔ s % 2 ^ 32 = 0 := ofInt_inj (t := 0)

theorem msb_ofInt : (BitVec.ofInt 32 s).msb = decide (2 ^ 31 ≤ s % 2 ^ 32) := by
  rw [BitVec.msb_eq_decide, BitVec.toNat_ofInt, decide_eq_decide]
  omega

theorem wide_eq_zero (low : -2 ^ 63 ≤ s) (high : s < 2 ^ 64) : BitVec.ofInt 64 s = 0 ↔ s = 0 := by
  rw [← BitVec.toNat_inj, BitVec.toNat_ofInt]
  simp only [BitVec.ofNat_eq_ofNat, BitVec.toNat_ofNat]
  omega

end Words

section Agreement
variable {op : BasicOp} {cc : Bool} {rav rbv y y' psr : BitVec 32} {rcv rcv' : BitVec 64} {icc : Icc} {m : ManualResult}

theorem agree_iff (value : basicValue op rav rbv y psr = .ok (rcv, y'))
    (flags : basicFlags op rav rbv rcv psr = (rcv', icc.store psr))
    (spec : manual op rav rbv y (psr.getLsbD 20) = .ok m) :
    execBasicInteger op cc rav rbv y psr = manualInteger op cc rav rbv y psr ↔
      y' = m.y ∧ if cc then rcv'.setWidth 32 = m.rcv ∧ icc = m.icc else rcv.setWidth 32 = m.rcv := by
  simp only [execBasicInteger, manualInteger, value, flags, spec]
  cases cc
  · simp [and_comm]
  · simp only [if_true, Except.ok.injEq, BasicResult.mk.injEq, Icc.store_inj]
    rw [and_left_comm]

/-- The operations that take the condition codes from the result alone. -/
theorem basicFlags_plain (plain : op ∈ [.and, .andn, .or, .orn, .xor, .xnor, .umul, .smul]) :
    basicFlags op rav rbv rcv psr = (rcv, (Icc.mk (rcv.getLsbD 31) (rcv = 0) false false).store psr) := by
  simp only [List.mem_cons, List.not_mem_nil, or_false] at plain
  rcases plain with rfl | rfl | rfl | rfl | rfl | rfl | rfl | rfl <;> rfl

theorem agree_word {r y'' : BitVec 32} (plain : op ∈ [.and, .andn, .or, .orn, .xor, .xnor, .umul, .smul])
    (value : basicValue op rav rbv y psr = .ok (r.setWidth 64, y'))
    (spec : manual op rav rbv y (psr.getLsbD 20) = .ok (.plain r y'' false false)) :
    execBasicInteger op cc rav rbv y psr = manualInteger op cc rav rbv y psr ↔ y' = y'' := by
  rw [agree_iff value (basicFlags_plain plain) spec]
  have low : (r.setWidth 64).setWidth 32 = r := by simp
  have top : (r.setWidth 64).getLsbD 31 = r.msb := by simp [BitVec.msb_eq_getLsbD_last]
  have zero : r.setWidth 64 = 0 ↔ r = 0 := ⟨fun wide => by rw [← low, wide]; rfl, fun none => by rw [none]; rfl⟩
  simp only [ManualResult.plain, low, top, zero, and_self, ite_self, and_true]

/-- Where the 64 bits are the exact number, only `Z` can differ from the manual. -/
theorem agree_exact {s : Int} {v c : Bool} (low : -2 ^ 63 ≤ s) (high : s < 2 ^ 64)
    (value : basicValue op rav rbv y psr = .ok (.ofInt 64 s, y'))
    (flags : basicFlags op rav rbv (.ofInt 64 s) psr =
      (.ofInt 64 s, (Icc.mk ((BitVec.ofInt 64 s).getLsbD 31) (BitVec.ofInt 64 s = 0) v c).store psr))
    (spec : manual op rav rbv y (psr.getLsbD 20) = .ok (.plain (.ofInt 32 s) y' v c)) :
    execBasicInteger op cc rav rbv y psr = manualInteger op cc rav rbv y psr ↔
      (cc → s % 2 ^ 32 = 0 → s = 0) := by
  have zero : s = 0 → s % 2 ^ 32 = 0 := fun none => by rw [none]; rfl
  rw [agree_iff value flags spec]
  simp only [ManualResult.plain, setWidth_ofInt, getLsbD_ofInt, true_and, Icc.mk.injEq, and_true, decide_eq_decide,
    wide_eq_zero low high, ofInt_eq_zero, if_true_right]
  exact ⟨fun same set => (same set).2, fun same set => ⟨zero, same set⟩⟩

theorem agree_sum (cc carry : Bool) (sum : op = .add ∨ op = .addx)
    (value : basicValue op rav rbv y psr = .ok (.ofInt 64 (rav.toInt + rbv.toInt + carry.toNat), y))
    (spec : manual op rav rbv y (psr.getLsbD 20) = .ok (.sum rav rbv y carry)) :
    execBasicInteger op cc rav rbv y psr = manualInteger op cc rav rbv y psr ↔
      (cc → ¬ (rav = BitVec.intMin 32 ∧ rbv = BitVec.intMin 32 ∧ carry = false)) := by
  have left := toInt_bounds (w := 31) rav
  have right := toInt_bounds (w := 31) rbv
  have single := carry.toNat_le
  have least : (BitVec.intMin 32).toInt = -2 ^ 31 := by decide
  rw [ManualResult.sum, ← add_overflow (w := 31) rfl, ← add_carry (w := 31) rfl, ← getLsbD_ofInt] at spec
  rw [agree_exact (by omega) (by omega) value (by rcases sum with rfl | rfl <;> rfl) spec, ← BitVec.toInt_inj,
    ← BitVec.toInt_inj, least]
  refine imp_congr_right fun _ => ?_
  cases carry <;> simp only [Bool.toNat_false, Bool.toNat_true, and_true, Bool.true_eq_false, and_false, not_false_iff, iff_true] <;>
    omega

theorem agree_difference (cc carry : Bool) (difference : op = .sub ∨ op = .subx)
    (value : basicValue op rav rbv y psr = .ok (.ofInt 64 (rav.toInt - rbv.toInt - carry.toNat), y))
    (spec : manual op rav rbv y (psr.getLsbD 20) = .ok (.difference rav rbv y carry)) :
    execBasicInteger op cc rav rbv y psr = manualInteger op cc rav rbv y psr ↔
      (cc → ¬ (rav = BitVec.intMin 32 ∧ rbv = BitVec.intMax 32 ∧ carry = true)) := by
  have left := toInt_bounds (w := 31) rav
  have right := toInt_bounds (w := 31) rbv
  have single := carry.toNat_le
  have least : (BitVec.intMin 32).toInt = -2 ^ 31 := by decide
  have greatest : (BitVec.intMax 32).toInt = 2 ^ 31 - 1 := by decide
  rw [ManualResult.difference, ← sub_overflow (w := 31) rfl, ← sub_borrow (w := 31) rfl, ← getLsbD_ofInt] at spec
  rw [agree_exact (by omega) (by omega) value (by rcases difference with rfl | rfl <;> rfl) spec, ← BitVec.toInt_inj,
    ← BitVec.toInt_inj, least, greatest]
  refine imp_congr_right fun _ => ?_
  cases carry <;> simp only [Bool.toNat_false, Bool.toNat_true, and_true, Bool.false_eq_true, and_false, not_false_iff, iff_true] <;>
    omega

theorem agree_umul : execBasicInteger .umul cc rav rbv y psr = manualInteger .umul cc rav rbv y psr ↔
    rav.toNat * rbv.toNat < 2 ^ 32 := by
  have left := rav.isLt
  have right := rbv.isLt
  have bound : rav.toNat * rbv.toNat < 2 ^ 32 * 2 ^ 32 := Nat.mul_lt_mul'' left right
  have low : rav * rbv = BitVec.ofInt 32 (rav.toNat * rbv.toNat) := by
    apply BitVec.eq_of_toNat_eq
    rw [BitVec.toNat_mul, BitVec.toNat_ofInt]
    omega
  have high : (((rav * rbv).setWidth 64) >>> 32).setWidth 32 = 0#32 := by
    have word := (rav * rbv).isLt
    apply BitVec.eq_of_toNat_eq
    simp only [BitVec.toNat_setWidth, BitVec.toNat_ushiftRight, Nat.shiftRight_eq_div_pow, BitVec.toNat_zero]
    omega
  have value : basicValue .umul rav rbv y psr = .ok ((rav * rbv).setWidth 64, 0#32) := by rw [basicValue, ← high]
  have spec : manual .umul rav rbv y (psr.getLsbD 20) =
      .ok (.plain (rav * rbv) (.ofInt 32 (rav.toNat * rbv.toNat / 2 ^ 32)) false false) := by
    rw [manual, ManualResult.product, low]
  rw [agree_word (by simp) value spec, eq_comm]
  exact ofInt_eq_zero.trans (by omega)

theorem agree_smul : execBasicInteger .smul cc rav rbv y psr = manualInteger .smul cc rav rbv y psr ↔
    (cc → rav = 0 ∨ rbv = 0 ∨ ¬ (2 ^ 32 : Int) ∣ rav.toInt * rbv.toInt) := by
  have least : -2 ^ 62 ≤ rav.toInt * rbv.toInt := BitVec.le_toInt_mul_toInt
  have greatest : rav.toInt * rbv.toInt ≤ 2 ^ 62 := BitVec.toInt_mul_toInt_le
  have product : rav.signExtend 64 * rbv.signExtend 64 = BitVec.ofInt 64 (rav.toInt * rbv.toInt) := by
    rw [BitVec.ofInt_mul]
    rfl
  have high : (BitVec.ofInt 64 (rav.toInt * rbv.toInt) >>> 32).setWidth 32 =
      BitVec.ofInt 32 (rav.toInt * rbv.toInt / 2 ^ 32) := by
    apply BitVec.eq_of_toNat_eq
    simp only [BitVec.toNat_setWidth, BitVec.toNat_ushiftRight, Nat.shiftRight_eq_div_pow, BitVec.toNat_ofInt]
    omega
  have null : ∀ x : BitVec 32, x.toInt = 0 ↔ x = 0 := fun x => BitVec.toInt_inj (y := 0)
  rw [agree_exact (by omega) (by omega) (by rw [basicValue, product, high]) (basicFlags_plain (by simp)) rfl]
  refine imp_congr_right fun _ => ?_
  rw [← null rav, ← null rbv, ← or_assoc, ← Int.mul_eq_zero, Int.dvd_iff_emod_eq_zero]
  exact ⟨fun none => or_iff_not_imp_right.2 fun divides => none (not_not.1 divides), fun either divides =>
    either.resolve_right (not_not.2 divides)⟩

theorem agree_quotient {q low high : Int} (bounds : -2 ^ 31 ≤ low ∧ low ≤ 0 ∧ 0 ≤ high ∧ high < 2 ^ 32)
    (value : basicValue op rav rbv y psr = .ok (.ofInt 64 q, y))
    (flags : basicFlags op rav rbv (.ofInt 64 q) psr = (.ofInt 64 (max low (min q high)),
      (Icc.mk ((BitVec.ofInt 64 q).getLsbD 31) (BitVec.ofInt 64 (max low (min q high)) = 0) (!decide (low ≤ q ∧ q ≤ high))
        false).store psr))
    (spec : manual op rav rbv y (psr.getLsbD 20) = .ok (.quotient q low high y)) :
    execBasicInteger op cc rav rbv y psr = manualInteger op cc rav rbv y psr ↔
      if cc then (2 ^ 31 ≤ q % 2 ^ 32 ↔ 2 ^ 31 ≤ max low (min q high) % 2 ^ 32)
      else q % 2 ^ 32 = max low (min q high) % 2 ^ 32 := by
  rw [agree_iff value flags spec]
  have zero : BitVec.ofInt 64 (max low (min q high)) = 0 ↔ BitVec.ofInt 32 (max low (min q high)) = 0 := by
    rw [wide_eq_zero (by omega) (by omega), ofInt_eq_zero]
    omega
  simp only [ManualResult.quotient, ManualResult.plain, setWidth_ofInt, getLsbD_ofInt, true_and, Icc.mk.injEq, and_true,
    zero, ofInt_inj, msb_ofInt, decide_eq_decide]

theorem toNat_dividend : (y.setWidth 64 <<< 32 ||| rav.setWidth 64).toNat = 2 ^ 32 * y.toNat + rav.toNat := by
  have left := y.isLt
  have right := rav.isLt
  have high : (y.setWidth 64 <<< 32).toNat = y.toNat <<< 32 := by
    simp only [BitVec.toNat_shiftLeft, BitVec.toNat_setWidth, Nat.shiftLeft_eq]
    omega
  rw [BitVec.toNat_or, high, BitVec.toNat_setWidth, Nat.mod_eq_of_lt (by omega), ← Nat.shiftLeft_add_eq_or_of_lt right,
    Nat.shiftLeft_eq, Nat.mul_comm]

theorem toInt_dividend : (y.setWidth 64 <<< 32 ||| rav.setWidth 64).toInt = 2 ^ 32 * y.toInt + rav.toNat := by
  have left := y.isLt
  have right := rav.isLt
  rw [BitVec.toInt_eq_toNat_cond, toNat_dividend, BitVec.toInt_eq_toNat_cond]
  split <;> split <;> omega

/-- The unsigned quotient is always a number of 64 bits. -/
theorem unsignedQuotient_lt (rav rbv y : BitVec 32) : unsignedQuotient rav rbv y < 2 ^ 64 := by
  have left := y.isLt
  have right := rav.isLt
  exact (Nat.div_le_self _ _).trans_lt (by omega)

theorem udiv_value (divisor : rbv ≠ 0) :
    basicValue .udiv rav rbv y psr = .ok (.ofInt 64 (unsignedQuotient rav rbv y), y) := by
  simp only [basicValue, if_neg divisor]
  congr 2
  have bound := unsignedQuotient_lt rav rbv y
  have narrow := rbv.isLt
  apply BitVec.eq_of_toNat_eq
  rw [BitVec.toNat_udiv, toNat_dividend, BitVec.toNat_setWidth, Nat.mod_eq_of_lt (by omega), BitVec.toNat_ofInt]
  change unsignedQuotient rav rbv y = _
  omega

theorem udiv_flags {q : Nat} (bound : q < 2 ^ 64) : basicFlags .udiv rav rbv (.ofInt 64 q) psr =
    (.ofInt 64 (max 0 (min q (2 ^ 32 - 1))), (Icc.mk ((BitVec.ofInt 64 q).getLsbD 31)
      (BitVec.ofInt 64 (max 0 (min q (2 ^ 32 - 1))) = 0) (!decide (0 ≤ (q : Int) ∧ (q : Int) ≤ 2 ^ 32 - 1)) false).store psr) := by
  have large : 0xFFFFFFFF < BitVec.ofInt 64 q ↔ 2 ^ 32 ≤ q := by
    simp only [BitVec.lt_def, BitVec.toNat_ofInt, BitVec.ofNat_eq_ofNat, BitVec.toNat_ofNat]
    omega
  simp only [basicFlags, large]
  by_cases saturated : 2 ^ 32 ≤ q
  · have fits : decide (0 ≤ (q : Int) ∧ (q : Int) ≤ 2 ^ 32 - 1) = false := decide_eq_false (by omega)
    rw [if_pos saturated, max_eq_right (by omega), min_eq_right (by omega), fits]
    rfl
  · have fits : decide (0 ≤ (q : Int) ∧ (q : Int) ≤ 2 ^ 32 - 1) = true := decide_eq_true (by omega)
    rw [if_neg saturated, max_eq_right (by omega), min_eq_left (by omega), fits]
    rfl

theorem agree_udiv : execBasicInteger .udiv cc rav rbv y psr = manualInteger .udiv cc rav rbv y psr ↔
    FollowsManual .udiv cc rav rbv y (psr.getLsbD 20) := by
  rcases eq_or_ne rbv 0 with none | divisor
  · simp [execBasicInteger, basicValue, manualInteger, manual, FollowsManual, none]
  · have bound := unsignedQuotient_lt rav rbv y
    have spec : manual .udiv rav rbv y (psr.getLsbD 20) =
        .ok (.quotient (unsignedQuotient rav rbv y) 0 (2 ^ 32 - 1) y) := by rw [manual, if_neg divisor]
    rw [agree_quotient (by decide) (udiv_value divisor) (udiv_flags bound) spec, FollowsManual]
    simp only [divisor, false_or]
    cases cc
    · simp only [Bool.false_eq_true, if_false]
      omega
    · simp only [if_true]
      omega

theorem signExtend_eq_zero : rbv.signExtend 64 = 0 ↔ rbv = 0 := by
  rw [← BitVec.toInt_inj, BitVec.toInt_signExtend_of_le (by omega)]
  exact BitVec.toInt_inj (y := 0)

theorem dividend_bounds (rav y : BitVec 32) :
    -2 ^ 63 ≤ 2 ^ 32 * y.toInt + rav.toNat ∧ 2 ^ 32 * y.toInt + rav.toNat < 2 ^ 63 := by
  rw [← toInt_dividend]
  exact toInt_bounds (w := 63) _

theorem natAbs_signedQuotient (rav rbv y : BitVec 32) : (signedQuotient rav rbv y).natAbs =
    (2 ^ 32 * y.toInt + rav.toNat).natAbs / rbv.toInt.natAbs :=
  Int.natAbs_tdiv _ _

theorem signedQuotient_bounds (rav rbv y : BitVec 32) :
    -2 ^ 63 ≤ signedQuotient rav rbv y ∧ signedQuotient rav rbv y ≤ 2 ^ 63 := by
  have bounds := dividend_bounds rav y
  have size := Nat.div_le_self (2 ^ 32 * y.toInt + rav.toNat).natAbs rbv.toInt.natAbs
  rw [← natAbs_signedQuotient] at size
  omega

/-- The host traps on one quotient, which only one dividend has. -/
theorem hostTrap_iff (divisor : rbv ≠ 0) :
    (y.setWidth 64 <<< 32 ||| rav.setWidth 64 = BitVec.intMin 64 ∧ rbv.signExtend 64 = -1) ↔
      signedQuotient rav rbv y = 2 ^ 63 := by
  have least : (BitVec.intMin 64).toInt = -2 ^ 63 := by decide
  have minus : (-1 : BitVec 64).toInt = -1 := by decide
  have bounds := dividend_bounds rav y
  rw [← BitVec.toInt_inj, ← BitVec.toInt_inj, toInt_dividend, BitVec.toInt_signExtend_of_le (by omega), least, minus]
  constructor
  · rintro ⟨dividend, minusOne⟩
    rw [signedQuotient, dividend, minusOne]
    decide
  · intro trap
    have size := natAbs_signedQuotient rav rbv y
    have whole := Nat.div_mul_le_self (2 ^ 32 * y.toInt + rav.toNat).natAbs rbv.toInt.natAbs
    rw [← size, trap, show (2 ^ 63 : Int).natAbs = 2 ^ 63 by rfl] at whole
    have nonzero : rbv.toInt ≠ 0 := mt (BitVec.toInt_inj (y := 0)).1 divisor
    have sign : rbv.toInt ≠ 1 := by
      intro one
      rw [signedQuotient, one, Int.tdiv_one] at trap
      omega
    omega

theorem sdiv_value (divisor : rbv ≠ 0) (safe : signedQuotient rav rbv y ≠ 2 ^ 63) :
    basicValue .sdiv rav rbv y psr = .ok (.ofInt 64 (signedQuotient rav rbv y), y) := by
  simp only [basicValue, if_neg (mt signExtend_eq_zero.1 divisor)]
  rw [hostDivide_of_not (mt (hostTrap_iff divisor).1 safe), toInt_dividend, BitVec.toInt_signExtend_of_le (by omega)]
  rfl

theorem sdiv_trap (divisor : rbv ≠ 0) (trap : signedQuotient rav rbv y = 2 ^ 63) :
    basicValue .sdiv rav rbv y psr = .error .hostTrap := by
  simp only [basicValue, if_neg (mt signExtend_eq_zero.1 divisor)]
  rw [hostDivide, if_pos ((hostTrap_iff divisor).2 trap)]

theorem sdiv_flags {q : Int} (low : -2 ^ 63 ≤ q) (high : q < 2 ^ 63) : basicFlags .sdiv rav rbv (.ofInt 64 q) psr =
    (.ofInt 64 (max (-2 ^ 31) (min q (2 ^ 31 - 1))), (Icc.mk ((BitVec.ofInt 64 q).getLsbD 31)
      (BitVec.ofInt 64 (max (-2 ^ 31) (min q (2 ^ 31 - 1))) = 0) (!decide (-2 ^ 31 ≤ q ∧ q ≤ 2 ^ 31 - 1)) false).store psr) := by
  have value : (BitVec.ofInt 64 q).toInt = q := BitVec.toInt_ofInt_eq_self (by omega) low high
  have small : (BitVec.ofInt 64 q).slt (-0x80000000) = decide (q < -2 ^ 31) := by
    rw [BitVec.slt_eq_decide, value]
    rfl
  have large : BitVec.slt 0x7FFFFFFF (BitVec.ofInt 64 q) = decide (2 ^ 31 - 1 < q) := by
    rw [BitVec.slt_eq_decide, value]
    rfl
  simp only [basicFlags, small]
  by_cases below : q < -2 ^ 31
  · have fits : decide (-2 ^ 31 ≤ q ∧ q ≤ 2 ^ 31 - 1) = false := decide_eq_false (by omega)
    rw [max_eq_left (by omega), fits, decide_eq_true below]
    rfl
  · by_cases above : 2 ^ 31 - 1 < q
    · have fits : decide (-2 ^ 31 ≤ q ∧ q ≤ 2 ^ 31 - 1) = false := decide_eq_false (by omega)
      rw [min_eq_right (by omega), max_eq_right (by omega), fits, decide_eq_false below]
      simp only [Bool.false_eq_true, if_false, large, decide_eq_true above, if_true]
      rfl
    · have fits : decide (-2 ^ 31 ≤ q ∧ q ≤ 2 ^ 31 - 1) = true := decide_eq_true (by omega)
      rw [min_eq_left (by omega), max_eq_right (by omega), fits, decide_eq_false below]
      simp only [Bool.false_eq_true, if_false, large, decide_eq_false above]
      rfl

theorem agree_sdiv : execBasicInteger .sdiv cc rav rbv y psr = manualInteger .sdiv cc rav rbv y psr ↔
    FollowsManual .sdiv cc rav rbv y (psr.getLsbD 20) := by
  rcases eq_or_ne rbv 0 with none | divisor
  · simp [execBasicInteger, basicValue, manualInteger, manual, FollowsManual, none]
  · have bounds := signedQuotient_bounds rav rbv y
    have spec : manual .sdiv rav rbv y (psr.getLsbD 20) =
        .ok (.quotient (signedQuotient rav rbv y) (-2 ^ 31) (2 ^ 31 - 1) y) := by rw [manual, if_neg divisor]
    rcases eq_or_ne (signedQuotient rav rbv y) (2 ^ 63) with trap | safe
    · simp only [execBasicInteger, sdiv_trap divisor trap, manualInteger, spec, FollowsManual, divisor, trap]
      cases cc <;> simp
    · rw [agree_quotient (by decide) (sdiv_value divisor safe) (sdiv_flags bounds.1 (by omega)) spec, FollowsManual]
      simp only [divisor, false_or]
      cases cc
      · simp only [Bool.false_eq_true, if_false]
        omega
      · simp only [if_true]
        omega

theorem sum_value (rav rbv : BitVec 32) (carry : Bool) :
    rav.signExtend 64 + rbv.signExtend 64 + (if carry then 1 else 0) =
    BitVec.ofInt 64 (rav.toInt + rbv.toInt + carry.toNat) := by
  rw [BitVec.ofInt_add, BitVec.ofInt_add]
  cases carry <;> rfl

theorem difference_value (carry : Bool) : rav.signExtend 64 - rbv.signExtend 64 - (if carry then 1 else 0) =
    BitVec.ofInt 64 (rav.toInt - rbv.toInt - carry.toNat) := by
  rw [Int.sub_eq_add_neg, Int.sub_eq_add_neg, BitVec.ofInt_add, BitVec.ofInt_add, BitVec.ofInt_neg, BitVec.ofInt_neg,
    ← BitVec.sub_eq_add_neg, ← BitVec.sub_eq_add_neg]
  cases carry <;> rfl

/-- An operation does what the manual says exactly where it keeps clear of the listed cases. -/
theorem agree_manual : execBasicInteger op cc rav rbv y psr = manualInteger op cc rav rbv y psr ↔
    FollowsManual op cc rav rbv y (psr.getLsbD 20) := by
  cases op with
  | and => simpa only [FollowsManual, iff_true] using (agree_word (by simp) rfl rfl).2 rfl
  | andn => simpa only [FollowsManual, iff_true] using (agree_word (by simp) rfl rfl).2 rfl
  | or => simpa only [FollowsManual, iff_true] using (agree_word (by simp) rfl rfl).2 rfl
  | orn => simpa only [FollowsManual, iff_true] using (agree_word (by simp) rfl rfl).2 rfl
  | xor => simpa only [FollowsManual, iff_true] using (agree_word (by simp) rfl rfl).2 rfl
  | xnor =>
    have spec : manual .xnor rav rbv y (psr.getLsbD 20) = .ok (.plain (rav ^^^ ~~~rbv) y false false) := by
      rw [manual, BitVec.not_xor_right]
    simpa only [FollowsManual, iff_true] using (agree_word (by simp) rfl spec).2 rfl
  | add =>
    have value : basicValue .add rav rbv y psr = .ok (.ofInt 64 (rav.toInt + rbv.toInt + false.toNat), y) := by
      rw [basicValue, ← sum_value]
      simp
    simpa only [FollowsManual, and_true] using agree_sum cc false (Or.inl rfl) value rfl
  | addx =>
    have value : basicValue .addx rav rbv y psr =
        .ok (.ofInt 64 (rav.toInt + rbv.toInt + (psr.getLsbD 20).toNat), y) := by
      rw [basicValue, carryOf_eq, sum_value]
    exact agree_sum _ _ (Or.inr rfl) value rfl
  | sub =>
    have value : basicValue .sub rav rbv y psr = .ok (.ofInt 64 (rav.toInt - rbv.toInt - false.toNat), y) := by
      rw [basicValue, ← difference_value]
      simp
    simpa [FollowsManual] using agree_difference cc false (Or.inl rfl) value rfl
  | subx =>
    have value : basicValue .subx rav rbv y psr =
        .ok (.ofInt 64 (rav.toInt - rbv.toInt - (psr.getLsbD 20).toNat), y) := by
      rw [basicValue, carryOf_eq, difference_value]
    exact agree_difference _ _ (Or.inr rfl) value rfl
  | umul => exact agree_umul
  | smul => exact agree_smul
  | udiv => exact agree_udiv
  | sdiv => exact agree_sdiv

end Agreement

end Mgsim.Drisc
