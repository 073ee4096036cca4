import Mathlib.Data.Nat.Digits.Defs
import Mathlib.Data.BitVec

namespace Mgsim.Lib

section Digits

/-- The digits of a number, from the first one on. Zero has one digit. -/
def numeral (base n : Nat) : List Nat := if n = 0 then [0] else (Nat.digits base n).reverse

/-- The number that is read from its digits. -/
def ofNumeral (base : Nat) (digits : List Nat) : Nat := digits.foldl (fun n digit => n * base + digit) 0

section Numeral
variable {base n digit : Nat}

theorem numeral_ne_nil : numeral base n ≠ [] := by
  unfold numeral
  split_ifs with zero
  · exact List.cons_ne_nil _ _
  · exact fun nil => zero (Nat.digits_eq_nil_iff_eq_zero.mp (List.reverse_eq_nil_iff.mp nil))

theorem lt_of_mem_numeral (many : 1 < base) (member : digit ∈ numeral base n) : digit < base := by
  unfold numeral at member
  split_ifs at member
  · rw [List.mem_singleton.mp member]
    omega
  · exact Nat.digits_lt_base many (List.mem_reverse.mp member)

theorem numeral_of_lt (small : n < base) : numeral base n = [n] := by
  unfold numeral
  split_ifs with zero
  · rw [zero]
  · rw [Nat.digits_of_lt base n zero small, List.reverse_singleton]

theorem ofNumeral_numeral (base n : Nat) : ofNumeral base (numeral base n) = n := by
  unfold ofNumeral numeral
  split_ifs with zero
  · simp [zero]
  · have value := (Nat.ofDigits_eq_foldr base (Nat.digits base n)).symm.trans (Nat.ofDigits_digits base n)
    rw [List.foldl_reverse]
    simpa only [Nat.cast_id, Nat.mul_comm base, Nat.add_comm] using value

end Numeral

/-- The first `width` bytes of a number, from the least one on. -/
def littleEndian : (width n : Nat) → List (BitVec 8)
  | 0, _ => []
  | width + 1, n => BitVec.ofNat 8 n :: littleEndian width (n / 256)

def ofLittleEndian : List (BitVec 8) → Nat
  | [] => 0
  | byte :: rest => byte.toNat + 256 * ofLittleEndian rest

theorem length_littleEndian (width n : Nat) : (littleEndian width n).length = width := by
  induction width generalizing n with
  | zero => rfl
  | succ width ih => rw [littleEndian, List.length_cons, ih]

theorem ofLittleEndian_littleEndian {width n : Nat} (fits : n < 2 ^ (8 * width)) :
    ofLittleEndian (littleEndian width n) = n := by
  induction width generalizing n with
  | zero =>
    rw [littleEndian, ofLittleEndian]
    omega
  | succ width ih =>
    have rest : n / 256 < 2 ^ (8 * width) := by
      rw [Nat.div_lt_iff_lt_mul (by decide), show 256 = 2 ^ 8 from rfl, ← Nat.pow_add]
      exact fits
    rw [littleEndian, ofLittleEndian, ih rest, BitVec.toNat_ofNat]
    exact Nat.mod_add_div n 256

end Digits

section Bytes
/-- The number that some bytes stand for, the least significant one first. -/
def ofBytes (data : List (BitVec 8)) : Nat := data.foldr (fun byte value => byte.toNat + 256 * value) 0

/-- The low bytes of a number, the least significant one first. -/
def toBytes (value : Nat) : Nat → List (BitVec 8)
  | 0 => []
  | size + 1 => BitVec.ofNat 8 value :: toBytes (value / 256) size

variable {data : List (BitVec 8)} {value size : Nat}

@[simp] theorem ofBytes_cons (byte : BitVec 8) : ofBytes (byte :: data) = byte.toNat + 256 * ofBytes data := rfl

@[simp] theorem length_toBytes : (toBytes value size).length = size := by
  induction size generalizing value with
  | zero => rfl
  | succ size ih => rw [toBytes, List.length_cons, ih]

theorem getElem?_toBytes (value size i : Nat) :
    (toBytes value size)[i]? = if i < size then some (BitVec.ofNat 8 (value / 256 ^ i)) else none := by
  induction size generalizing value i with
  | zero => rfl
  | succ size ih =>
    cases i with
    | zero => simp [toBytes]
    | succ i =>
      rw [toBytes, List.getElem?_cons_succ, ih, Nat.pow_succ', Nat.div_div_eq_div_mul]
      simp only [Nat.add_lt_add_iff_right]

theorem ofBytes_lt (data : List (BitVec 8)) : ofBytes data < 256 ^ data.length := by
  induction data with
  | nil => exact Nat.one_pos
  | cons byte data ih =>
    have small := byte.isLt
    rw [ofBytes_cons, List.length_cons, Nat.pow_succ]
    omega

theorem ofBytes_toBytes (value size : Nat) : ofBytes (toBytes value size) = value % 256 ^ size := by
  induction size generalizing value with
  | zero => exact (Nat.mod_one value).symm
  | succ size ih =>
    have split : 256 ^ (size + 1) = 256 * 256 ^ size := Nat.pow_succ'
    rw [toBytes, ofBytes_cons, ih, BitVec.toNat_ofNat, split, Nat.mod_mul]

theorem toBytes_ofBytes (data : List (BitVec 8)) : toBytes (ofBytes data) data.length = data := by
  induction data with
  | nil => rfl
  | cons byte data ih =>
    have small := byte.isLt
    rw [List.length_cons, toBytes, ofBytes_cons]
    congr 1
    · apply BitVec.eq_of_toNat_eq
      rw [BitVec.toNat_ofNat]
      omega
    · rw [show (byte.toNat + 256 * ofBytes data) / 256 = ofBytes data by omega, ih]

/-- Only the low bytes count. -/
theorem toBytes_mod (value size : Nat) : toBytes (value % 256 ^ size) size = toBytes value size := by
  have same := toBytes_ofBytes (toBytes value size)
  rwa [ofBytes_toBytes, length_toBytes] at same

end Bytes

end Mgsim.Lib
