import Mgsim.Drisc.LoadPath
import Mgsim.Lib.Numeral

namespace Mgsim.Drisc
open Mgsim.Mmu Mgsim.Lib

/-- `IntegerToLittleEndian`. -/
def integerToLittleEndian (value : BitVec 64) : Nat → List Byte
  | 0 => []
  | size + 1 => (value &&& 0xFF).setWidth 8 :: integerToLittleEndian (value >>> 8) size

/-- `IntegerToBigEndian`, which fills the data from the end. -/
def integerToBigEndian (value : BitVec 64) : Nat → List Byte
  | 0 => []
  | size + 1 => integerToBigEndian (value >>> 8) size ++ [(value &&& 0xFF).setWidth 8]

/-- `IntegerToEndian`. -/
def integerToEndian (t : Target) (value : BitVec 64) (size : Nat) : List Byte :=
  if t.isBigEndian then integerToBigEndian value size else integerToLittleEndian value size

/-- `SerializeRegister`. -/
def serializeRegister (t : Target) (type : RegType) (value : BitVec 64) (size : Nat) : List Byte :=
  match type with
  | .float =>
    let value :=
      if t = .mtalpha ∧ size = 4 then (((value >>> 62) &&& 3) <<< 30) ||| ((value >>> 29) &&& 0x3FFFFFFF) else value
    integerToEndian t value size
  | .integer => integerToEndian t value size

section ByteOrder
variable {t : Target} {data : List Byte} {value : BitVec 64} {size : Nat}

theorem integerToLittleEndian_eq (value : BitVec 64) (size : Nat) :
    integerToLittleEndian value size = toBytes value.toNat size := by
  induction size generalizing value with
  | zero => rfl
  | succ size ih =>
    rw [integerToLittleEndian, toBytes, ih, BitVec.toNat_ushiftRight, Nat.shiftRight_eq_div_pow]
    congr 1
    apply BitVec.eq_of_toNat_eq
    rw [BitVec.toNat_setWidth, BitVec.toNat_and, BitVec.toNat_ofNat]
    exact congrArg (· % 2 ^ 8) (Nat.and_two_pow_sub_one_eq_mod value.toNat 8) |>.trans (Nat.mod_mod _ _)

theorem integerToBigEndian_eq (value : BitVec 64) (size : Nat) :
    integerToBigEndian value size = (integerToLittleEndian value size).reverse := by
  induction size generalizing value with
  | zero => rfl
  | succ size ih => rw [integerToBigEndian, integerToLittleEndian, List.reverse_cons, ih]

/-- Up to eight bytes fit into the value that is read from them. -/
theorem toNat_foldr (small : data.length ≤ 8) :
    (data.foldr (fun byte (value : BitVec 64) => (value <<< 8) + byte.setWidth 64) 0).toNat = ofBytes data := by
  induction data with
  | nil => rfl
  | cons byte data ih =>
    rw [List.length_cons] at small
    have tail := ih (by omega)
    have bound : ofBytes data < 2 ^ 56 :=
      (ofBytes_lt data).trans_le (Nat.pow_le_pow_right (by omega) (by omega : data.length ≤ 7))
    have byteBound := byte.isLt
    rw [List.foldr_cons, BitVec.toNat_add, BitVec.toNat_shiftLeft, BitVec.toNat_setWidth, tail, ofBytes_cons,
      Nat.shiftLeft_eq]
    omega

/-- The bytes in the order of a target, with the least significant one first. -/
def inOrder (t : Target) (data : List Byte) : List Byte := if t.isBigEndian then data.reverse else data

@[simp] theorem length_inOrder : (inOrder t data).length = data.length := by
  unfold inOrder
  split
  · exact List.length_reverse
  · rfl

theorem inOrder_inOrder : inOrder t (inOrder t data) = data := by
  unfold inOrder
  split
  · exact List.reverse_reverse data
  · rfl

theorem toNat_endianToInteger (small : data.length ≤ 8) : (endianToInteger t data).toNat = ofBytes (inOrder t data) := by
  unfold endianToInteger inOrder
  split
  · rw [← List.foldr_reverse]
    exact toNat_foldr (by rwa [List.length_reverse])
  · exact toNat_foldr small

theorem integerToEndian_eq (t : Target) (value : BitVec 64) (size : Nat) :
    integerToEndian t value size = inOrder t (toBytes value.toNat size) := by
  unfold integerToEndian inOrder
  split
  · rw [integerToBigEndian_eq, integerToLittleEndian_eq]
  · exact integerToLittleEndian_eq value size

/-- What has been read is written back. -/
theorem integerToEndian_endianToInteger (small : data.length ≤ 8) :
    integerToEndian t (endianToInteger t data) data.length = data := by
  rw [integerToEndian_eq, toNat_endianToInteger small, ← @length_inOrder t data, toBytes_ofBytes, inOrder_inOrder]

@[simp] theorem length_integerToEndian : (integerToEndian t value size).length = size := by
  rw [integerToEndian_eq, length_inOrder, length_toBytes]

/-- Of what has been written the low bytes are read back. -/
theorem endianToInteger_integerToEndian (small : size ≤ 8) :
    endianToInteger t (integerToEndian t value size) = (value.setWidth (8 * size)).setWidth 64 := by
  apply BitVec.eq_of_toNat_eq
  have bound : value.toNat % 2 ^ (8 * size) < 2 ^ 64 := (Nat.mod_le _ _).trans_lt value.isLt
  rw [toNat_endianToInteger (by rwa [length_integerToEndian]), integerToEndian_eq, inOrder_inOrder, ofBytes_toBytes,
    BitVec.toNat_setWidth, BitVec.toNat_setWidth, Nat.mod_eq_of_lt bound, Nat.pow_mul]

/-- Only the low bytes are written. -/
theorem integerToEndian_congr {value' : BitVec 64} (same : value.setWidth (8 * size) = value'.setWidth (8 * size)) :
    integerToEndian t value size = integerToEndian t value' size := by
  have low := congrArg BitVec.toNat same
  rw [BitVec.toNat_setWidth, BitVec.toNat_setWidth, Nat.pow_mul] at low
  rw [integerToEndian_eq, integerToEndian_eq, ← toBytes_mod value.toNat, show 256 = 2 ^ 8 from rfl, low,
    ← toBytes_mod value'.toNat]

end ByteOrder

section SFloating

/-- The place of an exponent of eight bits among those of eleven: the highest bit and the low seven are the same. -/
theorem mapS_spec (exp : BitVec 64) (small : exp.toNat < 256) :
    (mapS exp).toNat < 2048 ∧ (mapS exp).toNat / 1024 = exp.toNat / 128 ∧ (mapS exp).toNat % 128 = exp.toNat % 128 := by
  have all : ∀ e : Fin 256, (mapS (BitVec.ofNat 64 e)).toNat < 2048 ∧
      (mapS (BitVec.ofNat 64 e)).toNat / 1024 = e.val / 128 ∧ (mapS (BitVec.ofNat 64 e)).toNat % 128 = e.val % 128 := by
    decide +kernel
  have here := all ⟨exp.toNat, small⟩
  rwa [BitVec.ofNat_toNat, BitVec.setWidth_eq] at here

/-- A field of a word, as a number. -/
theorem toNat_field (word : BitVec 64) (pos width : Nat) (fits : width ≤ 64) :
    ((word >>> pos) &&& BitVec.ofNat 64 (2 ^ width - 1)).toNat = word.toNat / 2 ^ pos % 2 ^ width := by
  have positive := Nat.two_pow_pos width
  have bound : 2 ^ width ≤ 2 ^ 64 := Nat.pow_le_pow_right (by omega) fits
  rw [BitVec.toNat_and, BitVec.toNat_ushiftRight, BitVec.toNat_ofNat, Nat.mod_eq_of_lt (by omega),
    Nat.and_two_pow_sub_one_eq_mod, Nat.shiftRight_eq_div_pow]

/-- A field is put before another one. -/
theorem toNat_join (high low : BitVec 64) (pos : Nat) (fits : high.toNat * 2 ^ pos < 2 ^ 64) (small : low.toNat < 2 ^ pos) :
    ((high <<< pos) ||| low).toNat = high.toNat * 2 ^ pos + low.toNat := by
  rw [BitVec.toNat_or, BitVec.toNat_shiftLeft, Nat.shiftLeft_eq, Nat.mod_eq_of_lt fits, ← Nat.shiftLeft_eq,
    ← Nat.shiftLeft_add_eq_or_of_lt small]

/-- An S_Floating that has become a T_Floating is stored as it was. -/
theorem sFloating_roundTrip (value : BitVec 64) (small : value.toNat < 2 ^ 32) :
    let wide := (((value >>> 31) &&& 1) <<< 63) ||| (mapS ((value >>> 23) &&& 0xFF) <<< 52) |||
      ((value &&& 0x7FFFFF) <<< 29)
    (((wide >>> 62) &&& 3) <<< 30) ||| ((wide >>> 29) &&& 0x3FFFFFFF) = value := by
  intro wide
  have sign : ((value >>> 31) &&& 1).toNat = value.toNat / 2 ^ 31 % 2 ^ 1 := toNat_field value 31 1 (by omega)
  have exponent : ((value >>> 23) &&& 0xFF).toNat = value.toNat / 2 ^ 23 % 2 ^ 8 := toNat_field value 23 8 (by omega)
  have fraction : (value &&& 0x7FFFFF).toNat = value.toNat % 2 ^ 23 := by
    have field := toNat_field value 0 23 (by omega)
    rwa [BitVec.ushiftRight_zero, Nat.pow_zero, Nat.div_one] at field
  obtain ⟨bound, highest, low⟩ := mapS_spec ((value >>> 23) &&& 0xFF) (by omega)
  have shifted : ((value &&& 0x7FFFFF) <<< 29).toNat = value.toNat % 2 ^ 23 * 2 ^ 29 := by
    rw [BitVec.toNat_shiftLeft, fraction, Nat.shiftLeft_eq]
    omega
  have lower := toNat_join (mapS ((value >>> 23) &&& 0xFF)) ((value &&& 0x7FFFFF) <<< 29) 52 (by omega) (by omega)
  have whole := toNat_join ((value >>> 31) &&& 1) (mapS ((value >>> 23) &&& 0xFF) <<< 52 ||| (value &&& 0x7FFFFF) <<< 29)
    63 (by omega) (by omega)
  rw [← BitVec.or_assoc] at whole
  change wide.toNat = _ at whole
  apply BitVec.eq_of_toNat_eq
  have top : ((wide >>> 62) &&& 3).toNat = wide.toNat / 2 ^ 62 % 2 ^ 2 := toNat_field wide 62 2 (by omega)
  have rest : ((wide >>> 29) &&& 0x3FFFFFFF).toNat = wide.toNat / 2 ^ 29 % 2 ^ 30 := toNat_field wide 29 30 (by omega)
  rw [toNat_join _ _ 30 (by omega) (by omega)]
  omega

end SFloating

/-- The value that a load of some bytes leaves in a register: only the registers of
the SPARC are not filled with the sign of four bytes. -/
def extended (t : Target) (size : Nat) (value : BitVec 64) : BitVec 64 :=
  if t ≠ .mtsparc ∧ size = 4 then (value.setWidth (8 * size)).signExtend 64 else (value.setWidth (8 * size)).setWidth 64

variable {t : Target}

theorem setWidth_signExtend (value : BitVec 32) : (value.signExtend 64).setWidth 32 = value := by
  apply BitVec.eq_of_getLsbD_eq
  intro i inside
  rw [BitVec.getLsbD_setWidth, BitVec.getLsbD_signExtend]
  simp [inside, show i < 64 by omega]

theorem unserializeRegister_integer (t : Target) (value : BitVec 64) {size : Nat} (small : size ≤ 8) :
    unserializeRegister t .integer (serializeRegister t .integer value size) = extended t size value := by
  unfold unserializeRegister serializeRegister extended
  dsimp only
  rw [length_integerToEndian, endianToInteger_integerToEndian small]
  split
  · rename_i four
    obtain ⟨-, rfl⟩ := four
    have low : ((value.setWidth 32).setWidth 64).setWidth 32 = value.setWidth 32 := by
      rw [BitVec.setWidth_setWidth_of_le _ (by omega), BitVec.setWidth_eq]
    exact congrArg (BitVec.signExtend 64) low
  · rfl

theorem serializeRegister_unserializeRegister (t : Target) (type : RegType) {data : List Byte} (small : data.length ≤ 8) :
    serializeRegister t type (unserializeRegister t type data) data.length = data := by
  cases type with
  | integer =>
    unfold serializeRegister unserializeRegister
    dsimp only
    split
    · rename_i four
      refine (integerToEndian_congr ?_).trans (integerToEndian_endianToInteger small)
      rw [four.2]
      exact setWidth_signExtend ((endianToInteger t data).setWidth 32)
    · exact integerToEndian_endianToInteger small
  | float =>
    unfold serializeRegister unserializeRegister
    dsimp only
    split
    · rename_i four
      have bound : (endianToInteger t data).toNat < 2 ^ 32 := by
        rw [toNat_endianToInteger small]
        refine (ofBytes_lt _).trans_eq ?_
        rw [length_inOrder, four.2]
        rfl
      rw [sFloating_roundTrip _ bound]
      exact integerToEndian_endianToInteger small
    · exact integerToEndian_endianToInteger small

/-- Bytes that are read into a register are written back as they were, and of an
integer that is written and read again the low bytes are left, as a load extends them. -/
theorem register_roundTrip (t : Target) :
    (∀ type data, data.length ≤ 8 →
      serializeRegister t type (unserializeRegister t type data) data.length = data) ∧
    ∀ value size, size ≤ 8 →
      unserializeRegister t .integer (serializeRegister t .integer value size) = extended t size value :=
  ⟨fun type _ small => serializeRegister_unserializeRegister t type small,
    fun value _ small => unserializeRegister_integer t value small⟩

theorem register_roundTrip_four :
    serializeRegister .mtalpha .float (unserializeRegister .mtalpha .float [0, 0, 0x80, 0x3F]) 4 = [0, 0, 0x80, 0x3F] ∧
      unserializeRegister .mips32 .integer (serializeRegister .mips32 .integer 0x80000001 4) = 0xFFFFFFFF80000001 :=
  ⟨(register_roundTrip .mtalpha).1 .float [0, 0, 0x80, 0x3F] (by decide),
    ((register_roundTrip .mips32).2 0x80000001 4 (by decide)).trans (by decide)⟩

end Mgsim.Drisc
