import Mathlib.Algebra.Ring.Nat
import Mgsim.Lib.BitField
import Mgsim.Drisc.RegisterBytes

namespace Mgsim.Drisc
open Mgsim.Mmu Mgsim.Lib

/-- The stores among the opcodes of an I-type instruction. -/
inductive StoreOp
  | sb | sh | sw | swl | swr
deriving DecidableEq

/-- What the execute stage hands to the memory stage. -/
structure StoreRequest where
  address : BitVec 32
  size : Nat
  value : BitVec 32

/-- The stores of `ExecuteInstruction`. -/
def executeStore (t : Target) (opcode : StoreOp) (rav : BitVec 32) (immediate : BitVec 16) (rbv : BitVec 32) :
    StoreRequest :=
  let address := rav + immediate.signExtend 32
  match opcode with
  | .sb => ⟨address, 1, rbv⟩
  | .sh => ⟨address, 2, rbv⟩
  | .sw => ⟨address, 4, rbv⟩
  | .swl =>
    let shift := (address &&& 3).toNat
    let (address, shift) := if t.isBigEndian then (address, shift) else (address &&& ~~~3, shift ^^^ 3)
    ⟨address, 4 - shift, rbv >>> (8 * shift)⟩
  | .swr =>
    let shift := (address &&& 3).toNat
    let (address, shift) := if t.isBigEndian then (address &&& ~~~3, shift) else (address, shift ^^^ 3)
    ⟨address, shift + 1, rbv &&& (0xFFFFFFFF#32 >>> ((3 - shift) * 8))⟩

/-- The bytes that the memory stage writes. -/
def StoreRequest.data (t : Target) (r : StoreRequest) : List Byte :=
  serializeRegister t .integer (r.value.setWidth 64) r.size

/-- A memory after the bytes have been written. -/
def storeBytes (mem : BitVec 32 → Byte) (address : BitVec 32) (data : List Byte) : BitVec 32 → Byte :=
  fun x => data[(x - address).toNat]?.getD (mem x)

def StoreRequest.apply (t : Target) (r : StoreRequest) (mem : BitVec 32 → Byte) : BitVec 32 → Byte :=
  storeBytes mem r.address (r.data t)

/-- The byte of a word at a distance from its address. -/
def wordByte (t : Target) (value : BitVec 32) (i : Nat) : Byte :=
  value.extractLsb' (8 * if t.isBigEndian then 3 - i else i) 8

/-- The address of which the manual has `SWL` store the bytes of the unaligned word at `address`. -/
def swlAddress (t : Target) (address : BitVec 32) : BitVec 32 := if t.isBigEndian then address else address + 3

/-- The same for `SWR`. -/
def swrAddress (t : Target) (address : BitVec 32) : BitVec 32 := if t.isBigEndian then address + 3 else address

section Bytes
variable {t : Target} {value : BitVec 32} {size i : Nat}

theorem data_getElem? (r : StoreRequest) (i : Nat) : (r.data t)[i]? =
    if i < r.size then some (r.value.extractLsb' (8 * if t.isBigEndian then r.size - 1 - i else i) 8) else none := by
  have digit : ∀ j, BitVec.ofNat 8 ((r.value.setWidth 64).toNat / 256 ^ j) = r.value.extractLsb' (8 * j) 8 := by
    intro j
    have small := r.value.isLt
    apply BitVec.eq_of_toNat_eq
    rw [BitVec.toNat_ofNat, BitVec.extractLsb'_toNat, BitVec.toNat_setWidth,
      Nat.mod_eq_of_lt (show r.value.toNat < 2 ^ 64 by omega), Nat.shiftRight_eq_div_pow, Nat.pow_mul]
  rw [StoreRequest.data, serializeRegister, integerToEndian_eq]
  unfold inOrder
  split
  · by_cases inside : i < r.size
    · rw [List.getElem?_reverse (by rwa [length_toBytes]), length_toBytes, getElem?_toBytes, if_pos (by omega), digit,
        if_pos inside]
    · rw [List.getElem?_eq_none (by rw [List.length_reverse, length_toBytes]; omega), if_neg inside]
  · rw [getElem?_toBytes, digit]

/-- A store changes the bytes of its request. -/
theorem apply_eq (r : StoreRequest) (mem : BitVec 32 → Byte) (x : BitVec 32) : r.apply t mem x =
    if (x - r.address).toNat < r.size then
      r.value.extractLsb' (8 * if t.isBigEndian then r.size - 1 - (x - r.address).toNat else (x - r.address).toNat) 8
    else mem x := by
  rw [StoreRequest.apply, storeBytes, data_getElem?]
  split <;> rfl

theorem extractLsb'_shifted (value : BitVec 32) (s p : Nat) :
    (value >>> s).extractLsb' p 8 = value.extractLsb' (s + p) 8 := by
  apply BitVec.eq_of_getLsbD_eq
  intro i inside
  simp only [BitVec.getLsbD_extractLsb', BitVec.getLsbD_ushiftRight, Nat.add_assoc]

theorem extractLsb'_masked (value : BitVec 32) {k p : Nat} (fits : p + 8 + k ≤ 32) :
    (value &&& (0xFFFFFFFF#32 >>> k)).extractLsb' p 8 = value.extractLsb' p 8 := by
  have ones : 0xFFFFFFFF#32 = BitVec.allOnes 32 := rfl
  apply BitVec.eq_of_getLsbD_eq
  intro i inside
  simp only [BitVec.getLsbD_extractLsb', BitVec.getLsbD_and, BitVec.getLsbD_ushiftRight, ones, BitVec.getLsbD_allOnes]
  simp only [decide_eq_true (show k + (p + i) < 32 by omega), Bool.and_true]

theorem toNat_and_three (e : BitVec 32) : (e &&& 3).toNat = e.toNat % 4 :=
  Nat.and_two_pow_sub_one_eq_mod e.toNat 2

theorem toNat_aligned (e : BitVec 32) : (e &&& ~~~3).toNat = e.toNat - e.toNat % 4 :=
  toNat_and_neg_twoPow (w := 32) (k := 2) (by omega) e

theorem xor_three {s : Nat} (small : s < 4) : s ^^^ 3 = 3 - s := by
  have all : ∀ s : Fin 4, s.val ^^^ 3 = 3 - s.val := by decide
  exact all ⟨s, small⟩

end Bytes

/-- The part of the word at an address that lies in the aligned word of another address. -/
def Touched (address other x : BitVec 32) : Prop := (x - address).toNat < 4 ∧ x.toNat / 4 = other.toNat / 4

instance instDecidableTouched (address other x : BitVec 32) : Decidable (Touched address other x) := by
  unfold Touched
  infer_instance

variable {t : Target} {rav address : BitVec 32} {immediate : BitVec 16}

/-- `SWL` at its address stores what lies in its own aligned word. -/
theorem swl_apply (placed : rav + immediate.signExtend 32 = swlAddress t address) (value : BitVec 32)
    (mem : BitVec 32 → Byte) (x : BitVec 32) : (executeStore t .swl rav immediate value).apply t mem x =
      if Touched address (swlAddress t address) x then wordByte t value (x - address).toNat else mem x := by
  have bound := address.isLt
  have inside := x.isLt
  have next : (address + 3).toNat = (address.toNat + 3) % 2 ^ 32 := BitVec.toNat_add _ _
  have aligned := toNat_aligned (address + 3)
  have distance := BitVec.toNat_sub x address
  have distance' := BitVec.toNat_sub x (address + 3 &&& ~~~3)
  rw [apply_eq]
  simp only [executeStore, placed, Touched, swlAddress, wordByte, toNat_and_three]
  rcases Bool.eq_false_or_eq_true t.isBigEndian with order | order
  · simp only [order, if_true, extractLsb'_shifted]
    by_cases touched : (x - address).toNat < 4 - address.toNat % 4
    · rw [if_pos touched, if_pos (by omega)]
      congr 1
      omega
    · rw [if_neg touched, if_neg (by omega)]
  · simp only [order, Bool.false_eq_true, if_false, extractLsb'_shifted]
    rw [xor_three (by omega)]
    by_cases touched : (x - (address + 3 &&& ~~~3)).toNat < 4 - (3 - (address + 3).toNat % 4)
    · rw [if_pos touched, if_pos (by omega)]
      congr 1
      omega
    · rw [if_neg touched, if_neg (by omega)]

/-- So does `SWR`. -/
theorem swr_apply (placed : rav + immediate.signExtend 32 = swrAddress t address) (value : BitVec 32)
    (mem : BitVec 32 → Byte) (x : BitVec 32) : (executeStore t .swr rav immediate value).apply t mem x =
      if Touched address (swrAddress t address) x then wordByte t value (x - address).toNat else mem x := by
  have bound := address.isLt
  have inside := x.isLt
  have next : (address + 3).toNat = (address.toNat + 3) % 2 ^ 32 := BitVec.toNat_add _ _
  have aligned := toNat_aligned (address + 3)
  have distance := BitVec.toNat_sub x address
  have distance' := BitVec.toNat_sub x (address + 3 &&& ~~~3)
  rw [apply_eq]
  simp only [executeStore, placed, Touched, swrAddress, wordByte, toNat_and_three]
  rcases Bool.eq_false_or_eq_true t.isBigEndian with order | order
  · simp only [order, if_true]
    by_cases touched : (x - (address + 3 &&& ~~~3)).toNat < (address + 3).toNat % 4 + 1
    · rw [if_pos touched, if_pos (by omega), extractLsb'_masked value (by omega)]
      congr 1
      omega
    · rw [if_neg touched, if_neg (by omega)]
  · simp only [order, Bool.false_eq_true, if_false]
    rw [xor_three (by omega)]
    by_cases touched : (x - address).toNat < 3 - address.toNat % 4 + 1
    · rw [if_pos touched, if_pos (by omega), extractLsb'_masked value (by omega)]
    · rw [if_neg touched, if_neg (by omega)]

/-- Every byte of the unaligned word lies in the aligned word of one of the two addresses. -/
theorem touched_or (t : Target) {address x : BitVec 32} (inside : (x - address).toNat < 4) :
    Touched address (swlAddress t address) x ∨ Touched address (swrAddress t address) x := by
  have next : (address + 3).toNat = (address.toNat + 3) % 2 ^ 32 := BitVec.toNat_add _ _
  have distance := BitVec.toNat_sub x address
  have bound := address.isLt
  have small := x.isLt
  have either : x.toNat / 4 = address.toNat / 4 ∨ x.toNat / 4 = (address + 3).toNat / 4 := by omega
  unfold Touched swlAddress swrAddress
  split
  · exact either.imp (fun same => ⟨inside, same⟩) fun same => ⟨inside, same⟩
  · exact either.symm.imp (fun same => ⟨inside, same⟩) fun same => ⟨inside, same⟩

theorem parts_eq {left right whole : Prop} [Decidable left] [Decidable right] [Decidable whole] {stored kept : Byte}
    (cover : whole → left ∨ right) (leftPart : left → whole) (rightPart : right → whole) :
    (if left then stored else if right then stored else kept) = if whole then stored else kept := by
  by_cases inside : whole
  · rw [if_pos inside]
    rcases cover inside with part | part
    · rw [if_pos part]
    · rw [if_pos part, ite_self]
  · rw [if_neg inside, if_neg (mt leftPart inside), if_neg (mt rightPart inside)]

/-- A memory with a word at an address, in the byte order of the target. -/
def storeWord (t : Target) (address value : BitVec 32) (mem : BitVec 32 → Byte) : BitVec 32 → Byte :=
  fun x => if (x - address).toNat < 4 then wordByte t value (x - address).toNat else mem x

/-- Each of the two stores its own part of the unaligned word, and the two together store all of it. -/
theorem unalignedStore (t : Target) (value address : BitVec 32) (rav rav' : BitVec 32) (immediate immediate' : BitVec 16)
    (left : rav + immediate.signExtend 32 = swlAddress t address)
    (right : rav' + immediate'.signExtend 32 = swrAddress t address) (mem : BitVec 32 → Byte) :
    (∀ x, (executeStore t .swl rav immediate value).apply t mem x =
      if Touched address (swlAddress t address) x then wordByte t value (x - address).toNat else mem x) ∧
    (∀ x, (executeStore t .swr rav' immediate' value).apply t mem x =
      if Touched address (swrAddress t address) x then wordByte t value (x - address).toNat else mem x) ∧
    (executeStore t .swr rav' immediate' value).apply t ((executeStore t .swl rav immediate value).apply t mem) =
      storeWord t address value mem ∧
    (executeStore t .swl rav immediate value).apply t ((executeStore t .swr rav' immediate' value).apply t mem) =
      storeWord t address value mem := by
  refine ⟨swl_apply left value mem, swr_apply right value mem, ?_, ?_⟩
  · funext x
    rw [swr_apply right, swl_apply left, storeWord]
    exact parts_eq (fun inside => (touched_or t inside).symm) (·.1) (·.1)
  · funext x
    rw [swl_apply left, swr_apply right, storeWord]
    exact parts_eq (touched_or t) (·.1) (·.1)

theorem unalignedStore_crossing :
    (executeStore .mips32el .swr 0xFFE 4 0x11223344).apply .mips32el
        ((executeStore .mips32el .swl 0xFFE 7 0x11223344).apply .mips32el fun _ => 0) =
      storeWord .mips32el 0x1002 0x11223344 fun _ => 0 :=
  (unalignedStore .mips32el 0x11223344 0x1002 0xFFE 0xFFE 7 4 (by decide) (by decide) _).2.2.1

end Mgsim.Drisc
