import Mgsim.Lib.BitField
import Mgsim.Lib.Overlay
import Mgsim.Memory.VirtualMemory

namespace Mgsim.Memory
open Mgsim.Lib

/-- `BLOCK_SIZE`, a power of two. -/
def blockSize : Nat := 2 ^ 12

/-- The bytes of a block, of which the first `BLOCK_SIZE` count. -/
abbrev Block := Nat → BitVec 8

/-- `std::copy` out of a block. There is nothing behind the end of its array. -/
def Block.copy (block : Block) (offset count : Nat) : Option (List (BitVec 8)) :=
  if offset + count ≤ blockSize then some ((List.range count).map fun i => block (offset + i)) else none

/-- The arguments of a call of `Write`. The null pointer for the mask is `none`. -/
structure WriteCall (w : Nat) where
  address : BitVec w
  data : Nat → BitVec 8
  mask : Option (Nat → Bool)
  size : BitVec w

namespace WriteCall
variable {w : Nat}

def selects (c : WriteCall w) (i : Nat) : Bool := c.mask.all fun mask => mask i

/-- The byte that a call writes at an address. -/
def patch (c : WriteCall w) (a : BitVec w) : Option (BitVec 8) :=
  if (a - c.address).toNat < c.size.toNat ∧ c.selects (a - c.address).toNat = true then
    some (c.data (a - c.address).toNat)
  else none

end WriteCall

/-- The inner loop of `Write`: the bytes from `data` on of a call go into a block. -/
def Block.store {w : Nat} (block : Block) (c : WriteCall w) (offset data count : Nat) : Block := fun j =>
  if offset ≤ j ∧ j < offset + count ∧ c.selects (data + (j - offset)) = true then c.data (data + (j - offset))
  else block j

/-- `m_blocks` of `VirtualMemory`. -/
abbrev BlockMap (w : Nat) := SortedMap (BitVec w) Block

variable {w : Nat}

/-- The base address of the block that contains an address. -/
def blockBase (address : BitVec w) : BitVec w := address &&& -(BitVec.ofNat w blockSize)

/-- The offset of an address within its block. -/
def blockOffset (address : BitVec w) : Nat := (address - blockBase address).toNat

theorem toNat_blockBase (wide : 12 ≤ w) (address : BitVec w) :
    (blockBase address).toNat = address.toNat - address.toNat % blockSize :=
  toNat_and_neg_twoPow wide address

theorem blockOffset_eq (wide : 12 ≤ w) (address : BitVec w) : blockOffset address = address.toNat % blockSize := by
  have part := Nat.mod_le address.toNat blockSize
  have below : blockBase address ≤ address := by
    rw [BitVec.le_def, toNat_blockBase wide]
    omega
  rw [blockOffset, BitVec.toNat_sub_of_le below, toNat_blockBase wide]
  omega

theorem blockOffset_lt (address : BitVec w) : blockOffset address < blockSize := by
  by_cases wide : 12 ≤ w
  · rw [blockOffset_eq wide]
    exact Nat.mod_lt _ (by decide)
  · have power : 2 ^ w ≤ 2 ^ 12 := Nat.pow_le_pow_right (by decide) (by omega)
    exact lt_of_lt_of_le (address - blockBase address).isLt power

namespace BlockMap

/-- The loop of `Read`, with the blocks from `pos` on. -/
def readFrom (blocks : List (BitVec w × Block)) (base : BitVec w) (offset size : Nat) : Option (List (BitVec 8)) :=
  if size = 0 then some []
  else
    match blocks with
    | [] => some (List.replicate size 0)
    | p :: rest =>
      let count := min size blockSize
      if p.1 > base then
        (readFrom (p :: rest) (base + BitVec.ofNat w blockSize) 0 (size - count)).map (List.replicate count 0 ++ ·)
      else
        (p.2.copy offset count).bind fun bytes =>
          (readFrom rest (base + BitVec.ofNat w blockSize) 0 (size - count)).map (bytes ++ ·)
termination_by size
decreasing_by all_goals simp only [blockSize]; omega

/-- `Read`: the bytes that it leaves at `data`. -/
def read (blocks : BlockMap w) (address size : BitVec w) : Option (List (BitVec 8)) :=
  readFrom (blocks.atLeast (blockBase address)) (blockBase address) (blockOffset address) size.toNat

/-- The body of the loop of `Write`: a block is found or inserted, and written. -/
def writePiece (blocks : BlockMap w) (c : WriteCall w) (base : BitVec w) (offset data count : Nat) : BlockMap w :=
  (blocks.insert base fun _ => 0).modify base fun block => block.store c offset data count

/-- The loop of `Write`, from the byte `data` of the call on. -/
def writeFrom (c : WriteCall w) (blocks : BlockMap w) (base : BitVec w) (offset : Fin blockSize) (data size : Nat) :
    BlockMap w :=
  if size = 0 then blocks
  else
    let count := min size (blockSize - offset)
    writeFrom c (blocks.writePiece c base offset data count) (base + BitVec.ofNat w blockSize) ⟨0, by decide⟩
      (data + count) (size - count)
termination_by size
decreasing_by omega

def write (blocks : BlockMap w) (c : WriteCall w) : BlockMap w :=
  writeFrom c blocks (blockBase c.address) ⟨blockOffset c.address, blockOffset_lt c.address⟩ 0 c.size.toNat

/-- The blocks after some calls of `Write`. -/
def after (calls : List (WriteCall w)) : BlockMap w := calls.foldl write .empty

end BlockMap

/-- The flat memory after some calls of `Write`: at each address the byte of the last
call that writes there, and zero where no call does. -/
def flatAfter (calls : List (WriteCall w)) : BitVec w → BitVec 8 := overlay (calls.map WriteCall.patch) fun _ => 0

/-- The bytes of a flat memory from an address on. -/
def flatRead (memory : BitVec w → BitVec 8) (address size : BitVec w) : List (BitVec 8) :=
  (List.range size.toNat).map fun i => memory (address + BitVec.ofNat w i)

namespace BlockMap

/-- The byte of the blocks at an address. -/
def byteAt (blocks : BlockMap w) (address : BitVec w) : BitVec 8 :=
  match blocks.get? (blockBase address) with
  | some block => block (blockOffset address)
  | none => 0

/-- The blocks start at multiples of their size. -/
def Aligned (blocks : BlockMap w) : Prop := ∀ p ∈ blocks.entries, p.1.toNat % blockSize = 0

section Address
variable {base : BitVec w} {x : Nat}

theorem base_add_lt (wide : 12 ≤ w) (aligned : base.toNat % blockSize = 0) : base.toNat + blockSize ≤ 2 ^ w := by
  have bound := base.isLt
  have multiple : 2 ^ w = 2 ^ (w - 12) * blockSize := by rw [blockSize, ← Nat.pow_add, Nat.sub_add_cancel wide]
  have quotient := Nat.div_add_mod base.toNat blockSize
  have less : base.toNat / blockSize < 2 ^ (w - 12) := Nat.div_lt_of_lt_mul (by rw [Nat.mul_comm, ← multiple]; exact bound)
  have next : (base.toNat / blockSize + 1) * blockSize ≤ 2 ^ (w - 12) * blockSize := Nat.mul_le_mul_right _ less
  rw [multiple]
  rw [Nat.add_mul, Nat.one_mul, Nat.mul_comm] at next
  omega

theorem toNat_base_add (wide : 12 ≤ w) (aligned : base.toNat % blockSize = 0) (inside : x < blockSize) :
    (base + BitVec.ofNat w x).toNat = base.toNat + x := by
  have room := base_add_lt wide aligned
  have small : blockSize ≤ 2 ^ w := le_trans (Nat.le_add_left _ _) room
  rw [BitVec.toNat_add, BitVec.toNat_ofNat, Nat.mod_eq_of_lt (by omega : x < 2 ^ w), Nat.mod_eq_of_lt (by omega)]

theorem blockOffset_add (wide : 12 ≤ w) (aligned : base.toNat % blockSize = 0) (inside : x < blockSize) :
    blockOffset (base + BitVec.ofNat w x) = x := by
  rw [blockOffset_eq wide, toNat_base_add wide aligned inside, Nat.add_mod, aligned, Nat.zero_add, Nat.mod_mod,
    Nat.mod_eq_of_lt inside]

theorem blockBase_add (wide : 12 ≤ w) (aligned : base.toNat % blockSize = 0) (inside : x < blockSize) :
    blockBase (base + BitVec.ofNat w x) = base := by
  have offset := blockOffset_add wide aligned inside
  rw [blockOffset_eq wide] at offset
  refine BitVec.eq_of_toNat_eq ?_
  rw [toNat_blockBase wide, offset, toNat_base_add wide aligned inside, Nat.add_sub_cancel]

theorem blockBase_aligned (wide : 12 ≤ w) (address : BitVec w) : (blockBase address).toNat % blockSize = 0 := by
  rw [toNat_blockBase wide]
  exact Nat.sub_mod_eq_zero_of_mod_eq (Nat.mod_mod _ _).symm

theorem base_add_offset (wide : 12 ≤ w) (address : BitVec w) :
    blockBase address + BitVec.ofNat w (blockOffset address) = address := by
  refine BitVec.eq_of_toNat_eq ?_
  rw [toNat_base_add wide (blockBase_aligned wide address) (blockOffset_lt address), toNat_blockBase wide,
    blockOffset_eq wide]
  exact Nat.sub_add_cancel (Nat.mod_le _ _)

/-- An address in a block, seen from a place of the block before it. -/
theorem toNat_sub_place (wide : 12 ≤ w) (a : BitVec w) {offset : Nat} (before : offset ≤ blockOffset a) :
    (a - (blockBase a + BitVec.ofNat w offset)).toNat = blockOffset a - offset := by
  have inside := blockOffset_lt a
  have small : blockSize ≤ 2 ^ w := Nat.pow_le_pow_right (by decide) wide
  have split : BitVec.ofNat w (blockOffset a) = BitVec.ofNat w offset + BitVec.ofNat w (blockOffset a - offset) := by
    rw [← BitVec.ofNat_add, Nat.add_sub_cancel' before]
  nth_rewrite 1 [← base_add_offset wide a]
  rw [split, ← BitVec.add_assoc, BitVec.add_comm, BitVec.add_sub_cancel, BitVec.toNat_ofNat, Nat.mod_eq_of_lt (by omega)]

/-- The addresses less than `count` behind a place in a block. -/
theorem sub_place_lt (wide : 12 ≤ w) (aligned : base.toNat % blockSize = 0) {offset count : Nat}
    (inside : offset + count ≤ blockSize) (a : BitVec w) :
    (a - (base + BitVec.ofNat w offset)).toNat < count ↔
      blockBase a = base ∧ offset ≤ blockOffset a ∧ blockOffset a < offset + count := by
  constructor
  · intro near
    have place : a = base + BitVec.ofNat w (offset + (a - (base + BitVec.ofNat w offset)).toNat) := by
      rw [BitVec.ofNat_add, BitVec.ofNat_toNat, BitVec.setWidth_eq, ← BitVec.add_assoc, BitVec.add_comm,
        BitVec.sub_add_cancel]
    generalize (a - (base + BitVec.ofNat w offset)).toNat = d at near place
    subst place
    rw [blockBase_add wide aligned (by omega), blockOffset_add wide aligned (by omega)]
    exact ⟨rfl, by omega, by omega⟩
  · rintro ⟨rfl, behind, below⟩
    rw [toNat_sub_place wide a behind]
    omega

theorem next_aligned (wide : 12 ≤ w) (aligned : base.toNat % blockSize = 0) :
    (base + BitVec.ofNat w blockSize).toNat % blockSize = 0 := by
  have multiple : blockSize ∣ 2 ^ w := Nat.pow_dvd_pow 2 wide
  rw [BitVec.toNat_add, BitVec.toNat_ofNat, Nat.add_mod_mod, Nat.mod_mod_of_dvd _ multiple, Nat.add_mod_right, aligned]

/-- An address, seen from a later place: one that lies before that place is seen around the end. -/
theorem toNat_sub_later (a place : BitVec w) {count : Nat} (bound : count < 2 ^ w) :
    (a - (place + BitVec.ofNat w count)).toNat =
      if count ≤ (a - place).toNat then (a - place).toNat - count else (a - place).toNat + 2 ^ w - count := by
  have inside := (a - place).isLt
  have split : a - (place + BitVec.ofNat w count) = (a - place) - BitVec.ofNat w count := by
    rw [BitVec.sub_sub]
  rw [split]
  generalize a - place = d at inside
  rw [BitVec.toNat_sub, BitVec.toNat_ofNat, Nat.mod_eq_of_lt bound]
  split
  · rw [show 2 ^ w - count + d.toNat = (d.toNat - count) + 2 ^ w by omega, Nat.add_mod_right, Nat.mod_eq_of_lt (by omega)]
  · rw [Nat.mod_eq_of_lt (by omega)]
    omega

end Address

section Write
variable {blocks : BlockMap w} {c : WriteCall w} {base : BitVec w} {offset data count : Nat}

theorem Aligned.insert (aligned : blocks.Aligned) (block : Block) (atBase : base.toNat % blockSize = 0) :
    Aligned (blocks.insert base block) := by
  intro p member
  rcases eq_or_ne p.1 base with same | other
  · rw [same]
    exact atBase
  · have found : (blocks.insert base block).get? p.1 = some p.2 := SortedMap.get?_eq_some.mpr member
    rw [SortedMap.get?_insert, if_neg other, SortedMap.get?_eq_some] at found
    exact aligned p found

theorem Aligned.modify (aligned : blocks.Aligned) (f : Block → Block) : Aligned (blocks.modify base f) := by
  intro p member
  have key : p.1 ∈ blocks.entries.map Prod.fst := by
    rw [← SortedMap.modify_keys blocks base f]
    exact List.mem_map_of_mem member
  obtain ⟨q, old, same⟩ := List.mem_map.mp key
  rw [← same]
  exact aligned q old

theorem Aligned.writePiece (aligned : blocks.Aligned) (atBase : base.toNat % blockSize = 0) :
    (blocks.writePiece c base offset data count).Aligned :=
  (aligned.insert _ atBase).modify _

theorem byteAt_writePiece (wide : 12 ≤ w) (atBase : base.toNat % blockSize = 0) (inside : offset + count ≤ blockSize)
    (a : BitVec w) :
    (blocks.writePiece c base offset data count).byteAt a =
      let i := (a - (base + BitVec.ofNat w offset)).toNat
      if i < count ∧ c.selects (data + i) = true then c.data (data + i) else blocks.byteAt a := by
  simp only [byteAt, BlockMap.writePiece, SortedMap.get?_modify, SortedMap.get?_insert]
  by_cases same : blockBase a = base
  · subst same
    obtain ⟨block, found, old⟩ : ∃ block : Block,
        (blocks.get? (blockBase a)).or (some fun _ => 0) = some block ∧ block (blockOffset a) = blocks.byteAt a := by
      rw [byteAt]
      cases blocks.get? (blockBase a) with
      | none => exact ⟨_, rfl, rfl⟩
      | some block => exact ⟨block, rfl, rfl⟩
    rw [byteAt] at old
    simp only [if_true, found, Option.map_some, Block.store, old]
    by_cases behind : offset ≤ blockOffset a
    · rw [toNat_sub_place wide a behind]
      have count_iff : blockOffset a - offset < count ↔ blockOffset a < offset + count := by omega
      simp only [behind, true_and, count_iff]
    · have outside : ¬ (a - (blockBase a + BitVec.ofNat w offset)).toNat < count := by
        rw [sub_place_lt wide atBase inside]
        exact fun here => behind here.2.1
      simp only [behind, outside, false_and, if_false]
  · have outside : ¬ (a - (base + BitVec.ofNat w offset)).toNat < count := by
      rw [sub_place_lt wide atBase inside]
      exact fun here => same here.1
    simp only [same, if_false, outside, false_and]

theorem Aligned.writeFrom (wide : 12 ≤ w) (aligned : blocks.Aligned) (atBase : base.toNat % blockSize = 0)
    (offset : Fin blockSize) (data size : Nat) : (writeFrom c blocks base offset data size).Aligned := by
  fun_induction BlockMap.writeFrom c blocks base offset data size with
  | case1 => exact aligned
  | case2 blocks base offset data size _ count ih => exact ih (aligned.writePiece atBase) (next_aligned wide atBase)

theorem byteAt_writeFrom (wide : 12 ≤ w) (atBase : base.toNat % blockSize = 0) (offset : Fin blockSize) (data : Nat)
    {size : Nat} (bound : size < 2 ^ w) (a : BitVec w) :
    (writeFrom c blocks base offset data size).byteAt a =
      let i := (a - (base + BitVec.ofNat w offset)).toNat
      if i < size ∧ c.selects (data + i) = true then c.data (data + i) else blocks.byteAt a := by
  fun_induction writeFrom c blocks base offset data size with
  | case1 => simp
  | case2 blocks base offset data size more count ih =>
    have inside := offset.isLt
    have within : offset.val + count ≤ blockSize := by omega
    rw [ih (next_aligned wide atBase) (by omega), byteAt_writePiece wide atBase within]
    by_cases last : size - count = 0
    · have whole : count = size := by omega
      simp only [whole, Nat.sub_self, Nat.not_lt_zero, false_and, if_false]
    · have next : base + BitVec.ofNat w blockSize + BitVec.ofNat w 0 =
          base + BitVec.ofNat w offset + BitVec.ofNat w count := by
        rw [BitVec.add_zero, BitVec.add_assoc, ← BitVec.ofNat_add, show offset.val + count = blockSize by omega]
      simp only [next, toNat_sub_later a _ (show count < 2 ^ w by omega)]
      generalize (a - (base + BitVec.ofNat w offset)).toNat = i
      by_cases behind : count ≤ i
      · have same : data + count + (i - count) = data + i := by omega
        have inRest : i - count < size - count ↔ i < size := by omega
        simp only [behind, if_true, same, inRest, Nat.not_lt.mpr behind, false_and, if_false]
      · have outside : ¬ i + 2 ^ w - count < size - count := by omega
        have inFirst : i < count ↔ i < size := by omega
        simp only [behind, if_false, outside, false_and, inFirst]

theorem Aligned.write (wide : 12 ≤ w) (aligned : blocks.Aligned) : (blocks.write c).Aligned :=
  aligned.writeFrom wide (blockBase_aligned wide c.address) _ _ _

/-- A call of `Write` puts its patch on top of the memory. -/
theorem byteAt_write (wide : 12 ≤ w) : (blocks.write c).byteAt = overlay [c.patch] blocks.byteAt := by
  funext a
  rw [overlay_singleton, BlockMap.write, byteAt_writeFrom wide (blockBase_aligned wide c.address) _ _ c.size.isLt,
    base_add_offset wide]
  simp only [Nat.zero_add, WriteCall.patch]
  split <;> rfl

end Write

/-- Calls of `Write` put their patches on top of the memory, one after another. -/
theorem byteAt_writes (wide : 12 ≤ w) (blocks : BlockMap w) (calls : List (WriteCall w)) :
    (calls.foldl write blocks).byteAt = overlay (calls.map WriteCall.patch) blocks.byteAt := by
  induction calls using List.reverseRecOn with
  | nil => rfl
  | append_singleton calls c ih =>
    rw [List.foldl_concat, byteAt_write wide, ih, List.map_append, List.map_singleton, overlay_snoc]

theorem after_append (calls : List (WriteCall w)) (c : WriteCall w) : after (calls ++ [c]) = (after calls).write c :=
  List.foldl_concat ..

theorem after_aligned (wide : 12 ≤ w) (calls : List (WriteCall w)) : (after calls).Aligned := by
  induction calls using List.reverseRecOn with
  | nil =>
    intro p member
    cases member
  | append_singleton calls c ih =>
    rw [after_append]
    exact ih.write wide

/-- The blocks hold the bytes of the flat memory. -/
theorem byteAt_after (wide : 12 ≤ w) (calls : List (WriteCall w)) : (after calls).byteAt = flatAfter calls :=
  byteAt_writes wide .empty calls

end BlockMap
end Mgsim.Memory
