import Mgsim.Memory.Blocks

namespace Mgsim.Memory
open Mgsim.Lib
variable {w : Nat}

namespace BlockMap

/-- The blocks from a base address on, in their order. -/
structure Ahead (blocks : BlockMap w) (base : BitVec w) (entries : List (BitVec w × Block)) : Prop where
  sorted : entries.Pairwise fun p q => p.1 < q.1
  members : ∀ p, p ∈ entries ↔ p ∈ blocks.entries ∧ base ≤ p.1

theorem ahead_atLeast (blocks : BlockMap w) (base : BitVec w) : blocks.Ahead base (blocks.atLeast base) where
  sorted := blocks.sorted.sublist (List.dropWhile_sublist _)
  members p := by
    constructor
    · exact fun member => ⟨SortedMap.mem_of_mem_atLeast member, SortedMap.le_of_mem_atLeast member⟩
    · rintro ⟨member, above⟩
      refine (SortedMap.mem_below_or_atLeast member).resolve_left fun below => ?_
      exact absurd (SortedMap.lt_of_mem_below below) (not_lt_of_ge above)

section Ahead
variable {blocks : BlockMap w} {base : BitVec w} {p : BitVec w × Block} {entries later : List (BitVec w × Block)}

/-- The next block after an aligned base starts a block size behind it, or later. -/
theorem next_le_iff (aligned : blocks.Aligned) (atBase : base.toNat % blockSize = 0)
    (room : base.toNat + blockSize < 2 ^ w) (member : p ∈ blocks.entries) :
    base + BitVec.ofNat w blockSize ≤ p.1 ↔ base < p.1 := by
  have key := aligned p member
  rw [BitVec.lt_def, BitVec.le_def, BitVec.toNat_add, BitVec.toNat_ofNat,
    Nat.mod_eq_of_lt (by omega : blockSize < 2 ^ w), Nat.mod_eq_of_lt room]
  simp only [blockSize] at *
  omega

theorem Ahead.skip (ahead : blocks.Ahead base (p :: later)) (aligned : blocks.Aligned)
    (atBase : base.toNat % blockSize = 0) (room : base.toNat + blockSize < 2 ^ w) (above : base < p.1) :
    blocks.Ahead (base + BitVec.ofNat w blockSize) (p :: later) where
  sorted := ahead.sorted
  members q := by
    constructor
    · intro member
      have known := ((ahead.members q).mp member).1
      refine ⟨known, (next_le_iff aligned atBase room known).mpr ?_⟩
      rcases List.mem_cons.mp member with rfl | behind
      · exact above
      · exact above.trans ((List.pairwise_cons.mp ahead.sorted).1 q behind)
    · rintro ⟨known, behind⟩
      exact (ahead.members q).mpr ⟨known, ((next_le_iff aligned atBase room known).mp behind).le⟩

theorem Ahead.rest (ahead : blocks.Ahead base (p :: later)) (aligned : blocks.Aligned)
    (atBase : base.toNat % blockSize = 0) (room : base.toNat + blockSize < 2 ^ w) (here : p.1 = base) :
    blocks.Ahead (base + BitVec.ofNat w blockSize) later where
  sorted := (List.pairwise_cons.mp ahead.sorted).2
  members q := by
    have order := (List.pairwise_cons.mp ahead.sorted).1
    constructor
    · intro member
      have known := ((ahead.members q).mp (List.mem_cons_of_mem _ member)).1
      exact ⟨known, (next_le_iff aligned atBase room known).mpr (here ▸ order q member)⟩
    · rintro ⟨known, behind⟩
      have above := (next_le_iff aligned atBase room known).mp behind
      refine (List.mem_cons.mp ((ahead.members q).mpr ⟨known, above.le⟩)).resolve_left fun same => ?_
      rw [same, here] at above
      exact lt_irrefl _ above

/-- The bytes of the first block. -/
theorem Ahead.byteAt_head (ahead : blocks.Ahead base (p :: later)) (wide : 12 ≤ w) (atBase : base.toNat % blockSize = 0)
    (here : p.1 = base) {x : Nat} (inside : x < blockSize) : blocks.byteAt (base + BitVec.ofNat w x) = p.2 x := by
  have known := ((ahead.members p).mp List.mem_cons_self).1
  have found : blocks.get? base = some p.2 := by
    rw [SortedMap.get?_eq_some, ← here]
    exact known
  rw [byteAt, blockBase_add wide atBase inside, blockOffset_add wide atBase inside, found]

/-- Where no block starts at a base address, its bytes are zero. -/
theorem Ahead.byteAt_gap (ahead : blocks.Ahead base entries) (wide : 12 ≤ w) (atBase : base.toNat % blockSize = 0)
    (gap : ∀ q ∈ entries, q.1 ≠ base) {x : Nat} (inside : x < blockSize) :
    blocks.byteAt (base + BitVec.ofNat w x) = 0 := by
  have missing : blocks.get? base = none := by
    rw [SortedMap.get?_eq_none]
    exact fun q known same => gap q ((ahead.members q).mpr ⟨known, same.ge⟩) same
  rw [byteAt, blockBase_add wide atBase inside, missing]

theorem Ahead.gap_head (ahead : blocks.Ahead base (p :: later)) (above : base < p.1) : ∀ q ∈ p :: later, q.1 ≠ base := by
  intro q member
  rcases List.mem_cons.mp member with rfl | behind
  · exact above.ne'
  · exact (above.trans ((List.pairwise_cons.mp ahead.sorted).1 q behind)).ne'

end Ahead

/-- The bytes of a memory from a place on, in two parts. -/
theorem bytes_split (f : Nat → BitVec 8) {count size : Nat} (part : count ≤ size) :
    (List.range size).map f = (List.range count).map f ++ (List.range (size - count)).map fun i => f (count + i) := by
  rw [← Nat.add_sub_cancel' part, List.range_add, List.map_append, List.map_map, Nat.add_sub_cancel_left]
  rfl

theorem zeros_eq {f : Nat → BitVec 8} {count : Nat} (zero : ∀ i < count, f i = 0) :
    (List.range count).map f = List.replicate count 0 := by
  rw [List.eq_replicate_iff]
  refine ⟨by rw [List.length_map, List.length_range], fun b member => ?_⟩
  obtain ⟨i, below, rfl⟩ := List.mem_map.mp member
  exact zero i (List.mem_range.mp below)

section Read
variable {blocks : BlockMap w} {base : BitVec w} {entries : List (BitVec w × Block)} {offset size : Nat}

/-- The read of what is behind a piece, where that is not all. -/
theorem readFrom_next (inside : offset = 0 ∨ offset + size ≤ blockSize) (room : base.toNat + offset + size ≤ 2 ^ w)
    (ih : base.toNat + blockSize < 2 ^ w →
      readFrom entries (base + BitVec.ofNat w blockSize) 0 (size - min size blockSize) =
        some ((List.range (size - min size blockSize)).map fun i =>
          blocks.byteAt (base + BitVec.ofNat w blockSize + BitVec.ofNat w (0 + i)))) :
    readFrom entries (base + BitVec.ofNat w blockSize) 0 (size - min size blockSize) =
      some ((List.range (size - min size blockSize)).map fun i =>
        blocks.byteAt (base + BitVec.ofNat w (offset + (min size blockSize + i)))) := by
  by_cases last : size - min size blockSize = 0
  · rw [last, readFrom.eq_def, if_pos rfl]
    rfl
  · have start : offset = 0 := inside.resolve_right (by omega)
    have full : min size blockSize = blockSize := by omega
    rw [ih (by omega)]
    simp only [start, full, Nat.zero_add, BitVec.ofNat_add, BitVec.add_assoc]

/-- There is room for what is behind a piece. -/
theorem next_room (room : base.toNat + offset + size ≤ 2 ^ w)
    (more : base.toNat + blockSize < 2 ^ w) :
    (base + BitVec.ofNat w blockSize).toNat + 0 + (size - min size blockSize) ≤ 2 ^ w := by
  rw [BitVec.toNat_add, BitVec.toNat_ofNat, Nat.mod_eq_of_lt (by omega : blockSize < 2 ^ w), Nat.mod_eq_of_lt more]
  omega

theorem readFrom_eq (wide : 12 ≤ w) (aligned : blocks.Aligned) (ahead : blocks.Ahead base entries)
    (atBase : base.toNat % blockSize = 0) (inside : offset = 0 ∨ offset + size ≤ blockSize)
    (room : base.toNat + offset + size ≤ 2 ^ w) :
    readFrom entries base offset size =
      some ((List.range size).map fun i => blocks.byteAt (base + BitVec.ofNat w (offset + i))) := by
  fun_induction readFrom entries base offset size with
  | case1 => rfl
  | case2 base offset size more =>
    rw [zeros_eq fun i below => ?_]
    have place : (base + BitVec.ofNat w (offset + i)).toNat = base.toNat + (offset + i) := by
      rw [BitVec.toNat_add, BitVec.toNat_ofNat, Nat.mod_eq_of_lt (by omega : offset + i < 2 ^ w),
        Nat.mod_eq_of_lt (by omega)]
    have missing : blocks.get? (blockBase (base + BitVec.ofNat w (offset + i))) = none := by
      refine SortedMap.get?_eq_none.mpr fun q known same => ?_
      have above : base ≤ q.1 := by
        rw [same, BitVec.le_def, toNat_blockBase wide, place]
        simp only [blockSize] at *
        omega
      cases (ahead.members q).mpr ⟨known, above⟩
    rw [byteAt, missing]
  | case3 base offset size more p rest count above ih =>
    have part : count ≤ size := Nat.min_le_left _ _
    have within : offset + count ≤ blockSize := by omega
    have zero : ∀ i < count, blocks.byteAt (base + BitVec.ofNat w (offset + i)) = 0 := fun i below =>
      ahead.byteAt_gap wide atBase (ahead.gap_head above) (by omega)
    rw [readFrom_next inside room fun more => ih (ahead.skip aligned atBase more above) (next_aligned wide atBase)
      (Or.inl rfl) (next_room room more), bytes_split _ part, zeros_eq zero, Option.map_some]
  | case4 base offset size more p rest count above ih =>
    have part : count ≤ size := Nat.min_le_left _ _
    have within : offset + count ≤ blockSize := by omega
    have here : p.1 = base := le_antisymm (not_lt.mp above) ((ahead.members p).mp List.mem_cons_self).2
    have stored : p.2.copy offset count =
        some ((List.range count).map fun i => blocks.byteAt (base + BitVec.ofNat w (offset + i))) := by
      rw [Block.copy, if_pos within]
      refine congrArg some (List.map_congr_left fun i member => ?_)
      have below := List.mem_range.mp member
      exact (ahead.byteAt_head wide atBase here (by omega)).symm
    rw [stored, Option.bind_some, readFrom_next inside room fun more => ih (ahead.rest aligned atBase more here)
      (next_aligned wide atBase) (Or.inl rfl) (next_room room more), bytes_split _ part, Option.map_some]

end Read

/-- A call that writes the byte 1 at an address. -/
def writeOne (key : BitVec w) : WriteCall w := ⟨key, fun _ => 1, none, 1⟩

section One
variable {key base : BitVec w} {offset size : Nat}

theorem writeOne_size (wide : 12 ≤ w) (key : BitVec w) : (writeOne key).size.toNat = 1 := by
  have power : 1 < 2 ^ w := Nat.one_lt_two_pow (by omega)
  simp [writeOne, Nat.mod_eq_of_lt power]

theorem flatAfter_writeOne (wide : 12 ≤ w) (key : BitVec w) : flatAfter [writeOne key] key = 1 := by
  have one : (writeOne key).patch key = some 1 := by
    rw [WriteCall.patch, writeOne_size wide]
    simp [writeOne, WriteCall.selects]
  rw [flatAfter, List.map_singleton, overlay_singleton, one]
  rfl

theorem keys_writeOne (wide : 12 ≤ w) (key : BitVec w) :
    (after [writeOne key]).entries.map Prod.fst = [blockBase key] := by
  have inside := blockOffset_lt (writeOne key).address
  have piece : 1 - min 1 (blockSize - blockOffset (writeOne key).address) = 0 := by omega
  rw [after, List.foldl_cons, List.foldl_nil, write, writeOne_size wide, writeFrom, if_neg (by decide)]
  simp only []
  rw [writeFrom, if_pos piece, writePiece, SortedMap.modify_keys]
  rfl

/-- With one block ahead of it or none, a read finds zeros up to the length of a block. -/
theorem readFrom_ahead {entries : List (BitVec w × Block)} {bytes : List (BitVec 8)} {i : Nat}
    (above : ∀ p ∈ entries, base < p.1) (near : i < size) (ahead : i < blockSize ∨ entries = [])
    (result : readFrom entries base offset size = some bytes) : bytes[i]? = some 0 := by
  rw [readFrom.eq_def, if_neg (by omega)] at result
  cases entries with
  | nil =>
    cases result
    rw [List.getElem?_replicate, if_pos near]
  | cons p later =>
    have first : i < min size blockSize := by
      have short : i < blockSize := ahead.resolve_right (List.cons_ne_nil _ _)
      omega
    have gap : p.1 > base := above p List.mem_cons_self
    simp only [gap, if_true] at result
    obtain ⟨rest, _, rfl⟩ := Option.map_eq_some_iff.mp result
    rw [List.getElem?_append_left (by rwa [List.length_replicate]), List.getElem?_replicate, if_pos first]

/-- The byte 1 at the start of another block is not read. -/
theorem read_ne_of_writeOne (wide : 12 ≤ w) {address size key : BitVec w} {i : Nat} (start : blockBase key = key)
    (other : blockBase address ≠ key) (near : i < size.toNat) (ahead : i < blockSize ∨ key < blockBase address)
    (place : address + BitVec.ofNat w i = key) :
    (after [writeOne key]).read address size ≠ some (flatRead (flatAfter [writeOne key]) address size) := by
  intro result
  have keys : ∀ p ∈ (after [writeOne key]).entries, p.1 = key := by
    intro p member
    have listed := List.mem_map_of_mem (f := Prod.fst) member
    rw [keys_writeOne wide, start] at listed
    exact List.mem_singleton.mp listed
  have above : ∀ p ∈ (after [writeOne key]).atLeast (blockBase address), blockBase address < p.1 := by
    intro p member
    refine lt_of_le_of_ne (SortedMap.le_of_mem_atLeast member) fun same => other ?_
    exact same.trans (keys p (SortedMap.mem_of_mem_atLeast member))
  have none : i < blockSize ∨ (after [writeOne key]).atLeast (blockBase address) = [] := by
    refine ahead.imp_right fun below => List.eq_nil_iff_forall_not_mem.mpr fun p member => ?_
    have lower := above p member
    rw [keys p (SortedMap.mem_of_mem_atLeast member)] at lower
    exact lt_asymm lower below
  have read := readFrom_ahead above near none result
  rw [flatRead, List.getElem?_map, List.getElem?_range near, Option.map_some, place, flatAfter_writeOne wide] at read
  exact absurd read (by decide)

end One

/-- A read that starts a block or stays in one, and does not go around the end of the addresses. -/
def InBlocks (address size : BitVec w) : Prop :=
  (blockOffset address = 0 ∨ blockOffset address + size.toNat ≤ blockSize) ∧ address.toNat + size.toNat ≤ 2 ^ w

instance (address size : BitVec w) : Decidable (InBlocks address size) :=
  inferInstanceAs (Decidable (_ ∧ _))

theorem read_after (wide : 12 ≤ w) {address size : BitVec w} (inBlocks : InBlocks address size)
    (calls : List (WriteCall w)) :
    (after calls).read address size = some (flatRead (flatAfter calls) address size) := by
  have aligned := blockBase_aligned wide address
  have room : (blockBase address).toNat + blockOffset address + size.toNat ≤ 2 ^ w := by
    rw [toNat_blockBase wide, blockOffset_eq wide, Nat.sub_add_cancel (Nat.mod_le _ _)]
    exact inBlocks.2
  rw [BlockMap.read, readFrom_eq wide (after_aligned wide calls) (ahead_atLeast _ _) aligned inBlocks.1 room, flatRead,
    byteAt_after wide]
  simp only [BitVec.ofNat_add, ← BitVec.add_assoc, base_add_offset wide]

/-- The reads of an address and a size are those of a flat memory, whatever was written
before, exactly where the read starts a block or stays in one, and does not go around the end. -/
theorem read_after_iff (wide : 12 < w) (address size : BitVec w) :
    (∀ calls : List (WriteCall w),
      (after calls).read address size = some (flatRead (flatAfter calls) address size)) ↔ InBlocks address size := by
  refine ⟨fun flat => ?_, fun inBlocks => read_after wide.le inBlocks⟩
  by_contra broken
  have inside := blockOffset_lt address
  have aligned := blockBase_aligned wide.le address
  have size_lt := size.isLt
  have power : 2 ^ 13 ≤ 2 ^ w := Nat.pow_le_pow_right (by decide) wide
  by_cases whole : blockOffset address = 0 ∨ blockOffset address + size.toNat ≤ blockSize
  · -- The read goes around the end of the addresses, and a block starts at address zero.
    have around : 2 ^ w < address.toNat + size.toNat := not_le.mp fun room => broken ⟨whole, room⟩
    have positive : 0#w < blockBase address := by
      rw [BitVec.lt_def, BitVec.toNat_zero]
      refine Nat.pos_of_ne_zero fun zero => ?_
      have room := base_add_lt wide.le aligned
      rw [toNat_blockBase wide.le] at zero
      rw [blockOffset_eq wide.le] at whole inside
      omega
    refine read_ne_of_writeOne wide.le (i := 2 ^ w - address.toNat) ?_ positive.ne' (by omega) (Or.inr positive) ?_
      (flat [writeOne 0#w])
    · exact BitVec.zero_and
    · refine BitVec.eq_of_toNat_eq ?_
      rw [BitVec.toNat_add, BitVec.toNat_ofNat, Nat.add_mod_mod, Nat.add_sub_cancel' address.isLt.le, Nat.mod_self,
        BitVec.toNat_zero]
  · -- The next block starts in the middle of the first piece.
    have split : blockOffset address + (blockSize - blockOffset address) = blockSize := Nat.add_sub_cancel' inside.le
    refine read_ne_of_writeOne wide.le (i := blockSize - blockOffset address) ?_ (fun same => ?_) (by omega)
      (Or.inl (by omega)) ?_ (flat [writeOne (blockBase address + BitVec.ofNat w blockSize)])
    · have start := blockBase_add (x := 0) wide.le (next_aligned wide.le aligned) (by decide)
      rwa [BitVec.add_zero] at start
    · have zero : BitVec.ofNat w blockSize = 0#w := BitVec.self_eq_add_right.mp same
      have value := congrArg BitVec.toNat zero
      rw [BitVec.toNat_ofNat, Nat.mod_eq_of_lt (by simp only [blockSize]; omega)] at value
      exact absurd value (by simp [blockSize])
    · nth_rewrite 1 [← base_add_offset wide.le address]
      rw [BitVec.add_assoc, ← BitVec.ofNat_add, split]

/-- A read of two bytes from the end of a block on misses the first byte of the next block. -/
theorem read_misses_next_block :
    flatRead (flatAfter [writeOne 4096#64]) 4095#64 2#64 = [0, 1] ∧
      (after [writeOne 4096#64]).read 4095#64 2#64 = some [0, 0] := by
  refine ⟨by decide, ?_⟩
  have keys := keys_writeOne (by decide) 4096#64
  obtain ⟨⟨key, block⟩, shape, rfl⟩ := List.map_eq_singleton_iff.mp keys
  have base : blockBase 4095#64 = 0 := by decide
  have above : blockBase 4096#64 > 0 := by decide
  have next : ¬ blockBase 4096#64 < 0 := by decide
  have size : (2#64).toNat = 2 := rfl
  have first : min 2 blockSize = 2 := by decide
  rw [BlockMap.read, SortedMap.atLeast, shape, base, size, readFrom.eq_def, if_neg (by decide)]
  simp only [List.dropWhile_cons, next, decide_false, Bool.false_eq_true, if_false, above, if_true, first, Nat.sub_self]
  rw [readFrom.eq_def, if_pos rfl]
  rfl

theorem read_after_iff_page : (∀ calls : List (WriteCall 64),
    (after calls).read 8192#64 8192#64 = some (flatRead (flatAfter calls) 8192#64 8192#64)) ∧
    ¬ InBlocks 4095#64 2#64 :=
  ⟨(read_after_iff (by decide) 8192#64 8192#64).mpr (by decide), by decide⟩

end BlockMap
end Mgsim.Memory
