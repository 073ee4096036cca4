import Mathlib.Algebra.Ring.Nat
import Mathlib.Data.List.Forall2
import Mgsim.Lib.Backpatch

namespace Mgsim.Lib
universe u

/-- A block of a table: its tag, the label of its payload, and its payload. -/
structure Block (L : Type u) (w : Nat) where
  tag : BitVec w
  label : Option L
  payload : List (Cell L (BitVec w))

/-- A block as it is found in a table of words. -/
structure Placed (w : Nat) where
  offset : Nat
  tag : BitVec w
  payload : List (BitVec w)
deriving DecidableEq

/-- The words of a block: its tag, the offset behind it, and its payload. -/
def Placed.words {w : Nat} (block : Placed w) : List (BitVec w) :=
  block.tag :: BitVec.ofNat w (block.offset + block.payload.length) :: block.payload

section BlockChain
variable {L : Type u} {w : Nat}

namespace Block

/-- The tag, the offset of the next block, and the payload. -/
def cells (start : Nat) (block : Block L w) : List (Cell L (BitVec w)) :=
  .word block.tag :: .word (BitVec.ofNat w (start + 2 + block.payload.length)) :: block.payload

def size (block : Block L w) : Nat := block.payload.length + 2

theorem size_eq (block : Block L w) : block.size = block.payload.length + 2 := rfl

@[simp] theorem length_cells (start : Nat) (block : Block L w) : (block.cells start).length = block.size := rfl

end Block

/-- The blocks one after another. -/
def chain : Nat → List (Block L w) → List (Cell L (BitVec w))
  | _, [] => []
  | start, block :: rest => block.cells start ++ chain (start + block.size) rest

theorem chain_cons (start : Nat) (block : Block L w) (rest : List (Block L w)) :
    chain start (block :: rest) = block.cells start ++ chain (start + block.size) rest := rfl

/-- Where the payloads are, and what is in them once the labels are known. -/
def place (value : L → BitVec w) : Nat → List (Block L w) → List (Placed w)
  | _, [] => []
  | start, block :: rest =>
    ⟨start + 2, block.tag, block.payload.map (Cell.fill value)⟩ :: place value (start + block.size) rest

theorem place_cons (value : L → BitVec w) (start : Nat) (block : Block L w) (rest : List (Block L w)) :
    place value start (block :: rest) =
      ⟨start + 2, block.tag, block.payload.map (Cell.fill value)⟩ :: place value (start + block.size) rest := rfl

/-- The offset of the payload that has a label. -/
def offsetOf [DecidableEq L] : Nat → List (Block L w) → L → Option Nat
  | _, [], _ => none
  | start, block :: rest, label =>
    (offsetOf (start + block.size) rest label).or (if block.label = some label then some (start + 2) else none)

theorem offsetOf_cons [DecidableEq L] (start : Nat) (block : Block L w) (rest : List (Block L w)) (label : L) :
    offsetOf start (block :: rest) label =
      (offsetOf (start + block.size) rest label).or (if block.label = some label then some (start + 2) else none) := rfl

/-- The blocks from an offset on: each gives the offset of the next one, and a zero tag ends the words. -/
def readBlocks (words : List (BitVec w)) : (fuel offset : Nat) → Option (List (Placed w))
  | 0, _ => none
  | fuel + 1, offset =>
    match words[offset]?, words[offset + 1]? with
    | none, _ => none
    | some tag, none => if tag = 0 then some [] else none
    | some tag, some next =>
      if tag = 0 ∨ next.toNat < offset + 2 then none
      else (readBlocks words fuel next.toNat).map
        (⟨offset + 2, tag, (words.drop (offset + 2)).take (next.toNat - (offset + 2))⟩ :: ·)

/-- The payload at an offset, if there is one and the tag is right. -/
def payloadAt (blocks : List (Placed w)) (tag : BitVec w) (offset : Nat) : Option (List (BitVec w)) :=
  (blocks.find? fun block => block.tag = tag && block.offset = offset).map Placed.payload

section Chain
variable {value : L → BitVec w} {start offset : Nat} {block : Block L w} {blocks more : List (Block L w)} {label : L}

theorem chain_append (start : Nat) (blocks more : List (Block L w)) :
    chain start (blocks ++ more) = chain start blocks ++ chain (start + (chain start blocks).length) more := by
  induction blocks generalizing start with
  | nil => rfl
  | cons block blocks ih =>
    rw [List.cons_append, chain_cons, chain_cons, ih, List.append_assoc, List.length_append, Block.length_cells, Nat.add_assoc]

theorem length_le_chain (start : Nat) (blocks : List (Block L w)) : 2 * blocks.length ≤ (chain start blocks).length := by
  induction blocks generalizing start with
  | nil => exact Nat.le_refl _
  | cons block blocks ih =>
    have rest := ih (start + block.size)
    rw [chain_cons, List.length_append, Block.length_cells, List.length_cons]
    simp only [Block.size_eq] at *
    omega

theorem payload_le_chain (member : block ∈ blocks) (start : Nat) : block.payload.length ≤ (chain start blocks).length := by
  induction blocks generalizing start with
  | nil => cases member
  | cons first blocks ih =>
    rw [chain_cons, List.length_append, Block.length_cells, Block.size_eq]
    rcases List.mem_cons.mp member with rfl | later
    · omega
    · exact Nat.le_trans (ih later _) (Nat.le_add_left _ _)

/-- The blocks that are read take all the words, up to a zero at the end. -/
theorem readBlocks_words {words : List (BitVec w)} {fuel offset : Nat} {blocks : List (Placed w)}
    (read : readBlocks words fuel offset = some blocks) : words.drop offset = blocks.flatMap Placed.words ++ [0] := by
  induction fuel generalizing offset blocks with
  | zero => cases read
  | succ fuel ih =>
    rw [readBlocks] at read
    split at read
    · cases read
    · rename_i tag first second
      split at read
      · rename_i zero
        cases read
        obtain ⟨bound, rfl⟩ := List.getElem?_eq_some_iff.mp first
        rw [List.drop_eq_getElem_cons bound, List.drop_eq_nil_of_le (List.getElem?_eq_none_iff.mp second), zero]
        rfl
      · cases read
    · rename_i tag next first second
      split at read
      · cases read
      · rename_i forward
        obtain ⟨rest, later, rfl⟩ := Option.map_eq_some_iff.mp read
        rw [not_or, Nat.not_lt] at forward
        obtain ⟨bound, rfl⟩ := List.getElem?_eq_some_iff.mp first
        obtain ⟨bound', rfl⟩ := List.getElem?_eq_some_iff.mp second
        have tail := ih later
        have inside : words[offset + 1].toNat ≤ words.length := by
          by_contra past
          rw [List.drop_eq_nil_of_le (Nat.le_of_not_le past)] at tail
          simp at tail
        have size : ((words.drop (offset + 2)).take (words[offset + 1].toNat - (offset + 2))).length =
            words[offset + 1].toNat - (offset + 2) := by
          rw [List.length_take, List.length_drop]
          omega
        have content : words.drop (offset + 2) = (words.drop (offset + 2)).take (words[offset + 1].toNat - (offset + 2)) ++
            words.drop words[offset + 1].toNat := by
          conv_lhs => rw [← List.take_append_drop (words[offset + 1].toNat - (offset + 2)) (words.drop (offset + 2))]
          rw [List.drop_drop, Nat.add_sub_cancel' forward.2]
        rw [List.drop_eq_getElem_cons bound, List.drop_eq_getElem_cons bound', List.flatMap_cons, Placed.words, size,
          Nat.add_sub_cancel' forward.2, BitVec.ofNat_toNat, BitVec.setWidth_eq, List.append_assoc, ← tail]
        exact congrArg (fun rest => words[offset] :: words[offset + 1] :: rest) content

/-- A block is read with its payload, and the reading goes on behind it. -/
theorem readBlocks_cons (before payload rest : List (BitVec w)) {tag : BitVec w} (fuel : Nat) (used : tag ≠ 0)
    (fits : before.length + 2 + payload.length < 2 ^ w) :
    readBlocks (before ++ tag :: BitVec.ofNat w (before.length + 2 + payload.length) :: (payload ++ rest)) (fuel + 1)
        before.length =
      (readBlocks (before ++ tag :: BitVec.ofNat w (before.length + 2 + payload.length) :: (payload ++ rest)) fuel
        (before.length + 2 + payload.length)).map (⟨before.length + 2, tag, payload⟩ :: ·) := by
  have next : (BitVec.ofNat w (before.length + 2 + payload.length)).toNat = before.length + 2 + payload.length := by
    rw [BitVec.toNat_ofNat, Nat.mod_eq_of_lt fits]
  generalize atNext : BitVec.ofNat w (before.length + 2 + payload.length) = word at next ⊢
  rw [readBlocks, List.getElem?_append_right (Nat.le_refl _), List.getElem?_append_right (Nat.le_add_right _ 1), Nat.sub_self,
    Nat.add_sub_cancel_left, List.getElem?_cons_zero, List.getElem?_cons_succ, List.getElem?_cons_zero]
  have content : ((before ++ tag :: word :: (payload ++ rest)).drop (before.length + 2)).take
      (before.length + 2 + payload.length - (before.length + 2)) = payload := by
    rw [List.drop_append, List.drop_eq_nil_of_le (Nat.le_add_right _ _), List.nil_append, Nat.add_sub_cancel_left,
      Nat.add_sub_cancel_left]
    exact List.take_left
  simp only [next, content, used, false_or, if_neg (Nat.not_lt.mpr (Nat.le_add_right (before.length + 2) payload.length))]

/-- A chain that is filled in is read back, and it takes all the words up to the last one. -/
theorem readBlocks_chain (value : L → BitVec w) (before : List (BitVec w)) {fuel : Nat} (enough : blocks.length < fuel)
    (tags : ∀ block ∈ blocks, block.tag ≠ 0) (fits : before.length + (chain before.length blocks).length < 2 ^ w) :
    readBlocks (before ++ (chain before.length blocks).map (Cell.fill value) ++ [0]) fuel before.length =
      some (place value before.length blocks) := by
  induction blocks generalizing before fuel with
  | nil =>
    obtain ⟨fuel, rfl⟩ := Nat.exists_eq_succ_of_ne_zero (Nat.ne_of_gt (Nat.zero_lt_of_lt enough))
    simp [readBlocks, chain, place]
  | cons block blocks ih =>
    obtain ⟨fuel, rfl⟩ := Nat.exists_eq_succ_of_ne_zero (Nat.ne_of_gt (Nat.zero_lt_of_lt enough))
    rw [chain_cons, List.length_append, Block.length_cells] at fits
    have length : (before ++ (block.cells before.length).map (Cell.fill value)).length = before.length + block.size := by
      rw [List.length_append, List.length_map, Block.length_cells]
    have rest := ih (before ++ (block.cells before.length).map (Cell.fill value)) (Nat.lt_of_succ_lt_succ enough)
      (fun other member => tags other (List.mem_cons_of_mem _ member)) (by rw [length]; omega)
    rw [length] at rest
    have first := readBlocks_cons before (block.payload.map (Cell.fill value))
      ((chain (before.length + block.size) blocks).map (Cell.fill value) ++ [0]) fuel
      (tags block List.mem_cons_self) (by rw [List.length_map]; rw [Block.size_eq] at fits; omega)
    rw [List.length_map] at first
    simp only [Block.cells, List.map_cons, Cell.fill, List.append_assoc, List.cons_append] at rest
    rw [show before.length + block.size = before.length + 2 + block.payload.length by rw [Block.size_eq]; omega] at rest first
    rw [rest] at first
    rw [chain_cons, place_cons, ← show before.length + 2 + block.payload.length = before.length + block.size by rw [Block.size_eq]; omega]
    simpa only [Block.cells, List.map_append, List.map_cons, Cell.fill, List.append_assoc, List.cons_append,
      Option.map_some] using first

end Chain

section Offsets
variable [DecidableEq L] {value : L → BitVec w} {start offset : Nat} {block : Block L w} {blocks : List (Block L w)}
  {label other : L}

theorem offsetOf_bounds (found : offsetOf start blocks label = some offset) :
    start + 2 ≤ offset ∧ offset ≤ start + (chain start blocks).length := by
  induction blocks generalizing start with
  | nil => cases found
  | cons block blocks ih =>
    have size : (chain start (block :: blocks)).length =
        block.payload.length + 2 + (chain (start + block.size) blocks).length := by
      rw [chain_cons, List.length_append, Block.length_cells, Block.size_eq]
    rw [offsetOf_cons, Option.or_eq_some_iff] at found
    rcases found with later | ⟨_, here⟩
    · have bounds := ih later
      rw [Block.size_eq] at bounds
      rw [Block.size_eq] at size
      omega
    · split at here
      · cases here
        omega
      · cases here

theorem offsetOf_eq_none (absent : label ∉ blocks.filterMap Block.label) : offsetOf start blocks label = none := by
  induction blocks generalizing start with
  | nil => rfl
  | cons block blocks ih =>
    have rest : label ∉ blocks.filterMap Block.label := by
      intro member
      obtain ⟨found, inside, named⟩ := List.mem_filterMap.mp member
      exact absent (List.mem_filterMap.mpr ⟨found, List.mem_cons_of_mem _ inside, named⟩)
    have here : block.label ≠ some label := fun named =>
      absent (List.mem_filterMap.mpr ⟨block, List.mem_cons_self, named⟩)
    rw [offsetOf_cons, ih rest, if_neg here, Option.or_none]

/-- The label of a block that is added stands for its payload, and the other labels are as before. -/
theorem offsetOf_append (start : Nat) (blocks : List (Block L w)) (block : Block L w) (label : L) :
    offsetOf start (blocks ++ [block]) label =
      if block.label = some label then some (start + (chain start blocks).length + 2)
      else offsetOf start blocks label := by
  induction blocks generalizing start with
  | nil =>
    exact Option.none_or
  | cons first blocks ih =>
    rw [List.cons_append, offsetOf_cons, ih, offsetOf_cons, chain_cons, List.length_append, Block.length_cells, ← Nat.add_assoc]
    split
    · rfl
    · rfl

/-- Different labels stand for different payloads. -/
theorem offsetOf_injective (found : offsetOf start blocks label = some offset)
    (found' : offsetOf start blocks other = some offset) : label = other := by
  induction blocks generalizing start with
  | nil => cases found
  | cons block blocks ih =>
    rw [offsetOf_cons, Option.or_eq_some_iff] at found found'
    have first : ∀ {name : L}, (if block.label = some name then some (start + 2) else none) = some offset →
        block.label = some name ∧ offset = start + 2 := by
      intro name here
      split at here
      · rename_i named
        exact ⟨named, (Option.some.inj here).symm⟩
      · cases here
    rcases found with later | ⟨_, here⟩ <;> rcases found' with later' | ⟨_, here'⟩
    · exact ih later later'
    · have bound := (offsetOf_bounds later).1
      rw [(first here').2, Block.size_eq] at bound
      omega
    · have bound := (offsetOf_bounds later').1
      rw [(first here).2, Block.size_eq] at bound
      omega
    · exact Option.some.inj ((first here).1.symm.trans (first here').1)

/-- A label leads to the payload of the block it is the label of. -/
theorem payloadAt_place (distinct : (blocks.filterMap Block.label).Nodup) (member : block ∈ blocks)
    (named : block.label = some label) (value : L → BitVec w) (start : Nat) :
    ∃ offset, offsetOf start blocks label = some offset ∧
      payloadAt (place value start blocks) block.tag offset = some (block.payload.map (Cell.fill value)) := by
  induction blocks generalizing start with
  | nil => cases member
  | cons first blocks ih =>
    rcases List.mem_cons.mp member with rfl | later
    · rw [List.filterMap_cons_some named, List.nodup_cons] at distinct
      refine ⟨start + 2, ?_, ?_⟩
      · rw [offsetOf_cons, offsetOf_eq_none distinct.1, if_pos named, Option.none_or]
      · rw [payloadAt, place_cons, List.find?_cons_of_pos (by simp), Option.map_some]
    · have rest : (blocks.filterMap Block.label).Nodup :=
        distinct.sublist ((List.sublist_cons_self first blocks).filterMap Block.label)
      obtain ⟨offset, found, content⟩ := ih rest later (start + first.size)
      have bound := (offsetOf_bounds found).1
      refine ⟨offset, by rw [offsetOf_cons, found, Option.some_or], ?_⟩
      rw [payloadAt, place_cons, List.find?_cons_of_neg, ← payloadAt, content]
      rw [Block.size_eq] at bound
      simp only [Bool.and_eq_true, decide_eq_true_eq, not_and]
      intro _
      omega

/-- Each block is found in its place, with its payload filled in and at the offset of its label. -/
theorem place_forall₂ (distinct : (blocks.filterMap Block.label).Nodup) (value : L → BitVec w) (start : Nat) :
    List.Forall₂ (fun block placed => placed.tag = block.tag ∧ placed.payload = block.payload.map (Cell.fill value) ∧
      ∀ label, block.label = some label → offsetOf start blocks label = some placed.offset)
      blocks (place value start blocks) := by
  induction blocks generalizing start with
  | nil => exact .nil
  | cons block blocks ih =>
    refine .cons ⟨rfl, rfl, fun label named => ?_⟩ ?_
    · rw [List.filterMap_cons_some named, List.nodup_cons] at distinct
      rw [offsetOf_cons, offsetOf_eq_none distinct.1, if_pos named, Option.none_or]
    · have rest : (blocks.filterMap Block.label).Nodup :=
        distinct.sublist ((List.sublist_cons_self block blocks).filterMap Block.label)
      refine (ih rest (start + block.size)).imp fun other placed here => ⟨here.1, here.2.1, fun label named => ?_⟩
      rw [offsetOf_cons, here.2.2 label named, Option.some_or]

end Offsets
end BlockChain
end Mgsim.Lib
