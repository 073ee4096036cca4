import Mgsim.Manager.PageMap
import Mgsim.Mmu.MgtMsg

namespace Mgsim.Manager
open Mgsim.Mmu

/-- The offset of an address inside a page of the mapping. -/
def Mapping.offset (m : Mapping) (address : Word) : Word :=
  ((1 : Word) <<< (vaddrLso + ptIndexWidth * (m.pageSize : Nat))) - 1 &&& address

/-- A page of physical memory starts at a multiple of its size. -/
def Mapping.Aligned (m : Mapping) : Prop :=
  m.dst.toNat % 2 ^ (vaddrLso + ptIndexWidth * (m.pageSize : Nat)) = 0

instance (m : Mapping) : Decidable m.Aligned := inferInstanceAs (Decidable (_ = _))

/-- Why `handleMiss` sends nothing: the walk has failed, or the page is larger
than the largest one of a TLB. -/
inductive MissError
  | walk (result : Int)
  | assertion
  deriving DecidableEq

/-- The index that a miss request asks for. -/
def missIndex (msg : MgtMsg) : Word :=
  msg.part1 ||| (msg.get .missContextId).setWidth 64 <<< (vaddrWidth - vaddrLso)

/-- The permissions of a refill. The two TLBs have them in the same place. -/
def putPermissions (msg : MgtMsg) (entry : Pte) : MgtMsg :=
  if msg.get .tlbType = TlbType.itlb.value then msg.put .execute (BitVec.ofBool entry.x)
  else (msg.put .read (BitVec.ofBool entry.r)).put .write (BitVec.ofBool entry.w)

/-- `handleMiss` with the message that it sends back to the caller. It is built
in the memory of the request, whose other fields stay as they are. -/
def handleMiss (mem : Mem) (pt0 : Frame) (msg : MgtMsg) : Except MissError MgtMsg :=
  let walk := walkPageTable mem pt0 (missIndex msg) (vaddrWidth - vaddrLso + contextIdWidth)
  if walk.result < 0 then .error (.walk walk.result)
  else
    let msg := msg.put .type MgtMsgType.refill.value
    if walk.result = 0 then .ok (msg.put .present 0)
    else if walk.levels < tableOffset then .error .assertion
    else
      let msg := (msg.put .table (BitVec.ofNat 8 (walk.levels - tableOffset))).putAddr (walk.entry.addr.setWidth 64)
      .ok ((putPermissions msg walk.entry).put .present 1)

section Refill
variable {mem : Mem} {pt0 : Frame} {msg refill : MgtMsg} {m : Mapping}

theorem Walk.answer_eq_page {walk : Walk} {address : Word} {r w x : Bool} {level : Nat}
    (found : walk.answer = .page address r w x level) :
    walk.result = 1 ∧ getPointer walk.entry = address ∧ walk.entry.r = r ∧ walk.entry.w = w ∧ walk.levels = level := by
  unfold Walk.answer at found
  split at found
  · cases found
  · split at found
    · rename_i one
      cases found
      exact ⟨one, rfl, rfl, rfl, rfl⟩
    · cases found

theorem Walk.answer_eq_notPresent {walk : Walk} (absent : walk.answer = .notPresent) : walk.result = 0 := by
  by_contra other
  simp only [Walk.answer, if_neg other] at absent
  split at absent
  · cases absent
  · cases absent

theorem getPointer_addr {entry : Pte} {address : Word} (pointer : getPointer entry = address) :
    entry.addr.setWidth 64 <<< 12 = address := pointer

/-- The permissions leave the other fields of the refill alone. -/
theorem get_putPermissions {width : Nat} {entry : Pte} (f : Field width) (outside : f.pos + width ≤ 36) :
    (putPermissions msg entry).get f = msg.get f := by
  unfold putPermissions
  split
  · exact msg.get_put_of_disjoint _ f _ (Or.inl outside)
  · have left : f.pos + width ≤ (Field.write).pos := Nat.le_trans outside (by decide)
    rw [MgtMsg.get_put_of_disjoint _ _ f _ (Or.inl left), msg.get_put_of_disjoint _ f _ (Or.inl outside)]

@[simp] theorem part1_putPermissions {entry : Pte} : (putPermissions msg entry).part1 = msg.part1 := by
  unfold putPermissions
  split <;> simp

/-- The refill of a mapped page: its line, its table and its 4 KiB frame. -/
structure IsRefill (m : Mapping) (msg refill : MgtMsg) : Prop where
  lineIndex : refill.get .lineIndex = msg.get .lineIndex
  present : refill.get .present = 1
  table : (refill.get .table).toNat = 2 - (m.pageSize : Nat)
  address : refill.part1 <<< 12 = m.dst
  frame : refill.part1.toNat < 2 ^ 52

theorem IsRefill.whole (isRefill : IsRefill m msg refill) : refill.part1.toNat * 2 ^ vaddrLso < 2 ^ 64 := by
  have frame := isRefill.frame
  rw [vaddrLso]
  omega

theorem handleMiss_of_mapped (small : (m.pageSize : Nat) ≤ 2) (maps : lookup mem pt0 (missIndex msg) = m.answer)
    (handled : handleMiss mem pt0 msg = .ok refill) : IsRefill m msg refill := by
  obtain ⟨found, pointer, _, _, levels⟩ := Walk.answer_eq_page maps
  have enough : ¬ 6 - (m.pageSize : Nat) < tableOffset := by
    rw [tableOffset]
    omega
  simp only [handleMiss, found, levels, enough, if_false, if_neg (by decide : ¬ (1 : Int) < 0),
    if_neg (by decide : ¬ (1 : Int) = 0)] at handled
  cases handled
  have frame := (walkPageTable mem pt0 (missIndex msg) (vaddrWidth - vaddrLso + contextIdWidth)).entry.addr.isLt
  refine ⟨?_, MgtMsg.get_put_self _ _ _, ?_, ?_, ?_⟩
  · rw [MgtMsg.get_put_of_disjoint _ _ _ _ (by decide), get_putPermissions _ (by decide), MgtMsg.get_putAddr,
      MgtMsg.get_put_of_disjoint _ _ _ _ (by decide), MgtMsg.get_put_of_disjoint _ _ _ _ (by decide)]
  · rw [MgtMsg.get_put_of_disjoint _ _ _ _ (by decide), get_putPermissions _ (by decide), MgtMsg.get_putAddr,
      MgtMsg.get_put_self, BitVec.toNat_ofNat, tableOffset, Nat.mod_eq_of_lt (by omega)]
    omega
  · simp only [MgtMsg.part1_put, part1_putPermissions, MgtMsg.part1_putAddr]
    exact getPointer_addr pointer
  · simp only [MgtMsg.part1_put, part1_putPermissions, MgtMsg.part1_putAddr, BitVec.toNat_setWidth]
    exact lt_of_le_of_lt (Nat.mod_le _ _) frame

/-- A page that is not mapped is answered with `present` cleared. -/
theorem handleMiss_of_notPresent (unmapped : lookup mem pt0 (missIndex msg) = .notPresent)
    (handled : handleMiss mem pt0 msg = .ok refill) :
    refill.get .lineIndex = msg.get .lineIndex ∧ refill.get .present = 0 := by
  have zero := Walk.answer_eq_notPresent unmapped
  simp only [handleMiss, zero, lt_irrefl, if_false, if_true] at handled
  cases handled
  refine ⟨?_, MgtMsg.get_put_self _ _ _⟩
  rw [MgtMsg.get_put_of_disjoint _ _ _ _ (by decide), MgtMsg.get_put_of_disjoint _ _ _ _ (by decide)]

end Refill

end Mgsim.Manager
