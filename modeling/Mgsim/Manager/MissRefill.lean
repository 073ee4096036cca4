import Mgsim.Manager.HandleMiss
import Mgsim.Mmu.TlbUnique
import Mgsim.Lib.Checked

namespace Mgsim.Manager
open Mgsim.Lib Mgsim.Mmu

/-- A refill for the pending line `i` finds its table and this line. Without a page
it is delivered as a fault of the line, which then is not pending any more. -/
structure Serves (tlb : Tlb) (i : Nat) (refill : MgtMsg) : Prop where
  table : (refill.get .table).toNat < tlb.numTables
  line : (refill.get .lineIndex).toNat = i
  fault : refill.get .present = 0 → ∃ after,
    tlb.onStoreMsg refill = .ok (some (⟨((tlb.tables 0).lines i).dLineRef, none, false⟩, after)) ∧
      ¬ (after.tables 0).IsPending i

/-- The page of a miss is mapped at a level for which the TLB has a table. -/
def MappedFor (mem : Mem) (pt0 : Frame) (msg : MgtMsg) (tlb : Tlb) : Prop :=
  ∃ address r w x level, lookup mem pt0 (missIndex msg) = .page address r w x level ∧ level - tableOffset < tlb.numTables

section
variable {mem : Mem} {pt0 : Frame} {msg refill : MgtMsg} {tlb waiting : Tlb} {contextId : BitVec 16} {vAddr : Addr}
  {i : Nat}

/-- A walk goes through one level for every section of the index at most. -/
theorem walkPageTableFrom_levels (addr : Word) (remaining : Nat) : ∀ (len : Nat) (t : Frame) (entry : Pte) (levels : Nat),
    (walkPageTableFrom mem addr remaining len t entry levels).levels ≤ levels + remaining := by
  induction remaining with
  | zero =>
    intro len t entry levels
    exact Nat.le_refl _
  | succ remaining ih =>
    intro len t entry levels
    rw [walkPageTableFrom]
    split
    · exact Nat.add_le_add_left (Nat.le_add_left 1 remaining) levels
    split
    · exact Nat.add_le_add_left (Nat.le_add_left 1 remaining) levels
    · have bound := ih (len - ptIndexWidth) (frameOf (getPointer (mem t (getIndexSection (addr >>> (len - ptIndexWidth)) 0))))
        (mem t (getIndexSection (addr >>> (len - ptIndexWidth)) 0)) (levels + 1)
      omega

theorem level_le_six {index address : Word} {r w x : Bool} {level : Nat}
    (found : lookup mem pt0 index = .page address r w x level) : level ≤ 6 := by
  obtain ⟨_, _, _, _, same⟩ := Walk.answer_eq_page found
  have bound := @walkPageTableFrom_levels mem index ((vaddrWidth - vaddrLso + contextIdWidth) / ptIndexWidth)
    (vaddrWidth - vaddrLso + contextIdWidth) pt0 default 0
  rw [← same]
  exact bound

theorem missMsg_lineIndex (tlb : Tlb) (contextId vAddr : Addr) (i : Nat) :
    ((tlb.missMsg contextId vAddr i).get .lineIndex).toNat = i % 2 ^ 24 := by
  simp only [Tlb.missMsg]
  rw [MgtMsg.get_put_of_disjoint _ _ _ _ (by decide), MgtMsg.get_put_of_disjoint _ _ _ _ (by decide),
    MgtMsg.get_put_self, BitVec.toNat_ofNat]

/-- A refill keeps the line of its request, whether the page is there or not. -/
theorem handleMiss_lineIndex (handled : handleMiss mem pt0 msg = .ok refill) :
    refill.get .lineIndex = msg.get .lineIndex := by
  unfold handleMiss at handled
  dsimp only at handled
  split at handled
  · cases handled
  split at handled
  · cases handled
    rw [MgtMsg.get_put_of_disjoint _ _ _ _ (by decide), MgtMsg.get_put_of_disjoint _ _ _ _ (by decide)]
  split at handled
  · cases handled
  · cases handled
    rw [MgtMsg.get_put_of_disjoint _ _ _ _ (by decide), get_putPermissions _ (by decide), MgtMsg.get_putAddr,
      MgtMsg.get_put_of_disjoint _ _ _ _ (by decide), MgtMsg.get_put_of_disjoint _ _ _ _ (by decide)]

theorem walkPageTableFrom_result (addr : Word) (remaining : Nat) : ∀ (len : Nat) (t : Frame) (entry : Pte) (levels : Nat),
    (walkPageTableFrom mem addr remaining len t entry levels).result ∈ [0, 1, -16] := by
  induction remaining with
  | zero =>
    intro len t entry levels
    simp [walkPageTableFrom]
  | succ remaining ih =>
    intro len t entry levels
    rw [walkPageTableFrom]
    split
    · simp
    split
    · simp
    · exact ih _ _ _ _

/-- A walk that ends without an answer sends nothing. -/
theorem handleMiss_of_error (found : lookup mem pt0 (missIndex msg) = .error) :
    handleMiss mem pt0 msg = .error (.walk (-16)) := by
  have results := @walkPageTableFrom_result mem (missIndex msg) ((vaddrWidth - vaddrLso + contextIdWidth) / ptIndexWidth)
    (vaddrWidth - vaddrLso + contextIdWidth) pt0 default 0
  have failed : (walkPageTable mem pt0 (missIndex msg) (vaddrWidth - vaddrLso + contextIdWidth)).result = -16 := by
    simp only [lookup, Walk.answer] at found
    simp only [List.mem_cons, List.not_mem_nil, or_false] at results
    rcases results with zero | one | rest
    · rw [if_pos (show (walkPageTable _ _ _ _).result = 0 from zero)] at found
      cases found
    · rw [if_neg (by rw [show (walkPageTable _ _ _ _).result = 1 from one]; decide),
        if_pos (show (walkPageTable _ _ _ _).result = 1 from one)] at found
      cases found
    · exact rest
  simp only [handleMiss, failed]
  rfl

theorem handleMiss_type (handled : handleMiss mem pt0 msg = .ok refill) : refill.get .type = MgtMsgType.refill.value := by
  unfold handleMiss at handled
  dsimp only at handled
  split at handled
  · cases handled
  split at handled
  · cases handled
    rw [MgtMsg.get_put_of_disjoint _ _ _ _ (by decide), MgtMsg.get_put_self]
  split at handled
  · cases handled
  · cases handled
    rw [MgtMsg.get_put_of_disjoint _ _ _ _ (by decide), get_putPermissions _ (by decide), MgtMsg.get_putAddr,
      MgtMsg.get_put_of_disjoint _ _ _ _ (by decide), MgtMsg.get_put_self]

/-- The refill of a page of any level: `present`, and the table of the level. -/
theorem handleMiss_of_page {address : Word} {r w x : Bool} {level : Nat}
    (found : lookup mem pt0 (missIndex msg) = .page address r w x level) (handled : handleMiss mem pt0 msg = .ok refill) :
    refill.get .present = 1 ∧ (refill.get .table).toNat = level - tableOffset := by
  have small := level_le_six found
  obtain ⟨one, _, _, _, levels⟩ := Walk.answer_eq_page found
  simp only [handleMiss, one, levels, if_neg (by decide : ¬ (1 : Int) < 0), if_neg (by decide : ¬ (1 : Int) = 0)] at handled
  split at handled
  · cases handled
  · cases handled
    refine ⟨MgtMsg.get_put_self _ _ _, ?_⟩
    rw [MgtMsg.get_put_of_disjoint _ _ _ _ (by decide), get_putPermissions _ (by decide), MgtMsg.get_putAddr,
      MgtMsg.get_put_self, BitVec.toNat_ofNat, tableOffset, Nat.mod_eq_of_lt (by omega)]

/-- A refill without a page leaves its line pending: the line is read, and not released. -/
theorem fault_keeps_pending {after : Tlb} {response : Tlb.Completion} (pending : (tlb.tables 0).IsPending i)
    (absent : refill.get .present = 0) (stored : tlb.onStoreMsg refill = .ok (some (response, after))) :
    (after.tables 0).IsPending i := by
  cases Tlb.onStoreMsg_eq_ok stored with
  | notPresent => exact pending
  | filled present => exact absurd absent present
  | moved present => exact absurd absent present

/-- The table of a refill lies where the miss has the low half of its context. -/
theorem get_table_eq (msg : MgtMsg) : msg.get .table = (msg.get .missContextId).setWidth 8 := by
  simp only [MgtMsg.get, Lib.getField, Field.table, Field.missContextId]
  ext k inside
  simp
  omega

theorem handleMiss_table_of_notPresent (unmapped : lookup mem pt0 (missIndex msg) = .notPresent)
    (handled : handleMiss mem pt0 msg = .ok refill) : refill.get .table = msg.get .table := by
  have zero := Walk.answer_eq_notPresent unmapped
  simp only [handleMiss, zero, lt_irrefl, if_false, if_true] at handled
  cases handled
  rw [MgtMsg.get_put_of_disjoint _ _ _ _ (by decide), MgtMsg.get_put_of_disjoint _ _ _ _ (by decide)]

theorem missMsg_table (tlb : Tlb) (contextId : BitVec 16) (vAddr : Addr) (i : Nat) :
    ((tlb.missMsg (contextId.setWidth 64) vAddr i).get .table).toNat = contextId.toNat % 256 := by
  have context : (tlb.missMsg (contextId.setWidth 64) vAddr i).get .missContextId = contextId := by
    simp only [Tlb.missMsg]
    rw [MgtMsg.get_put_of_disjoint _ _ _ _ (by decide), MgtMsg.get_put_of_disjoint _ _ _ _ (by decide),
      MgtMsg.get_put_of_disjoint _ _ _ _ (by decide), MgtMsg.get_put_self]
    exact BitVec.setWidth_setWidth_of_le _ (by decide)
  rw [get_table_eq, context, BitVec.toNat_setWidth]

theorem onStoreMsg_of_outside (type : refill.get .type = MgtMsgType.refill.value)
    (outside : tlb.numTables ≤ (refill.get .table).toNat) : tlb.onStoreMsg refill = .error .assertion := by
  simp only [Tlb.onStoreMsg, type, ne_eq, not_true_eq_false, if_false, if_pos outside]
  rfl

theorem onStoreMsg_of_fault (type : refill.get .type = MgtMsgType.refill.value)
    (inside : (refill.get .table).toNat < tlb.numTables) (absent : refill.get .present = 0)
    (line : (refill.get .lineIndex).toNat = i) (pending : (tlb.tables 0).IsPending i) :
    tlb.onStoreMsg refill = .ok (some (⟨((tlb.tables 0).lines i).dLineRef, none, false⟩, tlb)) := by
  obtain ⟨few, free, locked⟩ := pending
  have found : (tlb.tables 0).getPending i = .ok (some ((tlb.tables 0).lines i)) := by
    rw [Table.getPending, if_pos few, if_pos (by rw [Table.is_pending, free, locked]; rfl)]
  simp only [Tlb.onStoreMsg, type, ne_eq, not_true_eq_false, if_false, if_neg (Nat.not_le.mpr inside), absent, if_true,
    line, found]
  rfl

/-- A miss of a page that is not mapped comes back with the context in place of the table:
an assertion fails, or the fault is delivered and the line stays as it was. -/
theorem onStoreMsg_of_notPresent (few : i < 2 ^ 24) (pending : (waiting.tables 0).IsPending i)
    (unmapped : lookup mem pt0 (missIndex (tlb.missMsg (contextId.setWidth 64) vAddr i)) = .notPresent)
    (handled : handleMiss mem pt0 (tlb.missMsg (contextId.setWidth 64) vAddr i) = .ok refill) :
    waiting.onStoreMsg refill = if waiting.numTables ≤ contextId.toNat % 256 then .error .assertion
      else .ok (some (⟨((waiting.tables 0).lines i).dLineRef, none, false⟩, waiting)) := by
  have type := handleMiss_type handled
  have table : (refill.get .table).toNat = contextId.toNat % 256 := by
    rw [handleMiss_table_of_notPresent unmapped handled, missMsg_table]
  have line : (refill.get .lineIndex).toNat = i := by
    rw [handleMiss_lineIndex handled, missMsg_lineIndex, Nat.mod_eq_of_lt few]
  split
  · rename_i outside
    exact onStoreMsg_of_outside type (table ▸ outside)
  · rename_i inside
    exact onStoreMsg_of_fault type (by omega) (handleMiss_of_notPresent unmapped handled).2 line pending

/-- The refill of a miss serves its line exactly when the page is mapped, in a size for which the
TLB has a table, and the number of the line fits into its field. -/
theorem serves_iff_mapped (pending : (waiting.tables 0).IsPending i)
    (handled : handleMiss mem pt0 (tlb.missMsg (contextId.setWidth 64) vAddr i) = .ok refill) :
    Serves waiting i refill ↔
      i < 2 ^ 24 ∧ MappedFor mem pt0 (tlb.missMsg (contextId.setWidth 64) vAddr i) waiting := by
  have line : (refill.get .lineIndex).toNat = i % 2 ^ 24 := by rw [handleMiss_lineIndex handled, missMsg_lineIndex]
  constructor
  · intro serves
    have few : i < 2 ^ 24 := by
      have same := serves.line
      omega
    refine ⟨few, ?_⟩
    cases found : lookup mem pt0 (missIndex (tlb.missMsg (contextId.setWidth 64) vAddr i)) with
    | notPresent =>
      obtain ⟨after, stored, released⟩ := serves.fault (handleMiss_of_notPresent found handled).2
      exact absurd (fault_keeps_pending pending (handleMiss_of_notPresent found handled).2 stored) released
    | page address r w x level =>
      have inside := serves.table
      rw [(handleMiss_of_page found handled).2] at inside
      exact ⟨address, r, w, x, level, found, inside⟩
    | error => exact absurd handled (by rw [handleMiss_of_error found]; nofun)
  · rintro ⟨few, address, r, w, x, level, found, inside⟩
    obtain ⟨present, table⟩ := handleMiss_of_page found handled
    refine ⟨table ▸ inside, line.trans (Nat.mod_eq_of_lt few), fun absent => ?_⟩
    rw [present] at absent
    exact absurd absent (by decide)

end

section ThreeTables

/-- A TLB that waits for the refill of one page in its line 0. -/
def waitingTlb (contextId : BitVec 16) (vAddr : Addr) : Option Tlb := do
  let tlb ← (Tlb.create 3 Tlb.defaultConfig 5).toOption
  let out ← (tlb.lookupPage (contextId.setWidth 64) vAddr false).toOption
  if out.result = .delayed then some out.committed else none

/-- The refill of a mapped page of 2 MiB. -/
theorem serves_largePage : ∃ waiting refill, waitingTlb 0 600 = some waiting ∧
    handleMiss sessionLarge.set.mem 256 (waiting.missMsg 0 600 0) = .ok refill ∧ Serves waiting 0 refill := by
  have whole : ((waitingTlb 0 600).bind fun waiting =>
      (handleMiss sessionLarge.set.mem 256 (waiting.missMsg 0 600 0)).toOption.map fun _ =>
        decide (waiting.numTables = 3 ∧ 0 < (waiting.tables 0).numLines ∧
          ((waiting.tables 0).lines 0).present = false ∧ ((waiting.tables 0).lines 0).locked = true ∧
          lookup sessionLarge.set.mem 256 (missIndex (waiting.missMsg 0 600 0)) = .page 0x200000 true true false 5)) =
      some true := by
    decide +kernel
  obtain ⟨waiting, waits, whole⟩ := Option.bind_eq_some_iff.mp whole
  obtain ⟨refill, handled, checked⟩ := Option.map_eq_some_iff.mp whole
  obtain ⟨numTables, inside, absent, locked, page⟩ := of_decide_eq_true checked
  have handled := toOption_eq_some handled
  refine ⟨waiting, refill, waits, handled, ?_⟩
  refine (@serves_iff_mapped sessionLarge.set.mem 256 refill waiting waiting 0 600 0 ⟨inside, absent, locked⟩
    handled).mpr ⟨by decide, _, _, _, _, _, page, ?_⟩
  rw [numTables, tableOffset]
  decide

/-- A page of context 5 that is not mapped names table 5 of three. -/
theorem fault_of_context_five : ∃ waiting refill, waitingTlb 5 600 = some waiting ∧ (waiting.tables 0).IsPending 0 ∧
    handleMiss emptyMem 256 (waiting.missMsg 5 600 0) = .ok refill ∧ refill.get .present = 0 ∧
    waiting.onStoreMsg refill = .error .assertion ∧ ¬ Serves waiting 0 refill := by
  have whole : ((waitingTlb 5 600).bind fun waiting =>
      (handleMiss emptyMem 256 (waiting.missMsg 5 600 0)).toOption.map fun refill =>
        decide (waiting.numTables = 3 ∧ 0 < (waiting.tables 0).numLines ∧
          ((waiting.tables 0).lines 0).present = false ∧ ((waiting.tables 0).lines 0).locked = true ∧
          refill.get .type = MgtMsgType.refill.value ∧ (refill.get .table).toNat = 5 ∧ refill.get .present = 0)) =
      some true := by
    decide +kernel
  obtain ⟨waiting, waits, whole⟩ := Option.bind_eq_some_iff.mp whole
  obtain ⟨refill, handled, checked⟩ := Option.map_eq_some_iff.mp whole
  obtain ⟨numTables, inside, free, locked, type, table, absent⟩ := of_decide_eq_true checked
  refine ⟨waiting, refill, waits, ⟨inside, free, locked⟩, toOption_eq_some handled, absent,
    onStoreMsg_of_outside type (by omega), fun serves => ?_⟩
  have few := serves.table
  omega

end ThreeTables

end Mgsim.Manager
