import Mathlib.Data.BitVec
import Mgsim.Lib.BitField
import Mgsim.Lib.Run
import Mgsim.Drisc.FetchStage

namespace Mgsim.Drisc
open Mgsim.Lib

variable {t : Target} {c : FetchConf}

/-- The sizes that the constructors accept. -/
structure FetchConf.Sizes (t : Target) (c : FetchConf) : Prop where
  block : c.controlBlockSize = 0 ∨ ∃ k ≤ 6, c.controlBlockSize = 2 ^ k
  line : ∃ j, c.lineSize = 2 ^ j
  atLeast : t.sizeofInteger ≤ c.lineSize
  fits : c.controlBlockSize ≤ c.lineSize

theorem FetchConf.create_sizes {controlBlockSize lineSize : BitVec 64} (made : FetchConf.create controlBlockSize lineSize = .ok c)
    (accepted : LineSizeAccepted t lineSize) : c.Sizes t := by
  unfold create at made
  split_ifs at made with power small fits
  cases made
  have power : controlBlockSize &&& ~~~(controlBlockSize - 1) = controlBlockSize := not_not.1 power
  have all : ∀ n : Fin 65, BitVec.ofNat 64 n.val &&& ~~~(BitVec.ofNat 64 n.val - 1) = BitVec.ofNat 64 n.val →
      n.val = 0 ∨ ∃ k : Fin 7, n.val = 2 ^ k.val := by decide
  have positive : 0 < t.sizeofInteger := by cases t <;> decide
  refine ⟨?_, ?_, accepted.2, ?_⟩
  · have here := all ⟨controlBlockSize.toNat, by omega⟩
    rw [BitVec.ofNat_toNat, BitVec.setWidth_eq] at here
    rcases here power with zero | ⟨k, value⟩
    · exact Or.inl zero
    · exact Or.inr ⟨k.val, by omega, value⟩
  · have nonzero : lineSize.toNat ≠ 0 := by
      have least := accepted.2
      omega
    exact (Nat.and_sub_one_eq_zero_iff_isPowerOfTwo nonzero).1 (by simpa [RAUnit.isPowerOfTwo] using accepted.1)
  · exact Nat.le_of_not_lt fits

namespace FetchStage

theorem four_dvd_width (t : Target) : 4 ∣ 2 ^ (8 * t.sizeofInteger) := by
  cases t <;> decide

section Sizes
variable (sizes : c.Sizes t)
include sizes

theorem four_dvd_lineSize : 4 ∣ c.lineSize := by
  obtain ⟨j, line⟩ := sizes.line
  have least : 4 ≤ c.lineSize := by
    refine le_trans ?_ sizes.atLeast
    cases t <;> decide
  rw [line] at least ⊢
  have two : 2 ≤ j := by
    by_contra less
    have power : 2 ^ j ≤ 2 ^ 1 := Nat.pow_le_pow_right (by decide) (by omega)
    omega
  exact Nat.pow_dvd_pow 2 two

/-- A control block for more than its control word. -/
theorem blocks_nest (long : 8 ≤ c.controlBlockSize) :
    ∃ k ≤ 6, c.controlBlockSize = 2 ^ k ∧ 8 ∣ c.controlBlockSize ∧ c.controlBlockSize ∣ c.lineSize ∧
      c.controlBlockSize ∣ 2 ^ (8 * t.sizeofInteger) := by
  obtain ⟨k, bound, block⟩ := sizes.block.resolve_left (by omega)
  obtain ⟨j, line⟩ := sizes.line
  have fits := sizes.fits
  have three : 3 ≤ k := by
    by_contra less
    have power : 2 ^ k ≤ 2 ^ 2 := Nat.pow_le_pow_right (by decide) (by omega)
    omega
  refine ⟨k, bound, block, ?_, ?_, ?_⟩
  · rw [block]
    exact Nat.pow_dvd_pow 2 three
  · rw [block, line] at fits ⊢
    exact Nat.pow_dvd_pow 2 ((Nat.pow_le_pow_iff_right (by decide)).1 fits)
  · rw [block]
    refine Nat.pow_dvd_pow 2 (bound.trans ?_)
    cases t <;> decide

end Sizes

theorem toNat_four (t : Target) : (4 : Integer t).toNat = 4 := by cases t <;> decide

theorem toNat_next {pc : Integer t} (aligned : pc.toNat % 4 = 0) : (pc + 4).toNat % 4 = 0 := by
  rw [BitVec.toNat_add, Nat.mod_mod_of_dvd _ (four_dvd_width t), toNat_four]
  omega

/-- An instruction at the end of no line is followed by its successor in the line. -/
theorem offset_next (sizes : c.Sizes t) {pc : Integer t} (aligned : pc.toNat % 4 = 0)
    (inside : (pc + 4).toNat % c.lineSize ≠ 0) : (pc + 4).toNat % c.lineSize = pc.toNat % c.lineSize + 4 := by
  have whole := four_dvd_width t
  have four := four_dvd_lineSize sizes
  have small := pc.isLt
  have sum : (pc + 4).toNat = pc.toNat + 4 := by
    rw [BitVec.toNat_add, toNat_four] at inside ⊢
    refine Nat.mod_eq_of_lt ?_
    by_contra wraps
    have exact : pc.toNat + 4 = 2 ^ (8 * t.sizeofInteger) := by omega
    rw [exact, Nat.mod_self, Nat.zero_mod] at inside
    exact inside rfl
  have positive : 0 < c.lineSize := by
    obtain ⟨j, power⟩ := sizes.line
    rw [power]
    exact Nat.two_pow_pos j
  have bound := Nat.mod_lt pc.toNat positive
  have divided : pc.toNat % c.lineSize % 4 = 0 := (Nat.mod_mod_of_dvd _ four).trans aligned
  rw [sum, ← Nat.mod_add_mod] at inside ⊢
  refine Nat.mod_eq_of_lt ?_
  by_contra ends
  have exact : pc.toNat % c.lineSize + 4 = c.lineSize := by omega
  rw [exact, Nat.mod_self] at inside
  exact inside rfl

theorem lineAddress_next (sizes : c.Sizes t) {pc : Integer t} (aligned : pc.toNat % 4 = 0)
    (inside : (pc + 4).toNat % c.lineSize ≠ 0) : lineAddress c (pc + 4) = lineAddress c pc := by
  rw [lineAddress, lineAddress, offset_next sizes aligned inside, BitVec.ofNat_add]
  exact add_sub_add_right_eq_sub _ _ _

theorem lineAddress_add (pc : Integer t) : lineAddress c pc + BitVec.ofNat _ (pc.toNat % c.lineSize) = pc :=
  sub_add_cancel _ _

theorem take_drop_range {α : Type} (f : Nat → α) {n place m : Nat} (fits : place + m ≤ n) :
    ((((List.range n).map f).drop place).take m) = (List.range m).map fun k => f (place + k) := by
  refine List.ext_getElem ?_ fun k left right => ?_
  · simp only [List.length_take, List.length_drop, List.length_map, List.length_range]
    omega
  · simp

/-- The buffer has the words of its line. -/
theorem instruction_readLine {program : Integer t → Byte} {address : Integer t} {i : Nat} (fits : 4 * i + 4 ≤ c.lineSize) :
    instruction t (readLine c program address) i = word program (address + BitVec.ofNat _ (4 * i)) := by
  rw [instruction, readLine, take_drop_range _ fits, word]
  simp only [BitVec.ofNat_add, add_assoc]

/-- The words of the line of an address, counted from the address down. -/
theorem instruction_below (sizes : c.Sizes t) {program : Integer t → Byte} {pc : Integer t} {b : Nat}
    (aligned : pc.toNat % 4 = 0) (divided : b % 4 = 0) (below : b ≤ pc.toNat % c.lineSize) :
    instruction t (readLine c program (lineAddress c pc)) ((pc.toNat % c.lineSize - b) / 4) =
      word program (pc - BitVec.ofNat _ b) := by
  have four := four_dvd_lineSize sizes
  have offset : pc.toNat % c.lineSize % 4 = 0 := (Nat.mod_mod_of_dvd _ four).trans aligned
  have bound : pc.toNat % c.lineSize < c.lineSize := by
    obtain ⟨j, power⟩ := sizes.line
    refine Nat.mod_lt _ ?_
    rw [power]
    exact Nat.two_pow_pos j
  have whole : 4 * ((pc.toNat % c.lineSize - b) / 4) = pc.toNat % c.lineSize - b := by omega
  rw [instruction_readLine (by omega), whole]
  refine congrArg _ (eq_sub_of_add_eq ?_)
  rw [add_assoc, ← BitVec.ofNat_add, Nat.sub_add_cancel below, lineAddress_add]

/-- The word that the control bits are taken from is the control word of the block of the instruction. -/
theorem control_getLsbD (sizes : c.Sizes t) {program : Integer t → Byte} {s : FetchStage t} {pc : Integer t}
    (aligned : pc.toNat % 4 = 0) (long : s.legacy = false → 8 ≤ c.controlBlockSize)
    (buffered : s.buffer = readLine c program (lineAddress c pc)) (bit : Nat) :
    (control c s pc).getLsbD bit = controlBit c program s.legacy pc bit := by
  cases legacy : s.legacy with
  | true => simp [control, controlBit, legacy]
  | false =>
    obtain ⟨k, bound, block, eight, divides, _⟩ := blocks_nest sizes (long legacy)
    have width : 2 ^ (8 * t.sizeofInteger) ≤ 2 ^ 64 := by cases t <;> decide
    have small : pc.toNat % c.lineSize < 2 ^ 64 := lt_of_le_of_lt (Nat.mod_le _ _) (lt_of_lt_of_le pc.isLt width)
    have offset : pc.toNat % c.lineSize % 4 = 0 := (Nat.mod_mod_of_dvd _ (four_dvd_lineSize sizes)).trans aligned
    have within : pc.toNat % c.lineSize % c.controlBlockSize = pc.toNat % c.controlBlockSize := Nat.mod_mod_of_dvd _ divides
    have inner : pc.toNat % c.controlBlockSize % 4 = 0 :=
      (Nat.mod_mod_of_dvd _ (Nat.dvd_trans (by decide) eight)).trans aligned
    have below : pc.toNat % c.controlBlockSize ≤ pc.toNat % c.lineSize := within ▸ Nat.mod_le _ _
    have masked : (BitVec.ofNat 64 (pc.toNat % c.lineSize) &&& -BitVec.ofNat 64 c.controlBlockSize).toNat =
        pc.toNat % c.lineSize - pc.toNat % c.controlBlockSize := by
      have power := toNat_and_neg_twoPow (by omega : k ≤ 64) (BitVec.ofNat 64 (pc.toNat % c.lineSize))
      rw [BitVec.toNat_ofNat, Nat.mod_eq_of_lt small, ← block, within] at power
      exact power
    have distance : pc.toNat % c.lineSize / 4 - (pc.toNat % c.lineSize - pc.toNat % c.controlBlockSize) / 4 =
        pc.toNat % c.controlBlockSize / 4 := by omega
    simp only [control, legacy, if_true, masked, distance, buffered, instruction_below sizes aligned inner below,
      BitVec.getLsbD_ushiftRight, controlBit, Bool.not_false, Bool.true_and]

/-- The instruction that is to be sent from an address. -/
def correct (c : FetchConf) (program : Integer t → Byte) (legacy : Bool) (pc : Integer t) (alone : Bool) : Sent t where
  pc := pc
  instr := word program pc
  kill := controlBit c program legacy pc 1
  swch := controlBit c program legacy pc 1 || (pc + 4).toNat % c.lineSize = 0 || controlBit c program legacy pc 0 && !alone
  alone := alone

theorem Correct.correct (program : Integer t → Byte) (legacy : Bool) (pc : Integer t) (alone : Bool) :
    Correct c program legacy (correct c program legacy pc alone) := ⟨rfl, rfl, rfl⟩

theorem bit_and_one (x : BitVec 32) : decide (x &&& 1 ≠ 0) = x.getLsbD 0 :=
  (Bool.decide_congr (and_twoPow_ne_zero (k := 0) (by decide))).trans Bool.decide_eq_true

theorem bit_and_two (x : BitVec 32) : decide (x &&& 2 ≠ 0) = x.getLsbD 1 :=
  (Bool.decide_congr (and_twoPow_ne_zero (k := 1) (by decide))).trans Bool.decide_eq_true

theorem fetch_eq (sizes : c.Sizes t) {program : Integer t → Byte} {s : FetchStage t} {pc : Integer t}
    (aligned : pc.toNat % 4 = 0) (long : s.legacy = false → 8 ≤ c.controlBlockSize)
    (buffered : s.buffer = readLine c program (lineAddress c pc)) (last : Bool) :
    fetch c s pc last = { s with
      pc := pc + 4
      switched := (correct c program s.legacy pc last).swch
      threads := Function.update s.threads s.tid
        { s.threads s.tid with sent := (s.threads s.tid).sent ++ [correct c program s.legacy pc last] } } := by
  have first : instruction t s.buffer ((pc.toNat % c.lineSize - 0) / 4) = word program (pc - BitVec.ofNat _ 0) :=
    buffered ▸ instruction_below sizes aligned rfl (Nat.zero_le _)
  rw [Nat.sub_zero, BitVec.sub_zero] at first
  simp only [fetch, bit_and_one, bit_and_two, control_getLsbD sizes aligned long buffered, first, correct]

end FetchStage

variable {program : Integer t → Byte}

namespace FetchStage

/-- The next word of a straight line, or a control word before it, is at an address. -/
def Due (c : FetchConf) (thread : FetchingThread t) (a : Integer t) : Prop :=
  ∃ m, thread.sent.map Sent.pc = straight c thread.legacy thread.start m ∧ a = thread.start + BitVec.ofNat _ (4 * m)

theorem ofNat_succ (m : Nat) : BitVec.ofNat (8 * t.sizeofInteger) (4 * (m + 1)) = BitVec.ofNat _ (4 * m) + (4 : Integer t) :=
  BitVec.ofNat_add (4 * m) 4

theorem Due.skip {thread : FetchingThread t} {a : Integer t} (due : Due c thread a)
    (control : isControl c thread.legacy a = true) : Due c thread (a + 4) := by
  obtain ⟨m, sent, rfl⟩ := due
  refine ⟨m + 1, sent.trans (passing_succ_of_neg ?_).symm, ?_⟩
  · rw [control, Bool.not_true]
  · rw [ofNat_succ, add_assoc]

theorem Due.send {thread : FetchingThread t} {e : Sent t} (due : Due c thread e.pc)
    (instruction : isControl c thread.legacy e.pc = false) : Due c { thread with sent := thread.sent ++ [e] } (e.pc + 4) := by
  obtain ⟨m, sent, address⟩ := due
  refine ⟨m + 1, ?_, ?_⟩
  · rw [List.map_append, sent]
    refine (congrArg _ (congrArg (fun a => [a]) address)).trans (passing_succ_of_pos ?_).symm
    rw [← address, instruction, Bool.not_false]
  · rw [address, ofNat_succ, add_assoc]

theorem Due.aligned {thread : FetchingThread t} {a : Integer t} (due : Due c thread a) (start : thread.start.toNat % 4 = 0) :
    a.toNat % 4 = 0 := by
  obtain ⟨m, _, rfl⟩ := due
  rw [BitVec.toNat_add, Nat.mod_mod_of_dvd _ (four_dvd_width t), BitVec.toNat_ofNat, Nat.add_mod,
    Nat.mod_mod_of_dvd _ (four_dvd_width t)]
  omega

/-- What has been sent before an instruction leads to its address. -/
theorem Due.before {thread : FetchingThread t} {a : Integer t} (due : Due c thread a) {before after : List (Sent t)} {e : Sent t}
    (split : thread.sent = before ++ e :: after) :
    isControl c thread.legacy e.pc = false ∧ Due c { thread with sent := before } e.pc := by
  obtain ⟨m, sent, _⟩ := due
  rw [split, List.map_append, List.map_cons] at sent
  have member : e.pc ∈ straight c thread.legacy thread.start m := sent ▸ List.mem_append_right _ List.mem_cons_self
  have instruction := holds_of_mem_passing member
  obtain ⟨j, address, earlier⟩ := passing_split sent.symm
  exact ⟨(Bool.not_eq_true' _).mp instruction, j, earlier, address⟩

end FetchStage

open FetchStage

theorem FetchStatus.idle_ne_active : FetchStatus.idle ≠ .active := by decide

theorem FetchStatus.empty_ne_active : FetchStatus.empty ≠ .active := by decide

/-- A thread has been fetched as the program has it, and goes on where it should. -/
structure FetchingThread.Kept (c : FetchConf) (program : Integer t → Byte) (thread : FetchingThread t) : Prop where
  aligned : thread.start.toNat % 4 = 0
  sent : ∃ a, Due c thread a
  correct : ∀ e ∈ thread.sent, Correct c program thread.legacy e
  due : thread.status = .idle ∨ thread.status = .active → Due c thread thread.pc

namespace FetchingThread

variable {thread after : FetchingThread t}

theorem Kept.created {pc : Integer t} (aligned : pc.toNat % 4 = 0) (legacy : Bool) :
    Kept c program ⟨.idle, pc, legacy, pc, [], 0⟩ := by
  have start : Due c (⟨.idle, pc, legacy, pc, [], 0⟩ : FetchingThread t) pc := ⟨0, rfl, (add_zero pc).symm⟩
  exact ⟨aligned, ⟨pc, start⟩, List.forall_mem_nil _, fun _ => start⟩

/-- What is sent next keeps a running thread. -/
theorem Kept.send (kept : thread.Kept c program) (running : thread.status = .running) {e : Sent t} (due : Due c thread e.pc)
    (instruction : isControl c thread.legacy e.pc = false) (right : Correct c program thread.legacy e) :
    Kept c program { thread with sent := thread.sent ++ [e] } := by
  refine ⟨kept.aligned, ⟨_, due.send instruction⟩, fun x member => ?_, fun stopped => ?_⟩
  · rcases List.mem_append.1 member with earlier | last
    · exact kept.correct x earlier
    · cases List.mem_singleton.1 last
      exact right
  · rcases stopped with idle | active
    · cases running.symm.trans idle
    · cases running.symm.trans active

theorem Kept.leave (kept : thread.Kept c program) (left : leaveThread thread = some after) :
    after.Kept c program ∧ thread.status = .running ∧ after.status ≠ .active ∧
      ∃ last, thread.sent.getLast? = some last ∧ last.swch = true := by
  unfold leaveThread at left
  split at left
  · cases left
  · rename_i last atEnd
    split_ifs at left with leaves killed
    · cases left
      refine ⟨⟨kept.aligned, kept.sent, kept.correct, fun stopped => ?_⟩, leaves.1, FetchStatus.empty_ne_active, last, atEnd,
        leaves.2⟩
      rcases stopped with idle | active
      · cases idle
      · cases active
    · cases left
      obtain ⟨before, split⟩ := List.getLast?_eq_some_iff.1 atEnd
      obtain ⟨a, due⟩ := kept.sent
      obtain ⟨instruction, earlier⟩ := due.before split
      have next := earlier.send instruction
      refine ⟨⟨kept.aligned, kept.sent, kept.correct, fun _ => ?_⟩, leaves.1, FetchStatus.idle_ne_active, last, atEnd, leaves.2⟩
      rw [← split] at next
      exact next

theorem Kept.flush (kept : thread.Kept c program) {index : Nat} {again : Bool}
    (flushed : flushThread thread index again = some after) :
    after.Kept c program ∧ thread.status = .running ∧ after.status ≠ .active := by
  unfold flushThread at flushed
  split at flushed
  · cases flushed
  · rename_i cause found
    by_cases inside : thread.status = .running ∧ thread.entered ≤ index
    swap
    · rw [if_neg inside] at flushed
      cases flushed
    rw [if_pos inside] at flushed
    cases flushed
    obtain ⟨small, rfl⟩ := List.getElem?_eq_some_iff.1 found
    have split : thread.sent = thread.sent.take index ++ thread.sent[index] :: thread.sent.drop (index + 1) := by
      rw [List.getElem_cons_drop, List.take_append_drop]
    obtain ⟨a, due⟩ := kept.sent
    obtain ⟨instruction, earlier⟩ := due.before split
    refine ⟨?_, inside.1, FetchStatus.idle_ne_active⟩
    cases again with
    | true =>
      exact ⟨kept.aligned, ⟨_, earlier⟩, fun e member => kept.correct e (List.mem_of_mem_take member), fun _ => earlier⟩
    | false =>
      have next := earlier.send instruction
      rw [← List.take_succ_eq_append_getElem small] at next
      exact ⟨kept.aligned, ⟨_, next⟩, fun e member => kept.correct e (List.mem_of_mem_take member), fun _ => next⟩

end FetchingThread

end Mgsim.Drisc
