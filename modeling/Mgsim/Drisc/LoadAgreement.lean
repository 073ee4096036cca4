import Mgsim.Drisc.LoadPath

namespace Mgsim.Drisc
open Mgsim.Mmu

section Operand
variable {t : Target}

/-- Registers from `rc` on are written one after the other. -/
theorem foldl_registers_apply (rc : RegAddr) (f : Nat → RegValue t → RegValue t) (count : Nat)
    (regs : RegAddr → RegValue t) (addr : RegAddr) :
    (List.range count).foldl (fun regs i =>
      Function.update regs ⟨rc.type, rc.index + i⟩ (f i (regs ⟨rc.type, rc.index + i⟩))) regs addr =
      if addr.Within rc count then f (addr.index - rc.index) (regs addr) else regs addr := by
  induction count with
  | zero =>
    have none : ¬ addr.Within rc 0 := fun within => by
      obtain ⟨_, lower, upper⟩ := within
      omega
    rw [if_neg none]
    rfl
  | succ count ih =>
    rw [List.range_succ, List.foldl_append, List.foldl_cons, List.foldl_nil]
    obtain ⟨type, index⟩ := addr
    by_cases last : (⟨type, index⟩ : RegAddr) = ⟨rc.type, rc.index + count⟩
    · cases last
      have outside : ¬ RegAddr.Within ⟨rc.type, rc.index + count⟩ rc count := fun within => by
        have upper := within.2.2
        simp only at upper
        omega
      have inside : RegAddr.Within ⟨rc.type, rc.index + count⟩ rc (count + 1) := ⟨rfl, by simp, by simp⟩
      rw [Function.update_self, ih, if_neg outside, if_pos inside]
      simp
    · rw [Function.update_of_ne last, ih]
      have same : RegAddr.Within ⟨type, index⟩ rc (count + 1) ↔ RegAddr.Within ⟨type, index⟩ rc count := by
        simp only [RegAddr.mk.injEq, not_and] at last
        simp only [RegAddr.Within]
        constructor
        · rintro ⟨kind, lower, upper⟩
          have different := last kind
          exact ⟨kind, lower, by omega⟩
        · rintro ⟨kind, lower, upper⟩
          exact ⟨kind, lower, by omega⟩
      simp only [same]

/-- The writeback of a full operand. -/
theorem writebackAll_full {rc : RegAddr} {rcv : PipeValue} (full : rcv.state = .full) (regs : RegAddr → RegValue t)
    (addr : RegAddr) : writebackAll t rc rcv regs addr =
      if addr.Within rc (rcv.size / t.sizeofInteger) then
        .makeFull (operandWord t rcv.value rcv.size (addr.index - rc.index))
      else regs addr := by
  have value (i : Nat) (old : RegValue t) : combineWaiting old (writebackValue t rcv i) =
      .makeFull (operandWord t rcv.value rcv.size i) := by
    simp [combineWaiting, writebackValue, full, RegValue.makeFull]
  simp only [writebackAll, value]
  exact foldl_registers_apply rc (fun i _ => .makeFull (operandWord t rcv.value rcv.size i)) _ regs addr

end Operand

section Bytes

/-- The bits of the value that the bytes of a little-endian target give. -/
theorem getLsbD_endianToInteger {t : Target} (little : t.isBigEndian = false) (data : List Byte) (j : Nat) (small : j < 64) :
    (endianToInteger t data).getLsbD j = (data.getD (j / 8) 0).getLsbD (j % 8) := by
  simp only [endianToInteger, little, Bool.false_eq_true, if_false]
  induction data generalizing j with
  | nil => simp
  | cons byte rest ih =>
    rw [List.foldr_cons]
    have apart (value : BitVec 64) : value <<< 8 &&& byte.setWidth 64 = 0#64 := by
      ext i inside
      simp only [BitVec.getElem_and, BitVec.getElem_shiftLeft, BitVec.getElem_setWidth, BitVec.getElem_zero]
      by_cases low : i < 8
      · simp [low]
      · simp [BitVec.getLsbD_of_ge _ _ (Nat.not_lt.mp low)]
    rw [BitVec.add_eq_or_of_and_eq_zero _ _ (apart _), BitVec.getLsbD_or, BitVec.getLsbD_shiftLeft,
      BitVec.getLsbD_setWidth]
    by_cases low : j < 8
    · have first : j / 8 = 0 := by omega
      have same : j % 8 = j := Nat.mod_eq_of_lt low
      simp [low, small, first, same]
    · have next : j / 8 = (j - 8) / 8 + 1 := by omega
      have same : j % 8 = (j - 8) % 8 := by omega
      rw [next, same, List.getD_cons_succ, ← ih (j - 8) (by omega)]
      simp [low, small, BitVec.getLsbD_of_ge _ _ (Nat.not_lt.mp low)]

/-- A byte of a load, zero behind its end. -/
def Load.byte (lineSize : Nat) (load : Load) (line : Nat → Byte) (i : Nat) : Byte :=
  if i < load.size then line (load.offset lineSize + i) else 0

/-- The value of a load before it is split over registers. -/
def Load.value (t : Target) (lineSize : Nat) (load : Load) (line : Nat → Byte) : BitVec 64 :=
  let value := unserializeRegister t load.rc.type (load.bytes lineSize line)
  if load.signExtend then signExtended load.size value else value

/-- The word that the delayed path writes to a register. -/
def Load.delayedWord (t : Target) (lineSize : Nat) (load : Load) (line : Nat → Byte) (number : Nat) : Integer t :=
  ReadWritebacks.word t ⟨load.value t lineSize line, none, none, load.registers t, number, load.fid⟩

/-- The word that a hit writes to a register. -/
def Load.hitWord (t : Target) (lineSize : Nat) (load : Load) (line : Nat → Byte) (number : Nat) : Integer t :=
  operandWord t (multiSet (load.value t lineSize line) load.rcvSize) load.rcvSize number

/-- The registers of a load get its words in the same order on both paths: the
target is big endian, or one register is enough, or the words are the same. -/
def Load.OrderIrrelevant (t : Target) (lineSize : Nat) (load : Load) (line : Nat → Byte) : Prop :=
  t.isBigEndian = true ∨ load.registers t = 1 ∨
    ∀ i < t.sizeofInteger, load.byte lineSize line i = load.byte lineSize line (t.sizeofInteger + i)

/-- A sign-extended load is smaller than a register. -/
def Load.ExtendsWithin (t : Target) (load : Load) : Prop := load.signExtend = true → load.size < t.sizeofInteger

instance (t : Target) (load : Load) : Decidable (load.ExtendsWithin t) := inferInstanceAs (Decidable (_ → _))

/-- Where the registers finally hold what a hit writes. -/
def Load.Agrees (t : Target) (lineSize : Nat) (load : Load) (line : Nat → Byte) : Prop :=
  load.OrderIrrelevant t lineSize line ∧ load.ExtendsWithin t

theorem Load.Decoded.one_or_two {t : Target} {load : Load} (decoded : load.Decoded t) :
    load.registers t = 1 ∨ load.registers t = 2 ∧ t.sizeofInteger = 4 ∧ 4 < load.size := by
  have positive := decoded.positive
  have small := decoded.small
  have four (size : Nat) (some : 0 < size) (bound : size ≤ 8) : (size + 4 - 1) / 4 = 1 ∨ (size + 4 - 1) / 4 = 2 ∧ 4 < size := by
    omega
  unfold registers
  cases t with
  | mtalpha =>
    left
    simp only [Target.sizeofInteger]
    omega
  | mtsparc | mips32 | mips32el | or1k =>
    rcases four _ positive small with one | two
    · exact Or.inl one
    · exact Or.inr ⟨two.1, rfl, two.2⟩

theorem Load.bytes_getD (lineSize : Nat) (load : Load) (line : Nat → Byte) (i : Nat) :
    (load.bytes lineSize line).getD i 0 = load.byte lineSize line i := by
  unfold bytes byte
  by_cases inside : i < load.size
  · simp [inside]
  · simp [inside]

/-- The bits of a load of more than one register of a little-endian target. -/
theorem Load.getLsbD_value {t : Target} {load : Load} (little : t.isBigEndian = false) (long : 4 < load.size)
    (plain : load.signExtend = false) (lineSize : Nat) (line : Nat → Byte) (j : Nat) (small : j < 64) :
    (load.value t lineSize line).getLsbD j = (load.byte lineSize line (j / 8)).getLsbD (j % 8) := by
  have length : (load.bytes lineSize line).length = load.size := by simp [bytes]
  have notFour : (load.bytes lineSize line).length ≠ 4 := by omega
  have whole : load.value t lineSize line = endianToInteger t (load.bytes lineSize line) := by
    simp only [value, plain, Bool.false_eq_true, if_false, unserializeRegister, notFour, and_false]
    cases load.rc.type <;> rfl
  rw [whole, getLsbD_endianToInteger little _ _ small, bytes_getD]

/-- With one register there is nothing to order. -/
theorem Load.word_single {t : Target} {load : Load} (decoded : load.Decoded t) (single : load.registers t = 1)
    (lineSize : Nat) (line : Nat → Byte) : load.hitWord t lineSize line 0 = load.delayedWord t lineSize line 0 := by
  have operand : load.rcvSize = t.sizeofInteger := by rw [decoded.operand, single, Nat.one_mul]
  have whole : (multiGet (multiSet (load.value t lineSize line) t.sizeofInteger) t.sizeofInteger).setWidth
      (8 * t.sizeofInteger) = (load.value t lineSize line).setWidth (8 * t.sizeofInteger) := by
    cases t with
    | mtalpha => rfl
    | mtsparc | mips32 | mips32el | or1k =>
      simp only [multiGet, multiSet, Target.sizeofInteger]
      ext i inside
      simp
  have positive : 0 < t.sizeofInteger := by cases t <;> decide
  simp only [hitWord, delayedWord, operandWord, ReadWritebacks.word, operand, single, Nat.div_self positive, Nat.sub_self,
    Nat.zero_mul, BitVec.ushiftRight_zero, whole, ite_self]

/-- With two registers of four bytes both paths shift by whole words. -/
theorem Load.words_double {t : Target} {load : Load} (decoded : load.Decoded t) (double : load.registers t = 2)
    (narrow : t.sizeofInteger = 4) (lineSize : Nat) (line : Nat → Byte) (k : Nat) :
    load.hitWord t lineSize line k = (load.value t lineSize line >>> ((1 - k) * 32)).setWidth _ ∧
    load.delayedWord t lineSize line k =
      (load.value t lineSize line >>> (if t.isBigEndian then (1 - k) * 32 else k * 32)).setWidth _ := by
  have operand : load.rcvSize = 8 := by rw [decoded.operand, double, narrow]
  constructor
  · simp only [hitWord, operandWord, operand, multiGet, multiSet, if_true, narrow]
    rw [show (8 / 4 - 1 - k) * 8 * 4 = (1 - k) * 32 by omega]
  · simp only [delayedWord, ReadWritebacks.word, double, narrow]
    split
    · rw [show (2 - 1 - k) * 4 * 8 = (1 - k) * 32 by omega]
    · rw [show k * 4 * 8 = k * 32 by omega]

/-- The two words of a value are the same exactly when its bytes are. -/
theorem Load.words_same_iff {t : Target} {load : Load} (little : t.isBigEndian = false) (narrow : t.sizeofInteger = 4)
    (long : 4 < load.size) (plain : load.signExtend = false) (lineSize : Nat) (line : Nat → Byte) :
    (load.value t lineSize line >>> 32).setWidth (8 * t.sizeofInteger) =
        (load.value t lineSize line).setWidth (8 * t.sizeofInteger) ↔
      ∀ i < t.sizeofInteger, load.byte lineSize line i = load.byte lineSize line (t.sizeofInteger + i) := by
  have bit (j : Nat) (small : j < 64) := getLsbD_value little long plain lineSize line j small
  rw [narrow]
  constructor
  · intro same i inside
    apply BitVec.eq_of_getLsbD_eq
    intro j low
    have here := congrArg (fun word => word.getLsbD (8 * i + j)) same
    simp only [BitVec.getLsbD_setWidth, BitVec.getLsbD_ushiftRight] at here
    rw [bit (32 + (8 * i + j)) (by omega), bit (8 * i + j) (by omega)] at here
    rw [show (32 + (8 * i + j)) / 8 = 4 + i by omega, show (32 + (8 * i + j)) % 8 = j by omega,
      show (8 * i + j) / 8 = i by omega, show (8 * i + j) % 8 = j by omega] at here
    simpa [show 8 * i + j < 32 by omega] using here.symm
  · intro same
    apply BitVec.eq_of_getLsbD_eq
    intro j low
    simp only [BitVec.getLsbD_setWidth, BitVec.getLsbD_ushiftRight]
    rw [bit (32 + j) (by omega), bit j (by omega), show (32 + j) / 8 = 4 + j / 8 by omega,
      show (32 + j) % 8 = j % 8 by omega, same (j / 8) (by omega)]

theorem Load.words_agree_iff {t : Target} {load : Load} (decoded : load.Decoded t) (within : load.ExtendsWithin t)
    (lineSize : Nat) (line : Nat → Byte) :
    (∀ k < load.registers t, load.hitWord t lineSize line k = load.delayedWord t lineSize line k) ↔
      load.OrderIrrelevant t lineSize line := by
  rcases decoded.one_or_two with single | ⟨double, narrow, long⟩
  · refine ⟨fun _ => Or.inr (Or.inl single), fun _ k below => ?_⟩
    obtain rfl : k = 0 := by omega
    exact word_single decoded single lineSize line
  · have plain : load.signExtend = false := by
      by_contra extends'
      have small := within (by simpa using extends')
      omega
    by_cases big : t.isBigEndian = true
    · refine ⟨fun _ => Or.inl big, fun _ k _ => ?_⟩
      obtain ⟨hit, delayed⟩ := words_double decoded double narrow lineSize line k
      rw [hit, delayed, if_pos big]
    · have little : t.isBigEndian = false := by simpa using big
      have same := words_same_iff little narrow long plain lineSize line
      constructor
      · intro all
        obtain ⟨hit, delayed⟩ := words_double decoded double narrow lineSize line 0
        have first := all 0 (by omega)
        rw [hit, delayed, if_neg big] at first
        exact Or.inr (Or.inr (same.mp (by simpa using first)))
      · rintro (bigEndian | single | bytes) k below
        · exact absurd bigEndian big
        · omega
        · obtain ⟨hit, delayed⟩ := words_double decoded double narrow lineSize line k
          rw [hit, delayed, if_neg big]
          have words := same.mpr bytes
          rcases (by omega : k = 0 ∨ k = 1) with rfl | rfl
          · simpa using words
          · simpa using words.symm

end Bytes

namespace ReadWritebacks
variable {t : Target} {s s' : ReadWritebacks t}

/-- Cycles in which the process is refused change nothing. -/
theorem cycles_filter (s : ReadWritebacks t) (available : List Bool) :
    s.cycles available = s.cycles (List.replicate (available.count true) true) := by
  induction available generalizing s with
  | nil => rfl
  | cons first rest ih =>
    cases first with
    | false =>
      have refused : s.doReadWritebacks false = .ok (.failed, s) := rfl
      simp only [cycles, refused, ih, List.count_cons_of_ne (show (false : Bool) ≠ true by decide)]
    | true =>
      rw [List.count_cons_self, List.replicate_succ, cycles, cycles]
      cases s.doReadWritebacks true with
      | error e => rfl
      | ok result => exact ih _

theorem cycles_add (s : ReadWritebacks t) (m n : Nat) : s.cycles (List.replicate (m + n) true) =
    (s.cycles (List.replicate m true)).bind fun s => s.cycles (List.replicate n true) := by
  induction m generalizing s with
  | zero => simp [cycles, Except.bind]
  | succ m ih =>
    rw [Nat.succ_add, List.replicate_succ, List.replicate_succ, cycles, cycles]
    cases s.doReadWritebacks true with
    | error e => rfl
    | ok result => exact ih _

/-- The process comes to the register `reg` of the line of `req` next. -/
structure Turn (s : ReadWritebacks t) (req : WritebackRequest) (rest : List WritebackRequest) (reg : RegAddr) : Prop where
  front : s.writebacks = req :: rest
  idle : s.wbstate.offset = s.wbstate.size
  next : s.wbstate.next.getD req.waiting = reg

/-- The register of a delayed load holds what the memory stage has remembered
of it. Threads may wait for it by now. -/
structure Waits (t : Target) (lineSize : Nat) (load : Load) (next : Option RegAddr) (regs : RegAddr → RegValue t) :
    Prop where
  state : (regs load.rc).state = .pending ∨ (regs load.rc).state = .waiting
  memory : (regs load.rc).memory = (memoryStageDelayed lineSize load next).memory

/-- The first `count` words of an operand are in its registers. -/
def wordsWritten (rc : RegAddr) (words : Nat → Integer t) (count : Nat) (regs : RegAddr → RegValue t) (addr : RegAddr) :
    RegValue t :=
  if addr.Within rc count then .makeFull (words (addr.index - rc.index)) else regs addr

/-- The state of the process after `count` words of a load, with words left. -/
def during (t : Target) (lineSize : Nat) (load : Load) (line : Nat → Byte) (next : Option RegAddr) (count : Nat)
    (s : ReadWritebacks t) : ReadWritebacks t :=
  { s with
    wbstate := ⟨load.value t lineSize line, some ⟨load.rc.type, load.rc.index + count⟩, next, load.registers t, count, load.fid⟩
    regs := wordsWritten load.rc (load.delayedWord t lineSize line) count s.regs }

/-- The state of the process after all words of a load. -/
def after (t : Target) (lineSize : Nat) (load : Load) (line : Nat → Byte) (next : Option RegAddr)
    (rest : List WritebackRequest) (s : ReadWritebacks t) : ReadWritebacks t where
  writebacks := if next.isNone then rest else s.writebacks
  wbstate := if next.isNone then .initial else (during t lineSize load line next (load.registers t) s).wbstate
  regs := wordsWritten load.rc (load.delayedWord t lineSize line) (load.registers t) s.regs
  completed := s.completed ++ [load.fid]

section OneLoad
variable {lineSize : Nat} {load : Load} {line : Nat → Byte} {next : Option RegAddr} {waiting : RegAddr}
  {rest : List WritebackRequest}

theorem wordsWritten_zero (rc : RegAddr) (words : Nat → Integer t) (regs : RegAddr → RegValue t) :
    wordsWritten rc words 0 regs = regs := by
  funext addr
  exact if_neg fun within => by
    obtain ⟨_, lower, upper⟩ := within
    omega

theorem wordsWritten_eq_foldl (rc : RegAddr) (words : Nat → Integer t) (count : Nat) (regs : RegAddr → RegValue t) :
    wordsWritten rc words count regs = (List.range count).foldl (fun regs i =>
      Function.update regs ⟨rc.type, rc.index + i⟩ (.makeFull (words i))) regs := by
  funext addr
  exact (foldl_registers_apply rc (fun i _ => .makeFull (words i)) count regs addr).symm

theorem wordsWritten_succ (rc : RegAddr) (words : Nat → Integer t) (count : Nat) (regs : RegAddr → RegValue t) :
    Function.update (wordsWritten rc words count regs) ⟨rc.type, rc.index + count⟩ (.makeFull (words count)) =
      wordsWritten rc words (count + 1) regs := by
  rw [wordsWritten_eq_foldl, wordsWritten_eq_foldl, List.range_succ, List.foldl_append]
  rfl

/-- A cycle writes the next word; the last one completes the load. -/
theorem write_during (s : ReadWritebacks t) (lineSize : Nat) (load : Load) (line : Nat → Byte) (next : Option RegAddr)
    (rest : List WritebackRequest) {count : Nat} (below : count < load.registers t) :
    (during t lineSize load line next count s).write rest (during t lineSize load line next count s).wbstate =
      .ok (.success, if count + 1 = load.registers t then after t lineSize load line next rest s
        else during t lineSize load line next (count + 1) s) := by
  have written : Function.update (wordsWritten load.rc (load.delayedWord t lineSize line) count s.regs) ⟨load.rc.type, load.rc.index + count⟩
      (.makeFull (word t (during t lineSize load line next count s).wbstate)) =
      wordsWritten load.rc (load.delayedWord t lineSize line) (count + 1) s.regs := wordsWritten_succ _ _ _ _
  have more : ¬ load.registers t ≤ count := Nat.not_le.mpr below
  simp only [during] at written
  simp only [write, during, more, if_false, finish, written]
  by_cases last : count + 1 = load.registers t
  · simp only [last, if_true, after, during, Nat.add_assoc]
    cases next with
    | none => rfl
    | some reg => rfl
  · simp only [last, if_false]
    rfl

/-- The first cycle of a load takes its value out of the line. The assertion
refuses a sign-extended load that is not smaller than a register. -/
theorem begin_load (decoded : load.Decoded t) (waits : Waits t lineSize load next s.regs) (req : WritebackRequest)
    (state : WritebackState) : s.begin req state load.rc =
      if load.ExtendsWithin t then .ok (some (during t lineSize load req.data next 0 s).wbstate)
      else .error .assertion := by
  obtain ⟨pending, memory⟩ := waits
  have positive := decoded.positive
  have notFull : ¬ ((s.regs load.rc).state = .full ∨ load.size = 0) := by
    rcases pending with pending | pending <;> rw [pending] <;> simp <;> omega
  have waiting : ¬ ((s.regs load.rc).state ≠ .pending ∧ (s.regs load.rc).state ≠ .waiting) := by
    rintro ⟨one, two⟩
    exact pending.elim one two
  have power : ¬ (load.registers t &&& (load.registers t - 1) ≠ 0) := by
    rcases decoded.one_or_two with one | ⟨two, _, _⟩
    · rw [one]; decide
    · rw [two]; decide
  simp only [Load.registers] at power
  simp only [begin, memory, memoryStageDelayed, notFull, waiting, if_false]
  by_cases within : load.ExtendsWithin t
  · have small : ¬ (load.signExtend = true ∧ t.sizeofInteger ≤ load.size) := fun both => by
      have less := within both.1
      omega
    simp only [within, small, power, if_false, if_true]
    rfl
  · have wide : load.signExtend = true ∧ t.sizeofInteger ≤ load.size := by
      simpa [Load.ExtendsWithin] using within
    simp only [within, wide, if_false]
    rfl

theorem cycle_begin {req : WritebackRequest} (turn : Turn s req rest load.rc) (decoded : load.Decoded t)
    (waits : Waits t lineSize load next s.regs) : s.doReadWritebacks true =
      if load.ExtendsWithin t then
        .ok (.success, if 1 = load.registers t then after t lineSize load req.data next rest s
          else during t lineSize load req.data next 1 s)
      else .error .assertion := by
  have positive : 0 < load.registers t := by
    rcases decoded.one_or_two with one | ⟨two, _, _⟩ <;> omega
  have first := write_during s lineSize load req.data next rest positive
  have nothing : (during t lineSize load req.data next 0 s).regs = s.regs := wordsWritten_zero _ _ _
  simp only [doReadWritebacks, Bool.not_true, Bool.false_eq_true, if_false, turn.front, turn.idle, if_true, turn.next,
    begin_load decoded waits]
  by_cases within : load.ExtendsWithin t
  · simp only [within, if_true]
    rw [← first]
    simp only [write, finish, nothing]
    rfl
  · simp only [within, if_false]

/-- The cycles of one load. -/
theorem cycles_load {req : WritebackRequest} (turn : Turn s req rest load.rc) (decoded : load.Decoded t)
    (waits : Waits t lineSize load next s.regs) : s.cycles (List.replicate (load.registers t) true) =
      if load.ExtendsWithin t then .ok (after t lineSize load req.data next rest s) else .error .assertion := by
  by_cases within : load.ExtendsWithin t
  · simp only [within, if_true]
    rcases decoded.one_or_two with one | ⟨two, _, _⟩
    · simp [one, cycles, cycle_begin turn decoded waits, within]
    · have more : ¬ 1 = load.registers t := by omega
      have second := write_during s lineSize load req.data next rest (show 1 < load.registers t by omega)
      have running : (during t lineSize load req.data next 1 s).doReadWritebacks true =
          (during t lineSize load req.data next 1 s).write rest (during t lineSize load req.data next 1 s).wbstate := by
        have unfinished : (during t lineSize load req.data next 1 s).wbstate.offset ≠
            (during t lineSize load req.data next 1 s).wbstate.size := more
        have front : (during t lineSize load req.data next 1 s).writebacks = req :: rest := turn.front
        simp only [doReadWritebacks, front, unfinished, Bool.not_true, Bool.false_eq_true, if_false]
      simp [two, List.replicate, cycles, cycle_begin turn decoded waits, within, running, second]
  · obtain ⟨n, some⟩ : ∃ n, load.registers t = n + 1 := by
      rcases decoded.one_or_two with one | ⟨two, _, _⟩
      · exact ⟨0, one⟩
      · exact ⟨1, two⟩
    simp only [some, List.replicate_succ, cycles, cycle_begin turn decoded waits, within, if_false]

end OneLoad

/-- The loads that wait for a line, in the order of the chain: each register
holds what is remembered of its load, with the register of the next one. -/
def Linked (t : Target) (lineSize : Nat) (regs : RegAddr → RegValue t) : List Load → Prop
  | [] => True
  | load :: later => Waits t lineSize load (later.head?.map Load.rc) regs ∧ Linked t lineSize regs later

/-- The decoder has checked that the registers of a load are not pending, so
that no register is the target of two loads. -/
def Apart (t : Target) (loads : List Load) : Prop :=
  loads.Pairwise fun load other => ∀ addr : RegAddr,
    addr.Within load.rc (load.registers t) → ¬ addr.Within other.rc (other.registers t)

/-- All loads have written their words. -/
def allWritten (words : Load → Nat → Integer t) (loads : List Load) (regs : RegAddr → RegValue t) :
    RegAddr → RegValue t :=
  loads.foldl (fun regs load => wordsWritten load.rc (words load) (load.registers t) regs) regs

/-- The registers after all the loads have hit in the cache. -/
def hits (t : Target) (lineSize : Nat) (line : Nat → Byte) (loads : List Load) (regs : RegAddr → RegValue t) :
    RegAddr → RegValue t :=
  loads.foldl (fun regs load =>
    writebackAll t load.rc (memoryStageSuccess t load (load.bytes lineSize line)) regs) regs

section Chain
variable {lineSize : Nat} {line : Nat → Byte} {loads : List Load}

theorem base_within {load : Load} (decoded : load.Decoded t) : load.rc.Within load.rc (load.registers t) := by
  have positive : 0 < load.registers t := by
    rcases decoded.one_or_two with one | ⟨two, _, _⟩ <;> omega
  exact ⟨rfl, Nat.le_refl _, by omega⟩

theorem Linked.congr {regs regs' : RegAddr → RegValue t} (linked : Linked t lineSize regs loads)
    (same : ∀ load ∈ loads, regs' load.rc = regs load.rc) : Linked t lineSize regs' loads := by
  induction loads with
  | nil => trivial
  | cons load later ih =>
    have first := same load List.mem_cons_self
    exact ⟨⟨first ▸ linked.1.state, first ▸ linked.1.memory⟩,
      ih linked.2 fun other member => same other (List.mem_cons_of_mem _ member)⟩

theorem allWritten_cons (words : Load → Nat → Integer t) (load : Load) (regs : RegAddr → RegValue t) :
    allWritten words (load :: loads) regs =
      allWritten words loads (wordsWritten load.rc (words load) (load.registers t) regs) := rfl

/-- Registers outside the operands of all loads stay as they are. -/
theorem allWritten_outside {words : Load → Nat → Integer t} {regs : RegAddr → RegValue t} {addr : RegAddr}
    (outside : ∀ load ∈ loads, ¬ addr.Within load.rc (load.registers t)) : allWritten words loads regs addr = regs addr := by
  induction loads generalizing regs with
  | nil => rfl
  | cons load later ih =>
    rw [allWritten_cons, ih fun other member => outside other (List.mem_cons_of_mem _ member)]
    exact if_neg (outside load List.mem_cons_self)

/-- The registers of a load hold its words, because no later load writes them. -/
theorem allWritten_inside {words : Load → Nat → Integer t} {regs : RegAddr → RegValue t} (apart : Apart t loads)
    {load : Load} (member : load ∈ loads) {addr : RegAddr} (inside : addr.Within load.rc (load.registers t)) :
    allWritten words loads regs addr = .makeFull (words load (addr.index - load.rc.index)) := by
  induction loads generalizing regs with
  | nil => cases member
  | cons first later ih =>
    obtain ⟨separate, rest⟩ := List.pairwise_cons.mp apart
    rw [allWritten_cons]
    rcases List.mem_cons.mp member with rfl | among
    · rw [allWritten_outside fun other among => separate other among addr inside]
      exact if_pos inside
    · exact ih rest among

theorem hits_eq_allWritten (decoded : ∀ load ∈ loads, load.Decoded t) (regs : RegAddr → RegValue t) :
    hits t lineSize line loads regs = allWritten (fun load => load.hitWord t lineSize line) loads regs := by
  have positive : 0 < t.sizeofInteger := by cases t <;> decide
  induction loads generalizing regs with
  | nil => rfl
  | cons load later ih =>
    have operand : load.rcvSize / t.sizeofInteger = load.registers t := by
      rw [(decoded load List.mem_cons_self).operand, Nat.mul_div_cancel _ positive]
    have first : writebackAll t load.rc (memoryStageSuccess t load (load.bytes lineSize line)) regs =
        wordsWritten load.rc (load.hitWord t lineSize line) (load.registers t) regs := by
      funext addr
      rw [writebackAll_full rfl, wordsWritten, ← operand]
      rfl
    rw [hits, List.foldl_cons, first, ← hits, allWritten_cons]
    exact ih (fun other member => decoded other (List.mem_cons_of_mem _ member)) _

/-- Two words for each register give the same registers only if they are the same. -/
theorem allWritten_inj {words words' : Load → Nat → Integer t} {regs : RegAddr → RegValue t} (apart : Apart t loads) :
    allWritten words loads regs = allWritten words' loads regs ↔
      ∀ load ∈ loads, ∀ k < load.registers t, words load k = words' load k := by
  constructor
  · intro same load member k below
    have inside : RegAddr.Within ⟨load.rc.type, load.rc.index + k⟩ load.rc (load.registers t) :=
      ⟨rfl, Nat.le_add_right _ _, Nat.add_lt_add_left below _⟩
    have here := congrFun same ⟨load.rc.type, load.rc.index + k⟩
    rw [allWritten_inside apart member inside, allWritten_inside apart member inside] at here
    rw [Nat.add_sub_cancel_left] at here
    exact congrArg RegValue.value here
  · intro same
    funext addr
    by_cases inside : ∃ load ∈ loads, addr.Within load.rc (load.registers t)
    · obtain ⟨load, member, within⟩ := inside
      rw [allWritten_inside apart member within, allWritten_inside apart member within, same load member]
      have upper := within.2.2
      have lower := within.2.1
      omega
    · have outside : ∀ load ∈ loads, ¬ addr.Within load.rc (load.registers t) :=
        fun load member within => inside ⟨load, member, within⟩
      rw [allWritten_outside outside, allWritten_outside outside]

/-- A load that the cache has delayed waits in front of the loads that waited
for the line before. -/
theorem linked_delayed {regs : RegAddr → RegValue t} {load : Load} (decoded : ∀ load' ∈ load :: loads, load'.Decoded t)
    (apart : Apart t (load :: loads)) (linked : Linked t lineSize regs loads) :
    Linked t lineSize
      (writebackAll t load.rc (memoryStageDelayed lineSize load (loads.head?.map Load.rc)) regs) (load :: loads) := by
  have positive : 0 < t.sizeofInteger := by cases t <;> decide
  have operand : load.rcvSize / t.sizeofInteger = load.registers t := by
    rw [(decoded load List.mem_cons_self).operand, Nat.mul_div_cancel _ positive]
  have written (addr : RegAddr) := foldl_registers_apply load.rc (fun i old => combineWaiting old
    (writebackValue t (memoryStageDelayed lineSize load (loads.head?.map Load.rc)) i)) (load.registers t) regs addr
  obtain ⟨separate, _⟩ := List.pairwise_cons.mp apart
  constructor
  · have base := base_within (decoded load List.mem_cons_self)
    have here := written load.rc
    rw [if_pos base, Nat.sub_self] at here
    have value : writebackAll t load.rc (memoryStageDelayed lineSize load (loads.head?.map Load.rc)) regs load.rc =
        combineWaiting (regs load.rc)
          (writebackValue t (memoryStageDelayed lineSize load (loads.head?.map Load.rc)) 0) := by
      rw [← here, ← operand]
      rfl
    by_cases waiting : (regs load.rc).state = .waiting
    · exact ⟨Or.inr (by rw [value]; simp [combineWaiting, writebackValue, memoryStageDelayed, PipeValue.makePending, waiting]),
        by rw [value]; simp [combineWaiting, writebackValue, memoryStageDelayed, PipeValue.makePending, waiting]⟩
    · exact ⟨Or.inl (by rw [value]; simp [combineWaiting, writebackValue, memoryStageDelayed, PipeValue.makePending, waiting]),
        by rw [value]; simp [combineWaiting, writebackValue, memoryStageDelayed, PipeValue.makePending, waiting]⟩
  · refine linked.congr fun other member => ?_
    have outside : ¬ other.rc.Within load.rc (load.registers t) := fun inside =>
      separate other member other.rc inside (base_within (decoded other (List.mem_cons_of_mem _ member)))
    have there := written other.rc
    rw [if_neg outside, ← operand] at there
    exact there

/-- A run of the process over a line: every load of the chain writes its words
and completes once, unless the assertion refuses one of them. -/
theorem cycles_chain {req : WritebackRequest} {rest : List WritebackRequest} {load : Load} {later : List Load}
    {s : ReadWritebacks t} (turn : Turn s req rest load.rc) (decoded : ∀ load' ∈ load :: later, load'.Decoded t)
    (linked : Linked t lineSize s.regs (load :: later)) (apart : Apart t (load :: later)) :
    s.cycles (List.replicate (((load :: later).map (Load.registers t)).sum) true) =
      if ∀ load' ∈ load :: later, load'.ExtendsWithin t then
        .ok ⟨rest, .initial, allWritten (fun load => load.delayedWord t lineSize req.data) (load :: later) s.regs,
          s.completed ++ (load :: later).map Load.fid⟩
      else .error .assertion := by
  have one := cycles_load turn (decoded load List.mem_cons_self) linked.1
  induction later generalizing load s with
  | nil => simpa [after, allWritten] using one
  | cons other later ih =>
    rw [List.map_cons, List.sum_cons, cycles_add, one]
    by_cases within : load.ExtendsWithin t
    · obtain ⟨separate, apartLater⟩ := List.pairwise_cons.mp apart
      have decodedLater (load') (member : load' ∈ other :: later) := decoded load' (List.mem_cons_of_mem _ member)
      have turn' : Turn (after t lineSize load req.data (some other.rc) rest s) req rest other.rc :=
        ⟨turn.front, rfl, rfl⟩
      have linked' : Linked t lineSize (after t lineSize load req.data (some other.rc) rest s).regs (other :: later) :=
        linked.2.congr fun load' member => if_neg fun inside =>
          separate load' member load'.rc inside (base_within (decodedLater load' member))
      have step := ih turn' decodedLater linked' apartLater (cycles_load turn' (decodedLater other List.mem_cons_self) linked'.1)
      simp only [within, if_true, Except.bind, List.head?_cons, Option.map_some]
      rw [step]
      by_cases laterWithin : ∀ load' ∈ other :: later, load'.ExtendsWithin t
      · have all : ∀ load' ∈ load :: other :: later, load'.ExtendsWithin t := List.forall_mem_cons.mpr ⟨within, laterWithin⟩
        rw [if_pos laterWithin, if_pos all]
        simp [after, allWritten_cons]
      · have notAll : ¬ ∀ load' ∈ load :: other :: later, load'.ExtendsWithin t := fun all =>
          laterWithin (List.forall_mem_cons.mp all).2
        rw [if_neg laterWithin, if_neg notAll]
    · have notAll : ¬ ∀ load' ∈ load :: other :: later, load'.ExtendsWithin t := fun all => within (all load List.mem_cons_self)
      rw [if_neg within, if_neg notAll]
      rfl

/-- The loads that wait for a line, in any number and with any cycles in which
the process is refused, end with the registers that hits would have written. -/
theorem delayed_load_eq_hit {req : WritebackRequest} {rest : List WritebackRequest} {load : Load} {later : List Load}
    {s : ReadWritebacks t} (available : List Bool) (turn : Turn s req rest load.rc)
    (decoded : ∀ load' ∈ load :: later, load'.Decoded t) (linked : Linked t lineSize s.regs (load :: later))
    (apart : Apart t (load :: later)) (enough : available.count true = ((load :: later).map (Load.registers t)).sum) :
    (∃ s', s.cycles available = .ok s' ∧ s'.writebacks = rest ∧
      s'.regs = hits t lineSize req.data (load :: later) s.regs) ↔
      ∀ load' ∈ load :: later, load'.Agrees t lineSize req.data := by
  rw [cycles_filter, enough, cycles_chain turn decoded linked apart, hits_eq_allWritten decoded]
  constructor
  · rintro ⟨s', done, _, regs⟩ load' member
    split at done
    · rename_i within
      cases done
      have words := (allWritten_inj apart).mp regs load' member
      have order := (Load.words_agree_iff (decoded load' member) (within load' member) lineSize req.data).mp
        fun k below => (words k below).symm
      exact ⟨order, within load' member⟩
    · cases done
  · intro agrees
    have within (load') (member : load' ∈ load :: later) := (agrees load' member).2
    refine ⟨_, if_pos within, rfl, (allWritten_inj apart).mpr fun load' member k below => ?_⟩
    exact ((Load.words_agree_iff (decoded load' member) (within load' member) lineSize req.data).mpr
      (agrees load' member).1 k below).symm

end Chain

/-- A sign-extended halfword of a big-endian target. -/
theorem delayed_load_eq_hit_halfword : ∃ regs, ∃ s' : ReadWritebacks .mips32,
    Linked .mips32 64 regs [⟨⟨.integer, 4⟩, 4, 2, 2, true, 0⟩] ∧
    cycles ⟨[⟨fun i => BitVec.ofNat 8 (240 + i), ⟨.integer, 4⟩⟩], .initial, regs, []⟩ [false, true] = .ok s' ∧
    s'.writebacks = [] ∧
    s'.regs = hits .mips32 64 (fun i => BitVec.ofNat 8 (240 + i)) [⟨⟨.integer, 4⟩, 4, 2, 2, true, 0⟩] regs := by
  have decoded : ∀ load ∈ [(⟨⟨.integer, 4⟩, 4, 2, 2, true, 0⟩ : Load)], load.Decoded .mips32 := by
    intro load member
    cases List.mem_singleton.mp member
    exact ⟨by decide, by decide, by decide⟩
  have apart : Apart .mips32 [(⟨⟨.integer, 4⟩, 4, 2, 2, true, 0⟩ : Load)] := List.pairwise_singleton _ _
  have linked := @linked_delayed .mips32 64 [] (fun _ => .makeEmpty .mips32) _ decoded apart trivial
  generalize writebackAll .mips32 _ _ _ = regs at linked
  obtain ⟨s', done, rest, same⟩ := (delayed_load_eq_hit
    (s := ⟨[⟨fun i => BitVec.ofNat 8 (240 + i), ⟨.integer, 4⟩⟩], .initial, regs, []⟩) [false, true] ⟨rfl, rfl, rfl⟩
    decoded linked apart (by decide)).mpr fun load member => by
      cases List.mem_singleton.mp member
      exact ⟨Or.inl rfl, fun _ => by decide⟩
  exact ⟨regs, s', linked, done, rest, same⟩

/-- Eight bytes that fill two registers of a little-endian target with four-byte
registers: the two paths write the words in opposite order. -/
theorem swapped_words : ∃ regs, ∃ s' : ReadWritebacks .mips32el,
    Linked .mips32el 64 regs [⟨⟨.integer, 4⟩, 8, 0, 8, false, 0⟩] ∧
    cycles ⟨[⟨fun i => BitVec.ofNat 8 i, ⟨.integer, 4⟩⟩], .initial, regs, []⟩ [true, true] = .ok s' ∧
    (s'.regs ⟨.integer, 4⟩).value.toNat = 0x03020100 ∧
    (hits .mips32el 64 (fun i => BitVec.ofNat 8 i) [⟨⟨.integer, 4⟩, 8, 0, 8, false, 0⟩] regs
      ⟨.integer, 4⟩).value.toNat = 0x07060504 := by
  have decoded : ∀ load ∈ [(⟨⟨.integer, 4⟩, 8, 0, 8, false, 0⟩ : Load)], load.Decoded .mips32el := by
    intro load member
    cases List.mem_singleton.mp member
    exact ⟨by decide, by decide, by decide⟩
  have apart : Apart .mips32el [(⟨⟨.integer, 4⟩, 8, 0, 8, false, 0⟩ : Load)] := List.pairwise_singleton _ _
  have linked := @linked_delayed .mips32el 64 [] (fun _ => .makeEmpty .mips32el) _ decoded apart trivial
  generalize writebackAll .mips32el _ _ _ = regs at linked
  have within : ∀ load ∈ [(⟨⟨.integer, 4⟩, 8, 0, 8, false, 0⟩ : Load)], load.ExtendsWithin .mips32el := by
    intro load member
    cases List.mem_singleton.mp member
    exact fun no => by cases no
  have base := base_within (decoded _ List.mem_cons_self)
  have done := cycles_chain (s := ⟨[⟨fun i => BitVec.ofNat 8 i, ⟨.integer, 4⟩⟩], .initial, regs, []⟩) ⟨rfl, rfl, rfl⟩
    decoded linked apart
  refine ⟨regs, _, linked, done.trans (if_pos within), ?_, ?_⟩
  · simp only [allWritten_inside apart List.mem_cons_self base]
    decide
  · rw [hits_eq_allWritten decoded, allWritten_inside apart List.mem_cons_self base]
    decide

end ReadWritebacks

end Mgsim.Drisc
