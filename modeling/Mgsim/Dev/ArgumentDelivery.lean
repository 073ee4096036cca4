import Mathlib.Algebra.Ring.Nat
import Mgsim.Lib.Gather
import Mgsim.Dev.ArgumentFetch

namespace Mgsim.Dev.ArgumentFetch
open Mgsim.Lib
open Mgsim.Drisc (Target Integer)

variable {t : Target} {c : FetchSizes t} {memory : Nat → Integer t → Byte}

section Copies
variable {base address : Integer t} {device size n k : Nat} {data buffer : List Byte}

/-- What is left of the data of an answer when they have been cut at the end of an argument. -/
def cut (base : Integer t) (size : Nat) (address : Integer t) (n : Nat) : Nat :=
  if base.toNat ≤ address.toNat ∧ address.toNat < base.toNat + size then min n (base.toNat + size - address.toNat) else n

/-- An answer that starts in an argument has a byte of it. -/
def Reaches (base : Integer t) (size : Nat) (address : Integer t) (n k : Nat) : Prop :=
  base.toNat ≤ address.toNat ∧ address.toNat ≤ base.toNat + k ∧ base.toNat + k < address.toNat + n ∧ k < size

instance : Decidable (Reaches base size address n k) := inferInstanceAs (Decidable (_ ∧ _))

theorem cut_le : cut base size address n ≤ n := by
  unfold cut
  split_ifs
  · exact Nat.min_le_left _ _
  · exact Nat.le_refl n

/-- Data that do not cross the end of an argument are not cut. -/
theorem cut_eq (whole : base.toNat ≤ address.toNat → address.toNat < base.toNat + size →
    address.toNat + n ≤ base.toNat + size) : cut base size address n = n := by
  unfold cut
  split_ifs with starts
  · have fits := whole starts.1 starts.2
    omega
  · rfl

theorem width_le (t : Target) : 2 ^ (8 * t.sizeofInteger) ≤ 2 ^ 64 := by cases t <;> decide

theorem add_ofNat (a : Integer t) (j : Nat) : a + BitVec.ofNat _ j = BitVec.ofNat _ (a.toNat + j) := by
  rw [BitVec.ofNat_add, BitVec.ofNat_toNat, BitVec.setWidth_eq]

theorem getElem?_bytes (inside : k < size) :
    (bytes memory device address size)[k]? = some (memory device (address + BitVec.ofNat _ k)) := by
  rw [bytes, List.getElem?_map, List.getElem?_range inside]
  rfl

/-- The bytes that an answer has for an argument reach its buffer, and no others change. -/
theorem receive_bytes (memory : Nat → Integer t → Byte) (device : Nat) (below : size = 0 ∨ base.toNat + size < 2 ^ (8 * t.sizeofInteger)) (room : size ≤ buffer.length)
    {all : Nat} (within : n ≤ all) (inside : address.toNat + n < 2 ^ (8 * t.sizeofInteger)) :
    ∃ after, receive base size address (bytes memory device address all) n buffer = some (cut base size address n, after) ∧
      after.length = buffer.length ∧
      ∀ k, after[k]? = if Reaches base size address n k then some (memory device (base + BitVec.ofNat _ k)) else buffer[k]? := by
  have wide := width_le t
  have length : (bytes memory device address all).length = all := by rw [bytes, List.length_map, List.length_range]
  have limit : (base + BitVec.ofNat _ size).toNat = base.toNat + size := by
    rw [add_ofNat, BitVec.toNat_ofNat]
    have small := base.isLt
    exact Nat.mod_eq_of_lt (by omega)
  unfold receive cut
  simp only [BitVec.le_def, BitVec.lt_def, limit]
  by_cases starts : base.toNat ≤ address.toNat ∧ address.toNat < base.toNat + size
  · have rest : (base + BitVec.ofNat _ size - address).toNat = base.toNat + size - address.toNat := by
      rw [BitVec.toNat_sub_of_le (by rw [BitVec.le_def, limit]; omega), limit]
    have offset : (address - base).toNat = address.toNat - base.toNat := BitVec.toNat_sub_of_le starts.1
    have taken : (if base.toNat + size ≤ (address.toNat + n) % 2 ^ 64 then (base + BitVec.ofNat _ size - address).toNat else n) =
        min n (base.toNat + size - address.toNat) := by
      rw [rest, Nat.mod_eq_of_lt (by omega)]
      split_ifs <;> omega
    have part : ((bytes memory device address all).take (min n (base.toNat + size - address.toNat))).length =
        min n (base.toNat + size - address.toNat) := by
      rw [List.length_take, length]
      omega
    rw [if_pos starts, if_pos starts, taken, if_neg (by omega), offset]
    obtain ⟨after, done⟩ : ∃ after, copyInto buffer (address.toNat - base.toNat)
        ((bytes memory device address all).take (min n (base.toNat + size - address.toNat))) = some after :=
      ⟨_, if_pos (by omega)⟩
    refine ⟨after, by rw [done]; rfl, length_copyInto done, fun k => ?_⟩
    rw [getElem?_copyInto done, part]
    by_cases reaches : Reaches base size address n k
    · rw [if_pos reaches]
      obtain ⟨_, above, least, last⟩ := reaches
      rw [if_pos (by omega), List.getElem?_take_of_lt (by omega), getElem?_bytes (by omega), add_ofNat, add_ofNat]
      exact congrArg (fun a => some (memory device (BitVec.ofNat _ a))) (by omega)
    · rw [if_neg reaches, if_neg fun covered => reaches ⟨starts.1, by omega, by omega, by omega⟩]
  · rw [if_neg starts, if_neg starts]
    refine ⟨buffer, rfl, rfl, fun k => (if_neg ?_).symm⟩
    rintro ⟨first, above, least, last⟩
    exact starts ⟨first, by omega⟩

/-- A piece of an argument. -/
theorem transferSize_spec {offset total : Nat} (lines : 0 < c.lineSize.toNat) (left : offset < total)
    (below : base.toNat + total < 2 ^ (8 * t.sizeofInteger)) :
    (base + BitVec.ofNat _ offset).toNat = base.toNat + offset ∧
      0 < transferSize c offset total (base + BitVec.ofNat _ offset) ∧
      offset + transferSize c offset total (base + BitVec.ofNat _ offset) =
        min total (offset + (c.lineSize.toNat - (base.toNat + offset) % c.lineSize.toNat)) := by
  have place : (base + BitVec.ofNat _ offset).toNat = base.toNat + offset := by
    rw [add_ofNat, BitVec.toNat_ofNat]
    exact Nat.mod_eq_of_lt (by omega)
  have inside := Nat.mod_lt (base.toNat + offset) lines
  refine ⟨place, ?_, ?_⟩
  · rw [transferSize, place]
    omega
  · rw [transferSize, place]
    omega

theorem transferSize_zero (voffset : Integer t) : transferSize c 0 0 voffset = 0 := by
  rw [transferSize, Nat.sub_zero, Nat.zero_min, Nat.zero_min]

end Copies

variable {s s' : ArgumentFetch t} {req : IncomingRequest t} {rest : List (IncomingRequest t)}

section Definitions

def argument1 (memory : Nat → Integer t → Byte) (req : IncomingRequest t) (k : Nat) : Byte :=
  memory req.dcaDeviceId (req.arg1BaseAddress + BitVec.ofNat _ k)

def argument2 (memory : Nat → Integer t → Byte) (req : IncomingRequest t) (k : Nat) : Byte :=
  memory req.dcaDeviceId (req.arg2BaseAddress + BitVec.ofNat _ k)

def reaches1 (req : IncomingRequest t) (read : DCARead t) (k : Nat) : Prop :=
  Reaches req.arg1BaseAddress req.arg1Size read.address read.size k

/-- The data for the second argument have been cut at the end of the first one. -/
def reaches2 (req : IncomingRequest t) (read : DCARead t) (k : Nat) : Prop :=
  Reaches req.arg2BaseAddress req.arg2Size read.address (cut req.arg1BaseAddress req.arg1Size read.address read.size) k

/-- A read of a request, as far as it has to do with the memory. -/
structure Own (s : ArgumentFetch t) (req : IncomingRequest t) (read : DCARead t) : Prop where
  device : read.device = req.dcaDeviceId
  inside : read.address.toNat + read.size < 2 ^ (8 * t.sizeofInteger)
  request : read.request + s.incoming.length = s.queued.length

/-- How far the request at the front is, and how much of its arguments has been asked for. -/
inductive Phase (c : FetchSizes t) (s : ArgumentFetch t) (req : IncomingRequest t) : Nat → Nat → Prop
  | reading1 : s.fetchState = .reading1 → s.currentArgumentOffset < req.arg1Size ∨ s.currentArgumentOffset = 0 →
      s.activations = 1 → Phase c s req s.currentArgumentOffset 0
  | reading2 : s.fetchState = .reading2 → s.currentArgumentOffset < req.arg2Size ∨ s.currentArgumentOffset = 0 →
      s.currentArgumentOffset = 0 ∨ (req.arg2BaseAddress.toNat + s.currentArgumentOffset) % c.lineSize.toNat = 0 →
      s.activations = 1 → Phase c s req req.arg1Size s.currentArgumentOffset
  | finalize : s.fetchState = .finalize → s.activations = (if s.reads = [] then 1 else 0) →
      Phase c s req req.arg1Size req.arg2Size

/-- The reads of the request at the front, and what the buffers have of its arguments. -/
structure Fetching (c : FetchSizes t) (memory : Nat → Integer t → Byte) (s : ArgumentFetch t) (req : IncomingRequest t)
    (sent1 sent2 : Nat) : Prop where
  phase : Phase c s req sent1 sent2
  pending : s.numPendingDCAReads = s.reads.length
  own : ∀ read ∈ s.reads, Own s req read
  stored1 : Gathered (argument1 memory req) (reaches1 req) sent1 s.reads s.currentArgData1
  stored2 : Gathered (argument2 memory req) (reaches2 req) sent2 s.reads s.currentArgData2

/-- The device without a request. -/
structure Idle (s : ArgumentFetch t) : Prop where
  reading : s.fetchState = .reading1
  offset : s.currentArgumentOffset = 0
  pending : s.numPendingDCAReads = 0
  reads : s.reads = []
  inactive : s.activations = 0

structure Kept (c : FetchSizes t) (memory : Nat → Integer t → Byte) (s : ArgumentFetch t) : Prop where
  buffer1 : s.currentArgData1.length = c.maxArg1Size.toNat
  buffer2 : s.currentArgData2.length = c.maxArg2Size.toNat
  fits : ∀ req ∈ s.incoming, Fits c req
  order : s.served ++ s.ready ++ s.incoming.map (asked c memory) = s.queued.map (asked c memory)
  idle : s.incoming = [] → Idle s
  front : ∀ req rest, s.incoming = req :: rest → ∃ sent1 sent2, Fetching c memory s req sent1 sent2
  commands : s.disturbed = false → s.issued = s.queued ++ if s.queueEnabled then [s.inputLatch] else []

end Definitions

theorem Fits.room1 (fits : Fits c req) : req.arg1Size ≤ c.maxArg1Size.toNat := fits.size1 ▸ Nat.min_le_right _ _

theorem Fits.room2 (fits : Fits c req) : req.arg2Size ≤ c.maxArg2Size.toNat := fits.size2 ▸ Nat.min_le_right _ _

theorem Kept.lengths (kept : Kept c memory s) : s.served.length + s.ready.length + s.incoming.length = s.queued.length := by
  have lengths := congrArg List.length kept.order
  rwa [List.length_append, List.length_append, List.length_map, List.length_map] at lengths

theorem Kept.fetched (kept : Kept c memory s) : Fetched c memory s where
  served := ⟨s.ready ++ s.incoming.map (asked c memory), by rw [← List.append_assoc, kept.order]⟩
  answered read member := by
    have lengths := kept.lengths
    cases queue : s.incoming with
    | nil =>
      rw [(kept.idle queue).reads] at member
      cases member
    | cons req rest =>
      obtain ⟨_, _, fetching⟩ := kept.front req rest queue
      have number := (fetching.own read member).request
      omega
  commands := kept.commands

/-- A request that comes to the front of a device that has finished the one before. -/
theorem Fetching.start (reading : s.fetchState = .reading1) (offset : s.currentArgumentOffset = 0)
    (pending : s.numPendingDCAReads = 0) (reads : s.reads = []) (active : s.activations = 1) :
    Fetching c memory s req 0 0 where
  phase := by
    have phase := @Phase.reading1 t c s req reading (Or.inr offset) active
    rwa [offset] at phase
  pending := by rw [pending, reads, List.length_nil]
  own read member := by
    rw [reads] at member
    cases member
  stored1 := Gathered.zero
  stored2 := Gathered.zero

theorem Own.congr {read : DCARead t} (own : Own s req read)
    (lengths : s'.queued.length + s.incoming.length = s.queued.length + s'.incoming.length) : Own s' req read := by
  obtain ⟨device, inside, request⟩ := own
  exact ⟨device, inside, by omega⟩

/-- The fields that matter to the request at the front. -/
theorem Fetching.congr {sent1 sent2 : Nat} (fetching : Fetching c memory s req sent1 sent2)
    (state : s'.fetchState = s.fetchState) (offset : s'.currentArgumentOffset = s.currentArgumentOffset)
    (pending : s'.numPendingDCAReads = s.numPendingDCAReads) (reads : s'.reads = s.reads)
    (active : s'.activations = s.activations) (data1 : s'.currentArgData1 = s.currentArgData1)
    (data2 : s'.currentArgData2 = s.currentArgData2)
    (lengths : s'.queued.length + s.incoming.length = s.queued.length + s'.incoming.length) :
    Fetching c memory s' req sent1 sent2 where
  phase := by
    cases fetching.phase with
    | reading1 reading left one => exact offset ▸ .reading1 (state.trans reading) (by rwa [offset]) (active.trans one)
    | reading2 reading left line one =>
      exact offset ▸ .reading2 (state.trans reading) (by rwa [offset]) (by rwa [offset]) (active.trans one)
    | finalize waiting count => exact .finalize (state.trans waiting) (by rwa [active, reads])
  pending := by rw [pending, reads, fetching.pending]
  own read member := (fetching.own read (reads ▸ member)).congr lengths
  stored1 := by
    rw [reads, data1]
    exact fetching.stored1
  stored2 := by
    rw [reads, data2]
    exact fetching.stored2

section Reading

/-- The next piece of an argument, or nothing of an empty one. -/
theorem piece_cases {base : Integer t} {offset total : Nat} (lines : 0 < c.lineSize.toNat) (left : offset < total ∨ offset = 0)
    (below : total = 0 ∨ base.toNat + total < 2 ^ (8 * t.sizeofInteger)) :
    (total = 0 ∧ offset = 0 ∧ transferSize c offset total (base + BitVec.ofNat _ offset) = 0) ∨
      (offset < total ∧ base.toNat + total < 2 ^ (8 * t.sizeofInteger) ∧
        (base + BitVec.ofNat _ offset).toNat = base.toNat + offset ∧
        0 < transferSize c offset total (base + BitVec.ofNat _ offset) ∧
        offset + transferSize c offset total (base + BitVec.ofNat _ offset) =
          min total (offset + (c.lineSize.toNat - (base.toNat + offset) % c.lineSize.toNat))) := by
  rcases Nat.eq_zero_or_pos total with rfl | some
  · have start : offset = 0 := left.resolve_left (Nat.not_lt_zero _)
    rw [start]
    exact Or.inl ⟨rfl, rfl, transferSize_zero _⟩
  · have less : offset < total := left.elim id fun start => start ▸ some
    have fits := below.resolve_left (Nat.pos_iff_ne_zero.1 some)
    exact Or.inr ⟨less, fits, transferSize_spec lines less fits⟩

/-- The end of a line. -/
theorem add_lineSize_mod (lines : 0 < c.lineSize.toNat) (x : Nat) :
    (x + (c.lineSize.toNat - x % c.lineSize.toNat)) % c.lineSize.toNat = 0 := by
  have split := Nat.div_add_mod x c.lineSize.toNat
  have less := Nat.mod_lt x lines
  rw [show x + (c.lineSize.toNat - x % c.lineSize.toNat) = c.lineSize.toNat * (x / c.lineSize.toNat) + c.lineSize.toNat by omega,
    Nat.add_mod_right, Nat.mul_mod_right]

theorem gathered_sendRead {value : Nat → Byte} {covers : DCARead t → Nat → Prop} {sent sent' n device : Nat}
    {buffer : List Byte} {a : Integer t} (gathered : Gathered value covers sent s.reads buffer)
    (new : ∀ k, sent ≤ k → k < sent' → 0 < n ∧ covers ⟨device, a, n, s.queued.length - s.incoming.length⟩ k) :
    Gathered value covers sent' (s.sendRead device a n).reads buffer := by
  unfold sendRead
  dsimp only
  split_ifs with some
  · exact gathered.send fun k least below => (new k least below).2
  · exact fun k below => gathered k (Nat.lt_of_not_le fun least => some (new k least below).1)

theorem Fetching.sent {sent1 sent2 : Nat} (fetching : Fetching c memory s req sent1 sent2) (bound : s.incoming.length ≤ s.queued.length) {a : Integer t}
    {n : Nat} (inside : a.toNat + n < 2 ^ (8 * t.sizeofInteger)) :
    (s.sendRead req.dcaDeviceId a n).numPendingDCAReads = (s.sendRead req.dcaDeviceId a n).reads.length ∧
      ∀ read ∈ (s.sendRead req.dcaDeviceId a n).reads, Own s req read := by
  unfold sendRead
  dsimp only
  split_ifs with some
  · refine ⟨by rw [fetching.pending, List.length_append, List.length_singleton], fun read member => ?_⟩
    rcases List.mem_append.1 member with old | new
    · exact fetching.own read old
    · cases List.mem_singleton.1 new
      exact ⟨rfl, inside, Nat.sub_add_cancel bound⟩
  · exact ⟨fetching.pending, fetching.own⟩

theorem length_sendRead {device n : Nat} {a : Integer t} :
    (s.sendRead device a n).reads.length ≤ s.reads.length + min n 1 := by
  unfold sendRead
  dsimp only
  split_ifs
  · rw [List.length_append, List.length_singleton]
    omega
  · omega

theorem readArgument_more {device total : Nat} {base : Integer t}
    (more : s.currentArgumentOffset + transferSize c s.currentArgumentOffset total (base + BitVec.ofNat _ s.currentArgumentOffset) <
      total) : s.readArgument c device base total true =
        { s.sendRead device (base + BitVec.ofNat _ s.currentArgumentOffset)
            (transferSize c s.currentArgumentOffset total (base + BitVec.ofNat _ s.currentArgumentOffset)) with
          currentArgumentOffset := s.currentArgumentOffset +
            transferSize c s.currentArgumentOffset total (base + BitVec.ofNat _ s.currentArgumentOffset) } := by
  simp only [readArgument, Bool.true_eq_false, and_false, if_false, if_pos more]

theorem readArgument_first {device total : Nat} {base : Integer t} (reading : s.fetchState = .reading1)
    (last : ¬ s.currentArgumentOffset + transferSize c s.currentArgumentOffset total
      (base + BitVec.ofNat _ s.currentArgumentOffset) < total) : s.readArgument c device base total true =
        { s.sendRead device (base + BitVec.ofNat _ s.currentArgumentOffset)
            (transferSize c s.currentArgumentOffset total (base + BitVec.ofNat _ s.currentArgumentOffset)) with
          currentArgumentOffset := 0
          fetchState := .reading2 } := by
  simp only [readArgument, Bool.true_eq_false, and_false, if_false, if_neg last, reading, if_true]

theorem readArgument_second {device total : Nat} {base : Integer t} (reading : s.fetchState = .reading2)
    (last : ¬ s.currentArgumentOffset + transferSize c s.currentArgumentOffset total
      (base + BitVec.ofNat _ s.currentArgumentOffset) < total) : s.readArgument c device base total true =
        (let s' := s.sendRead device (base + BitVec.ofNat _ s.currentArgumentOffset)
            (transferSize c s.currentArgumentOffset total (base + BitVec.ofNat _ s.currentArgumentOffset))
        { s' with
          fetchState := .finalize
          activations := if 0 < s'.numPendingDCAReads then s'.activations - 1 else s'.activations }) := by
  simp only [readArgument, Bool.true_eq_false, and_false, if_false, if_neg last, reading, reduceCtorEq]

/-- The request at the front has got on by a step. -/
def Advanced (c : FetchSizes t) (memory : Nat → Integer t → Byte) (s s' : ArgumentFetch t) (req : IncomingRequest t) : Prop :=
  (∃ sent1 sent2, Fetching c memory s' req sent1 sent2) ∧
    s'.frontWork req + s'.reads.length < s.frontWork req + s.reads.length

/-- A step that reads the first argument. -/
theorem Fetching.read1 (lines : 0 < c.lineSize.toNat) (fits : Fits c req) (bound : s.incoming.length ≤ s.queued.length)
    (fetching : Fetching c memory s req s.currentArgumentOffset 0) (reading : s.fetchState = .reading1)
    (left : s.currentArgumentOffset < req.arg1Size ∨ s.currentArgumentOffset = 0) (one : s.activations = 1) :
    Advanced c memory s (s.readArgument c req.dcaDeviceId req.arg1BaseAddress req.arg1Size true) req := by
  have piece := piece_cases lines left fits.below1
  have more := @readArgument_more t c s req.dcaDeviceId req.arg1Size req.arg1BaseAddress
  have first := @readArgument_first t c s req.dcaDeviceId req.arg1Size req.arg1BaseAddress reading
  generalize transferSize c s.currentArgumentOffset req.arg1Size
    (req.arg1BaseAddress + BitVec.ofNat _ s.currentArgumentOffset) = n at piece more first
  generalize req.arg1BaseAddress + BitVec.ofNat _ s.currentArgumentOffset = a at piece more first
  have inside : a.toNat + n < 2 ^ (8 * t.sizeofInteger) := by
    have small := a.isLt
    omega
  obtain ⟨pending, own⟩ := fetching.sent bound inside
  have count := @length_sendRead t s req.dcaDeviceId n a
  have next : ∀ sent' ≤ s.currentArgumentOffset + n, sent' ≤ req.arg1Size →
      Gathered (argument1 memory req) (reaches1 req) sent' (s.sendRead req.dcaDeviceId a n).reads s.currentArgData1 := by
    intro sent' fewer all
    refine gathered_sendRead fetching.stored1 fun k least less => ⟨by omega, ?_, ?_, ?_, by omega⟩
    all_goals
      dsimp only
      omega
  by_cases goesOn : s.currentArgumentOffset + n < req.arg1Size
  · rw [more goesOn]
    refine ⟨⟨_, _, .reading1 reading (Or.inl goesOn) one, pending, fun read member => (own read member).congr rfl,
      next _ (le_refl _) goesOn.le, Gathered.zero⟩, ?_⟩
    simp only [frontWork, sendRead, reading] at count ⊢
    omega
  · rw [first goesOn]
    refine ⟨⟨_, _, .reading2 rfl (Or.inr rfl) (Or.inl rfl) one, pending, fun read member => (own read member).congr rfl,
      next _ (by omega) (le_refl _), Gathered.zero⟩, ?_⟩
    simp only [frontWork, sendRead, reading] at count ⊢
    omega

/-- A step that reads the second argument. -/
theorem Fetching.read2 (lines : 0 < c.lineSize.toNat) (fits : Fits c req) (bound : s.incoming.length ≤ s.queued.length)
    (fetching : Fetching c memory s req req.arg1Size s.currentArgumentOffset) (reading : s.fetchState = .reading2)
    (left : s.currentArgumentOffset < req.arg2Size ∨ s.currentArgumentOffset = 0)
    (line : s.currentArgumentOffset = 0 ∨ (req.arg2BaseAddress.toNat + s.currentArgumentOffset) % c.lineSize.toNat = 0)
    (one : s.activations = 1) :
    Advanced c memory s (s.readArgument c req.dcaDeviceId req.arg2BaseAddress req.arg2Size true) req := by
  have piece := piece_cases lines left fits.below2
  have more := @readArgument_more t c s req.dcaDeviceId req.arg2Size req.arg2BaseAddress
  have second := @readArgument_second t c s req.dcaDeviceId req.arg2Size req.arg2BaseAddress reading
  generalize transferSize c s.currentArgumentOffset req.arg2Size
    (req.arg2BaseAddress + BitVec.ofNat _ s.currentArgumentOffset) = n at piece more second
  generalize req.arg2BaseAddress + BitVec.ofNat _ s.currentArgumentOffset = a at piece more second
  have inside : a.toNat + n < 2 ^ (8 * t.sizeofInteger) := by
    have small := a.isLt
    omega
  obtain ⟨pending, own⟩ := fetching.sent bound inside
  have count := @length_sendRead t s req.dcaDeviceId n a
  -- the data of this piece are not cut at the end of the first argument
  have uncut : cut req.arg1BaseAddress req.arg1Size a n = n := by
    refine cut_eq fun least below => ?_
    rcases piece with ⟨_, _, none⟩ | ⟨some, _, address, _, size⟩
    · omega
    · have whole := fits.whole a.toNat (by omega) (by omega) (line.imp (fun start => by omega) fun start => address ▸ start)
        least below
      rw [address] at whole ⊢
      omega
  have next : ∀ sent' ≤ s.currentArgumentOffset + n, sent' ≤ req.arg2Size →
      Gathered (argument2 memory req) (reaches2 req) sent' (s.sendRead req.dcaDeviceId a n).reads s.currentArgData2 := by
    intro sent' fewer all
    refine gathered_sendRead fetching.stored2 fun k least less => ⟨by omega, ?_, ?_, ?_, by omega⟩
    all_goals
      dsimp only
      try rw [uncut]
      omega
  have other : Gathered (argument1 memory req) (reaches1 req) req.arg1Size (s.sendRead req.dcaDeviceId a n).reads
      s.currentArgData1 := gathered_sendRead fetching.stored1 fun k least less => absurd less (Nat.not_lt_of_le least)
  by_cases goesOn : s.currentArgumentOffset + n < req.arg2Size
  · rw [more goesOn]
    refine ⟨⟨_, _, .reading2 reading (Or.inl goesOn) (Or.inr ?_) one, pending, fun read member => (own read member).congr rfl,
      other, next _ (le_refl _) goesOn.le⟩, ?_⟩
    · obtain ⟨_, _, address, _, size⟩ := piece.resolve_left fun empty => by omega
      have ends := add_lineSize_mod lines (req.arg2BaseAddress.toNat + s.currentArgumentOffset)
      dsimp only
      rwa [show req.arg2BaseAddress.toNat + (s.currentArgumentOffset + n) = req.arg2BaseAddress.toNat + s.currentArgumentOffset +
        (c.lineSize.toNat - (req.arg2BaseAddress.toNat + s.currentArgumentOffset) % c.lineSize.toNat) by omega]
    · simp only [frontWork, sendRead, reading] at count ⊢
      omega
  · rw [second goesOn]
    refine ⟨⟨_, _, .finalize rfl ?_, pending, fun read member => (own read member).congr rfl, other,
      next _ (by omega) (le_refl _)⟩, ?_⟩
    · dsimp only
      rw [pending]
      cases (s.sendRead req.dcaDeviceId a n).reads with
      | nil => exact one
      | cons read more => exact congrArg (fun count => count - 1) one
    · simp only [frontWork, sendRead, reading] at count ⊢
      omega

end Reading

section Answers

theorem length_bytes {device size : Nat} {address : Integer t} : (bytes memory device address size).length = size := by
  rw [bytes, List.length_map, List.length_range]

/-- The state after an answer. -/
def answered (s : ArgumentFetch t) (i : Nat) (data1 data2 : List Byte) : ArgumentFetch t :=
  { s with
    reads := s.reads.eraseIdx i
    currentArgData1 := data1
    currentArgData2 := data2
    activations := if s.fetchState = .finalize ∧ s.numPendingDCAReads = 1 then s.activations + 1 else s.activations
    numPendingDCAReads := s.numPendingDCAReads - 1 }

/-- The last answer activates the process again. -/
theorem Phase.answered {sent1 sent2 i : Nat} {data1 data2 : List Byte} (phase : Phase c s req sent1 sent2)
    (pending : s.numPendingDCAReads = s.reads.length) (small : i < s.reads.length) :
    Phase c (s.answered i data1 data2) req sent1 sent2 := by
  cases phase with
  | reading1 reading left one =>
    refine .reading1 reading left ((if_neg fun both => ?_).trans one)
    cases reading.symm.trans both.1
  | reading2 reading left line one =>
    refine .reading2 reading left line ((if_neg fun both => ?_).trans one)
    cases reading.symm.trans both.1
  | finalize waiting count =>
    have some : s.reads ≠ [] := List.ne_nil_of_length_pos (by omega)
    have length := List.length_eraseIdx_of_lt small
    rw [if_neg some] at count
    refine .finalize waiting ?_
    unfold ArgumentFetch.answered
    dsimp only
    rw [count, pending]
    by_cases last : s.reads.length = 1
    · rw [if_pos ⟨waiting, last⟩, if_pos (List.eq_nil_of_length_eq_zero (by omega))]
    · rw [if_neg fun both => last both.2, if_neg (List.ne_nil_of_length_pos (by omega))]

/-- An answer fills its part of the buffers. -/
theorem Fetching.answer {sent1 sent2 i : Nat} (fits : Fits c req) (room1 : req.arg1Size ≤ s.currentArgData1.length)
    (room2 : req.arg2Size ≤ s.currentArgData2.length) (fetching : Fetching c memory s req sent1 sent2)
    (front : s.incoming = req :: rest) (small : i < s.reads.length) :
    ∃ data1 data2, step c memory s (.answer i) = some (s.answered i data1 data2) ∧
      data1.length = s.currentArgData1.length ∧ data2.length = s.currentArgData2.length ∧
      Fetching c memory (s.answered i data1 data2) req sent1 sent2 := by
  obtain ⟨read, found⟩ : ∃ read, s.reads[i]? = some read := ⟨_, List.getElem?_eq_getElem small⟩
  have own := fetching.own read (List.mem_of_getElem? found)
  obtain ⟨data1, first, length1, values1⟩ := receive_bytes memory read.device fits.below1 room1 (le_refl _) own.inside
  obtain ⟨data2, second, length2, values2⟩ := receive_bytes memory read.device fits.below2 room2
    (@cut_le t req.arg1BaseAddress read.address req.arg1Size read.size) (lt_of_le_of_lt (Nat.add_le_add_left cut_le _) own.inside)
  refine ⟨data1, data2, ?_, length1, length2, ?_, ?_, fun other member => ?_, ?_, ?_⟩
  · simp only [step, found, onReadResponseReceived, front, length_bytes, first, second, Option.bind_some, Option.map_some,
      ArgumentFetch.answered]
  · exact fetching.phase.answered fetching.pending small
  · exact (congrArg (fun count => count - 1) fetching.pending).trans (List.length_eraseIdx_of_lt small).symm
  · exact (fetching.own other (List.mem_of_mem_eraseIdx member)).congr rfl
  · rw [own.device] at values1
    refine fetching.stored1.answer found (fun k reaches => (values1 k).trans (if_pos reaches)) fun k => ?_
    rcases em (Reaches req.arg1BaseAddress req.arg1Size read.address read.size k) with reaches | other
    · exact Or.inl ((values1 k).trans (if_pos reaches))
    · exact Or.inr ((values1 k).trans (if_neg other))
  · rw [own.device] at values2
    refine fetching.stored2.answer found (fun k reaches => (values2 k).trans (if_pos reaches)) fun k => ?_
    rcases em (reaches2 req read k) with reaches | other
    · exact Or.inl ((values2 k).trans (if_pos reaches))
    · exact Or.inr ((values2 k).trans (if_neg other))

end Answers

section Steps

/-- What the request at the front does not change. -/
structure SameQueues (s s' : ArgumentFetch t) : Prop where
  incoming : s'.incoming = s.incoming
  ready : s'.ready = s.ready
  queued : s'.queued = s.queued
  served : s'.served = s.served
  latch : s'.inputLatch = s.inputLatch
  enabled : s'.queueEnabled = s.queueEnabled
  issued : s'.issued = s.issued
  disturbed : s'.disturbed = s.disturbed

theorem work_of_front (front : s.incoming = req :: rest) : s.work =
    (if s.queueEnabled then weight s.inputLatch + 1 else 0) + (s.frontWork req + (rest.map weight).sum) + s.reads.length +
      s.ready.length := by
  rw [work, front]

theorem work_of_idle (empty : s.incoming = []) : s.work =
    (if s.queueEnabled then weight s.inputLatch + 1 else 0) + 0 + s.reads.length + s.ready.length := by
  rw [work, empty]

theorem frontWork_start (reading : s.fetchState = .reading1) (offset : s.currentArgumentOffset = 0) :
    s.frontWork req = weight req := by
  rw [frontWork, reading]
  dsimp only
  rw [offset, weight, Nat.sub_zero]

/-- A step for the request at the front. -/
theorem Kept.advance (kept : Kept c memory s) (front : s.incoming = req :: rest) (same : SameQueues s s')
    (length1 : s'.currentArgData1.length = s.currentArgData1.length)
    (length2 : s'.currentArgData2.length = s.currentArgData2.length) (advanced : Advanced c memory s s' req) :
    Kept c memory s' ∧ s'.work < s.work := by
  obtain ⟨fetching, less⟩ := advanced
  have front' : s'.incoming = req :: rest := same.incoming.trans front
  refine ⟨⟨length1.trans kept.buffer1, length2.trans kept.buffer2, ?_, ?_, fun empty => ?_, fun other more queue => ?_, ?_⟩, ?_⟩
  · rw [same.incoming]
    exact kept.fits
  · rw [same.served, same.ready, same.incoming, same.queued]
    exact kept.order
  · cases front'.symm.trans empty
  · cases front'.symm.trans queue
    exact fetching
  · rw [same.disturbed, same.issued, same.queued, same.enabled, same.latch]
    exact kept.commands
  · rw [work_of_front front', work_of_front front, same.enabled, same.latch, same.ready]
    omega

theorem readArgument_same {device total : Nat} {base : Integer t} {accepted : Bool} :
    SameQueues s (s.readArgument c device base total accepted) ∧
      (s.readArgument c device base total accepted).currentArgData1 = s.currentArgData1 ∧
      (s.readArgument c device base total accepted).currentArgData2 = s.currentArgData2 := by
  unfold readArgument sendRead
  dsimp only
  split_ifs
  all_goals exact ⟨⟨rfl, rfl, rfl, rfl, rfl, rfl, rfl, rfl⟩, rfl, rfl⟩

/-- A refused read is tried again; nothing is refused of an empty argument. -/
theorem readArgument_refused {device total : Nat} {base : Integer t} {accepted : Bool} :
    (s.readArgument c device base total accepted = s ∧ accepted = false) ∨
      s.readArgument c device base total accepted = s.readArgument c device base total true := by
  cases accepted with
  | true => exact Or.inr rfl
  | false =>
    by_cases some : 0 < transferSize c s.currentArgumentOffset total (base + BitVec.ofNat _ s.currentArgumentOffset)
    · exact Or.inl ⟨if_pos ⟨some, rfl⟩, rfl⟩
    · refine Or.inr ((if_neg fun both => some both.1).trans (if_neg fun both => some both.1).symm)

theorem Kept.readArgument {device total : Nat} {base : Integer t} {accepted : Bool} (kept : Kept c memory s)
    (front : s.incoming = req :: rest) (advanced : Advanced c memory s (s.readArgument c device base total true) req) :
    Kept c memory (s.readArgument c device base total accepted) ∧
      (accepted = true → (s.readArgument c device base total accepted).work < s.work) := by
  rcases @readArgument_refused t c s device total base accepted with ⟨same, refused⟩ | same
  · rw [same, refused]
    exact ⟨kept, fun taken => by cases taken⟩
  · obtain ⟨frame, data1, data2⟩ := @readArgument_same t c s device total base true
    obtain ⟨after, less⟩ := kept.advance front frame (congrArg _ data1) (congrArg _ data2) advanced
    rw [same]
    exact ⟨after, fun _ => less⟩

/-- The arguments of the request at the front are complete. -/
theorem Fetching.complete (fits : Fits c req) (fetching : Fetching c memory s req req.arg1Size req.arg2Size)
    (reads : s.reads = []) :
    processRequest req (s.currentArgData1.take req.arg1Size) (s.currentArgData2.take req.arg2Size) = asked c memory req := by
  have stored1 := fetching.stored1
  have stored2 := fetching.stored2
  rw [reads] at stored1 stored2
  rw [stored1.complete, stored2.complete, asked, ← fits.size1, ← fits.size2]
  rfl

/-- The request at the front becomes ready. -/
theorem Kept.finalize (kept : Kept c memory s) (front : s.incoming = req :: rest)
    (fetching : Fetching c memory s req req.arg1Size req.arg2Size) (waiting : s.fetchState = .finalize)
    (reads : s.reads = []) (one : s.activations = 1) (accepted : Bool) :
    ∃ s', s.fetchFront c req rest accepted = some s' ∧ Kept c memory s' ∧
      (hasSpace c.readySize s.ready = true → s'.work < s.work) := by
  have fits : Fits c req := kept.fits req (front ▸ List.mem_cons_self)
  have room : ¬ (s.currentArgData1.length < req.arg1Size ∨ s.currentArgData2.length < req.arg2Size) := by
    rw [kept.buffer1, kept.buffer2]
    have room1 := fits.room1
    have room2 := fits.room2
    omega
  unfold fetchFront
  rw [waiting]
  dsimp only
  rw [if_neg room]
  by_cases space : hasSpace c.readySize s.ready = true
  · rw [if_pos space, fetching.complete fits reads]
    refine ⟨_, rfl, ⟨kept.buffer1, kept.buffer2, fun other member => ?_, ?_, fun empty => ?_, fun other more queue => ?_, kept.commands⟩,
      fun _ => ?_⟩
    · exact kept.fits other (front ▸ List.mem_cons_of_mem _ member)
    · have order := kept.order
      rw [front, List.map_cons] at order
      dsimp only
      rw [← List.append_assoc, List.append_assoc, List.singleton_append, order]
    · refine ⟨rfl, rfl, rfl, reads, ?_⟩
      dsimp only at empty ⊢
      rw [if_pos empty, one]
    · refine ⟨0, 0, .start rfl rfl rfl reads ?_⟩
      dsimp only at queue ⊢
      rw [queue, if_neg (List.cons_ne_nil _ _), one]
    · rw [work_of_front front, frontWork, waiting]
      cases more : rest with
      | nil =>
        rw [work_of_idle rfl]
        simp only [List.map_nil, List.sum_nil, List.length_append, List.length_singleton]
        omega
      | cons next others =>
        rw [work_of_front rfl, frontWork_start rfl rfl]
        simp only [List.map_cons, List.sum_cons, List.length_append, List.length_singleton]
        omega
  · rw [if_neg space]
    exact ⟨s, rfl, kept, fun full => absurd full space⟩

theorem Kept.argumentFetch (lines : 0 < c.lineSize.toNat) (kept : Kept c memory s) (accepted : Bool)
    (active : 0 < s.activations) : ∃ s', step c memory s (.argumentFetch accepted) = some s' ∧ Kept c memory s' ∧
      (accepted = true → hasSpace c.readySize s.ready = true → s'.work < s.work) := by
  cases front : s.incoming with
  | nil =>
    have none := (kept.idle front).inactive
    omega
  | cons req rest =>
    have fits : Fits c req := kept.fits req (front ▸ List.mem_cons_self)
    have bound : s.incoming.length ≤ s.queued.length := kept.lengths ▸ Nat.le_add_left _ _
    have taken : step c memory s (.argumentFetch accepted) = s.fetchFront c req rest accepted := by
      rw [step, doArgumentFetch, front]
    obtain ⟨sent1, sent2, fetching⟩ := kept.front req rest front
    rw [taken]
    cases fetching.phase with
    | reading1 reading left one =>
      obtain ⟨after, less⟩ := @Kept.readArgument _ _ _ _ _ _ _ _ _ accepted kept front
        (fetching.read1 lines fits bound reading left one)
      exact ⟨_, by rw [fetchFront, reading], after, fun yes _ => less yes⟩
    | reading2 reading left line one =>
      obtain ⟨after, less⟩ := @Kept.readArgument _ _ _ _ _ _ _ _ _ accepted kept front
        (fetching.read2 lines fits bound reading left line one)
      exact ⟨_, by rw [fetchFront, reading], after, fun yes _ => less yes⟩
    | finalize waiting count =>
      have reads : s.reads = [] := by
        by_contra some
        rw [if_neg some] at count
        omega
      rw [if_pos reads] at count
      obtain ⟨s', done, after, less⟩ := kept.finalize front fetching waiting reads count accepted
      exact ⟨s', done, after, fun _ => less⟩

theorem Kept.answer (kept : Kept c memory s) {i : Nat} (small : i < s.reads.length) :
    ∃ s', step c memory s (.answer i) = some s' ∧ Kept c memory s' ∧ s'.work < s.work := by
  cases front : s.incoming with
  | nil =>
    rw [(kept.idle front).reads] at small
    exact absurd small (Nat.not_lt_zero i)
  | cons req rest =>
    have fits : Fits c req := kept.fits req (front ▸ List.mem_cons_self)
    obtain ⟨sent1, sent2, fetching⟩ := kept.front req rest front
    obtain ⟨data1, data2, done, length1, length2, after⟩ := fetching.answer fits (kept.buffer1 ▸ fits.room1)
      (kept.buffer2 ▸ fits.room2) front small
    refine ⟨_, done, kept.advance front ⟨rfl, rfl, rfl, rfl, rfl, rfl, rfl, rfl⟩ length1 length2 ⟨⟨sent1, sent2, after⟩, ?_⟩⟩
    have length := List.length_eraseIdx_of_lt small
    unfold ArgumentFetch.answered frontWork
    dsimp only
    omega

end Steps

end Mgsim.Dev.ArgumentFetch
