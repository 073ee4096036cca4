import Mathlib.Logic.Function.Basic
import Mgsim.Lib.Progress
import Mgsim.Drisc.DCache
import Mgsim.Drisc.RAUnit

namespace Mgsim.Drisc
open Mgsim.Lib

/-- `UnserializeInstruction`. -/
def unserializeInstruction (t : Target) (data : List Byte) : BitVec 32 :=
  if t.isBigEndian then data.foldl (fun i byte => (i <<< 8) ||| byte.setWidth 32) 0
  else data.foldr (fun byte i => (i <<< 8) ||| byte.setWidth 32) 0

/-- The configuration of the fetch stage and of the instruction cache. -/
structure FetchConf where
  controlBlockSize : Nat
  lineSize : Nat

/-- The checks of the constructor of the fetch stage. -/
def FetchConf.create (controlBlockSize lineSize : BitVec 64) : Except String FetchConf :=
  if controlBlockSize &&& ~~~(controlBlockSize - 1) ≠ controlBlockSize then .error "Control block size is not a power of two"
  else if 4 * 4 * 8 / 2 < controlBlockSize.toNat then
    .error "Control block size causes control word to be larger than an instruction"
  else if lineSize < controlBlockSize then .error "Control block size is larger than the cache line size"
  else .ok ⟨controlBlockSize.toNat, lineSize.toNat⟩

/-- The checks of the instruction cache on the size of its lines. -/
def LineSizeAccepted (t : Target) (lineSize : BitVec 64) : Prop :=
  RAUnit.isPowerOfTwo lineSize.toNat = true ∧ t.sizeofInteger ≤ lineSize.toNat

/-- An instruction that has been sent to the decode stage; `alone` tells that no other thread was active. A `MemAddr` has the
width of an `Integer`. -/
structure Sent (t : Target) where
  pc : Integer t
  instr : BitVec 32
  kill : Bool
  swch : Bool
  alone : Bool
  deriving DecidableEq

inductive FetchStatus
  | empty
  | idle
  | active
  | running
  deriving DecidableEq

/-- A thread, as far as the fetch stage has to do with it. The last three fields are a record: where it has started, what it
has sent that has not been flushed, and how much of it before it was switched in for the last time. -/
structure FetchingThread (t : Target) where
  status : FetchStatus
  pc : Integer t
  legacy : Bool
  start : Integer t
  sent : List (Sent t)
  entered : Nat

/-- The fetch stage with the thread table and the active queue; `tid` and `legacy` are those of its output latch. -/
structure FetchStage (t : Target) where
  threads : Nat → FetchingThread t
  activeThreads : List Nat
  tid : Nat
  legacy : Bool
  buffer : List Byte
  switched : Bool
  pc : Integer t

namespace FetchStage
variable {t : Target}

def initial (t : Target) : FetchStage t where
  threads _ := ⟨.empty, 0, false, 0, [], 0⟩
  activeThreads := []
  tid := 0
  legacy := false
  buffer := []
  switched := true
  pc := 0

/-- `Clear`. -/
def clear (s : FetchStage t) (tid : Nat) : FetchStage t := if s.tid = tid then { s with switched := true } else s

/-- The address of the cache line of an address. -/
def lineAddress (c : FetchConf) (pc : Integer t) : Integer t := pc - BitVec.ofNat _ (pc.toNat % c.lineSize)

/-- The bytes that the instruction cache has for a line. -/
def readLine (c : FetchConf) (program : Integer t → Byte) (address : Integer t) : List Byte :=
  (List.range c.lineSize).map fun k => program (address + BitVec.ofNat _ k)

/-- An instruction of the buffer. -/
def instruction (t : Target) (buffer : List Byte) (i : Nat) : BitVec 32 :=
  unserializeInstruction t ((buffer.drop (4 * i)).take 4)

/-- The control bits of an instruction, shifted to the lowest two bits of a word. -/
def control (c : FetchConf) (s : FetchStage t) (pc : Integer t) : BitVec 32 :=
  let offset := pc.toNat % c.lineSize
  let iInstr := offset / 4
  let iControl := (BitVec.ofNat 64 offset &&& -BitVec.ofNat 64 c.controlBlockSize).toNat / 4
  if s.legacy = false then instruction t s.buffer iControl >>> (2 * (iInstr - iControl)) else 0

/-- The second part of `OnCycle`: the instruction and its control bits. -/
def fetch (c : FetchConf) (s : FetchStage t) (pc : Integer t) (lastThread : Bool) : FetchStage t :=
  let iInstr := pc.toNat % c.lineSize / 4
  let nextPc := pc + 4
  let wantSwitch : Bool := control c s pc &&& 1 ≠ 0
  let kill : Bool := control c s pc &&& 2 ≠ 0
  let mustSwitch : Bool := kill || nextPc.toNat % c.lineSize = 0
  let swch := mustSwitch || wantSwitch && !lastThread
  let thread := s.threads s.tid
  { s with
    pc := nextPc
    switched := swch
    threads := Function.update s.threads s.tid
      { thread with sent := thread.sent ++ [⟨pc, instruction t s.buffer iInstr, kill, swch, lastThread⟩] } }

/-- Where a thread goes on: the control word of a block is skipped. -/
def entry (c : FetchConf) (thread : FetchingThread t) : Integer t :=
  if thread.legacy = false ∧ thread.pc.toNat % c.controlBlockSize = 0 then thread.pc + 4 else thread.pc

/-- The first part of `OnCycle`: the thread at the front of the active queue takes the stage. -/
def switchIn (c : FetchConf) (program : Integer t → Byte) (s : FetchStage t) (tid : Nat) (rest : List Nat) : FetchStage t :=
  let thread := s.threads tid
  { s with
    threads := Function.update s.threads tid { thread with status := .running, entered := thread.sent.length }
    activeThreads := rest
    tid := tid
    legacy := thread.legacy
    buffer := readLine c program (lineAddress c (entry c thread)) }

/-- `OnCycle`; `none` where it throws, or where the host divides by a control block size of zero. -/
def onCycle (c : FetchConf) (program : Integer t → Byte) (s : FetchStage t) : Option (FetchStage t) :=
  if s.switched then
    match s.activeThreads with
    | [] => some s
    | tid :: rest =>
      let thread := s.threads tid
      if thread.legacy = false ∧ c.controlBlockSize = 0 then none
      -- the line of the thread is the one that was fetched for its own address
      else if lineAddress c (entry c thread) ≠ lineAddress c thread.pc then none
      else some (fetch c (switchIn c program s tid rest) (entry c thread) rest.isEmpty)
  else some (fetch c s s.pc (s.activeThreads.isEmpty || s.activeThreads = [s.tid]))

/-- What happens to the threads. -/
inductive Event (t : Target)
  /-- a thread is created, at an address of an instruction -/
  | create (tid : Nat) (pc : Integer t) (legacy : Bool)
  /-- a thread whose line is in the cache is appended to the active queue -/
  | activate (tid : Nat)
  | cycle
  /-- the last instruction that a thread has sent leaves the pipeline -/
  | leave (tid : Nat)
  /-- an instruction of a running thread flushes those behind it; it is to be executed again, or not -/
  | flush (tid index : Nat) (again : Bool)

/-- The end of a thread's time in the pipeline. -/
def leaveThread (thread : FetchingThread t) : Option (FetchingThread t) :=
  match thread.sent.getLast? with
  | none => none
  | some last =>
    if thread.status = .running ∧ last.swch = true then
      some (if last.kill then { thread with status := .empty } else { thread with status := .idle, pc := last.pc + 4 })
    else none

def flushThread (thread : FetchingThread t) (index : Nat) (again : Bool) : Option (FetchingThread t) :=
  match thread.sent[index]? with
  | none => none
  | some cause =>
    if thread.status = .running ∧ thread.entered ≤ index then
      some { thread with
        status := .idle
        pc := if again then cause.pc else cause.pc + 4
        sent := thread.sent.take (if again then index else index + 1) }
    else none

def step (c : FetchConf) (program : Integer t → Byte) (s : FetchStage t) : Event t → Option (FetchStage t)
  | .create tid pc legacy =>
    if (s.threads tid).status = .empty ∧ pc.toNat % 4 = 0 then
      some { s with threads := Function.update s.threads tid ⟨.idle, pc, legacy, pc, [], 0⟩ }
    else none
  | .activate tid =>
    if (s.threads tid).status = .idle then
      some { s with
        threads := Function.update s.threads tid { s.threads tid with status := .active }
        activeThreads := s.activeThreads ++ [tid] }
    else none
  | .cycle => s.onCycle c program
  | .leave tid => (leaveThread (s.threads tid)).map fun thread => { s with threads := Function.update s.threads tid thread }
  | .flush tid index again => (flushThread (s.threads tid) index again).map fun thread =>
      clear { s with threads := Function.update s.threads tid thread } tid

/-- The instruction at an address of a program. -/
def word (program : Integer t → Byte) (pc : Integer t) : BitVec 32 :=
  unserializeInstruction t ((List.range 4).map fun k => program (pc + BitVec.ofNat _ k))

/-- The first word of a control block, when the family of a thread has control words. -/
def isControl (c : FetchConf) (legacy : Bool) (pc : Integer t) : Bool := !legacy && pc.toNat % c.controlBlockSize = 0

/-- A bit of the control word for an instruction. -/
def controlBit (c : FetchConf) (program : Integer t → Byte) (legacy : Bool) (pc : Integer t) (bit : Nat) : Bool :=
  !legacy && (word program (pc - BitVec.ofNat _ (pc.toNat % c.controlBlockSize))).getLsbD
    (2 * (pc.toNat % c.controlBlockSize / 4) + bit)

/-- An instruction has been sent as the program has it. It is the last one for now when its bits say so, except that the
wish to switch counts only among several threads, or at the end of its line. -/
structure Correct (c : FetchConf) (program : Integer t → Byte) (legacy : Bool) (e : Sent t) : Prop where
  instr : e.instr = word program e.pc
  kill : e.kill = controlBit c program legacy e.pc 1
  swch : e.swch = (controlBit c program legacy e.pc 1 || (e.pc + 4).toNat % c.lineSize = 0 ||
    controlBit c program legacy e.pc 0 && !e.alone)

/-- The words of a straight line from an address on that are not control words, among its first `m` words. -/
def straight (c : FetchConf) (legacy : Bool) (start : Integer t) (m : Nat) : List (Integer t) :=
  passing (fun k => start + BitVec.ofNat _ (4 * k)) (fun pc => !isControl c legacy pc) m

/-- All threads have been fetched as the program has it. -/
def Faithful (c : FetchConf) (program : Integer t → Byte) (s : FetchStage t) : Prop :=
  ∀ tid, (∃ m, (s.threads tid).sent.map Sent.pc = straight c (s.threads tid).legacy (s.threads tid).start m) ∧
    ∀ e ∈ (s.threads tid).sent, Correct c program (s.threads tid).legacy e

/-- A thread that goes on within its line is not at a control word, and a block has room for more than its control word. -/
def Proper (c : FetchConf) (s : FetchStage t) : Event t → Prop
  | .cycle =>
    if s.switched then ∀ tid ∈ s.activeThreads.head?, (s.threads tid).legacy = false → 8 ≤ c.controlBlockSize
    else s.legacy = false → s.pc.toNat % c.controlBlockSize ≠ 0
  | _ => True

end FetchStage
end Mgsim.Drisc
