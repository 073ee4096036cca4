import Mgsim.Lib.Chain
import Mgsim.Drisc.References

namespace Mgsim.Drisc
open Mgsim.Lib Mgsim.Mmu

namespace DCache

/-- The number of the physical line that the tag of a line names. -/
def lineName (c : DCache) (cid : Nat) : Addr := c.selector.unmap (c.lines cid).tag (cid / c.assoc)

/-- All bytes of a line are there. -/
def whole (c : DCache) (cid : Nat) : Bool := (List.range c.lineSize).all (c.lines cid).valid

end DCache

/-- Where the register of a load is: with no load, in the chain of a cache line, or
in the chain of a queued write-back. -/
inductive Place
  | idle
  | line (cid : Nat)
  | queued
  deriving DecidableEq

/-- A register that has been written back: the number of the physical line that its
load asked for, and that of the line from which its data was taken. -/
structure Writeback where
  reg : RegAddr
  wanted : Option Addr
  bound : Option Addr
  deriving DecidableEq

/-- A processor with its loads. `next` is the link that the memory stage stores in a
pending register, `source` the virtual address for which a line has been parked, and
`value` the line data for a queued register; the rest is history. -/
structure Ledger where
  tracked : Tracked
  next : RegAddr → Option RegAddr
  place : RegAddr → Place
  source : Nat → Addr
  wanted : RegAddr → Option Addr
  bound : RegAddr → Option Addr
  value : RegAddr → Nat → Byte
  pushed : List RegAddr
  written : List Writeback
  asking : Option Nat
  asked : Nat
  answered : Nat

namespace Ledger

def initial (core : Core) : Ledger where
  tracked := .initial core
  next _ := none
  place _ := .idle
  source _ := 0
  wanted _ := none
  bound _ := none
  value _ _ := 0
  pushed := []
  written := []
  asking := none
  asked := 0
  answered := 0

abbrev cache (l : Ledger) : DCache := l.tracked.system.core.cache

/-- A load is left waiting on a line; a load without register is for a bundle creation. -/
def push (l : Ledger) (cid : Nat) (reg returned : Option RegAddr) (wanted : Option Addr) : Ledger :=
  match reg with
  | some reg => { l with
      next := Function.update l.next reg returned
      place := Function.update l.place reg (.line cid)
      wanted := Function.update l.wanted reg wanted
      pushed := reg :: l.pushed }
  | none => { l with asking := some cid, asked := l.asked + 1 }

/-- The registers of a parked line are found to ask for this physical line. -/
def settle (l : Ledger) (cid : Nat) (number : Addr) : Ledger :=
  { l with wanted := fun reg => if l.place reg = .line cid then some number else l.wanted reg }

/-- The waiters of a line go over to another line. -/
def move (l : Ledger) (cid other : Nat) : Ledger :=
  { l with
    place := fun reg => if l.place reg = .line cid then .line other else l.place reg
    asking := if l.asking = some cid then some other else l.asking }

/-- `initiateWriteback`: the registers of a line get its data, and the creation is signalled. -/
def queue (l : Ledger) (cid : Nat) (create : Bool) : Ledger :=
  { l with
    place := fun reg => if l.place reg = .line cid then .queued else l.place reg
    bound := fun reg => if l.place reg = .line cid then
      (if l.cache.whole cid then some (l.cache.lineName cid) else none) else l.bound reg
    value := fun reg => if l.place reg = .line cid then (l.cache.lines cid).data else l.value reg
    asking := if l.asking = some cid then none else l.asking
    answered := l.answered + if create then 1 else 0 }

/-- The registers of a queued write-back are written. -/
def deliver (l : Ledger) (regs : List RegAddr) : Ledger :=
  { l with
    place := fun reg => if reg ∈ regs then .idle else l.place reg
    written := (regs.map fun reg => ⟨reg, l.wanted reg, l.bound reg⟩) ++ l.written }

/-- The register that `Read2` hands back, to which the memory stage links its own. -/
def returned (l : Ledger) : Event → Option RegAddr
  | .read contextId address size reg =>
    match l.tracked.system.core.read2 contextId address size reg with
    | .ok out => out.reg
    | .error _ => none
  | _ => none

/-- The loads after an event. `DoReadWritebacks` follows the links of the registers themselves. -/
def after (l : Ledger) (e : Event) : Use → Ledger
  | .keep | .bytes .. => l
  | .join cid reg pAddr => l.push cid reg (l.returned e) (some (l.cache.lineNumber pAddr))
  | .park cid reg address =>
    { l.push cid reg (l.returned e) none with source := Function.update l.source cid address }
  | .request cid reg addr => l.push cid reg (l.returned e) (some (l.cache.lineNumber addr))
  | .resolve cid tlbData _ => l.settle cid (l.cache.lineNumber (physicalAddress tlbData (l.source cid)))
  | .merge cid other tlbData =>
    let moved := (l.settle cid (l.cache.lineNumber (physicalAddress tlbData (l.source cid)))).move cid other
    if DCache.hasData (l.cache.lines other) 0 l.cache.lineSize then
      moved.queue other ((l.cache.hooks other).push (l.cache.hooks cid).waiting).create
    else moved
  | .finish cid => l.queue cid (l.cache.hooks cid).create
  | .deliver request => l.deliver (follow l.next l.pushed.length (some request.waiting))

def step (l : Ledger) (e : Event) : Option Ledger :=
  (l.tracked.step e).map fun tracked => { l.after e (l.tracked.system.use e) with tracked := tracked }

end Ledger

/-- The line is loading, or has been invalidated since. -/
def Shape.Live (shape : Shape) : Prop := shape.state = .loading ∨ shape.state = .invalid

instance (shape : Shape) : Decidable shape.Live := inferInstanceAs (Decidable (_ ∨ _))

/-- The first of the registers that wait for a line. A line that is not loading has no waiters;
its field may be left over. -/
def DCache.hanging (c : DCache) (cid : Nat) : Option RegAddr :=
  if (c.shapes cid).Live then (c.hooks cid).waiting else none

/-- Something is under way that will write the waiters of the line back: the
translation, the memory read, or the processing of the completed read. -/
def Tracked.Outstanding (t : Tracked) (cid : Nat) : Prop :=
  (t.content cid = [] ∧ BitVec.ofNat 32 cid ∈ t.system.references) ∨ t.Awaits cid ∨
    BitVec.ofNat 32 cid ∈ t.cache.readResponses.contents

/-- What the cache promises to the loads in a state. Every register that has been
left waiting is either written back or in one place, and in that place once; something is
under way for every line with a waiter; and what is or will be written is the whole of the
line that the load asked for. The creations are answered one by one. -/
structure WaitersKept (l : Ledger) : Prop where
  once : ∀ reg, l.pushed.count reg =
    (l.written.map Writeback.reg).count reg + if l.place reg = .idle then 0 else 1
  hung : ∀ cid, ∃ regs, Chain l.next (l.cache.hanging cid) regs ∧ regs.Nodup ∧
    ∀ reg, reg ∈ regs ↔ l.place reg = .line cid
  queued : ∃ chains, List.Forall₂ (fun request regs => Chain l.next (some request.waiting) regs ∧
      ∀ reg ∈ regs, request.data = l.value reg) l.cache.writebacks.contents chains ∧
    chains.flatten.Nodup ∧ ∀ reg, reg ∈ chains.flatten ↔ l.place reg = .queued
  outstanding : ∀ cid, ((∃ reg, l.place reg = .line cid) ∨ l.asking = some cid) → l.tracked.Outstanding cid
  coming : ∀ reg, l.place reg = .queued → l.bound reg = l.wanted reg ∧ (l.wanted reg).isSome
  loaded : ∀ writeback ∈ l.written, writeback.bound = writeback.wanted ∧ writeback.wanted.isSome
  created : l.asked = l.answered + if l.asking.isSome then 1 else 0
  flagged : ∀ cid, (l.cache.hooks cid).create = true ↔ l.asking = some cid

/-- A load may be left waiting: its register is not waiting already, and one creation
is under way at a time. -/
def Ledger.Free (l : Ledger) : Option RegAddr → Prop
  | some reg => l.place reg = .idle
  | none => l.asking = none

/-- The uses that lose or double no waiter. A load joins no parked line; the part of the address
that a parked line keeps leads to the line of its load; and a parked line is given up for a
full line, or for one without a register that is not complete, and without a creation of its own. -/
def Ledger.Careful (l : Ledger) : Use → Prop
  | .join cid reg _ => l.Free reg ∧ l.tracked.content cid ≠ []
  | .park _ reg _ | .request _ reg _ => l.Free reg
  | .resolve cid tlbData addr => l.cache.lineNumber (physicalAddress tlbData (l.source cid)) = l.cache.lineNumber addr
  | .merge cid other tlbData =>
    (l.cache.lineNumber (physicalAddress tlbData (l.source cid)) =
      l.cache.lineNumber (physicalAddress tlbData (l.cache.lines cid).tlbOffset) ∧ l.tracked.content other ≠ []) ∧
    ((l.cache.hooks cid).create = false ∧ (l.cache.hooks cid).waiting.isSome) ∧
    ((l.cache.lines other).state = .full ∨ ((l.cache.hooks other).waiting = none ∧
      DCache.hasData (l.cache.lines other) 0 l.cache.lineSize = false))
  | .keep | .bytes .. | .finish _ | .deliver _ => True

instance (l : Ledger) (reg : Option RegAddr) : Decidable (l.Free reg) :=
  match reg with
  | some reg => inferInstanceAs (Decidable (l.place reg = .idle))
  | none => inferInstanceAs (Decidable (l.asking = none))

instance (l : Ledger) (use : Use) : Decidable (l.Careful use) :=
  match use with
  | .join cid reg _ => inferInstanceAs (Decidable (l.Free reg ∧ l.tracked.content cid ≠ []))
  | .park _ reg _ | .request _ reg _ => inferInstanceAs (Decidable (l.Free reg))
  | .resolve cid tlbData addr => inferInstanceAs (Decidable
      (l.cache.lineNumber (physicalAddress tlbData (l.source cid)) = l.cache.lineNumber addr))
  | .merge .. => inferInstanceAs (Decidable ((_ ∧ _ ≠ []) ∧ (_ ∧ _) ∧ (_ ∨ _ ∧ _)))
  | .keep | .bytes .. | .finish _ | .deliver _ => inferInstanceAs (Decidable True)

/-- The steps that keep every waiter. -/
def WaiterGuard (l : Ledger) (e : Event) : Prop :=
  (SetGuard l.tracked e ∧ l.tracked.system.Lossless e) ∧ l.Careful (l.tracked.system.use e)

end Mgsim.Drisc
