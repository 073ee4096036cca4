import Mgsim.Lib.Run
import Mgsim.Drisc.Selector
import Mgsim.Drisc.System

namespace Mgsim.Drisc
open Mgsim.Lib Mgsim.Mmu

/-- The part of the configuration that shapes the data cache. -/
structure CacheConfig where
  assoc : Nat
  sets : Nat
  lineSize : Nat
  bufferSize : Nat
  bankSelector : String

/-- The constructor of the cache with the selector that it makes. -/
def DCache.configure (config : CacheConfig) : Except Fault DCache := do
  let selector ← BankSelector.makeSelector config.bankSelector config.sets
  DCache.create config.assoc config.sets config.lineSize config.bufferSize selector

namespace DCache

/-- The number of the physical line of an address. -/
def lineNumber (c : DCache) (addr : Addr) : Addr := addr / BitVec.ofNat 64 c.lineSize

/-- The address that `initiateMemoryRequest` sends to read the line of a physical address. -/
def requestAddress (c : DCache) (pAddr : Addr) : Addr :=
  let (_, setIndex, pTag) := c.splitAddress pAddr
  c.unsplitAddress 0 setIndex pTag

/-- The line of an address for the memory events, which take the first match. -/
def lineOf (c : DCache) (addr : Addr) : Option Nat :=
  let (_, setIndex, pTag) := c.splitAddress addr
  c.findLine setIndex pTag none

/-- The line that a translated `Read2` takes for a request to memory. -/
def takes (c : DCache) (pAddr : Addr) : Option Nat :=
  if (c.lineOf pAddr).any fun cid => (c.lines cid).state ≠ .invalid then none
  else if c.outgoing.HasRoom then c.getEmptyLine (c.splitAddress pAddr).2.1
  else none

/-- The line in which `Write2` stores its bytes. -/
def stores (c : DCache) (pAddr : Addr) : Option Nat :=
  (c.lineOf pAddr).filter fun cid => (c.lines cid).state = .full ∧ c.outgoing.HasRoom

/-- The line that takes the bytes of a completed memory read. -/
def fills (c : DCache) (addr : Addr) : Option Nat :=
  (c.lineOf addr).filter fun cid =>
    (c.lines cid).state ≠ .full ∧ (c.lines cid).processing = false ∧ c.readResponses.HasRoom

end DCache

/-- What an event does with the lines of the cache. `join`, `park` and `request` leave
the register of a load, or a creation for none, waiting on a line. -/
inductive Use
  | keep
  | join (cid : Nat) (reg : Option RegAddr) (pAddr : Addr)
  | park (cid : Nat) (reg : Option RegAddr) (address : Addr)
  | request (cid : Nat) (reg : Option RegAddr) (addr : Addr)
  | resolve (cid : Nat) (tlbData : TlbResultMessage) (addr : Addr)
  | merge (cid other : Nat) (tlbData : TlbResultMessage)
  | bytes (cid : Nat) (addr : Addr)
  | finish (cid : Nat)
  | deliver (request : WritebackRequest)

namespace DCache

/-- A load of a translated address. -/
def readUse (c : DCache) (pAddr : Addr) (size : Nat) (reg : Option RegAddr) : Use :=
  match (c.lineOf pAddr).filter fun cid => (c.lines cid).state ≠ .invalid with
  | some cid => if hasData (c.lines cid) (c.splitAddress pAddr).1 size then .keep else .join cid reg pAddr
  | none => ((c.takes pAddr).map fun cid => Use.request cid reg (c.requestAddress pAddr)).getD .keep

/-- The completed lookup of a parked line: it is given up for another line of its
tag, or asks for its bytes. -/
def completionUse (c : DCache) (tlbData : TlbResultMessage) (cid : Nat) : Use :=
  let pAddr := physicalAddress tlbData (c.lines cid).tlbOffset
  let (_, setIndex, pTag) := c.splitAddress pAddr
  match c.findLine setIndex pTag (some cid) with
  | some other => .merge cid other tlbData
  | none => .resolve cid tlbData (c.requestAddress pAddr)

end DCache

namespace Core

def readUse (s : Core) (contextId : BitVec 16) (address : Addr) (size : Nat) (reg : Option RegAddr) : Use :=
  match s.tlb.lookup s.drisc contextId address false with
  | .error _ => .keep
  | .ok out =>
    match out.result with
    | .failed => .keep
    | .delayed =>
      ((s.cache.getEmptyLine (s.cache.splitAddress address).2.1).map fun cid => Use.park cid reg address).getD .keep
    | .success => s.cache.readUse (physicalAddress out.res address) size reg

def writeUse (s : Core) (contextId : BitVec 16) (address : Addr) : Use :=
  match s.tlb.lookup s.drisc contextId address false with
  | .error _ => .keep
  | .ok out =>
    match out.result with
    | .success =>
      let pAddr := physicalAddress out.res address
      ((s.cache.stores pAddr).map fun cid => Use.bytes cid pAddr).getD .keep
    | _ => .keep

def lookupUse (s : Core) : Use :=
  match s.cache.lookupResponses.take? with
  | none => .keep
  | some (response, _) =>
    if response.cid = invalidCid then .keep
    else match response.tlbLineRef with
      | none => .keep
      | some ref =>
        match s.tlb.getLine ref with
        | .error _ => .keep
        | .ok (tlbData, _) => s.cache.completionUse tlbData response.cid.toNat

end Core

def System.use (s : System) : Event → Use
  | .read contextId address size reg => s.core.readUse contextId address size reg
  | .write _ contextId address _ _ => s.core.writeUse contextId address
  | .lookupResponses =>
    match s.core.doLookupResponses with
    | .ok (.success, _) => s.core.lookupUse
    | _ => .keep
  | .readResponses =>
    match s.core.cache.doReadResponses, s.core.cache.readResponses.take? with
    | .ok (.success, _), some (cid, _) => .finish cid.toNat
    | _, _ => .keep
  | .memoryRead addr _ => ((s.core.cache.fills addr).map fun cid => Use.bytes cid addr).getD .keep
  | .snoop addr _ _ => ((s.core.cache.lineOf addr).map fun cid => Use.bytes cid addr).getD .keep
  | .writebacks => (s.core.cache.writebacks.take?.map fun taken => Use.deliver taken.1).getD .keep
  | _ => .keep

/-- A processor with, for each cache line, the numbers of the physical lines whose
bytes it holds or has asked for. The list of a line that waits for its translation is empty. -/
structure Tracked where
  system : System
  content : Nat → List Addr

namespace Tracked

def initial (core : Core) : Tracked := ⟨.initial core, fun _ => []⟩

abbrev cache (t : Tracked) : DCache := t.system.core.cache

def contentAfter (t : Tracked) : Use → Nat → List Addr
  | .park cid _ _ | .merge cid _ _ => Function.update t.content cid []
  | .request cid _ addr => Function.update t.content cid [t.cache.lineNumber addr]
  | .resolve cid _ addr | .bytes cid addr =>
    Function.update t.content cid (t.cache.lineNumber addr :: t.content cid)
  | .keep | .join .. | .finish _ | .deliver _ => t.content

def step (t : Tracked) (e : Event) : Option Tracked :=
  (t.system.step e).map fun system => ⟨system, t.contentAfter (t.system.use e)⟩

/-- A completed read is put on the bus. -/
def readCompleted (t : Tracked) (addr : Addr) (data : Nat → Byte) : Bool × Tracked :=
  let (accepted, cache) := t.cache.onMemoryReadCompleted addr data
  (accepted, ⟨t.system.withCache cache, t.contentAfter (t.system.use (.memoryRead addr data))⟩)

def snooped (t : Tracked) (addr : Addr) (data : Nat → Byte) (mask : Nat → Bool) : Tracked :=
  ⟨t.system.withCache (t.cache.onMemorySnooped addr data mask), t.contentAfter (t.system.use (.snoop addr data mask))⟩

theorem step_memoryRead (t : Tracked) (addr : Addr) (data : Nat → Byte) :
    t.step (.memoryRead addr data) = some (t.readCompleted addr data).2 := rfl

theorem step_snoop (t : Tracked) (addr : Addr) (data : Nat → Byte) (mask : Nat → Bool) :
    t.step (.snoop addr data mask) = some (t.snooped addr data mask) := rfl

def line (t : Tracked) (cid : Nat) : CacheLine := t.cache.lines cid

/-- The set in which a line stands. -/
def setOf (t : Tracked) (cid : Nat) : Nat := cid / t.cache.assoc

/-- The line is in use, and its tag is the tag of a physical line. -/
def Tagged (t : Tracked) (cid : Nat) : Prop := (t.line cid).state ≠ .empty ∧ t.content cid ≠ []

/-- The line has sent a request whose completion has not arrived. -/
def Awaits (t : Tracked) (cid : Nat) : Prop :=
  t.Tagged cid ∧ (t.line cid).state ≠ .full ∧ (t.line cid).processing = false

instance (t : Tracked) (cid : Nat) : Decidable (t.Tagged cid) := inferInstanceAs (Decidable (_ ∧ _))
instance (t : Tracked) (cid : Nat) : Decidable (t.Awaits cid) := inferInstanceAs (Decidable (_ ∧ _ ∧ _))

end Tracked

/-- What the sets of the cache promise in a state: the tags of a set are different,
a tag identifies the physical line whose bytes are held or awaited, and the completion of
a read finds the line that has asked for it. -/
structure SetIntegrity (t : Tracked) : Prop where
  unique : ∀ cid other, t.Tagged cid → t.Tagged other → t.setOf cid = t.setOf other →
    (t.line cid).tag = (t.line other).tag → cid = other
  identifies : ∀ cid, (t.line cid).state ≠ .empty → ∀ number ∈ t.content cid,
    number = t.cache.selector.unmap (t.line cid).tag (t.setOf cid)
  finds : ∀ cid, t.Awaits cid → ∀ addr, t.cache.lineNumber addr ∈ t.content cid →
    t.cache.lineOf addr = some cid

/-- The uses that keep the sets in order. A line is parked in front of no line that
awaits bytes under the placeholder tag, a load does not take a second line beside an invalid
one, a parked line stands in the set of its physical address, and no bytes arrive at a parked line. -/
def Tracked.Allows (t : Tracked) : Use → Prop
  | .park cid _ _ => ∀ other ∈ t.cache.setLines (t.setOf cid), cid < other → t.Awaits other → (t.line other).tag ≠ 0
  | .request _ _ addr => t.cache.lineOf addr = none
  | .resolve cid _ addr => (t.cache.splitAddress addr).2.1 = t.setOf cid
  | .bytes cid _ => t.content cid ≠ []
  | .keep | .join .. | .merge .. | .finish _ | .deliver _ => True

instance (t : Tracked) (use : Use) : Decidable (t.Allows use) :=
  match use with
  | .park cid _ _ => inferInstanceAs (Decidable (∀ other ∈ t.cache.setLines (t.setOf cid), cid < other →
      t.Awaits other → (t.line other).tag ≠ 0))
  | .request _ _ addr => inferInstanceAs (Decidable (t.cache.lineOf addr = none))
  | .resolve cid _ addr => inferInstanceAs (Decidable ((t.cache.splitAddress addr).2.1 = t.setOf cid))
  | .bytes cid _ => inferInstanceAs (Decidable (t.content cid ≠ []))
  | .keep | .join .. | .merge .. | .finish _ | .deliver _ => inferInstanceAs (Decidable True)

def SetGuard (t : Tracked) (e : Event) : Prop := t.Allows (t.system.use e)

instance (t : Tracked) (e : Event) : Decidable (SetGuard t e) := inferInstanceAs (Decidable (t.Allows _))

end Mgsim.Drisc
