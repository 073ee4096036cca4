import Mgsim.Drisc.DCache
import Mgsim.Mmu.TlbUnique

namespace Mgsim.Drisc
open Mgsim.Lib Mgsim.Mmu

/-- Who waits for a translation: a load in its cache line, or a store that its
thread repeats. The number tells the loads of one line apart. -/
inductive Waiter
  | load (serial : Nat) (cid : BitVec 32)
  | store (id : Nat)
  deriving DecidableEq

/-- The cache line by which a waiter is notified. -/
def Waiter.cid : Waiter → BitVec 32
  | load _ cid => cid
  | store _ => invalidCid

/-- An answered miss: who was waiting for it, and the notifications it gave. -/
structure Resolution where
  waiters : List Waiter
  notified : List (BitVec 32)
  deriving DecidableEq

/-- A processor with the misses that its manager has not answered, the TLB
lines of the answers that its cache has not consumed, and who waits for which line. -/
structure System where
  core : Core
  misses : List Nat
  delivered : List LineRef
  waiters : Nat → List Waiter
  serial : Nat
  log : List Resolution

inductive Event
  | read (contextId : BitVec 16) (address : Addr) (size : Nat) (reg : Option RegAddr)
  | write (id : Nat) (contextId : BitVec 16) (address : Addr) (data : List Byte) (tid : Nat)
  | answer (msg : MgtMsg)
  | invalidate (msg : MgtMsg)
  | property (msg : MgtMsg)
  | lookupResponses
  | readResponses
  | memoryRead (address : Addr) (data : Nat → Byte)
  | snoop (address : Addr) (data : Nat → Byte) (mask : Nat → Bool)
  | memoryInvalidate (address : Addr)
  | outgoing
  | writebacks
  | transmit
  | endCycle

/-- The events by which the processor runs. The others are those of its memory. -/
def Event.IsLocal : Event → Bool
  | .memoryRead .. | .snoop .. | .memoryInvalidate .. | .outgoing => false
  | _ => true

/-- The system at the start, with no translation under way. -/
def System.initial (core : Core) : System := ⟨core, [], [], fun _ => [], 0, []⟩

namespace System

def withCache (s : System) (cache : DCache) : System := { s with core := { s.core with cache := cache } }

def withTlb (s : System) (tlb : Tlb) : System := { s with core := { s.core with tlb := tlb } }

/-- An access has been parked on the line that its lookup has left in `m_lastLine`;
the line was free before if the lookup has sent a miss. -/
def park (s : System) (core : Core) (ref : LineRef) (waiter : Waiter) : System :=
  let missed := !(s.core.tlb.line ref).is .pending
  { s with
    core := core
    serial := s.serial + 1
    misses := if missed then ref.line :: s.misses else s.misses
    waiters := Function.update s.waiters ref.line
      (if missed then [waiter]
        else if waiter ∈ s.waiters ref.line then s.waiters ref.line
        else s.waiters ref.line ++ [waiter]) }

/-- A miss has been answered. -/
def resolve (s : System) (core : Core) (line : Nat) (response : Tlb.Completion) : System :=
  let pushed := (s.core.cache.onTlbLookupCompleted response).1
  { s with
    core := core
    misses := s.misses.erase line
    delivered := if pushed then s.delivered ++ [response.tlbLineRef.getD ⟨0, line⟩] else s.delivered
    waiters := Function.update s.waiters line []
    log := s.log ++ [⟨s.waiters line, if pushed then [response.cid] else []⟩] }

/-- One event; `none` when it is not possible or ends the simulation. -/
def step (s : System) : Event → Option System
  | .read contextId address size reg =>
    match s.core.read2 contextId address size reg with
    | .error _ => none
    | .ok out =>
      match out.result, out.core.tlb.lastLine with
      | .delayed, some ref =>
        some (s.park out.core ref (.load s.serial (out.core.tlb.line ref).dLineRef))
      | _, _ => some { s with core := out.core }
  | .write id contextId address data tid =>
    match s.core.write2 contextId address data tid with
    | .error _ => none
    | .ok (result, core) =>
      match result, core.tlb.lastLine with
      | .active, some ref => some (s.park core ref (.store id))
      | _, _ => some { s with core := core }
  | .answer msg =>
    if msg.get .type = MgtMsgType.refill.value ∧ (msg.get .lineIndex).toNat ∈ s.misses then
      match s.core.tlb.onStoreMsg msg, s.core.onStoreMsg msg with
      | .ok (some (response, _)), .ok (_, core) =>
        some (s.resolve core (msg.get .lineIndex).toNat response)
      | .ok none, .ok (_, core) => some { s with core := core }
      | _, _ => none
    else none
  | .invalidate msg =>
    match s.core.tlb.onInvalidateMsg msg with
    | .ok tlb => some (s.withTlb tlb)
    | .error _ => none
  | .property msg =>
    match s.core.tlb.onPropertyMsg msg with
    | .ok tlb => some (s.withTlb tlb)
    | .error _ => none
  | .lookupResponses =>
    match s.core.doLookupResponses with
    | .ok (.success, core) => some { s with core := core, delivered := s.delivered.tail }
    | .ok (_, core) => some { s with core := core }
    | .error _ => none
  | .readResponses =>
    match s.core.cache.doReadResponses with
    | .ok (_, cache) => some (s.withCache cache)
    | .error _ => none
  | .memoryRead address data => some (s.withCache (s.core.cache.onMemoryReadCompleted address data).2)
  | .snoop address data mask => some (s.withCache (s.core.cache.onMemorySnooped address data mask))
  | .memoryInvalidate address => some (s.withCache (s.core.cache.onMemoryInvalidated address))
  | .outgoing => s.core.cache.outgoing.take?.map fun taken => s.withCache { s.core.cache with outgoing := taken.2 }
  | .writebacks =>
    s.core.cache.writebacks.take?.map fun taken => s.withCache { s.core.cache with writebacks := taken.2 }
  | .transmit => s.core.tlb.fifoOut.take?.map fun taken => s.withTlb { s.core.tlb with fifoOut := taken.2 }
  | .endCycle =>
    let cache := s.core.cache
    some { s with core := { s.core with
      tlb := { s.core.tlb with fifoOut := s.core.tlb.fifoOut.update }
      cache := { cache with
        lookupResponses := cache.lookupResponses.update, readResponses := cache.readResponses.update
        writebacks := cache.writebacks.update, outgoing := cache.outgoing.update }
      cycleNo := s.core.cycleNo + 1 } }

/-- The page of an access is being translated in this line. -/
structure PendingAt (s : System) (contextId : BitVec 16) (address : Addr) (ref : LineRef) : Prop where
  translated : s.core.tlb.enabled = true ∧ address.msb = false ∧ s.core.isMapped address s.core.cache.lineSize = false
  holds : s.core.tlb.Holds ref (contextId.setWidth 64) (address >>> (s.core.tlb.tables 0).offsetWidth)
  absent : (s.core.tlb.line ref).present = false

end System

end Mgsim.Drisc
