import Mgsim.Drisc.Register
import Mgsim.Mmu.Tlb

namespace Mgsim.Drisc
open Mgsim.Lib Mgsim.Mmu

inductive LineState
  | empty
  | loading
  | invalid
  | full
  deriving DecidableEq

abbrev Byte := BitVec 8

/-- A cache line; `waiting` is `none` for `INVALID_REG`. -/
structure CacheLine where
  tag : Addr
  data : Nat → Byte
  valid : Nat → Bool
  access : Nat
  waiting : Option RegAddr
  state : LineState
  processing : Bool
  create : Bool
  tlbOffset : Addr

def CacheLine.initial : CacheLine := ⟨0, fun _ => 0, fun _ => false, 0, none, .empty, false, false, 0⟩

/-- A request to memory. -/
structure Request where
  write : Bool
  address : Addr
  wid : Nat
  data : Nat → Byte
  mask : Nat → Bool

/-- The request by which the line of an address is read. -/
def readRequest (addr : Addr) : Request := ⟨false, addr, 0, fun _ => 0, fun _ => false⟩

/-- The byte that a store writes at an offset of its line. -/
def Request.byte? (request : Request) (i : Nat) : Option Byte :=
  if request.write = true ∧ request.mask i = true then some (request.data i) else none

/-- The byte that a store writes at an address. -/
def Request.patch (lineSize : Nat) (request : Request) (a : Addr) : Option Byte :=
  if (a - request.address).toNat < lineSize then request.byte? (a - request.address).toNat else none

structure WritebackRequest where
  data : Nat → Byte
  waiting : RegAddr

/-- `IBankSelector`: the split of a line address into tag and set index. -/
structure BankSelector where
  map : Addr → Addr × Nat
  unmap : Addr → Nat → Addr

structure DCache where
  assoc : Nat
  sets : Nat
  lineSize : Nat
  selector : BankSelector
  lines : Nat → CacheLine
  lookupResponses : Buffer Tlb.Completion
  readResponses : Buffer (BitVec 32)
  writebacks : Buffer WritebackRequest
  outgoing : Buffer Request

/-- The selector `DIRECT`, which the source writes with a shift and a mask for a
power of two, and with a division otherwise. -/
def BankSelector.direct (numBanks : Nat) : BankSelector where
  map address := (address / BitVec.ofNat 64 numBanks, address.toNat % numBanks)
  unmap tag index := tag * BitVec.ofNat 64 numBanks + BitVec.ofNat 64 index

/-- `INVALID_CID`. -/
def invalidCid : BitVec 32 := BitVec.allOnes 32

/-- The physical address that the cache forms: the page of a translation and the offset in it. -/
def physicalAddress (tlbData : TlbResultMessage) (address : Addr) : Addr :=
  tlbData.pAddr <<< tlbData.tlbOffsetWidth ||| (((1 : Addr) <<< tlbData.tlbOffsetWidth) - 1 &&& address)

/-- `PushRegister`: the line, and the register that was waiting before. No
valid register stands for the null pointer of bundle creation, too. -/
def pushRegister (line : CacheLine) (reg : Option RegAddr) : CacheLine × Option RegAddr :=
  match reg with
  | some reg => ({ line with waiting := some reg }, line.waiting)
  | none => ({ line with create := true }, none)

namespace DCache

/-- The constructor, with one size for all the buffers. -/
def create (assoc sets lineSize bufferSize : Nat) (selector : BankSelector) : Except Fault DCache :=
  if assoc = 0 ∨ assoc &&& (assoc - 1) ≠ 0 then .error (.invalidArgument "DCacheAssociativity is not a power of two")
  else if sets = 0 ∨ sets &&& (sets - 1) ≠ 0 then .error (.invalidArgument "DCacheNumSets is not a power of two")
  else if lineSize = 0 ∨ lineSize &&& (lineSize - 1) ≠ 0 then
    .error (.invalidArgument "CacheLineSize is not a power of two")
  else if lineSize < 8 then .error (.invalidArgument "CacheLineSize is less than 8.")
  else .ok ⟨assoc, sets, lineSize, selector, fun _ => CacheLine.initial, .empty (some bufferSize) 1,
    .empty (some bufferSize) 1, .empty (some bufferSize) 1, .empty (some bufferSize) 1⟩

def setLine (c : DCache) (cid : Nat) (line : CacheLine) : DCache :=
  { c with lines := Function.update c.lines cid line }

/-- `splitAddress`: offset in the line, set index and tag. -/
def splitAddress (c : DCache) (addr : Addr) : Nat × Nat × Addr :=
  let (tag, index) := c.selector.map (addr / BitVec.ofNat 64 c.lineSize)
  ((addr &&& BitVec.ofNat 64 (c.lineSize - 1)).toNat, index, tag)

def unsplitAddress (c : DCache) (cacheOffset setIndex : Nat) (pTag : Addr) : Addr :=
  c.selector.unmap pTag setIndex * BitVec.ofNat 64 c.lineSize + BitVec.ofNat 64 cacheOffset

/-- The lines of a set. -/
def setLines (c : DCache) (setIndex : Nat) : List Nat :=
  (List.range c.assoc).map fun i => setIndex * c.assoc + i

def findLine (c : DCache) (setIndex : Nat) (pTag : Addr) (ignore : Option Nat) : Option Nat :=
  (c.setLines setIndex).find? fun cid =>
    ignore ≠ some cid ∧ (c.lines cid).state ≠ .empty ∧ (c.lines cid).tag = pTag

def hasData (line : CacheLine) (offset size : Nat) : Bool :=
  line.state = .full || (List.range size).all fun i => line.valid (offset + i)

def resetLine (line : CacheLine) : CacheLine :=
  { line with processing := false, tag := 0, waiting := none, valid := fun _ => false }

/-- The loop of `getEmptyLine` with the replacement found so far. -/
def getEmptyLineFrom (c : DCache) : List Nat → Option Nat → Option Nat
  | [], replace => replace
  | cid :: rest, replace =>
    if (c.lines cid).state = .empty then some cid
    else if (c.lines cid).state = .full ∧
        replace.all (fun old => (c.lines cid).access < (c.lines old).access) then
      getEmptyLineFrom c rest (some cid)
    else getEmptyLineFrom c rest replace

def getEmptyLine (c : DCache) (setIndex : Nat) : Option Nat :=
  c.getEmptyLineFrom (c.setLines setIndex) none

/-- `initiateMemoryRequest` for a read. -/
def initiateRead (c : DCache) (setIndex : Nat) (pTag : Addr) : Option DCache :=
  (c.outgoing.push ⟨false, c.unsplitAddress 0 setIndex pTag, 0, fun _ => 0, fun _ => false⟩ 1).map
    fun outgoing => { c with outgoing := outgoing }

/-- `initiateMemoryRequest` for a write of some bytes of a line. -/
def initiateWrite (c : DCache) (cacheOffset setIndex : Nat) (pTag : Addr) (data : List Byte) (tid : Nat) :
    Option DCache :=
  (c.outgoing.push ⟨true, c.unsplitAddress 0 setIndex pTag, tid, fun i => data.getD (i - cacheOffset) 0,
      fun i => cacheOffset ≤ i && i < cacheOffset + data.length⟩ 1).map
    fun outgoing => { c with outgoing := outgoing }

/-- `initiateWriteback`: the signal to bundle creation, and the registers that wait for the line. -/
def initiateWriteback (c : DCache) (cid : Nat) : Option DCache :=
  let line := c.lines cid
  let c := c.setLine cid { line with create := false }
  match line.waiting with
  | none => some c
  | some reg => (c.writebacks.push ⟨line.data, reg⟩ 1).map fun writebacks => { c with writebacks := writebacks }

/-- `OnTLBLookupCompleted`, with its result. -/
def onTlbLookupCompleted (c : DCache) (response : Tlb.Completion) : Bool × DCache :=
  match c.lookupResponses.push response 1 with
  | some lookupResponses => (true, { c with lookupResponses := lookupResponses })
  | none => (false, c)

/-- `DoReadResponses`. -/
def doReadResponses (c : DCache) : Except Fault (Result × DCache) :=
  match c.readResponses.take? with
  | none => .error .assertion
  | some (cid, readResponses) =>
    let state := (c.lines cid.toNat).state
    if state ≠ .loading ∧ state ≠ .invalid then .error .assertion
    else match c.initiateWriteback cid.toNat with
      | none => .ok (.failed, c)
      | some c' =>
        let line := { c'.lines cid.toNat with
          waiting := none, state := if state = .invalid then .empty else .full }
        .ok (.success, { c'.setLine cid.toNat line with readResponses := readResponses })

/-- The line data of memory with the writes that are still in `m_outgoing`. -/
def mergeWrites (c : DCache) (addr : Addr) (data : Nat → Byte) : Nat → Byte :=
  c.outgoing.data.foldl (fun data p =>
    if p.write ∧ p.address = addr then fun i => if p.mask i then p.data i else data i else data) data

/-- `OnMemoryReadCompleted`. -/
def onMemoryReadCompleted (c : DCache) (addr : Addr) (data : Nat → Byte) : Bool × DCache :=
  let (_, setIndex, pTag) := c.splitAddress addr
  match c.findLine setIndex pTag none with
  | none => (true, c)
  | some cid =>
    let line := c.lines cid
    if line.state = .full ∨ line.processing then (true, c)
    else match c.readResponses.push (BitVec.ofNat 32 cid) 1 with
      | none => (false, c)
      | some readResponses =>
        let mdata := c.mergeWrites addr data
        let line := { line with
          data := fun i => if line.valid i then line.data i else mdata i
          valid := fun i => if i < c.lineSize then true else line.valid i
          processing := true }
        (true, { c.setLine cid line with readResponses := readResponses })

/-- `OnMemorySnooped`. -/
def onMemorySnooped (c : DCache) (addr : Addr) (data : Nat → Byte) (mask : Nat → Bool) : DCache :=
  let (_, setIndex, pTag) := c.splitAddress addr
  match c.findLine setIndex pTag none with
  | none => c
  | some cid =>
    let line := c.lines cid
    c.setLine cid { line with
      data := fun i => if mask i then data i else line.data i
      valid := fun i => if mask i then true else line.valid i }

/-- `OnMemoryInvalidated`. -/
def onMemoryInvalidated (c : DCache) (addr : Addr) : DCache :=
  let (_, setIndex, pTag) := c.splitAddress addr
  match c.findLine setIndex pTag none with
  | none => c
  | some cid =>
    match (c.lines cid).state with
    | .full => c.setLine cid { c.lines cid with state := .empty }
    | .loading => c.setLine cid { c.lines cid with state := .invalid }
    | _ => c

end DCache

/-- The data cache of a processor with its data TLB. -/
structure Core where
  tlb : Tlb
  cache : DCache
  isMapped : Addr → Nat → Bool
  cycleNo : Nat

inductive ExtendedResult
  | failed
  | delayed
  | success
  | active
  deriving DecidableEq

/-- What `Read2` returns, and stores through its pointers. -/
structure ReadOutcome where
  result : Result
  data : List Byte
  reg : Option RegAddr
  core : Core

namespace Core

def drisc (s : Core) : Mmu.Drisc := ⟨s.cache.lineSize, s.isMapped⟩

def setCacheLine (s : Core) (cid : Nat) (line : CacheLine) : Core :=
  { s with cache := s.cache.setLine cid line }

/-- The offset that `Read2` keeps for a load whose page is pending. The `&&` is
the logical one, so that only zero and one are left of the address. -/
def parkedOffset (tlb : Tlb) (address : Addr) : Addr :=
  if address ≠ 0 ∧ ~~~(BitVec.allOnes 64 <<< (tlb.tables (tlb.numTables - 1)).offsetWidth) ≠ (0 : Addr) then 1 else 0

/-- `Read2` on a translated address: the cases 1 to 5. -/
def readTranslated (s : Core) (tlbData : TlbResultMessage) (address : Addr) (size : Nat) (reg : Option RegAddr) :
    Except Fault ReadOutcome :=
  let (cacheOffset, setIndex, pTag) := s.cache.splitAddress (physicalAddress tlbData address)
  if !tlbData.read then .error (.securityException "Attempting to read from non-readable memory")
  else
    let found := (s.cache.findLine setIndex pTag none).filter fun cid => (s.cache.lines cid).state ≠ .invalid
    match found with
    | some cid =>
      let line := { s.cache.lines cid with access := s.cycleNo }
      if DCache.hasData line cacheOffset size then
        .ok ⟨.success, (List.range size).map fun i => line.data (cacheOffset + i), reg, s.setCacheLine cid line⟩
      else
        let (line, reg) := pushRegister line reg
        .ok ⟨.delayed, [], reg, s.setCacheLine cid line⟩
    | none =>
      match s.cache.getEmptyLine setIndex with
      | none => .ok ⟨.failed, [], reg, s⟩
      | some cid =>
        match s.cache.initiateRead setIndex pTag with
        | none => .ok ⟨.failed, [], reg, s⟩
        | some cache =>
          let line := { DCache.resetLine (s.cache.lines cid) with tag := pTag, state := .loading }
          let (line, reg) := pushRegister line reg
          .ok ⟨.delayed, [], reg, { s with cache := cache.setLine cid line }⟩

/-- `Read2`. -/
def read2 (s : Core) (contextId : BitVec 16) (address : Addr) (size : Nat) (reg : Option RegAddr) :
    Except Fault ReadOutcome := do
  let (cacheOffset, setIndex, _) := s.cache.splitAddress address
  if cacheOffset + size > s.cache.lineSize then
    throw (.invalidArgument "Address range crosses over cache line boundary")
  let out ← s.tlb.lookup s.drisc contextId address false
  match out.result with
  | .success => readTranslated { s with tlb := out.committed } out.res address size reg
  | .delayed =>
    match s.cache.getEmptyLine setIndex with
    | none => return ⟨.failed, [], reg, { s with tlb := out.checked }⟩
    | some cid =>
      let tlb ← out.committed.setDCacheReference (BitVec.ofNat 32 cid)
      let line := { DCache.resetLine (s.cache.lines cid) with
        tlbOffset := parkedOffset tlb address, state := .loading }
      let (line, reg) := pushRegister line reg
      return ⟨.delayed, [], reg, setCacheLine { s with tlb := tlb } cid line⟩
  | .failed => return ⟨.failed, [], reg, { s with tlb := out.checked }⟩

/-- `Write2` on a translated address. -/
def writeTranslated (s : Core) (tlbData : TlbResultMessage) (address : Addr) (data : List Byte) (tid : Nat) :
    Except Fault (ExtendedResult × Core) :=
  if !tlbData.write then .error (.securityException "Attempting to write to non-writable memory")
  else
    let (cacheOffset, setIndex, pTag) := s.cache.splitAddress (physicalAddress tlbData address)
    let request (cache : DCache) : ExtendedResult × Core :=
      match cache.initiateWrite cacheOffset setIndex pTag data tid with
      | none => (.failed, s)
      | some cache => (.delayed, { s with cache := cache })
    match s.cache.findLine setIndex pTag none with
    | none => .ok (request s.cache)
    | some cid =>
      let line := s.cache.lines cid
      if line.state = .loading ∨ line.state = .invalid then .ok (.failed, s)
      else .ok (request (s.cache.setLine cid { line with
        data := fun i => if cacheOffset ≤ i ∧ i < cacheOffset + data.length then data.getD (i - cacheOffset) 0
          else line.data i
        valid := fun i => if cacheOffset ≤ i ∧ i < cacheOffset + data.length then true else line.valid i }))

/-- `Write2`. A store that waits for its page is repeated by the pipeline. -/
def write2 (s : Core) (contextId : BitVec 16) (address : Addr) (data : List Byte) (tid : Nat) :
    Except Fault (ExtendedResult × Core) := do
  let (cacheOffset, _, _) := s.cache.splitAddress address
  if cacheOffset + data.length > s.cache.lineSize then
    throw (.invalidArgument "Address range crosses over cache line boundary")
  let out ← s.tlb.lookup s.drisc contextId address false
  match out.result with
  | .delayed =>
    let tlb ← out.committed.setDCacheReference invalidCid
    return (.active, { s with tlb := tlb })
  | .failed => return (.failed, { s with tlb := out.checked })
  | .success => writeTranslated { s with tlb := out.committed } out.res address data tid

/-- The rest of `DoLookupResponses` for a load whose translation has been
taken from the TLB. `cid` is its line. -/
def completeLoad (s : Core) (tlbData : TlbResultMessage) (cid : Nat) : Except Fault (Option Core) := do
  let line := s.cache.lines cid
  if line.state ≠ .loading then throw .assertion
  if !tlbData.read then
    throw (.securityException "Attempting to read from physical address through non-readable virtual address")
  let (_, setIndex, pTag) := s.cache.splitAddress (physicalAddress tlbData line.tlbOffset)
  match s.cache.findLine setIndex pTag (some cid) with
  | some other =>
    let (otherLine, _) := pushRegister (s.cache.lines other) line.waiting
    let cache := (s.cache.setLine other otherLine).setLine cid { line with waiting := none, state := .empty }
    if DCache.hasData otherLine 0 s.cache.lineSize then
      match cache.initiateWriteback other with
      | some cache => return some { s with cache := cache }
      | none =>
        -- the check phase looks at the register that was waiting before
        if (s.cache.lines other).waiting.isSome then return none else throw .assertion
    else return some { s with cache := cache }
  | none =>
    return (s.cache.initiateRead setIndex pTag).map fun cache =>
      { s with cache := cache.setLine cid { line with tag := pTag, state := .loading } }

/-- `DoLookupResponses`. -/
def doLookupResponses (s : Core) : Except Fault (Result × Core) := do
  match s.cache.lookupResponses.take? with
  | none => throw .assertion
  | some (response, lookupResponses) =>
    if !response.present then throw (.securityException "Page fault")
    let popped (s : Core) : Core := { s with cache := { s.cache with lookupResponses := lookupResponses } }
    if response.cid = invalidCid then return (.success, popped s)
    match response.tlbLineRef with
    | none => throw .assertion
    | some ref =>
      let (tlbData, tlb) ← s.tlb.getLine ref
      match ← completeLoad { s with tlb := tlb } tlbData response.cid.toNat with
      | none => return (.failed, s)
      | some s => return (.success, popped s)

/-- `onStoreMsg` with its call of the data cache, whose result it does not look at. -/
def onStoreMsg (s : Core) (msg : MgtMsg) : Except Fault (Result × Core) := do
  match ← s.tlb.onStoreMsg msg with
  | none => return (.failed, s)
  | some (response, tlb) => return (.success, { s with tlb := tlb, cache := (s.cache.onTlbLookupCompleted response).2 })

end Core

end Mgsim.Drisc
