import Mgsim.Lib.Buffer
import Mgsim.Mmu.MgtMsg
import Mgsim.Mmu.Table

namespace Mgsim.Mmu
open Mgsim.Lib

inductive Result
  | failed
  | delayed
  | success
  deriving DecidableEq

structure TlbResultMessage where
  pending : Bool
  read : Bool
  write : Bool
  pAddr : Addr
  tlbOffsetWidth : Nat
  deriving DecidableEq

/-- `TlbLineRef`, with indices for the two pointers. -/
structure LineRef where
  table : Nat
  line : Nat
  deriving DecidableEq

structure IoAddr where
  devid : BitVec 32
  chan : BitVec 32
  deriving DecidableEq

structure IoMsg where
  addr : IoAddr
  payload : BitVec 64
  deriving DecidableEq

/-- The rest of the processor as the TLB sees it: the line size of its data
cache and the memory administration behind `isMapped`. -/
structure Drisc where
  lineSize : Nat
  isMapped : Addr → Nat → Bool

structure Tlb where
  numTables : Nat
  tables : Nat → Table
  enabled : Bool
  ioDevId : BitVec 32
  mgtAddr : IoAddr
  fifoOut : Buffer IoMsg
  lastLine : Option LineRef

/-- A lookup with the effect of its check phase, which stays when the process
then fails, and the effect of its commit phase. -/
structure Lookup where
  result : Result
  res : TlbResultMessage
  checked : Tlb
  committed : Tlb

/-- The configuration of one table. -/
structure TableConfig where
  offsetSize : Nat
  numberOfLines : Nat
  evictionStrategy : EvictionStrategy

namespace Tlb

/-- The loop of the constructor over the first tables of a configuration. -/
def createTables (config : Nat → TableConfig) : Nat → Except Fault (Nat → Table)
  | 0 => .ok fun _ => default
  | i + 1 => do
    let tables ← createTables config i
    let table ← Table.create (config i).offsetSize (config i).numberOfLines (config i).evictionStrategy
    if i > 0 ∧ table.offsetWidth ≤ (tables (i - 1)).offsetWidth then
      throw (.invalidArgument "TLB tables must have ascending offset widths.")
    return Function.update tables i table

/-- The constructor; the number of tables is kept in eight bits. -/
def create (numberOfTables : Nat) (config : Nat → TableConfig) (ioDevId : BitVec 32) : Except Fault Tlb := do
  let numTables := numberOfTables % 256
  if numTables = 0 then throw (.invalidArgument "must have at least one table.")
  let tables ← createTables config numTables
  return ⟨numTables, tables, false, ioDevId, ⟨0, 2⟩, Buffer.empty (some 10) 4, none⟩

def setTable (tlb : Tlb) (k : Nat) (table : Table) : Tlb :=
  { tlb with tables := Function.update tlb.tables k table }

def line (tlb : Tlb) (ref : LineRef) : Line := (tlb.tables ref.table).lines ref.line

def setLine (tlb : Tlb) (ref : LineRef) (line : Line) : Tlb :=
  tlb.setTable ref.table ((tlb.tables ref.table).setLine ref.line line)

/-- The bits that a page of table `k` ignores in an address of table 0. -/
def shift (tlb : Tlb) (k : Nat) : Nat := (tlb.tables k).offsetWidth - (tlb.tables 0).offsetWidth

/-- One round of the loop of `doLookup`. -/
def lookupTable (contextId vAddr : Addr) (tag : LineTag) (found : Tlb × Option LineRef) (k : Nat) :
    Except Fault (Tlb × Option LineRef) :=
  let (tlb, discoveredEntry) := found
  match (tlb.tables k).lookup contextId (vAddr >>> tlb.shift k) tag with
  | (none, _) => .ok (tlb, discoveredEntry)
  | (some i, table) =>
    if discoveredEntry.isSome then .error (.domainError "vAddr exists in multiple tables!")
    else .ok (tlb.setTable k table, some ⟨k, i⟩)

def doLookup (tlb : Tlb) (contextId vAddr : Addr) (tag : LineTag) : Except Fault (Tlb × Option LineRef) :=
  (List.range tlb.numTables).foldlM (lookupTable contextId vAddr tag) (tlb, none)

/-- `sendMgtMsg`: part 1 goes first. Only one free slot is enough for the check
phase, and the commit phase then fails. -/
def sendMgtMsg (tlb : Tlb) (msg : MgtMsg) : Except Fault (Option (Buffer IoMsg)) :=
  match tlb.fifoOut.push ⟨tlb.mgtAddr, msg.part1⟩ 1 with
  | none => .ok none
  | some fifo =>
    match fifo.push ⟨tlb.mgtAddr, msg.part0⟩ 1 with
    | none => .error .assertion
    | some fifo => .ok (some fifo)

/-- The message that a miss sends. -/
def missMsg (tlb : Tlb) (contextId vAddr : Addr) (tableLineId : Nat) : MgtMsg :=
  (((((⟨0, 0⟩ : MgtMsg).put .type MgtMsgType.miss.value).putAddr vAddr).put .missContextId
    (contextId.setWidth 16)).put .lineIndex (BitVec.ofNat 24 tableLineId)).put .tlbType TlbType.dtlb.value
    |>.put .caller (tlb.ioDevId.setWidth 16)

def pendingResult : TlbResultMessage := ⟨true, false, false, 0, 0⟩

/-- The private `lookup`, on an address without its offset bits. -/
def lookupPage (tlb : Tlb) (contextId vAddr : Addr) (mayUnlock : Bool) : Except Fault Lookup := do
  let (found, ref) ← tlb.doLookup contextId vAddr .indexable
  match ref with
  | some ref =>
    let line := found.line ref
    if line.present = false then
      let found := { found with lastLine := some ref }
      return ⟨.delayed, pendingResult, found, found⟩
    else
      let found := { found with lastLine := none }
      let unlocked :=
        if line.locked && mayUnlock then found.setLine ref { line with locked := false } else found
      return ⟨.success, ⟨false, line.read, line.write, line.pAddr, (found.tables ref.table).offsetWidth⟩,
        found, unlocked⟩
  | none =>
    match (found.tables 0).storePending contextId vAddr with
    | none => return ⟨.failed, pendingResult, found, found⟩
    | some (tableLineId, table) =>
      match ← found.sendMgtMsg (found.missMsg contextId vAddr tableLineId) with
      | none => return ⟨.failed, pendingResult, found, found⟩
      | some fifo =>
        let found := { found with lastLine := some ⟨0, tableLineId⟩ }
        return ⟨.delayed, pendingResult, found, { found.setTable 0 table with fifoOut := fifo }⟩

def loopback (tlb : Tlb) (vAddr : Addr) : Lookup :=
  let tlb := { tlb with lastLine := none }
  ⟨.success, ⟨false, true, true, vAddr, 0⟩, tlb, tlb⟩

/-- `lookup`, on an address with its offset bits. -/
def lookup (tlb : Tlb) (drisc : Drisc) (contextId : BitVec 16) (vAddr : Addr) (mayUnlock : Bool) :
    Except Fault Lookup :=
  if !tlb.enabled then .ok (tlb.loopback vAddr)
  else if vAddr.msb then .ok (tlb.loopback vAddr)
  else if drisc.isMapped vAddr drisc.lineSize then
    if vAddr < 0x440000 ∨ (vAddr > 0x550000 ∧ vAddr < 0x200000000) ∨ vAddr ≥ 0x600000000 then
      .ok (tlb.loopback vAddr)
    else .error (.logicError "Address is both within TLB reserved space and is mapped to old-style Virtual Memory")
  else
    tlb.lookupPage (contextId.setWidth 64) (vAddr >>> (tlb.tables 0).offsetWidth) mayUnlock

/-- `getLine`: the translation of a locked line, and the line released. -/
def getLine (tlb : Tlb) (ref : LineRef) : Except Fault (TlbResultMessage × Tlb) :=
  let line := tlb.line ref
  if line.locked && line.present then
    .ok (⟨false, line.read, line.write, line.pAddr, (tlb.tables ref.table).offsetWidth⟩,
      tlb.setLine ref { line with locked := false })
  else .error .assertion

def setDCacheReference (tlb : Tlb) (dRef : BitVec 32) : Except Fault Tlb :=
  match tlb.lastLine with
  | none => .error .assertion
  | some ref =>
    if (tlb.line ref).present then .error .assertion
    else .ok (tlb.setLine ref { tlb.line ref with dLineRef := dRef })

/-- What `onStoreMsg` passes to `OnTLBLookupCompleted`. A page without an entry
has no line; the source passes the address and the context in its place. -/
structure Completion where
  cid : BitVec 32
  tlbLineRef : Option LineRef
  present : Bool
  deriving DecidableEq

/-- `onStoreMsg` up to its call of `OnTLBLookupCompleted`: `none` when the
refill has to be tried again. -/
def onStoreMsg (tlb : Tlb) (msg : MgtMsg) : Except Fault (Option (Completion × Tlb)) := do
  if msg.get .type ≠ MgtMsgType.refill.value then throw .assertion
  if tlb.numTables ≤ (msg.get .table).toNat then throw .assertion
  let tableId := tlb.numTables - 1 - (msg.get .table).toNat
  let lineIndex := (msg.get .lineIndex).toNat
  let read := (msg.get .read).getLsbD 0
  let write := (msg.get .write).getLsbD 0
  if msg.get .present = 0 then
    match ← (tlb.tables 0).getPending lineIndex with
    | none => throw (.domainError "Cannot find pending tlb entry")
    | some line => return some (⟨line.dLineRef, none, false⟩, tlb)
  else if tableId = 0 then
    let (dLineId, table) ← (tlb.tables 0).fillPending lineIndex read write msg.part1
    return some (⟨dLineId, some ⟨0, lineIndex⟩, true⟩, tlb.setTable 0 table)
  else
    match ← (tlb.tables 0).getPending lineIndex with
    | none => return none
    | some line =>
      match (tlb.tables tableId).storeNormal line.contextId (line.vAddr >>> tlb.shift tableId) msg.part1
        read write with
      | none => return none
      | some (i, table) =>
        let tlb := tlb.setTable tableId table
        let table ← (tlb.tables 0).releasePending lineIndex
        return some (⟨line.dLineRef, some ⟨tableId, i⟩, true⟩, tlb.setTable 0 table)

/-- The loop over the tables of the three `invalidate`. -/
def invalidateWhere (tlb : Tlb) (lambda : Nat → Table → Except Fault Table) : Except Fault Tlb :=
  (List.range tlb.numTables).foldlM (fun tlb k => return tlb.setTable k (← lambda k (tlb.tables k))) tlb

def invalidateAll (tlb : Tlb) : Except Fault Tlb := tlb.invalidateWhere fun _ table => table.freeLines

def invalidateContext (tlb : Tlb) (pid : Addr) : Except Fault Tlb :=
  tlb.invalidateWhere fun _ table => table.freeLinesOf pid none

def invalidateAddr (tlb : Tlb) (pid addr : Addr) : Except Fault Tlb :=
  tlb.invalidateWhere fun k table => table.freeLinesOf pid (some (addr >>> tlb.shift k))

def onInvalidateMsg (tlb : Tlb) (msg : MgtMsg) : Except Fault Tlb :=
  let context := (msg.get .invContextId).setWidth 64
  if msg.get .filterVAddr = 1 ∧ msg.get .filterContext = 1 then tlb.invalidateAddr context msg.part1
  else if msg.get .filterVAddr = 0 ∧ msg.get .filterContext = 1 then tlb.invalidateContext context
  else if msg.get .filterVAddr = 0 ∧ msg.get .filterContext = 0 then tlb.invalidateAll
  else .error .unreachable

def onPropertyMsg (tlb : Tlb) (msg : MgtMsg) : Except Fault Tlb :=
  if msg.get .property = SetType.setStateOnTlb.value then
    .ok { tlb with enabled := msg.get .val1 ≠ 0 }
  else if msg.get .property = SetType.setMgtAddrOnTlb.value then
    .ok { tlb with mgtAddr := ⟨msg.get .val1, (msg.get .val2).setWidth 32⟩ }
  else .error .unreachable

end Tlb

end Mgsim.Mmu
