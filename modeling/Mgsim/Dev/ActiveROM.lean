import Mgsim.Dev.RPC
import Mgsim.Lib.Overlay
import Mgsim.Lib.Run

namespace Mgsim.Dev
open Mgsim.Lib

/-- A range of the ROM and where it goes, in a memory with addresses and sizes of `w` bits. -/
structure LoadableRange (w : Nat) where
  romOffset : Nat
  romSize : BitVec w
  vaddr : BitVec w

/-- The contents and the configuration of the device. The ranges lie in the ROM and are not empty. -/
structure ActiveROM (w : Nat) where
  data : List Byte
  lineSize : Nat
  loadable : List (LoadableRange w)
  lines : 0 < lineSize
  nonempty : loadable ≠ []
  inside : ∀ r ∈ loadable, r.romOffset + r.romSize.toNat ≤ data.length
  positive : ∀ r ∈ loadable, 0 < r.romSize.toNat

/-- A request of the device: the address and the data of a DCA write, or a flush. -/
inductive ROMRequest (w : Nat)
  | write (address : BitVec w) (data : List Byte)
  | flush

/-- The load process: its cursors and its flags, and the requests that the bus has accepted. -/
structure ROMState (w : Nat) where
  currentRange : Nat
  currentOffset : Nat
  loading : Bool
  flushing : Bool
  log : List (ROMRequest w)

/-- A load command, or a cycle of a process with the bus free or not. -/
inductive ROMEvent
  | command
  | load (accepted : Bool)
  | flush (accepted : Bool)

namespace ActiveROM
variable {w : Nat}

def voffset (r : LoadableRange w) (offset : Nat) : BitVec w := r.vaddr + BitVec.ofNat w offset

/-- At most the rest of the range, at most a line and at most the rest of the line, each as a `MemSize`. -/
def transferSize (rom : ActiveROM w) (r : LoadableRange w) (offset : Nat) : Nat :=
  min (min ((r.romSize.toNat - offset) % 2 ^ w) (rom.lineSize % 2 ^ w))
    ((rom.lineSize - (voffset r offset).toNat % rom.lineSize) % 2 ^ w)

def initial : ROMState w := ⟨0, 0, false, false, []⟩

/-- A cycle of `DoLoad`. The data of a message cannot be longer than its array: a longer copy has no defined
result, as a copy from behind the ROM. -/
def doLoad (rom : ActiveROM w) (s : ROMState w) (accepted : Bool) : Option (ROMState w) :=
  match rom.loadable[s.currentRange]? with
  | none => none
  | some r =>
    let offset := r.romOffset + s.currentOffset
    let size := rom.transferSize r s.currentOffset
    let log := s.log ++ [.write (voffset r s.currentOffset) ((rom.data.drop offset).take size)]
    if !accepted then some s
    else if maxIOOperationSize < size ∨ rom.data.length < offset + size then none
    else if s.currentOffset + size < r.romSize.toNat then
      some { s with currentOffset := s.currentOffset + size, log }
    else if s.currentRange + 1 < rom.loadable.length then
      some { s with currentRange := s.currentRange + 1, currentOffset := 0, log }
    else some ⟨0, 0, false, true, log⟩

def doFlush (s : ROMState w) (accepted : Bool) : ROMState w :=
  if accepted then { s with flushing := false, log := s.log ++ [.flush] } else s

def step (rom : ActiveROM w) (s : ROMState w) : ROMEvent → Option (ROMState w)
  | .command => some { s with flushing := false, loading := true }
  | .load accepted => if s.loading then rom.doLoad s accepted else none
  | .flush accepted => if s.flushing then some (doFlush s accepted) else none

/-- The next write has data and fits the message: neither the line size nor what is left of the line is cut down to
nothing as a `MemSize`, and what is left of the range, of a line or of this line is at most what a message has. -/
def Fits (rom : ActiveROM w) (s : ROMState w) : Prop :=
  ∀ r, rom.loadable[s.currentRange]? = some r →
    rom.lineSize % 2 ^ w ≠ 0 ∧ (rom.lineSize - (voffset r s.currentOffset).toNat % rom.lineSize) % 2 ^ w ≠ 0 ∧
      (r.romSize.toNat - s.currentOffset ≤ maxIOOperationSize ∨ rom.lineSize % 2 ^ w ≤ maxIOOperationSize ∨
        (rom.lineSize - (voffset r s.currentOffset).toNat % rom.lineSize) % 2 ^ w ≤ maxIOOperationSize)

/-- A load command waits for the end of the one before it. -/
def MayHappen (rom : ActiveROM w) (s : ROMState w) : ROMEvent → Prop
  | .command => s.loading = false ∧ s.flushing = false
  | .load _ => rom.Fits s
  | .flush _ => True

/-- The bytes of a range. -/
def bytes (rom : ActiveROM w) (r : LoadableRange w) : List Byte := (rom.data.drop r.romOffset).take r.romSize.toNat

/-- What a load has to write: each byte of each range at its address, range after range. -/
def content (rom : ActiveROM w) : List (BitVec w × Byte) :=
  rom.loadable.flatMap fun r => addressed r.vaddr (rom.bytes r)

/-- The requests of a complete load with these writes. -/
def request (writes : List (BitVec w × List Byte)) : List (ROMRequest w) :=
  writes.map fun write => .write write.1 write.2

/-- Every load so far has made the same writes, which copy all ranges, and then one flush. The current one has made
some of them, and all before its flush. Between the loads the cursors are reset. -/
def Loads (rom : ActiveROM w) (s : ROMState w) : Prop :=
  ∃ (loads : Nat) (writes current : List (BitVec w × List Byte)),
    s.log = (List.replicate loads (request writes ++ [.flush])).flatten ++ request current ∧
    Pieces rom.lineSize rom.content writes ∧ current <+: writes ∧ (s.flushing = true → current = writes) ∧
    (s.loading = false → s.flushing = false → current = []) ∧
    (s.loading = false → s.currentRange = 0 ∧ s.currentOffset = 0)

/-- The requests that are still to be made, counted by their bytes. -/
def work (rom : ActiveROM w) (s : ROMState w) : Nat :=
  if s.loading then ((rom.loadable.drop s.currentRange).map fun r => r.romSize.toNat).sum - s.currentOffset + 2
  else if s.flushing then 1 else 0

/-- A load is never stuck: a cycle of the load process is defined and gets some work done, when the bus accepts
its write, exactly if the write fits; and so does each cycle of the flush process. -/
structure Live (rom : ActiveROM w) (s : ROMState w) : Prop where
  refused : s.loading = true → rom.step s (.load false) = some s
  loads : s.loading = true → (rom.Fits s ↔ ∃ s', rom.step s (.load true) = some s' ∧ rom.work s' < rom.work s)
  flushes : s.flushing = true → ∃ s', rom.step s (.flush true) = some s' ∧ rom.work s' < rom.work s

end ActiveROM

end Mgsim.Dev
