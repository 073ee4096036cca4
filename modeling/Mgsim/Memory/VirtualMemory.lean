import Mgsim.Lib.SortedMap
import Mathlib.Data.BitVec

namespace Mgsim.Memory
open Mgsim.Lib

/-- Addresses are ordered as numbers. -/
instance instLinearOrderBitVec {w : Nat} : LinearOrder (BitVec w) where
  le a b := a ≤ b
  lt a b := a < b
  le_refl _ := BitVec.le_refl _
  le_trans _ _ _ := BitVec.le_trans
  le_antisymm _ _ := BitVec.le_antisymm
  le_total _ _ := BitVec.le_total _ _
  lt_iff_le_not_ge _ _ := by
    rw [BitVec.le_def, BitVec.le_def, BitVec.lt_def]
    omega
  toDecidableLE := inferInstance
  toDecidableLT := inferInstance
  toDecidableEq := inferInstance

/-- A reserved range, at the address that is its key. `w` is the width of addresses, sizes and process IDs. -/
structure Range (w : Nat) where
  size : BitVec w
  owner : BitVec w
  permissions : BitVec 32
  deriving DecidableEq

/-- The `InvalidArgumentException` of a call, with the values that its text shows. -/
inductive ReservationError (w : Nat)
  | overlap (address size : BitVec w)
  | notReserved (address : BitVec w)
  | wrongSize (size address reserved : BitVec w)
  deriving DecidableEq

/-- `VirtualMemory` without its blocks of data. The two counters are of the type `size_t`. -/
structure VirtualMemory (w : Nat) where
  ranges : SortedMap (BitVec w) (Range w)
  totalReserved : BitVec 64
  numberOfRanges : BitVec 64

namespace VirtualMemory
variable {w : Nat}

def initial : VirtualMemory w := ⟨.empty, 0, 0⟩

/-- The range overlaps with an existing range after it. -/
def overlapsNext (vm : VirtualMemory w) (address size : BitVec w) : Bool :=
  (vm.ranges.lowerBound address).any fun p => p.1 = address || address < p.1 && address + size > p.1

/-- The range overlaps with an existing range before it. -/
def overlapsPrevious (vm : VirtualMemory w) (address size : BitVec w) : Bool :=
  (vm.ranges.previous address).any fun q => q.1 + q.2.size > address

/-- What a call returns: the exception that it throws, if any, and the state that it leaves. -/
abbrev Outcome (w : Nat) := Option (ReservationError w) × VirtualMemory w

def reserve (vm : VirtualMemory w) (address size pid : BitVec w) (perm : BitVec 32) : Outcome w :=
  if size ≠ 0 then
    if vm.overlapsNext address size then (some (.overlap address size), vm)
    else if vm.overlapsPrevious address size then (some (.overlap address size), vm)
    else (none,
      { ranges := vm.ranges.insert address ⟨size, pid, perm⟩
        totalReserved := vm.totalReserved + size.setWidth 64
        numberOfRanges := vm.numberOfRanges + 1 })
  else (none, vm)

/-- A range is taken out of the map and of the counters. -/
def remove (vm : VirtualMemory w) (p : BitVec w × Range w) : VirtualMemory w where
  ranges := vm.ranges.erase p.1
  totalReserved := vm.totalReserved - p.2.size.setWidth 64
  numberOfRanges := vm.numberOfRanges - 1

def unreserve (vm : VirtualMemory w) (address size : BitVec w) : Outcome w :=
  match vm.ranges.find address with
  | none => (some (.notReserved address), vm)
  | some p => if size ≠ p.2.size then (some (.wrongSize size address p.2.size), vm) else (none, vm.remove p)

/-- The loop of `UnreserveAll` over the ranges. -/
def unreserveAll (vm : VirtualMemory w) (pid : BitVec w) : VirtualMemory w :=
  vm.ranges.entries.foldl (fun vm p => if p.2.owner = pid then vm.remove p else vm) vm

/-- The range that starts at the address, or the one before it. -/
def nearest (vm : VirtualMemory w) (address : BitVec w) : Option (BitVec w × Range w) :=
  match vm.ranges.previous address with
  | none => vm.ranges.lowerBound address
  | some previous =>
    if (vm.ranges.lowerBound address).all fun p => p.1 > address then some previous
    else vm.ranges.lowerBound address

def getReservationRange (vm : VirtualMemory w) (address size : BitVec w) : Option (BitVec w × Range w) :=
  (vm.nearest address).filter fun p => address ≥ p.1 ∧ p.2.size ≥ size ∧ address ≤ p.1 + (p.2.size - size)

def has (vm : VirtualMemory w) (address size : BitVec w) : Bool := (vm.getReservationRange address size).isSome

def checkPermissions (vm : VirtualMemory w) (address size : BitVec w) (access : BitVec 32) : Bool :=
  (vm.getReservationRange address size).any fun p => p.2.permissions &&& access = access

inductive Call (w : Nat)
  | reserve (address size pid : BitVec w) (perm : BitVec 32)
  | unreserve (address size : BitVec w)
  | unreserveAll (pid : BitVec w)

def call (vm : VirtualMemory w) : Call w → Outcome w
  | .reserve address size pid perm => vm.reserve address size pid perm
  | .unreserve address size => vm.unreserve address size
  | .unreserveAll pid => (none, vm.unreserveAll pid)

/-- The state after a call, whether it throws an exception or not. -/
def step (vm : VirtualMemory w) (c : Call w) : Option (VirtualMemory w) := some (vm.call c).2

end VirtualMemory

/-- `GetTLSAddress` of a core: one bit for TLS, then its number and that of the thread. -/
def getTLSAddress (w pidBits tidBits : Nat) (pid tid : BitVec w) : BitVec w :=
  (1 : BitVec w) <<< (w - 1) ||| pid <<< (w - 1 - pidBits) ||| tid <<< (w - 1 - pidBits - tidBits)

def getTLSSize (w pidBits tidBits : Nat) : BitVec w := (1 : BitVec w) <<< (w - (1 + pidBits + tidBits))

end Mgsim.Memory
