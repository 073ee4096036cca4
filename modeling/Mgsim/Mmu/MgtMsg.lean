import Mgsim.Lib.BitField

namespace Mgsim.Mmu
open Mgsim.Lib

inductive MgtMsgType
  | noMsg
  | miss
  | invalidate
  | refill
  | inv
  | set
  deriving DecidableEq

def MgtMsgType.value : MgtMsgType → BitVec 3
  | noMsg => 0
  | miss => 1
  | invalidate => 2
  | refill => 3
  | inv => 4
  | set => 5

inductive TlbType
  | itlb
  | dtlb
  deriving DecidableEq

def TlbType.value : TlbType → BitVec 1
  | itlb => 0
  | dtlb => 1

inductive SetType
  | setPtOnMgt
  | setMgtAddrOnTlb
  | setStateOnTlb
  deriving DecidableEq

def SetType.value : SetType → BitVec 5
  | setPtOnMgt => 0
  | setMgtAddrOnTlb => 1
  | setStateOnTlb => 2

/-- `MgtMsg`: one union over two 64-bit parts. Every view has its bit fields in
part 0, from the low end, and one whole word in part 1. -/
@[ext] structure MgtMsg where
  part0 : BitVec 64
  part1 : BitVec 64
  deriving DecidableEq

/-- A bit field of part 0. -/
structure Field (width : Nat) where
  pos : Nat
  fits : pos + width ≤ 64

namespace Field

def type : Field 3 := ⟨0, by decide⟩

/-! `MissRequest` -/
def lineIndex : Field 24 := ⟨3, by decide⟩
def tlbType : Field 1 := ⟨27, by decide⟩
def missContextId : Field 16 := ⟨28, by decide⟩
def caller : Field 16 := ⟨48, by decide⟩

/-! `TlbRefill`, `TlbRefill_D` and `TlbRefill_I` -/
def present : Field 1 := ⟨27, by decide⟩
def table : Field 8 := ⟨28, by decide⟩
def read : Field 1 := ⟨36, by decide⟩
def write : Field 1 := ⟨37, by decide⟩
def execute : Field 1 := ⟨36, by decide⟩

/-! `InvalidateRequest` -/
def filterContext : Field 1 := ⟨3, by decide⟩
def filterVAddr : Field 1 := ⟨4, by decide⟩
def invContextId : Field 16 := ⟨5, by decide⟩

/-! `Set` -/
def property : Field 5 := ⟨3, by decide⟩
def val1 : Field 32 := ⟨8, by decide⟩
def val2 : Field 24 := ⟨40, by decide⟩

end Field

namespace MgtMsg
variable {width width' : Nat} (msg : MgtMsg)

def get (f : Field width) : BitVec width := getField msg.part0 f.pos width

def put (f : Field width) (value : BitVec width) : MgtMsg :=
  { msg with part0 := setField msg.part0 f.pos value }

/-- The word of part 1: `vAddr` of a miss or invalidation, `pAddr` of a refill. -/
def putAddr (value : BitVec 64) : MgtMsg := { msg with part1 := value }

@[simp] theorem get_put_self (f : Field width) (value : BitVec width) : (msg.put f value).get f = value :=
  getField_setField_self value f.fits

theorem get_put_of_disjoint (f : Field width) (g : Field width') (value : BitVec width)
    (disjoint : g.pos + width' ≤ f.pos ∨ f.pos + width ≤ g.pos) : (msg.put f value).get g = msg.get g :=
  getField_setField_of_disjoint value disjoint

@[simp] theorem part1_put (f : Field width) (value : BitVec width) : (msg.put f value).part1 = msg.part1 := rfl

@[simp] theorem get_putAddr (f : Field width) (value : BitVec 64) : (msg.putAddr value).get f = msg.get f := rfl

@[simp] theorem part1_putAddr (value : BitVec 64) : (msg.putAddr value).part1 = value := rfl

end MgtMsg

end Mgsim.Mmu
