import Mgsim.Lib.Carry
import Mgsim.Drisc.AlphaArithmetic

namespace Mgsim.Drisc
open Mgsim.Lib

/-- The low four bits of the operations of `ExecBasicInteger`; the next one asks for the condition codes. -/
inductive BasicOp
  | add | and | or | xor | sub | andn | orn | xnor | addx | umul | smul | subx | udiv | sdiv
deriving DecidableEq

def psrIcc : BitVec 32 := 0x00F00000
def psrIccC : BitVec 32 := 0x00100000
def psrIccV : BitVec 32 := 0x00200000
def psrIccZ : BitVec 32 := 0x00400000
def psrIccN : BitVec 32 := 0x00800000

/-- Why an operation has no result: it is refused, or the host's division traps. -/
inductive BasicFault
  | divisionByZero
  | hostTrap
deriving DecidableEq

def carryOf (psr : BitVec 32) : Bool := psr &&& psrIccC ≠ 0

/-- The first half of `ExecBasicInteger`: the 64 bits of `Rcv`, and the register `Y`. -/
def basicValue (op : BasicOp) (rav rbv y : BitVec 32) (psr : BitVec 32) : Except BasicFault (BitVec 64 × BitVec 32) :=
  let carry : BitVec 64 := if carryOf psr then 1 else 0
  let dividend := y.setWidth 64 <<< 32 ||| rav.setWidth 64
  match op with
  | .and => .ok ((rav &&& rbv).setWidth 64, y)
  | .andn => .ok ((rav &&& ~~~rbv).setWidth 64, y)
  | .or => .ok ((rav ||| rbv).setWidth 64, y)
  | .orn => .ok ((rav ||| ~~~rbv).setWidth 64, y)
  | .xor => .ok ((rav ^^^ rbv).setWidth 64, y)
  | .xnor => .ok ((rav ^^^ ~~~rbv).setWidth 64, y)
  | .add => .ok (rav.signExtend 64 + rbv.signExtend 64, y)
  | .addx => .ok (rav.signExtend 64 + rbv.signExtend 64 + carry, y)
  | .sub => .ok (rav.signExtend 64 - rbv.signExtend 64, y)
  | .subx => .ok (rav.signExtend 64 - rbv.signExtend 64 - carry, y)
  | .umul =>
    let rcv := (rav * rbv).setWidth 64
    .ok (rcv, (rcv >>> 32).setWidth 32)
  | .smul =>
    let rcv := rav.signExtend 64 * rbv.signExtend 64
    .ok (rcv, (rcv >>> 32).setWidth 32)
  | .udiv => if rbv = 0 then .error .divisionByZero else .ok (dividend / rbv.setWidth 64, y)
  | .sdiv =>
    if rbv.signExtend 64 = 0 then .error .divisionByZero else
      match hostDivide dividend (rbv.signExtend 64) with
      | some rcv => .ok (rcv, y)
      | none => .error .hostTrap

/-- `if (condition) psr |= flag`. -/
def raise (condition : Bool) (flag psr : BitVec 32) : BitVec 32 := if condition then psr ||| flag else psr

/-- The second half, for the operations that set the condition codes. -/
def basicFlags (op : BasicOp) (rav rbv : BitVec 32) (rcv : BitVec 64) (psr : BitVec 32) : BitVec 64 × BitVec 32 :=
  let a31 := rav.msb
  let b31 := rbv.msb
  let c31 := rcv.getLsbD 31
  let psr := psr &&& ~~~psrIcc
  match op with
  | .add | .addx =>
    let psr := raise (!(a31 ^^ b31) && (a31 ^^ c31)) psrIccV psr
    let psr := raise (a31 && b31 || !c31 && (a31 || b31)) psrIccC psr
    (rcv, raise c31 psrIccN (raise (rcv = 0) psrIccZ psr))
  | .sub | .subx =>
    let psr := raise ((a31 ^^ b31) && (a31 ^^ c31)) psrIccV psr
    let psr := raise (!a31 && b31 || c31 && (!a31 || b31)) psrIccC psr
    (rcv, raise c31 psrIccN (raise (rcv = 0) psrIccZ psr))
  | .and | .or | .xor | .andn | .orn | .xnor | .umul | .smul =>
    (rcv, raise c31 psrIccN (raise (rcv = 0) psrIccZ psr))
  | .udiv =>
    let (rcv, psr) := if 0xFFFFFFFF < rcv then (0xFFFFFFFF, psr ||| psrIccV) else (rcv, psr)
    (rcv, raise c31 psrIccN (raise (rcv = 0) psrIccZ psr))
  | .sdiv =>
    let (rcv, psr) := if rcv.slt (-0x80000000) then (-0x80000000, psr ||| psrIccV) else (rcv, psr)
    let (rcv, psr) := if BitVec.slt 0x7FFFFFFF rcv then (0x7FFFFFFF, psr ||| psrIccV) else (rcv, psr)
    (rcv, raise c31 psrIccN (raise (rcv = 0) psrIccZ psr))

/-- What an operation leaves behind: the result, `Y` and the processor state. -/
structure BasicResult where
  rcv : BitVec 32
  y : BitVec 32
  psr : BitVec 32
deriving DecidableEq

/-- `ExecBasicInteger`. -/
def execBasicInteger (op : BasicOp) (cc : Bool) (rav rbv y psr : BitVec 32) : Except BasicFault BasicResult :=
  match basicValue op rav rbv y psr with
  | .error fault => .error fault
  | .ok (rcv, y) =>
    if cc then
      let (rcv, psr) := basicFlags op rav rbv rcv psr
      .ok ⟨rcv.setWidth 32, y, psr⟩
    else .ok ⟨rcv.setWidth 32, y, psr⟩

end Mgsim.Drisc
