import Mgsim.Lib.Buffer
import Mgsim.Lib.Storage
import Mgsim.Dev.RPC

namespace Mgsim.Dev
open Mgsim.Lib

/-- The device. The file descriptors and the error codes are left out. -/
structure UART where
  hwbufInFull : Bool
  hwbufIn : Byte
  hwbufOutFull : Bool
  hwbufOut : Byte
  receiveEnable : Flag
  fifoIn : Buffer Byte
  fifoOut : Buffer Byte
  writeBuffer : Byte
  sendEnable : Flag
  readInterruptEnable : Bool
  readInterrupt : Flag
  readInterruptChannel : Byte
  writeInterruptEnable : Bool
  writeInterruptThreshold : Nat
  writeInterrupt : Flag
  writeInterruptChannel : Byte
  loopback : Bool
  scratch : Byte
  enabled : Bool

namespace UART

def create (inputFIFOSize outputFIFOSize : Option Nat) : UART where
  hwbufInFull := false
  hwbufIn := 0
  hwbufOutFull := false
  hwbufOut := 0
  receiveEnable := .create false
  fifoIn := .empty inputFIFOSize 1
  fifoOut := .empty outputFIFOSize 1
  writeBuffer := 0
  sendEnable := .create false
  readInterruptEnable := false
  readInterrupt := .create false
  readInterruptChannel := 0
  writeInterruptEnable := false
  writeInterruptThreshold := 1
  writeInterrupt := .create false
  writeInterruptChannel := 0
  loopback := false
  scratch := 0
  enabled := false

/-- A cycle of `p_Send`: the byte goes to the output FIFO if it has room. -/
def doSend (u : UART) : UART :=
  match u.fifoOut.push u.writeBuffer 1 with
  | none => u
  | some fifoOut =>
    { u with
      fifoOut
      writeInterrupt :=
        if u.fifoOut.data.length + 1 ≥ u.writeInterruptThreshold then u.writeInterrupt.put false else u.writeInterrupt
      sendEnable := u.sendEnable.put false }

/-- The end of `DoTransmit`: the byte leaves the output FIFO. -/
def transmitted (u : UART) (fifoOut : Buffer Byte) : UART :=
  { u with
    fifoOut
    writeInterrupt :=
      if u.writeInterruptEnable ∧ u.fifoOut.data.length < u.writeInterruptThreshold + 1 then u.writeInterrupt.put true
      else u.writeInterrupt }

/-- A byte has come into the input FIFO. -/
def received (u : UART) (fifoIn : Buffer Byte) : UART :=
  { u with
    fifoIn
    readInterrupt := if u.readInterruptEnable then u.readInterrupt.put true else u.readInterrupt }

/-- A cycle of `p_Transmit`, which runs with data in the output FIFO. -/
def doTransmit (u : UART) : Option UART :=
  match u.fifoOut.take? with
  | none => none
  | some (byte, fifoOut) =>
    if u.loopback then
      match u.fifoIn.push byte 1 with
      | none => some u
      | some fifoIn => some ((u.received fifoIn).transmitted fifoOut)
    else if u.hwbufOutFull then some u
    else some ({ u with hwbufOut := byte, hwbufOutFull := true }.transmitted fifoOut)

/-- A cycle of `p_Receive`. The external line is blocked in loopback mode. -/
def doReceive (u : UART) : Option UART :=
  if u.hwbufInFull = false then none
  else if u.loopback then some u
  else
    match u.fifoIn.push u.hwbufIn 1 with
    | none => some u
    | some fifoIn =>
      some { u.received fifoIn with receiveEnable := u.receiveEnable.put false, hwbufInFull := false }

def threshold (triggerLevel : Nat) : Nat :=
  match triggerLevel with
  | 0 => 1
  | 1 => 4
  | 2 => 8
  | _ => 14

/-- Interrupts are enabled but never disabled through the register. -/
def writeIER (u : UART) (data : Byte) : UART :=
  let u := if data.getLsbD 0 then
      { u with
        readInterruptEnable := true
        readInterrupt := if u.fifoIn.data ≠ [] then u.readInterrupt.put true else u.readInterrupt }
    else u
  if data.getLsbD 1 then
    { u with
      writeInterruptEnable := true
      writeInterrupt := if u.fifoOut.data.length < u.writeInterruptThreshold + 1 then u.writeInterrupt.put true
        else u.writeInterrupt }
  else u

/-- A write of a register. There is none for an invalid address. -/
def onWriteRequestReceived (u : UART) (addr : Nat) (data : Byte) : Option UART :=
  match addr with
  | 0 => some { u with writeBuffer := data, sendEnable := u.sendEnable.put true }
  | 1 => some (u.writeIER data)
  | 2 => some { u with writeInterruptThreshold := threshold (data >>> 6).toNat }
  | 3 | 5 | 6 => some u
  | 4 => some { u with loopback := data.getLsbD 4 }
  | 7 => some { u with scratch := data }
  | 8 => some { u with readInterruptChannel := data }
  | 9 => some { u with writeInterruptChannel := data }
  | 10 =>
    if data = 0 ∧ u.enabled then
      some { u with
        writeInterrupt := u.writeInterrupt.put false
        readInterrupt := u.readInterrupt.put false
        enabled := false }
    else if data ≠ 0 ∧ u.enabled = false then some { u with enabled := true }
    else some u
  | _ => none

def bit (value : Bool) (position : Nat) : Byte := if value then 1#8 <<< position else 0

/-- RX: the read of the last byte acknowledges the interrupt. -/
def readRX (u : UART) : Option (UART × Byte) :=
  if u.fifoIn.data = [] then some (u, 0)
  else
    let readInterrupt := if u.fifoIn.data.length = 1 then u.readInterrupt.put false else u.readInterrupt
    u.fifoIn.take?.map fun (byte, fifoIn) => ({ u with fifoIn, readInterrupt }, byte)

/-- IIR: the data interrupt comes first, and the read stops a write interrupt. -/
def readIIR (u : UART) : UART × Byte :=
  let pending := bit (!(u.readInterrupt.isSet || u.writeInterrupt.isSet)) 0
  if u.readInterrupt.isSet then (u, pending ||| bit true 2 ||| 3#8 <<< 6)
  else if u.writeInterrupt.isSet then
    ({ u with writeInterrupt := u.writeInterrupt.put false }, pending ||| bit true 1 ||| 3#8 <<< 6)
  else (u, pending ||| 3#8 <<< 6)

/-- A read of a register, and the byte it gives. -/
def onReadRequestReceived (u : UART) (addr : Nat) : Option (UART × Byte) :=
  match addr with
  | 0 => u.readRX
  | 1 => some (u, bit u.readInterruptEnable 0 ||| bit u.writeInterruptEnable 1)
  | 2 => some u.readIIR
  | 3 => some (u, 3)
  | 4 => some (u, bit u.loopback 4)
  | 5 => some (u, bit (!u.fifoIn.data.isEmpty) 0 ||| bit (!u.sendEnable.isSet) 5 ||| bit u.fifoOut.data.isEmpty 6)
  | 6 => some (u, 0)
  | 7 => some (u, u.scratch)
  | 8 => some (u, u.readInterruptChannel)
  | 9 => some (u, u.writeInterruptChannel)
  | 10 => some (u, bit u.enabled 0)
  | _ => none

/-- `OnStreamReady` with a byte to read: the input latch takes it if it is free. -/
def onStreamReadable (u : UART) (byte : Byte) : UART :=
  if u.hwbufInFull then u
  else { u with hwbufIn := byte, hwbufInFull := true, receiveEnable := u.receiveEnable.put true }

/-- `OnStreamReady` with room to write: the byte of the output latch is sent. -/
def onStreamWritable (u : UART) : UART := if u.hwbufOutFull then { u with hwbufOutFull := false } else u

/-- The end of a cycle. -/
def update (u : UART) : UART :=
  { u with
    receiveEnable := u.receiveEnable.update
    fifoIn := u.fifoIn.update
    fifoOut := u.fifoOut.update
    sendEnable := u.sendEnable.update
    readInterrupt := u.readInterrupt.update
    writeInterrupt := u.writeInterrupt.update }

/-- What the device does in a cycle besides the register accesses. -/
inductive Activity
  | send
  | transmit
  | receive
  | streamReadable (byte : Byte)
  | streamWritable
  deriving DecidableEq

/-- A process runs while its storage is set, and the streams are registered while the UART is active. -/
def perform (u : UART) : Activity → Option UART
  | .send => if u.sendEnable.isSet then some u.doSend else none
  | .transmit => u.doTransmit
  | .receive => if u.receiveEnable.isSet then u.doReceive else none
  | .streamReadable byte => if u.enabled then some (u.onStreamReadable byte) else none
  | .streamWritable => if u.enabled then some u.onStreamWritable else none

inductive Access
  | read (addr : Nat)
  | write (addr : Nat) (data : Byte)
  deriving DecidableEq

/-- A cycle in the order in which the kernel runs its processes: the interconnect
delivers at most one request to the device in a cycle. -/
structure Cycle where
  before : List Activity
  access : Option Access
  after : List Activity

end UART

/-- The device with the bytes that its input FIFO has accepted, and those that
reads of the RX register have returned. -/
structure UARTState where
  uart : UART
  accepted : List Byte
  returned : List Byte

namespace UARTState
open UART

def create (inputFIFOSize outputFIFOSize : Option Nat) : UARTState := ⟨.create inputFIFOSize outputFIFOSize, [], []⟩

def perform (s : UARTState) (activity : Activity) : Option UARTState :=
  (s.uart.perform activity).map fun uart =>
    { s with uart, accepted := s.accepted ++ uart.fifoIn.pushed.drop s.uart.fifoIn.pushed.length }

def performAll (s : UARTState) : List Activity → Option UARTState
  | [] => some s
  | activity :: rest => (s.perform activity).bind fun s => s.performAll rest

def access (s : UARTState) : Option Access → Option UARTState
  | none => some s
  | some (.write addr data) => (s.uart.onWriteRequestReceived addr data).map fun uart => { s with uart }
  | some (.read addr) =>
    (s.uart.onReadRequestReceived addr).map fun (uart, byte) =>
      { s with uart, returned := if addr = 0 ∧ s.uart.fifoIn.data ≠ [] then s.returned ++ [byte] else s.returned }

def step (s : UARTState) (cycle : Cycle) : Option UARTState :=
  (s.performAll cycle.before).bind fun s =>
  (s.access cycle.access).bind fun s =>
  (s.performAll cycle.after).map fun s => { s with uart := s.uart.update }

/-- The UART stays active, and each process runs at most once in a cycle. -/
def Active (s : UARTState) (cycle : Cycle) : Prop :=
  (∀ data, cycle.access = some (.write 10 data) → data = 0 → s.uart.enabled = false) ∧
  ∀ activity ∈ [Activity.send, .transmit, .receive], (cycle.before ++ cycle.after).count activity ≤ 1

end UARTState

end Mgsim.Dev
