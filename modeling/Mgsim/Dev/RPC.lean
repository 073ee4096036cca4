import Mgsim.Lib.Run
import Mathlib.Data.List.Basic

namespace Mgsim.Dev

abbrev Byte := BitVec 8

/-- The most data in an I/O message: `MAX_IO_OPERATION_SIZE`. -/
def maxIOOperationSize : Nat := 64

/-- The messages that the device sends over the I/O bus. -/
inductive IOMessage
  | writeRequest (device : Nat) (address : BitVec 64) (data : List Byte)
  | readRequest (device : Nat) (address : BitVec 64) (size : Nat)
  | notification (device channel : Nat) (tag : BitVec 64)
  deriving DecidableEq

structure ProcessResponse where
  dcaDeviceId : Nat
  res1BaseAddress : BitVec 64
  res2BaseAddress : BitVec 64
  notificationChannelId : Nat
  completionTag : BitVec 64
  data1 : List Byte
  data2 : List Byte
  deriving DecidableEq

structure CompletionNotificationRequest where
  dcaDeviceId : Nat
  notificationChannelId : Nat
  completionTag : BitVec 64
  deriving DecidableEq

inductive ResponseWritebackState
  | writing1
  | writing2
  | barrier
  | finalize
  deriving DecidableEq

/-- The part of the device behind the service: the queues of completed requests
and of notifications, the write-back state, and how often `p_writeResponse` is
activated. -/
structure RPCInterface where
  lineSize : BitVec 64
  completedSize : Option Nat
  notificationsSize : Option Nat
  completed : List ProcessResponse
  notifications : List CompletionNotificationRequest
  writebackState : ResponseWritebackState
  currentResponseOffset : Nat
  activations : Nat
  deriving DecidableEq

/-- Whether a queue takes one more item. -/
def hasSpace {α : Type} (maxSize : Option Nat) (items : List α) : Bool := maxSize.all fun max => items.length < max

namespace ProcessResponse

def ignored1 (res : ProcessResponse) : Bool := res.data1.length == 0 || res.res1BaseAddress == 0

def ignored2 (res : ProcessResponse) : Bool := res.data2.length == 0 || res.res2BaseAddress == 0

/-- Results without data or without an address are left out. -/
def shortcut (res : ProcessResponse) : ResponseWritebackState → ResponseWritebackState
  | .writing1 => if res.ignored1 then if res.ignored2 then .finalize else .writing2 else .writing1
  | .writing2 => if res.ignored2 then .barrier else .writing2
  | .barrier => .barrier
  | .finalize => .finalize

def notification (res : ProcessResponse) : CompletionNotificationRequest :=
  ⟨res.dcaDeviceId, res.notificationChannelId, res.completionTag⟩

end ProcessResponse

def CompletionNotificationRequest.message (req : CompletionNotificationRequest) : IOMessage :=
  .notification req.dcaDeviceId req.notificationChannelId req.completionTag

namespace RPCInterface

def create (lineSize : BitVec 64) (completedSize notificationsSize : Option Nat) : Except String RPCInterface :=
  if lineSize = 0 then .error "RPCLineSize cannot be zero"
  else .ok ⟨lineSize, completedSize, notificationsSize, [], [], .writing1, 0, 0⟩

/-- At most a line, at most the rest of the data, and at most the rest of the line. -/
def transferSize (rpc : RPCInterface) (totalsize : Nat) (voffset : BitVec 64) : Nat :=
  min (min (totalsize - rpc.currentResponseOffset) rpc.lineSize.toNat)
    (rpc.lineSize.toNat - voffset.toNat % rpc.lineSize.toNat)

/-- One write of a result. The data of a message cannot be longer than its
array: a longer copy has no defined result. -/
def writeResult (rpc : RPCInterface) (res : ProcessResponse) (s : ResponseWritebackState) (base : BitVec 64)
    (data : List Byte) (accepted : Bool) : Option (RPCInterface × List IOMessage) :=
  let voffset := base + BitVec.ofNat 64 rpc.currentResponseOffset
  let size := rpc.transferSize data.length voffset
  let message := .writeRequest res.dcaDeviceId voffset ((data.drop rpc.currentResponseOffset).take size)
  if !accepted then some (rpc, [])
  else if maxIOOperationSize < size then none
  else if rpc.currentResponseOffset + size < data.length then
    some ({ rpc with currentResponseOffset := rpc.currentResponseOffset + size }, [message])
  else if s = .writing1 ∧ res.ignored2 = false then
    some ({ rpc with currentResponseOffset := 0, writebackState := .writing2 }, [message])
  else some ({ rpc with writebackState := .barrier }, [message])

/-- A cycle of `p_writeResponse`, which fails when the bus does not accept its
message, and the messages it sends. There is none when an assertion fails. -/
def doWriteResponse (rpc : RPCInterface) (accepted : Bool) : Option (RPCInterface × List IOMessage) :=
  match rpc.completed with
  | [] => none
  | res :: rest =>
    match res.shortcut rpc.writebackState with
    | .writing1 => rpc.writeResult res .writing1 res.res1BaseAddress res.data1 accepted
    | .writing2 => rpc.writeResult res .writing2 res.res2BaseAddress res.data2 accepted
    | .barrier =>
      if accepted then
        -- The answer activates the process again.
        some ({ rpc with writebackState := .finalize, activations := rpc.activations - 1 },
          [.readRequest res.dcaDeviceId 0 0])
      else some (rpc, [])
    | .finalize =>
      if hasSpace rpc.notificationsSize rpc.notifications then
        some ({ rpc with
          writebackState := .writing1
          currentResponseOffset := 0
          completed := rest
          notifications := rpc.notifications ++ [res.notification]
          activations := if rest = [] then rpc.activations - 1 else rpc.activations }, [])
      else some (rpc, [])

def doSendCompletionNotifications (rpc : RPCInterface) (accepted : Bool) : Option (RPCInterface × List IOMessage) :=
  match rpc.notifications with
  | [] => none
  | req :: rest =>
    if accepted then some ({ rpc with notifications := rest }, [req.message]) else some (rpc, [])

/-- `DoProcessRequests` completes a request: a queue that was empty activates its process. -/
def complete (rpc : RPCInterface) (res : ProcessResponse) : RPCInterface :=
  { rpc with
    completed := rpc.completed ++ [res]
    activations := if rpc.completed = [] then rpc.activations + 1 else rpc.activations }

/-- `OnReadResponseReceived` without data: the flush is over. -/
def onFlushResponse (rpc : RPCInterface) : Option RPCInterface :=
  if rpc.writebackState = .finalize then some { rpc with activations := rpc.activations + 1 } else none

end RPCInterface

/-- What happens on the bus: a message of the device, or the answer of a flush. -/
inductive BusEvent
  | sent (message : IOMessage)
  | answered
  deriving DecidableEq

/-- The device, all requests that were completed, what has happened on the bus,
and the number of flushes without an answer. -/
structure RPCState where
  rpc : RPCInterface
  requests : List ProcessResponse
  log : List BusEvent
  unanswered : Nat
  deriving DecidableEq

/-- A completed request, a cycle of a process with the bus free or not, or the answer of a flush. -/
inductive RPCEvent
  | complete (res : ProcessResponse)
  | writeResponse (accepted : Bool)
  | sendCompletionNotifications (accepted : Bool)
  | flushResponse

namespace RPCState

def create (lineSize : BitVec 64) (completedSize notificationsSize : Option Nat) : Except String RPCState :=
  (RPCInterface.create lineSize completedSize notificationsSize).map fun rpc => ⟨rpc, [], [], 0⟩

def isFlush : IOMessage → Bool
  | .readRequest _ _ _ => true
  | _ => false

/-- The device has sent these messages. -/
def send (s : RPCState) (rpc : RPCInterface) (messages : List IOMessage) : RPCState :=
  { s with rpc, log := s.log ++ messages.map .sent, unanswered := s.unanswered + messages.countP isFlush }

def step (s : RPCState) : RPCEvent → Option RPCState
  | .complete res =>
    if hasSpace s.rpc.completedSize s.rpc.completed then
      some { s with rpc := s.rpc.complete res, requests := s.requests ++ [res] }
    else some s
  | .writeResponse accepted => (s.rpc.doWriteResponse accepted).map fun (rpc, messages) => s.send rpc messages
  | .sendCompletionNotifications accepted =>
    (s.rpc.doSendCompletionNotifications accepted).map fun (rpc, messages) => s.send rpc messages
  | .flushResponse =>
    s.rpc.onFlushResponse.map fun rpc => { s with rpc, log := s.log ++ [.answered], unanswered := s.unanswered - 1 }

/-- A process runs while it is activated, and the bus answers only a flush that it has got. -/
def MayHappen (s : RPCState) : RPCEvent → Prop
  | .complete _ => True
  | .writeResponse _ => 0 < s.rpc.activations
  | .sendCompletionNotifications _ => s.rpc.notifications ≠ []
  | .flushResponse => 0 < s.unanswered

end RPCState

end Mgsim.Dev
