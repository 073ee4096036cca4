import Mathlib.Logic.Function.Basic
import Mgsim.Lib.Buffer
import Mgsim.Lib.Storage
import Mgsim.Lib.Search
import Mgsim.Drisc.Register

namespace Mgsim.Drisc
open Mgsim.Lib

/-- What the process has done for a channel: the register that it has written with a value, and the notification that
it has taken from the queue. -/
structure Service (t : Target) where
  listener : Option RegAddr
  value : Integer t
  tag : Option (Integer t)
  deriving DecidableEq

/-- An I/O notification multiplexer with `n` channels. The last five fields are a record of what has happened; the code has
no such thing. -/
structure NotificationMultiplexer (t : Target) (n : Nat) where
  writebacks : Fin n → Register RegAddr
  mask : Fin n → Bool
  interrupts : Fin n → Flag
  notifications : Fin n → Buffer (Integer t)
  lastNotified : Nat
  /-- the process has had its turn in this cycle -/
  called : Bool
  accepted : Fin n → List (Integer t)
  registered : Fin n → List RegAddr
  served : Fin n → List (Service t)
  /-- how many notifications had been accepted when the channel was disabled for the last time -/
  enabledFrom : Fin n → Nat
  /-- the channels that have been served since a channel is ready -/
  passed : Fin n → List (Fin n)

namespace NotificationMultiplexer
variable {t : Target} {n : Nat}

/-- The constructor, with the size of the queues. -/
def initial (t : Target) (n : Nat) (queueSize : Option Nat) : NotificationMultiplexer t n where
  writebacks _ := .create
  mask _ := false
  interrupts _ := .create false
  notifications _ := .empty queueSize 1
  lastNotified := 0
  called := false
  accepted _ := []
  registered _ := []
  served _ := []
  enabledFrom _ := 0
  passed _ := []

def configureChannel (s : NotificationMultiplexer t n) (which : Fin n) (mode : Integer t) : NotificationMultiplexer t n :=
  { s with
    mask := Function.update s.mask which (mode ≠ 0)
    enabledFrom := if mode = 0 then Function.update s.enabledFrom which (s.accepted which).length else s.enabledFrom }

/-- `SetWriteBackAddress`, when it has the service of its channel; `none` where it fails. -/
def setWriteBackAddress (s : NotificationMultiplexer t n) (which : Fin n) (addr : RegAddr) : Option (NotificationMultiplexer t n) :=
  if (s.writebacks which).value.isSome then none
  else ((s.writebacks which).write addr).map fun register =>
    { s with
      writebacks := Function.update s.writebacks which register
      registered := Function.update s.registered which (s.registered which ++ [addr]) }

/-- `OnInterruptRequestReceived`; `none` where it fails. -/
def onInterruptRequestReceived (s : NotificationMultiplexer t n) (channel : Fin n) : Option (NotificationMultiplexer t n) :=
  if s.mask channel then
    (s.interrupts channel).set.map fun flag => { s with interrupts := Function.update s.interrupts channel flag }
  else some s

/-- `OnNotificationReceived`; `none` where it fails. -/
def onNotificationReceived (s : NotificationMultiplexer t n) (channel : Fin n) (tag : Integer t) :
    Option (NotificationMultiplexer t n) :=
  if s.mask channel then
    ((s.notifications channel).push tag 1).map fun queue =>
      { s with
        notifications := Function.update s.notifications channel queue
        accepted := Function.update s.accepted channel (s.accepted channel ++ [tag]) }
  else some s

def pending (s : NotificationMultiplexer t n) (i : Fin n) : Bool :=
  (s.interrupts i).isSet || !(s.notifications i).data.isEmpty

/-- An event is pending and there is a listener. -/
def ready (s : NotificationMultiplexer t n) (i : Fin n) : Bool := s.pending i && (s.writebacks i).value.isSome

/-- A channel at which the search stops. -/
def stops (s : NotificationMultiplexer t n) (i : Fin n) : Bool :=
  if s.pending i then !s.mask i || (s.writebacks i).value.isSome
  else !s.mask i && (s.writebacks i).value.isSome

/-- The search for a notification. -/
def search (s : NotificationMultiplexer t n) : Option (Fin n) := (rotation n s.lastNotified).find? s.stops

/-- The notification in front, and the queue after its `Pop`. -/
def takeFront (queue : Buffer (Integer t)) : Option (Integer t) × Buffer (Integer t) :=
  if nonempty : queue.data ≠ [] then (some (queue.data.head nonempty), queue.pop nonempty) else (none, queue)

/-- What is done for a channel: the service with the three storages after it; `none` where an assertion fails. -/
def attend (writeback : Register RegAddr) (interrupt : Flag) (queue : Buffer (Integer t)) :
    Option (Service t × Register RegAddr × Flag × Buffer (Integer t)) :=
  match writeback.value with
  | none => some (⟨none, 0, (takeFront queue).1⟩, writeback, interrupt.put false, (takeFront queue).2)
  | some addr => writeback.clear.map fun cleared =>
    if interrupt.isSet then (⟨some addr, 0, none⟩, cleared, interrupt.put false, queue)
    else (⟨some addr, (takeFront queue).1.getD 0, (takeFront queue).1⟩, cleared, interrupt, (takeFront queue).2)

/-- `DoReceivedNotifications` on the channel that it has found. -/
def serve (s : NotificationMultiplexer t n) (i : Fin n) : Option (NotificationMultiplexer t n) :=
  (attend (s.writebacks i) (s.interrupts i) (s.notifications i)).map fun (service, writeback, interrupt, queue) =>
    { s with
      writebacks := Function.update s.writebacks i writeback
      interrupts := Function.update s.interrupts i interrupt
      notifications := Function.update s.notifications i queue
      lastNotified := i
      called := true
      served := Function.update s.served i (s.served i ++ [service])
      passed := fun k => if k = i ∨ s.ready k = false then [] else s.passed k ++ [i] }

/-- `DoReceivedNotifications`. It is refused where the service of the channel, the port or the register of the listener,
or the counter of its family is not available. -/
def doReceivedNotifications (s : NotificationMultiplexer t n) (available : Bool) : Option (NotificationMultiplexer t n) :=
  if s.called then none
  else
    match s.search with
    | none => some { s with called := true }
    | some i => if available then s.serve i else some { s with called := true }

/-- The end of a cycle. -/
def update (s : NotificationMultiplexer t n) : NotificationMultiplexer t n :=
  let s := { s with
    writebacks := fun i => (s.writebacks i).update
    interrupts := fun i => (s.interrupts i).update
    notifications := fun i => (s.notifications i).update
    called := false }
  { s with passed := fun k => if s.ready k then s.passed k else [] }

inductive Event (t : Target) (n : Nat)
  | configureChannel (which : Fin n) (mode : Integer t)
  | setWriteBackAddress (which : Fin n) (addr : RegAddr)
  | onInterruptRequestReceived (channel : Fin n)
  | onNotificationReceived (channel : Fin n) (tag : Integer t)
  | doReceivedNotifications (available : Bool)
  | update

def step (s : NotificationMultiplexer t n) : Event t n → Option (NotificationMultiplexer t n)
  | .configureChannel which mode => some (s.configureChannel which mode)
  | .setWriteBackAddress which addr => s.setWriteBackAddress which addr
  | .onInterruptRequestReceived channel => s.onInterruptRequestReceived channel
  | .onNotificationReceived channel tag => s.onNotificationReceived channel tag
  | .doReceivedNotifications available => s.doReceivedNotifications available
  | .update => some s.update

end NotificationMultiplexer
end Mgsim.Drisc
