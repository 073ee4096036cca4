import Mgsim.Ic.Arbiter
import Mgsim.Lib.Buffer
import Mgsim.Lib.Run

namespace Mgsim.Ic
open Mgsim.Lib
variable {M : Type}

/-- A message. Its sender and its number among the accepted ones are not in the code: they tell messages apart. -/
structure Message (M : Type) where
  src : Nat
  number : Nat
  payload : M

structure OutgoingMessage (M : Type) where
  broadcast : Bool
  dst : Nat
  msg : Message M

/-- `SharedMedium` or `EndPointArbiter`. -/
inductive Medium
  | shared
  | endPoints
  deriving DecidableEq

/-- A stack of interconnect layers, with its registered senders and receivers. -/
structure Stack where
  medium : Medium
  senders : Nat
  receivers : Nat
  sourceBuffered : Nat → Bool
  destinationBuffered : Nat → Bool
  bcastEnabled : Nat → Bool

namespace Stack

/-- The receivers of a broadcast. -/
def bcastReceivers (stack : Stack) : List Nat := (List.range stack.receivers).filter stack.bcastEnabled

/-- The ports that must be acquired for a message. -/
def portsOf (stack : Stack) (m : OutgoingMessage M) : List Nat :=
  match stack.medium with
  | .shared => [0]
  | .endPoints => if m.broadcast then stack.bcastReceivers else [m.dst]

/-- Whether a receiver is to get a message. -/
def addressed (stack : Stack) (t : Nat) (m : OutgoingMessage M) : Bool :=
  if m.broadcast then decide (t ∈ stack.bcastReceivers) else decide (t = m.dst)

end Stack

/-- The state of an interconnect, with what its receivers have taken. -/
structure Interconnect (M : Type) where
  stack : Stack
  sources : Nat → Buffer (OutgoingMessage M)
  destinations : Nat → Buffer (Message M)
  ports : Nat → Port
  received : Nat → List (Message M)

namespace Interconnect

def setSource (ic : Interconnect M) (s : Nat) (b : Buffer (OutgoingMessage M)) : Interconnect M :=
  { ic with sources := Function.update ic.sources s b }

def setDestination (ic : Interconnect M) (t : Nat) (b : Buffer (Message M)) : Interconnect M :=
  { ic with destinations := Function.update ic.destinations t b }

/-- A receiver takes a message. -/
def take (ic : Interconnect M) (t : Nat) (msg : Message M) : Interconnect M :=
  { ic with received := Function.update ic.received t (ic.received t ++ [msg]) }

/-- The `deliver_cb` of a receiver in a phase: `ReceiveMessage` of its buffer, or the receiver itself, which accepts or
not. `none` where an assertion fails. -/
def deliver (phase : Phase) (accepts : Nat → Bool) (msg : Message M) (t : Nat) (ic : Interconnect M) :
    Option (Bool × Interconnect M) :=
  if ic.stack.destinationBuffered t then
    ((ic.destinations t).pushIn phase msg 1).map fun (done, b) => (done, ic.setDestination t b)
  else some (accepts t, if phase = .commit ∧ accepts t then ic.take t msg else ic)

/-- The loop of `WireNet::SendBroadcast`. -/
def deliverAll (phase : Phase) (accepts : Nat → Bool) (msg : Message M) :
    List Nat → Interconnect M → Option (Bool × Interconnect M)
  | [], ic => some (true, ic)
  | t :: rest, ic => (ic.deliver phase accepts msg t).bind fun (done, ic') =>
      (deliverAll phase accepts msg rest ic').map fun (others, after) => (done && others, after)

/-- `SendBroadcast` and `SendMessage` of `WireNet`. -/
def wireSend (phase : Phase) (accepts : Nat → Bool) (m : OutgoingMessage M) (ic : Interconnect M) :
    Option (Bool × Interconnect M) :=
  if m.broadcast then deliverAll phase accepts m.msg ic.stack.bcastReceivers ic
  else if m.dst < ic.stack.receivers then ic.deliver phase accepts m.msg m.dst
  else none

/-- Whether a sender has acquired the ports for a message. -/
def acquired (ic : Interconnect M) (s : Nat) (m : OutgoingMessage M) : Bool :=
  (ic.stack.portsOf m).all fun p => (ic.ports p).selected = some s

/-- `SendBroadcast` and `SendMessage` of the medium, in the phases after the arbitration. -/
def mediumSend (phase : Phase) (accepts : Nat → Bool) (s : Nat) (m : OutgoingMessage M) (ic : Interconnect M) :
    Option (Bool × Interconnect M) :=
  if ic.acquired s m then wireSend phase accepts m ic else some (false, ic)

/-- `SendBroadcast` and `SendMessage` of `SourceBuffering`. -/
def sourceSend (phase : Phase) (accepts : Nat → Bool) (s : Nat) (m : OutgoingMessage M) (ic : Interconnect M) :
    Option (Bool × Interconnect M) :=
  if ic.stack.sourceBuffered s then
    ((ic.sources s).pushIn phase m 1).map fun (done, b) => (done, ic.setSource s b)
  else mediumSend phase accepts s m ic

/-- `DoSend` of a buffered sender in a phase. -/
def doSend (phase : Phase) (accepts : Nat → Bool) (s : Nat) (ic : Interconnect M) : Option (Bool × Interconnect M) :=
  (ic.sources s).take?.bind fun (m, rest) =>
    (mediumSend phase accepts s m ic).map fun (done, ic') =>
      (done, if done = true ∧ phase = .commit then ic'.setSource s rest else ic')

/-- `DoReceive` of a buffered receiver, which accepts or not. -/
def doReceive (phase : Phase) (accepts : Bool) (t : Nat) (ic : Interconnect M) : Option (Bool × Interconnect M) :=
  (ic.destinations t).take?.map fun (msg, rest) =>
    (accepts, if accepts = true ∧ phase = .commit then (ic.take t msg).setDestination t rest else ic)

/-- `Arbitrate` of a port, with the requests of some senders. -/
def arbitrate (ic : Interconnect M) (p : Nat) (requests : List Nat) : Interconnect M :=
  { ic with ports := Function.update ic.ports p ((ic.ports p).arbitrate ic.stack.senders requests) }

end Interconnect

/-- What clients and processes do; end points have clocks of their own. A receiver without a buffer accepts a message or
not (`accepts`). -/
inductive IcEvent (M : Type)
  | arbitrate (p : Nat) (requests : List Nat)
  | send (s : Nat) (broadcast : Bool) (dst : Nat) (payload : M) (accepts : Nat → Bool)
  | doSend (s : Nat) (accepts : Nat → Bool)
  | doReceive (t : Nat) (accepts : Bool)
  | updateSource (s : Nat)
  | updateDestination (t : Nat)

/-- An interconnect with the messages that have been accepted from its senders. -/
structure IcRecord (M : Type) where
  ic : Interconnect M
  accepted : List (OutgoingMessage M)

namespace IcRecord
open Interconnect

/-- An interconnect in which no message is under way. -/
def start (stack : Stack) (sourceSize destinationSize : Nat → Option Nat) : IcRecord M where
  ic := ⟨stack, fun s => .empty (sourceSize s) 1, fun t => .empty (destinationSize t) 1, fun _ => ⟨0, none⟩, fun _ => []⟩
  accepted := []

/-- The message that a sender is about to send. -/
def outgoing (r : IcRecord M) (s : Nat) (broadcast : Bool) (dst : Nat) (payload : M) : OutgoingMessage M :=
  ⟨broadcast, if broadcast then 0 else dst, ⟨s, r.accepted.length, payload⟩⟩

/-- One event, and whether the message of a send is accepted. Senders and receivers are registered ones. -/
def step? (r : IcRecord M) : IcEvent M → Option (Bool × IcRecord M)
  | .arbitrate p requests =>
    if requests.Nodup ∧ ∀ s ∈ requests, s < r.ic.stack.senders then
      some (true, { r with ic := r.ic.arbitrate p requests })
    else none
  | .send s broadcast dst payload accepts =>
    if s < r.ic.stack.senders ∧ (broadcast = true ∨ dst < r.ic.stack.receivers) then
      (runProcess (fun phase => sourceSend phase accepts s (r.outgoing s broadcast dst payload)) r.ic).map fun (done, ic) =>
        (done, ⟨ic, if done then r.accepted ++ [r.outgoing s broadcast dst payload] else r.accepted⟩)
    else none
  | .doSend s accepts => (runProcess (fun phase => Interconnect.doSend phase accepts s) r.ic).map fun (done, ic) =>
      (done, { r with ic := ic })
  | .doReceive t accepts => (runProcess (fun phase => Interconnect.doReceive phase accepts t) r.ic).map fun (done, ic) =>
      (done, { r with ic := ic })
  | .updateSource s => some (true, { r with ic := r.ic.setSource s (r.ic.sources s).update })
  | .updateDestination t => some (true, { r with ic := r.ic.setDestination t (r.ic.destinations t).update })

def step (r : IcRecord M) (e : IcEvent M) : Option (IcRecord M) := (r.step? e).map Prod.snd

end IcRecord

/-- Every message that has been accepted is delivered once to each receiver that it is for, or under way: what a receiver
has taken from a sender, what waits in its buffer and what waits in the buffer of the sender are the messages that
have been accepted from the sender for the receiver, in the order in which they were sent. A send that is refused
changes nothing. -/
structure Delivers (r : IcRecord M) : Prop where
  inOrder : ∀ s t, ((r.accepted.filter fun m => m.msg.src = s).filter (r.ic.stack.addressed t)).map OutgoingMessage.msg =
    (r.ic.received t ++ (r.ic.destinations t).contents).filter (fun msg => msg.src = s) ++
      ((r.ic.sources s).contents.filter (r.ic.stack.addressed t)).map OutgoingMessage.msg
  numbered : r.accepted.map (fun m => m.msg.number) = List.range r.accepted.length
  refused : ∀ e after, r.step? e = some (false, after) → after = r

end Mgsim.Ic
