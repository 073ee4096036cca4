import Mgsim.Cdma.Directory
import Mgsim.Lib.Buffer

namespace Mgsim.Cdma
open Mgsim.Lib

/-- A memory system: its rings, the shape of its caches and the sizes of its buffers. -/
structure Setup extends Network where
  geometry : Geometry
  nodeBufferSize : Option Nat
  requestBufferSize : Option Nat
  externalOutputQueueSize : Option Nat
  externalInputQueueSize : Option Nat

variable {setup : Setup}

abbrev Setup.Node (setup : Setup) := Cdma.Node setup.caches setup.directories setup.roots

abbrev Setup.Message (setup : Setup) := Cdma.Message setup.caches

/-- The buffers that hold messages: two for each node, and the queues to and
from memory of each root directory. -/
inductive Port (setup : Setup)
  | incoming (node : setup.Node)
  | outgoing (node : setup.Node)
  | requests (root : Fin setup.roots)
  | responses (root : Fin setup.roots)
  deriving DecidableEq

structure State (setup : Setup) where
  lines : Fin setup.caches → Lines setup.geometry
  dirs : Fin setup.directories → Dir
  rootDirs : Fin setup.roots → RootDir setup.caches
  buffers : Port setup → Buffer setup.Message
  /-- The messages that are active in the memory of a root directory. -/
  active : Fin setup.roots → List setup.Message
  /-- The requests of the clients, one buffer for each cache. -/
  pending : Fin setup.caches → Buffer Request
  memory : Address → LineData
  cycleNo : Nat
  notices : List (Fin setup.caches × Notice)

inductive Event (setup : Setup)
  | read (id : Fin setup.caches) (address : Address)
  | write (id : Fin setup.caches) (address : Address) (client : Nat) (mdata : MemData) (wid : Nat)
  | requests (id : Fin setup.caches)
  | receive (id : Fin setup.caches)
  | forward (node : setup.Node)
  | inBottom (dir : Fin setup.directories)
  | inTop (dir : Fin setup.directories)
  | incoming (root : Fin setup.roots)
  | memoryRequests (root : Fin setup.roots)
  | readCompleted (root : Fin setup.roots)
  | memoryResponses (root : Fin setup.roots)
  | endCycle

/-- All caches are empty, and no message is on its way. -/
def State.initial (setup : Setup) (memory : Address → LineData) : State setup where
  lines _ _ := Line.initial
  dirs _ _ := none
  rootDirs _ _ := none
  buffers
    | .incoming _ | .outgoing _ => .empty setup.nodeBufferSize 1
    | .requests _ => .empty setup.externalOutputQueueSize 1
    | .responses _ => .empty setup.externalInputQueueSize 1
  active _ := []
  pending _ := .empty setup.requestBufferSize 1
  memory := memory
  cycleNo := 0
  notices := []

namespace State

/-- The front message of a buffer, and the state after it is popped. -/
def take (s : State setup) (port : Port setup) : Option (setup.Message × State setup) :=
  (s.buffers port).take?.map fun taken => (taken.1, { s with buffers := Function.update s.buffers port taken.2 })

def push (s : State setup) (port : Port setup) (msg : setup.Message) (minSpace : Nat) : Option (State setup) :=
  ((s.buffers port).push msg minSpace).map fun buffer => { s with buffers := Function.update s.buffers port buffer }

/-- The lines and notices of a reaction. -/
def react (s : State setup) (id : Fin setup.caches) (reaction : Reaction setup.geometry setup.caches) : State setup :=
  { s with
    lines := Function.update s.lines id reaction.lines
    notices := s.notices ++ reaction.notices.map fun notice => (id, notice) }

/-- The message of a reaction goes to the next node. -/
def send (s : State setup) (node : setup.Node) (message : Option setup.Message) (minSpace : Nat) :
    Option (State setup) :=
  match message with
  | none => some s
  | some msg => s.push (.outgoing node) msg minSpace

def withDir (s : State setup) (id : Fin setup.directories) (dir : Dir) : State setup :=
  { s with dirs := Function.update s.dirs id dir }

def withRootDir (s : State setup) (id : Fin setup.roots) (dir : RootDir setup.caches) : State setup :=
  { s with rootDirs := Function.update s.rootDirs id dir }

def isLocal (setup : Setup) (root : Fin setup.roots) (address : Address) : Bool := address % setup.roots = root

/-- `DoRequests` of a cache. -/
def doRequests (s : State setup) (id : Fin setup.caches) : Checked (Option (State setup)) :=
  match (s.pending id).take? with
  | none => .ok none
  | some (req, rest) => do
    match ← onClientRequest id s.cycleNo (s.lines id) req with
    | .failed => return none
    | .delayed reaction => return (s.send (.cache id) reaction.send 2).map fun s => s.react id reaction
    | .success reaction =>
      return (s.send (.cache id) reaction.send 2).map fun s =>
        { s.react id reaction with pending := Function.update s.pending id rest }

/-- `DoReceive` of a cache. -/
def doReceive (s : State setup) (id : Fin setup.caches) : Checked (Option (State setup)) :=
  match s.take (.incoming (.cache id)) with
  | none => .ok none
  | some (msg, after) => do
    let reaction ← onMessageReceived id s.cycleNo (s.pending id).data (s.lines id) msg
    return (after.send (.cache id) reaction.send 1).map fun s => s.react id reaction

/-- `DoForward` of a node. -/
def doForward (s : State setup) (node : setup.Node) : Option (State setup) :=
  (s.take (.outgoing node)).bind fun taken => taken.2.push (.incoming (setup.next node)) taken.1 1

/-- `DoInBottom` of a directory. -/
def doInBottom (s : State setup) (id : Fin setup.directories) : Checked (Option (State setup)) :=
  match s.take (.incoming (.bottom id)) with
  | none => .ok none
  | some (msg, after) => do
    let (dir, msg) ← onMessageReceivedBottom (setup.isBelow id) (s.dirs id) msg
    return (after.push (.outgoing (.top id)) msg 1).map fun s => s.withDir id dir

/-- `DoInTop` of a directory. -/
def doInTop (s : State setup) (id : Fin setup.directories) : Option (State setup) :=
  (s.take (.incoming (.top id))).bind fun (msg, after) =>
    let (dir, route) := onMessageReceivedTop (setup.isBelow id) (s.dirs id) msg
    let after := after.withDir id dir
    match route with
    | .down => after.push (.outgoing (.bottom id)) msg 1
    | .shortcut =>
      match after.push (.outgoing (.top id)) msg 2 with
      | some after => some after
      | none => after.push (.outgoing (.bottom id)) { msg with ignore := true } 1

/-- `DoIncoming` of a root directory. -/
def doIncoming (s : State setup) (id : Fin setup.roots) : Checked (Option (State setup)) :=
  match s.take (.incoming (.root id)) with
  | none => .ok none
  | some (msg, after) => do
    let (dir, route) ← onRootMessageReceived (isLocal setup id) (s.rootDirs id) msg
    let after := after.withRootDir id dir
    match route with
    | .dropped => return some after
    | .queued msg => return after.push (.requests id) msg 1
    | .forwarded msg =>
      match after.push (.outgoing (.root id)) msg 2 with
      | some after => return some after
      | none => return after.push (.requests id) { msg with ignore := true } 1

/-- `DoRequests` of a root directory; the memory takes every request. -/
def doMemoryRequests (s : State setup) (id : Fin setup.roots) : Checked (Option (State setup)) :=
  match s.take (.requests id) with
  | none => .ok none
  | some (msg, after) =>
    if msg.ignore then .ok (after.push (.responses id) msg 1)
    else if msg.type = .request then
      .ok (some { after with active := Function.update s.active id (s.active id ++ [msg]) })
    else do
      require (msg.type = .eviction) "msg->type == Message::EVICTION"
      return some { after with memory := Function.update s.memory msg.address msg.data.data }

/-- `OnReadCompleted` of a root directory. -/
def doReadCompleted (s : State setup) (id : Fin setup.roots) : Option (State setup) :=
  match s.active id with
  | [] => none
  | msg :: rest =>
    let answer := { msg with
      type := .requestDataToken, dirty := false, data := { msg.data with data := s.memory msg.address } }
    { s with active := Function.update s.active id rest }.push (.responses id) answer 1

/-- `DoResponses` of a root directory. -/
def doMemoryResponses (s : State setup) (id : Fin setup.roots) : Checked (Option (State setup)) :=
  match s.take (.responses id) with
  | none => .ok none
  | some (msg, after) => do
    let (dir, msg) ← onMemoryResponse (s.rootDirs id) msg
    return (after.push (.outgoing (.root id)) msg 1).map fun s => s.withRootDir id dir

/-- A client puts a request into the buffer of its cache. -/
def request (s : State setup) (id : Fin setup.caches) (req : Request) : Option (State setup) :=
  ((s.pending id).push req 1).map fun buffer => { s with pending := Function.update s.pending id buffer }

/-- One process of one component, a request of a client, or the end of a cycle.
The result is the text of an assertion that fails, `none` when the process
cannot run now, or the next state. -/
def step (s : State setup) : Event setup → Checked (Option (State setup))
  | .read id address => .ok (s.request id ⟨⟨fun _ => 0, fun _ => false⟩, false, address, 0, 0⟩)
  | .write id address client mdata wid =>
    .ok ((s.request id ⟨mdata, true, address, client, wid⟩).map fun s =>
      { s with notices := s.notices ++ [(id, .snooped address mdata)] })
  | .requests id => s.doRequests id
  | .receive id => s.doReceive id
  | .forward node => .ok (s.doForward node)
  | .inBottom dir => s.doInBottom dir
  | .inTop dir => .ok (s.doInTop dir)
  | .incoming root => s.doIncoming root
  | .memoryRequests root => s.doMemoryRequests root
  | .readCompleted root => .ok (s.doReadCompleted root)
  | .memoryResponses root => s.doMemoryResponses root
  | .endCycle =>
    .ok (some { s with
      buffers := fun port => (s.buffers port).update
      pending := fun id => (s.pending id).update
      cycleNo := s.cycleNo + 1 })

/-- The steps of a run: those that do not stop at an assertion. -/
def next (s : State setup) (e : Event setup) : Option (State setup) :=
  match s.step e with
  | .ok after => after
  | .error _ => none

end State

end Mgsim.Cdma
