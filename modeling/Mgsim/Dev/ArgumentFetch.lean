import Mgsim.Lib.Gather
import Mgsim.Dev.RPC
import Mgsim.Drisc.LoadPath

namespace Mgsim.Dev
open Mgsim.Lib
open Mgsim.Drisc (Target Integer unserializeRegister)

/-- The configuration of the device, as far as the argument fetch goes. -/
structure FetchSizes (t : Target) where
  lineSize : Integer t
  maxArg1Size : BitVec 64
  maxArg2Size : BitVec 64
  incomingSize : Option Nat
  readySize : Option Nat

def FetchSizes.create (t : Target) (lineSize maxArg1Size maxArg2Size : BitVec 64) (incomingSize readySize : Option Nat) :
    Except String (FetchSizes t) :=
  if lineSize.setWidth (8 * t.sizeofInteger) = 0 then .error "RPCLineSize cannot be zero"
  else .ok ⟨lineSize.setWidth _, maxArg1Size, maxArg2Size, incomingSize, readySize⟩

/-- A request, which is also what the input latch holds. The last two fields are a record of the sizes that were asked for. -/
structure IncomingRequest (t : Target) where
  procedureId : BitVec 32
  extraArg1 : BitVec 32
  extraArg2 : BitVec 32
  dcaDeviceId : Nat
  arg1BaseAddress : Integer t
  arg1Size : Nat
  arg2BaseAddress : Integer t
  arg2Size : Nat
  res1BaseAddress : Integer t
  res2BaseAddress : Integer t
  completionTag : Integer t
  notificationChannelId : Nat
  asked1 : Nat
  asked2 : Nat
  deriving DecidableEq

/-- A request with its arguments, as it is passed to the service. -/
structure ProcessRequest (t : Target) where
  procedureId : BitVec 32
  extraArg1 : BitVec 32
  extraArg2 : BitVec 32
  dcaDeviceId : Nat
  res1BaseAddress : Integer t
  res2BaseAddress : Integer t
  completionTag : Integer t
  notificationChannelId : Nat
  data1 : List Byte
  data2 : List Byte
  deriving DecidableEq

inductive ArgumentFetchState
  | reading1
  | reading2
  | finalize
  deriving DecidableEq

/-- A read that is on the bus, with the number of its request. -/
structure DCARead (t : Target) where
  device : Nat
  address : Integer t
  size : Nat
  request : Nat
  deriving DecidableEq

/-- The part of the device before the service, with the reads that have no answer yet; `activations` is the count of
`p_argumentFetch`. The last four fields are a record: the commands as they were given, the requests as they were queued, those
that the service has got, and whether a waiting command has been disturbed. -/
structure ArgumentFetch (t : Target) where
  inputLatch : IncomingRequest t
  queueEnabled : Bool
  incoming : List (IncomingRequest t)
  ready : List (ProcessRequest t)
  fetchState : ArgumentFetchState
  currentArgumentOffset : Nat
  numPendingDCAReads : Nat
  currentArgData1 : List Byte
  currentArgData2 : List Byte
  activations : Nat
  reads : List (DCARead t)
  issued : List (IncomingRequest t)
  queued : List (IncomingRequest t)
  served : List (ProcessRequest t)
  disturbed : Bool

/-- What is wrong with a write, with the numbers of the message. -/
inductive WriteFault (t : Target)
  | unaligned (address : Integer t) (size : Nat)
  | word (word : Nat)

section Registers
variable {t : Target}

def setLow (old : Integer t) (value : BitVec 32) : Integer t := (old &&& ~~~(0xffffffff : Integer t)) ||| value.setWidth _

def setHigh (old : Integer t) (value : BitVec 32) : Integer t := (old &&& (0xffffffff : Integer t)) ||| value.setWidth _ <<< 32

/-- The registers of the device. Those of the high words are there when an address has them. -/
def writeLatch (c : FetchSizes t) (latch : IncomingRequest t) (word : Nat) (value : BitVec 32) : IncomingRequest t :=
  let wide : Bool := 32 < 8 * t.sizeofInteger
  match word with
  | 1 => { latch with
      dcaDeviceId := (value &&& 0xffff).toNat
      notificationChannelId := ((value >>> 16) &&& 0xffff).toNat }
  | 2 => { latch with procedureId := value }
  | 4 => { latch with completionTag := setLow latch.completionTag value }
  | 5 => if wide then { latch with completionTag := setHigh latch.completionTag value } else latch
  | 6 => { latch with arg1Size := min (c.maxArg1Size.toNat % 2 ^ 32) value.toNat, asked1 := value.toNat }
  | 7 => { latch with arg2Size := min (c.maxArg1Size.toNat % 2 ^ 32) value.toNat, asked2 := value.toNat }
  | 8 => { latch with arg1BaseAddress := setLow latch.arg1BaseAddress value }
  | 9 => if wide then { latch with arg1BaseAddress := setHigh latch.arg1BaseAddress value } else latch
  | 10 => { latch with arg2BaseAddress := setLow latch.arg2BaseAddress value }
  | 11 => if wide then { latch with arg2BaseAddress := setHigh latch.arg2BaseAddress value } else latch
  | 12 => { latch with extraArg1 := value }
  | 13 => { latch with extraArg2 := value }
  | 14 => { latch with res1BaseAddress := setLow latch.res1BaseAddress value }
  | 15 => if wide then { latch with res1BaseAddress := setHigh latch.res1BaseAddress value } else latch
  | 16 => { latch with res2BaseAddress := setLow latch.res2BaseAddress value }
  | 17 => if wide then { latch with res2BaseAddress := setHigh latch.res2BaseAddress value } else latch
  | _ => latch

end Registers

namespace ArgumentFetch
variable {t : Target}

def initial (c : FetchSizes t) : ArgumentFetch t where
  inputLatch := ⟨0, 0, 0, 0, 0, 0, 0, 0, 0, 0, 0, 0, 0, 0⟩
  queueEnabled := false
  incoming := []
  ready := []
  fetchState := .reading1
  currentArgumentOffset := 0
  numPendingDCAReads := 0
  currentArgData1 := .replicate c.maxArg1Size.toNat 0
  currentArgData2 := .replicate c.maxArg2Size.toNat 0
  activations := 0
  reads := []
  issued := []
  queued := []
  served := []
  disturbed := false

def onWriteRequestReceived (c : FetchSizes t) (s : ArgumentFetch t) (address : Integer t) (data : List Byte) :
    Except (WriteFault t) (ArgumentFetch t) :=
  if address.toNat % 4 ≠ 0 ∨ data.length ≠ 4 then .error (.unaligned address data.length)
  else
    let word := address.toNat / 4 % 2 ^ 32
    if word = 3 ∨ 17 < word then .error (.word word)
    else
      let value := (unserializeRegister t .integer data).setWidth 32
      if word = 0 then
        .ok { s with queueEnabled := true, issued := s.issued ++ [s.inputLatch], disturbed := s.disturbed || s.queueEnabled }
      else
        let latch := writeLatch c s.inputLatch word value
        .ok { s with inputLatch := latch, disturbed := s.disturbed || s.queueEnabled && latch ≠ s.inputLatch }

/-- `DoQueue`. A queue that was empty activates its process. -/
def doQueue (c : FetchSizes t) (s : ArgumentFetch t) : ArgumentFetch t :=
  if hasSpace c.incomingSize s.incoming then
    { s with
      incoming := s.incoming ++ [s.inputLatch]
      queueEnabled := false
      activations := if s.incoming = [] then s.activations + 1 else s.activations
      queued := s.queued ++ [s.inputLatch] }
  else s

/-- At most a line, at most the rest of the data, and at most the rest of the line. -/
def transferSize (c : FetchSizes t) (offset totalsize : Nat) (voffset : Integer t) : Nat :=
  min (min (totalsize - offset) c.lineSize.toNat) (c.lineSize.toNat - voffset.toNat % c.lineSize.toNat)

/-- A read that has been accepted by the bus; there is none for no bytes. -/
def sendRead (s : ArgumentFetch t) (device : Nat) (address : Integer t) (size : Nat) : ArgumentFetch t :=
  let read : DCARead t := ⟨device, address, size, s.queued.length - s.incoming.length⟩
  { s with
    numPendingDCAReads := if 0 < size then s.numPendingDCAReads + 1 else s.numPendingDCAReads
    reads := if 0 < size then s.reads ++ [read] else s.reads }

/-- `DoArgumentFetch` while it reads an argument. The last step waits for the answer that activates the process again. -/
def readArgument (c : FetchSizes t) (s : ArgumentFetch t) (device : Nat) (base : Integer t) (totalsize : Nat)
    (accepted : Bool) : ArgumentFetch t :=
  let voffset := base + BitVec.ofNat _ s.currentArgumentOffset
  let size := transferSize c s.currentArgumentOffset totalsize voffset
  if 0 < size ∧ accepted = false then s
  else
    let s' := s.sendRead device voffset size
    if s.currentArgumentOffset + size < totalsize then { s' with currentArgumentOffset := s.currentArgumentOffset + size }
    else if s.fetchState = .reading1 then { s' with currentArgumentOffset := 0, fetchState := .reading2 }
    else { s' with
      fetchState := .finalize
      activations := if 0 < s'.numPendingDCAReads then s'.activations - 1 else s'.activations }

def processRequest (req : IncomingRequest t) (data1 data2 : List Byte) : ProcessRequest t :=
  ⟨req.procedureId, req.extraArg1, req.extraArg2, req.dcaDeviceId, req.res1BaseAddress, req.res2BaseAddress,
    req.completionTag, req.notificationChannelId, data1, data2⟩

/-- `DoArgumentFetch` for the request at the front; there is no result when it copies more than a buffer has. -/
def fetchFront (c : FetchSizes t) (s : ArgumentFetch t) (req : IncomingRequest t) (rest : List (IncomingRequest t))
    (accepted : Bool) : Option (ArgumentFetch t) :=
  match s.fetchState with
  | .reading1 => some (s.readArgument c req.dcaDeviceId req.arg1BaseAddress req.arg1Size accepted)
  | .reading2 => some (s.readArgument c req.dcaDeviceId req.arg2BaseAddress req.arg2Size accepted)
  | .finalize =>
    if s.currentArgData1.length < req.arg1Size ∨ s.currentArgData2.length < req.arg2Size then none
    else if hasSpace c.readySize s.ready then
      some { s with
        ready := s.ready ++
          [processRequest req (s.currentArgData1.take req.arg1Size) (s.currentArgData2.take req.arg2Size)]
        fetchState := .reading1
        currentArgumentOffset := 0
        numPendingDCAReads := 0
        incoming := rest
        activations := if rest = [] then s.activations - 1 else s.activations }
    else some s

def doArgumentFetch (c : FetchSizes t) (s : ArgumentFetch t) (accepted : Bool) : Option (ArgumentFetch t) :=
  match s.incoming with
  | [] => none
  | req :: rest => s.fetchFront c req rest accepted

/-- The part of `OnReadResponseReceived` for one of the arguments: the size of the data, cut at the end of the argument, and
the buffer. The end of the data is computed with the host's 64 bits. -/
def receive (base : Integer t) (size : Nat) (address : Integer t) (data : List Byte) (dataSize : Nat) (buffer : List Byte) :
    Option (Nat × List Byte) :=
  let limit := base + BitVec.ofNat _ size
  if base ≤ address ∧ address < limit then
    let dataSize := if limit.toNat ≤ (address.toNat + dataSize) % 2 ^ 64 then (limit - address).toNat else dataSize
    if data.length < dataSize then none
    else (copyInto buffer (address - base).toNat (data.take dataSize)).map fun buffer => (dataSize, buffer)
  else some (dataSize, buffer)

/-- `OnReadResponseReceived` with data. -/
def onReadResponseReceived (s : ArgumentFetch t) (address : Integer t) (data : List Byte) : Option (ArgumentFetch t) :=
  match s.incoming with
  | [] => none
  | req :: _ =>
    (receive req.arg1BaseAddress req.arg1Size address data data.length s.currentArgData1).bind fun first =>
      (receive req.arg2BaseAddress req.arg2Size address data first.1 s.currentArgData2).map fun second =>
        { s with
          currentArgData1 := first.2
          currentArgData2 := second.2
          activations := if s.fetchState = .finalize ∧ s.numPendingDCAReads = 1 then s.activations + 1 else s.activations
          numPendingDCAReads := s.numPendingDCAReads - 1 }

/-- `DoProcessRequests`: the service gets the request at the front, unless the queue behind it is full. -/
def doProcessRequests (s : ArgumentFetch t) (accepted : Bool) : Option (ArgumentFetch t) :=
  match s.ready with
  | [] => none
  | req :: rest => if accepted then some { s with ready := rest, served := s.served ++ [req] } else some s

inductive Event (t : Target)
  | write (address : Integer t) (data : List Byte)
  | queue
  | argumentFetch (accepted : Bool)
  /-- one of the reads is answered -/
  | answer (i : Nat)
  | processRequests (accepted : Bool)

/-- The bytes of the memory of a device from an address on. -/
def bytes (memory : Nat → Integer t → Byte) (device : Nat) (address : Integer t) (size : Nat) : List Byte :=
  (List.range size).map fun k => memory device (address + BitVec.ofNat _ k)

def step (c : FetchSizes t) (memory : Nat → Integer t → Byte) (s : ArgumentFetch t) : Event t → Option (ArgumentFetch t)
  | .write address data => (s.onWriteRequestReceived c address data).toOption
  | .queue => some (s.doQueue c)
  | .argumentFetch accepted => s.doArgumentFetch c accepted
  | .answer i =>
    match s.reads[i]? with
    | none => none
    | some read => { s with reads := s.reads.eraseIdx i }.onReadResponseReceived read.address
        (bytes memory read.device read.address read.size)
  | .processRequests accepted => s.doProcessRequests accepted

/-- A process runs while it is activated, and what is answered is a read that has been sent. -/
def MayHappen (s : ArgumentFetch t) : Event t → Prop
  | .write _ _ => True
  | .queue => s.queueEnabled = true
  | .argumentFetch _ => 0 < s.activations
  | .answer i => i < s.reads.length
  | .processRequests _ => s.ready ≠ []

instance (s : ArgumentFetch t) (event : Event t) : Decidable (s.MayHappen event) :=
  match event with
  | .write _ _ => inferInstanceAs (Decidable True)
  | .queue => inferInstanceAs (Decidable (s.queueEnabled = true))
  | .argumentFetch _ => inferInstanceAs (Decidable (0 < s.activations))
  | .answer i => inferInstanceAs (Decidable (i < s.reads.length))
  | .processRequests _ => inferInstanceAs (Decidable (¬ s.ready = []))

/-- A request as it was asked for: an argument has the bytes of the memory, at most as many as its own maximum. -/
def asked (c : FetchSizes t) (memory : Nat → Integer t → Byte) (req : IncomingRequest t) : ProcessRequest t :=
  processRequest req (bytes memory req.dcaDeviceId req.arg1BaseAddress (min req.asked1 c.maxArg1Size.toNat))
    (bytes memory req.dcaDeviceId req.arg2BaseAddress (min req.asked2 c.maxArg2Size.toNat))

/-- A request for which the device works. The pieces of the second argument start at its base address and at the lines behind it;
one that starts in the first argument must not go on behind its end. -/
structure Fits (c : FetchSizes t) (req : IncomingRequest t) : Prop where
  size1 : req.arg1Size = min req.asked1 c.maxArg1Size.toNat
  size2 : req.arg2Size = min req.asked2 c.maxArg2Size.toNat
  below1 : req.arg1Size = 0 ∨ req.arg1BaseAddress.toNat + req.arg1Size < 2 ^ (8 * t.sizeofInteger)
  below2 : req.arg2Size = 0 ∨ req.arg2BaseAddress.toNat + req.arg2Size < 2 ^ (8 * t.sizeofInteger)
  whole : ∀ a, req.arg2BaseAddress.toNat ≤ a → a < req.arg2BaseAddress.toNat + req.arg2Size →
    (a = req.arg2BaseAddress.toNat ∨ a % c.lineSize.toNat = 0) →
    req.arg1BaseAddress.toNat ≤ a → a < req.arg1BaseAddress.toNat + req.arg1Size →
    min (req.arg2BaseAddress.toNat + req.arg2Size) (a + (c.lineSize.toNat - a % c.lineSize.toNat)) ≤
      req.arg1BaseAddress.toNat + req.arg1Size

/-- What happens may happen, and what is queued fits. -/
def Proper (c : FetchSizes t) (s : ArgumentFetch t) (event : Event t) : Prop :=
  s.MayHappen event ∧ (event = .queue → Fits c s.inputLatch)

/-- The service gets each request once, with its arguments, and none with a read that has no answer; a command that nobody
disturbs while it waits is queued as it was given. -/
structure Fetched (c : FetchSizes t) (memory : Nat → Integer t → Byte) (s : ArgumentFetch t) : Prop where
  served : s.served <+: s.queued.map (asked c memory)
  answered : ∀ read ∈ s.reads, s.served.length ≤ read.request
  commands : s.disturbed = false → s.issued = s.queued ++ if s.queueEnabled then [s.inputLatch] else []

/-- A bound on the steps for a request. -/
def weight (req : IncomingRequest t) : Nat := 2 * (req.arg1Size + req.arg2Size) + 4

def frontWork (s : ArgumentFetch t) (req : IncomingRequest t) : Nat :=
  match s.fetchState with
  | .reading1 => 2 * (req.arg1Size - s.currentArgumentOffset + req.arg2Size) + 4
  | .reading2 => 2 * (req.arg2Size - s.currentArgumentOffset) + 3
  | .finalize => 2

/-- A bound on the work that is left. -/
def work (s : ArgumentFetch t) : Nat :=
  (if s.queueEnabled then weight s.inputLatch + 1 else 0) +
  (match s.incoming with
    | [] => 0
    | req :: rest => s.frontWork req + (rest.map weight).sum) +
  s.reads.length + s.ready.length

/-- No copy leaves its buffer and no step fails. A request is never stuck: the process can run, or a read is on the bus. Each
step gets some work done unless the bus or a queue refuses, and without work everything has been served. -/
structure Live (c : FetchSizes t) (memory : Nat → Integer t → Byte) (s : ArgumentFetch t) : Prop where
  ready : s.incoming ≠ [] → s.reads ≠ [] ∨ 0 < s.activations
  queues : s.queueEnabled = true → hasSpace c.incomingSize s.incoming = true →
    ∃ s', step c memory s .queue = some s' ∧ s'.work < s.work
  fetches : ∀ accepted, 0 < s.activations → ∃ s', step c memory s (.argumentFetch accepted) = some s' ∧
    (accepted = true → hasSpace c.readySize s.ready = true → s'.work < s.work)
  answers : ∀ i < s.reads.length, ∃ s', step c memory s (.answer i) = some s' ∧ s'.work < s.work
  serves : ∀ accepted, s.ready ≠ [] → ∃ s', step c memory s (.processRequests accepted) = some s' ∧
    (accepted = true → s'.work < s.work)
  finished : s.work = 0 → s.served = s.queued.map (asked c memory) ∧ s.queueEnabled = false

end ArgumentFetch
end Mgsim.Dev
