import Mgsim.Cdma.Network

namespace Mgsim.Cdma

inductive LineState
  | empty
  | loading
  | full
  deriving DecidableEq

structure Line where
  state : LineState
  tag : Address
  data : LineData
  access : Nat
  tokens : Nat
  dirty : Bool
  updating : Nat
  valid : Nat → Bool

def Line.initial : Line := ⟨.empty, 0, fun _ => 0, 0, 0, false, 0, fun _ => false⟩

/-- `IBankSelector`: a line address is split into a tag and the index of its
set, and both together give it back. -/
structure BankSelector (sets : Nat) where
  map : Address → Address × Fin sets
  unmap : Address → Fin sets → Address
  unmap_map : ∀ address, unmap (map address).1 (map address).2 = address

/-- The selectors that keep the whole address as the tag, `XORFOLD` among them. -/
def BankSelector.ofIndex {sets : Nat} (index : Address → Fin sets) : BankSelector sets where
  map address := (address, index address)
  unmap tag _ := tag
  unmap_map _ := rfl

/-- `DIRECT`: division and remainder. -/
def BankSelector.direct (sets : Nat) (positive : 0 < sets) : BankSelector sets where
  map address := (address / sets, ⟨address % sets, Nat.mod_lt _ positive⟩)
  unmap tag index := tag * sets + index
  unmap_map address := by
    rw [Nat.mul_comm]
    exact Nat.div_add_mod address sets

/-- The shape of the caches. -/
structure Geometry where
  assoc : Nat
  sets : Nat
  selector : BankSelector sets

variable {g : Geometry} {caches : Nat}

/-- The place of a line: its set and its way. -/
abbrev Place (g : Geometry) := Fin g.sets × Fin g.assoc

/-- The lines of one cache. -/
abbrev Lines (g : Geometry) := Place g → Line

/-- A request of a client, in the buffer of its cache. -/
structure Request where
  mdata : MemData
  write : Bool
  address : Address
  client : Nat
  wid : Nat

/-- What a cache tells its clients. -/
inductive Notice
  | readCompleted (address : Address) (data : LineData)
  | writeCompleted (client wid : Nat)
  | snooped (address : Address) (mdata : MemData)
  | invalidated (address : Address)

/-- An assertion of the source: the text of the one that fails, or the value. -/
abbrev Checked := Except String

def require (condition : Bool) (text : String) : Checked Unit := if condition then .ok () else .error text

namespace Lines

/-- The place is for lines of this address. -/
def IsFor (g : Geometry) (address : Address) (place : Place g) (tag : Address) : Prop :=
  g.selector.map address = (tag, place.1)

instance (address : Address) (place : Place g) (tag : Address) : Decidable (IsFor g address place tag) :=
  inferInstanceAs (Decidable (_ = _))

def findLine (lines : Lines g) (address : Address) : Option (Place g) :=
  let (tag, setindex) := g.selector.map address
  ((List.finRange g.assoc).find? fun i =>
    (lines (setindex, i)).state ≠ .empty ∧ (lines (setindex, i)).tag = tag).map fun i => (setindex, i)

/-- The two candidates of `AllocateLine`: an empty line, and one to replace. -/
structure Candidates (g : Geometry) where
  empty : Option (Place g)
  replace : Option (Place g)

/-- One round of the loop of `AllocateLine`. -/
def consider (lines : Lines g) (tag : Address) (setindex : Fin g.sets) (emptyOnly : Bool) (found : Candidates g)
    (i : Fin g.assoc) : Checked (Candidates g) := do
  let line := lines (setindex, i)
  if line.state = .empty then return { found with empty := some (setindex, i) }
  else if emptyOnly then return found
  else
    require (line.tag ≠ tag) "line.tag != tag"
    if line.state ≠ .loading ∧ line.updating = 0 ∧ found.replace.all (fun old => line.access < (lines old).access) then
      return { found with replace := some (setindex, i) }
    else return found

def allocateLine (lines : Lines g) (address : Address) (emptyOnly : Bool) : Checked (Option (Place g)) := do
  let (tag, setindex) := g.selector.map address
  let found ← (List.finRange g.assoc).foldlM (consider lines tag setindex emptyOnly) ⟨none, none⟩
  return found.empty <|> found.replace

/-- The address that `EvictLine` reconstructs. -/
def addressOf (lines : Lines g) (place : Place g) : Address := g.selector.unmap (lines place).tag place.1

end Lines

/-- What the handling of a message or request changes: the lines, at most one
message to send, and the notices to the clients. -/
structure Reaction (g : Geometry) (caches : Nat) where
  lines : Lines g
  send : Option (Message caches)
  notices : List Notice

open Lines

/-- `EvictLine`. -/
def evictLine (id : Fin caches) (lines : Lines g) (place : Place g) : Checked (Reaction g caches) := do
  let line := lines place
  require (line.state ≠ .loading) "line->state != LINE_LOADING"
  require (line.updating = 0) "line->updating == 0"
  let address := addressOf lines place
  let msg := { Message.new .eviction address id with
    tokens := line.tokens, dirty := line.dirty, data := ⟨line.data, fun _ => false⟩ }
  return ⟨Function.update lines place { line with state := .empty }, some msg, [.invalidated address]⟩

/-- The case `REQUEST` and `REQUEST_DATA` of `OnMessageReceived`. -/
def onRequest (cycleNo : Nat) (lines : Lines g) (msg : Message caches) : Reaction g caches :=
  match findLine lines msg.address with
  | none => ⟨lines, some msg, []⟩
  | some place =>
    let line := lines place
    if line.state ≠ .full then ⟨lines, some msg, []⟩
    else if line.tokens > 1 then
      ⟨Function.update lines place { line with tokens := line.tokens - 1, access := cycleNo },
        some { msg with type := .requestDataToken, tokens := 1, dirty := line.dirty, data := { msg.data with data := line.data } },
        []⟩
    else if msg.type = .request then
      ⟨lines, some { msg with type := .requestData, dirty := line.dirty, data := { msg.data with data := line.data } }, []⟩
    else ⟨lines, some msg, []⟩

/-- The case `REQUEST_DATA_TOKEN` for a message that has reached its origin.
`pending` are the requests of the clients, whose writes go into the answer. -/
def onResponse (lines : Lines g) (pending : List Request) (msg : Message caches) : Checked (Reaction g caches) :=
  match findLine lines msg.address with
  | none => .error "line != NULL"
  | some place => do
    let line := lines place
    require (line.state = .loading) "line->state == LINE_LOADING"
    require (msg.tokens > 0) "msg->tokens > 0"
    require (line.tokens = 0) "line->tokens == 0"
    let mdata := blit msg.data.data line.data line.valid
    let full := { line with
      state := .full, tokens := msg.tokens, dirty := msg.dirty || line.dirty
      data := blitNot line.data mdata line.valid, valid := setIfNot line.valid true line.valid }
    let answer := pending.foldl (fun data p =>
      if p.write ∧ p.address = msg.address then blit data p.mdata.data p.mdata.mask else data) mdata
    return ⟨Function.update lines place full, none, [.readCompleted msg.address answer]⟩

/-- The case `EVICTION`. -/
def onEviction (cycleNo : Nat) (lines : Lines g) (msg : Message caches) : Checked (Reaction g caches) :=
  match findLine lines msg.address with
  | some place => do
    let line := lines place
    if line.state = .full then
      require (msg.tokens > 0) "msg->tokens > 0"
      return ⟨Function.update lines place
        { line with tokens := line.tokens + msg.tokens, dirty := line.dirty || msg.dirty }, none, []⟩
    else return ⟨lines, some msg, []⟩
  | none => do
    match ← allocateLine lines msg.address true with
    | some place =>
      let line := { lines place with
        state := .full, tag := (g.selector.map msg.address).1, tokens := msg.tokens, dirty := msg.dirty, updating := 0
        access := cycleNo, valid := fun _ => true, data := msg.data.data }
      return ⟨Function.update lines place line, none, []⟩
    | none => return ⟨lines, some msg, []⟩

/-- The case `UPDATE`. -/
def onUpdate (id : Fin caches) (lines : Lines g) (msg : Message caches) : Checked (Reaction g caches) :=
  match findLine lines msg.address with
  | none =>
    if msg.sender = id then .error "line != NULL" else .ok ⟨lines, some msg, []⟩
  | some place => do
    let line := lines place
    if msg.sender = id then
      require (line.updating > 0) "line->updating > 0"
      return ⟨Function.update lines place { line with updating := line.updating - 1 }, none,
        [.writeCompleted msg.client msg.wid]⟩
    else
      return ⟨Function.update lines place { line with
          data := blit line.data msg.data.data msg.data.mask, valid := setIf line.valid true msg.data.mask },
        some msg, [.snooped msg.address msg.data]⟩

/-- `OnMessageReceived`. The clients take every notice; a client that cannot
makes the process fail, which is a step that does not happen. -/
def onMessageReceived (id : Fin caches) (cycleNo : Nat) (pending : List Request) (lines : Lines g)
    (msg : Message caches) : Checked (Reaction g caches) :=
  if msg.ignore ∨ (msg.type = .requestDataToken ∧ msg.sender ≠ id) then .ok ⟨lines, some msg, []⟩
  else match msg.type with
    | .request | .requestData => .ok (onRequest cycleNo lines msg)
    | .requestDataToken => onResponse lines pending msg
    | .eviction => onEviction cycleNo lines msg
    | .update => onUpdate id lines msg

/-- The result of a request: `FAILED`, or a reaction after which the request
stays (`DELAYED`) or is done (`SUCCESS`). -/
inductive Handled (g : Geometry) (caches : Nat)
  | failed
  | delayed (reaction : Reaction g caches)
  | success (reaction : Reaction g caches)

/-- The line of a new miss. -/
def loadingLine (line : Line) (tag : Address) (access : Nat) : Line :=
  { line with
    state := .loading, tag := tag, tokens := 0, dirty := false, updating := 0, access := access, valid := fun _ => false }

/-- A miss in a place that `AllocateLine` has found: evict its line, or start to load.
The access time is `none` where the source leaves it as it is. -/
def miss (id : Fin caches) (lines : Lines g) (address : Address) (access : Option Nat) (place : Place g) :
    Checked (Bool × Reaction g caches) := do
  let line := lines place
  if line.state ≠ .empty then return (false, ← evictLine id lines place)
  else
    let loading := loadingLine line (g.selector.map address).1 (access.getD line.access)
    return (true, ⟨Function.update lines place loading, some (Message.new .request address id), []⟩)

/-- `OnWriteRequest`; `total` is `GetTotalTokens`, the number of caches. -/
def onWriteRequest (id : Fin caches) (cycleNo : Nat) (lines : Lines g) (req : Request) : Checked (Handled g caches) :=
  match findLine lines req.address with
  | none => do
    match ← allocateLine lines req.address false with
    | none => return .failed
    | some place => return .delayed (← miss id lines req.address none place).2
  | some place =>
    let line := lines place
    let written (line : Line) : Line := { line with
      data := blit line.data req.mdata.data req.mdata.mask, valid := setIf line.valid true req.mdata.mask
      dirty := true, access := cycleNo }
    if line.state = .full ∧ line.tokens = caches then
      .ok (.success ⟨Function.update lines place (written line), none, [.writeCompleted req.client req.wid]⟩)
    else
      let msg := { Message.new .update req.address id with data := req.mdata, client := req.client, wid := req.wid }
      .ok (.success ⟨Function.update lines place (written { line with updating := line.updating + 1 }), some msg, []⟩)

/-- `OnReadRequest`. -/
def onReadRequest (id : Fin caches) (cycleNo : Nat) (lines : Lines g) (req : Request) : Checked (Handled g caches) :=
  match findLine lines req.address with
  | none => do
    match ← allocateLine lines req.address false with
    | none => return .failed
    | some place =>
      let (loads, reaction) ← miss id lines req.address (some cycleNo) place
      return if loads then .success reaction else .delayed reaction
  | some place => do
    let line := lines place
    if line.state = .full then
      return .success ⟨Function.update lines place { line with access := cycleNo }, none,
        [.readCompleted req.address line.data]⟩
    else
      require (line.state = .loading) "line->state == LINE_LOADING"
      return .success ⟨lines, none, []⟩

/-- The part of `DoRequests` that handles the request at the front. -/
def onClientRequest (id : Fin caches) (cycleNo : Nat) (lines : Lines g) (req : Request) : Checked (Handled g caches) :=
  if req.write then onWriteRequest id cycleNo lines req else onReadRequest id cycleNo lines req

end Mgsim.Cdma
