import Mgsim.Cdma.Conservation
import Mgsim.Lib.Checked

namespace Mgsim.Cdma
open Mgsim.Lib Books Lines
variable {setup : Setup} {g : Geometry} {caches : Nat}

/-- A write of a client: its cache, the client and the thread that waits for it. -/
abbrev WriteKey (caches : Nat) := Fin caches × Nat × Nat

/-! The writes that a message, a request, a notice and an event stand for. -/

def Message.writes (msg : Message caches) : Multiset (WriteKey caches) :=
  if msg.type = .update then {(msg.sender, msg.client, msg.wid)} else 0

def Request.writes (id : Fin caches) (req : Request) : Multiset (WriteKey caches) :=
  if req.write then {(id, req.client, req.wid)} else 0

def Notice.writes (id : Fin caches) : Notice → Multiset (WriteKey caches)
  | .writeCompleted client wid => {(id, client, wid)}
  | _ => 0

def Event.writes : Event setup → Multiset (WriteKey setup.caches)
  | .write id _ client _ wid => {(id, client, wid)}
  | _ => 0

/-- The writes in the request buffers of the caches. -/
def waitingIn (pending : Fin caches → Buffer Request) : Multiset (WriteKey caches) :=
  account (fun id (buffer : Buffer Request) => total (Request.writes id) buffer.contents) pending

namespace State

def waiting (s : State setup) : Multiset (WriteKey setup.caches) := waitingIn s.pending

/-- The writes whose updates are on their way. -/
def updating (s : State setup) : Multiset (WriteKey setup.caches) := total (fun x => x.2.writes) s.flight

/-- The writes of which a client has been told that they are completed. -/
def answered (s : State setup) : Multiset (WriteKey setup.caches) :=
  total (fun notice => notice.2.writes notice.1) (s.notices : Multiset (Fin setup.caches × Notice))

/-- All writes that the caches know of. -/
def writes (s : State setup) : Multiset (WriteKey setup.caches) := s.waiting + s.updating + s.answered

end State

/-- The writes that the clients have been able to put into the request buffers. -/
def accepted (events : List (Event setup)) : Multiset (WriteKey setup.caches) := total Event.writes events

/-- A line that waits for an update stays, under its address. -/
def Kept (lines after : Lines g) : Prop :=
  ∀ place, (lines place).state ≠ .empty → 0 < (lines place).updating →
    (after place).state ≠ .empty ∧ (after place).tag = (lines place).tag

theorem Kept.refl (lines : Lines g) : Kept lines lines := fun _ occupied _ => ⟨occupied, rfl⟩

/-- What a cache does with a message or request: where its writes are afterwards, and that waiting lines stay. -/
structure Completes (id : Fin caches) (lines : Lines g) (inp : Multiset (WriteKey caches)) (reaction : Reaction g caches) :
    Prop where
  writes : reaction.send.elim 0 Message.writes +
    total (Notice.writes id) (reaction.notices : Multiset Notice) = inp
  kept : Kept lines reaction.lines

section Cache
variable {id : Fin caches} {cycleNo : Nat} {lines : Lines g} {msg : Message caches} {req : Request} {place : Place g}
  {reaction : Reaction g caches}

theorem kept_update {line : Line} (stays : (lines place).state ≠ .empty → 0 < (lines place).updating →
    line.state ≠ .empty ∧ line.tag = (lines place).tag) : Kept lines (Function.update lines place line) := by
  intro other occupied waits
  by_cases here : other = place
  · subst here
    rw [Function.update_self]
    exact stays occupied waits
  · rw [Function.update_of_ne here]
    exact ⟨occupied, rfl⟩

theorem completes_forward (id : Fin caches) (lines : Lines g) (msg : Message caches) :
    Completes id lines msg.writes ⟨lines, some msg, []⟩ :=
  ⟨add_zero _, .refl lines⟩

theorem writes_of_other (other : msg.type ≠ .update) : msg.writes = 0 := if_neg other

theorem completes_onRequest (request : msg.type = .request ∨ msg.type = .requestData) :
    Completes id lines msg.writes (onRequest cycleNo lines msg) := by
  have nothing : msg.writes = 0 := writes_of_other (by rcases request with type | type <;> simp [type])
  unfold onRequest
  split
  · exact completes_forward id lines msg
  · dsimp only
    split
    · exact completes_forward id lines msg
    split
    · rw [nothing]
      exact ⟨rfl, kept_update fun occupied _ => ⟨occupied, rfl⟩⟩
    split
    · rw [nothing]
      exact ⟨rfl, .refl lines⟩
    · exact completes_forward id lines msg

theorem completes_onResponse {pending : List Request} (type : msg.type = .requestDataToken)
    (done : onResponse lines pending msg = .ok reaction) : Completes id lines msg.writes reaction := by
  rw [writes_of_other (by simp [type])]
  unfold onResponse at done
  split at done
  · cases done
  · obtain ⟨_, _, done⟩ := bind_ok done
    obtain ⟨_, _, done⟩ := bind_ok done
    obtain ⟨_, _, done⟩ := bind_ok done
    cases done
    exact ⟨rfl, kept_update fun _ _ => ⟨nofun, rfl⟩⟩

theorem completes_onEviction (type : msg.type = .eviction) (done : onEviction cycleNo lines msg = .ok reaction) :
    Completes id lines msg.writes reaction := by
  have nothing : msg.writes = 0 := writes_of_other (by simp [type])
  unfold onEviction at done
  split at done
  · rename_i place found
    dsimp only at done
    split at done
    · obtain ⟨_, _, done⟩ := bind_ok done
      cases done
      rw [nothing]
      exact ⟨rfl, kept_update fun occupied _ => ⟨occupied, rfl⟩⟩
    · cases done
      exact completes_forward id lines msg
  · rename_i absent
    obtain ⟨place, allocated, within⟩ := allocateLine_spec true absent
    rw [allocated] at done
    cases place with
    | none =>
      cases done
      exact completes_forward id lines msg
    | some place =>
      cases done
      rw [nothing]
      refine ⟨rfl, kept_update fun occupied _ => ?_⟩
      exact absurd ((within place rfl).2.resolve_right nofun) occupied

theorem completes_onUpdate (type : msg.type = .update) (done : onUpdate id lines msg = .ok reaction) :
    Completes id lines msg.writes reaction := by
  unfold onUpdate at done
  split at done
  · split at done
    · cases done
    · cases done
      exact completes_forward id lines msg
  · rename_i place found
    split at done
    · rename_i own
      obtain ⟨_, _, done⟩ := bind_ok done
      cases done
      refine ⟨?_, kept_update fun occupied _ => ⟨occupied, rfl⟩⟩
      rw [Message.writes, if_pos type, own]
      rfl
    · cases done
      refine ⟨?_, kept_update fun occupied _ => ⟨occupied, rfl⟩⟩
      exact add_zero _

theorem completes_onMessageReceived {pending : List Request}
    (done : onMessageReceived id cycleNo pending lines msg = .ok reaction) : Completes id lines msg.writes reaction := by
  unfold onMessageReceived at done
  split at done
  · cases done
    exact completes_forward id lines msg
  split at done
  · rename_i type
    cases done
    exact completes_onRequest (Or.inl type)
  · rename_i type
    cases done
    exact completes_onRequest (Or.inr type)
  · rename_i type
    exact completes_onResponse type done
  · rename_i type
    exact completes_onEviction type done
  · rename_i type
    exact completes_onUpdate type done

/-- A miss sends no update and completes no write. It evicts no line that waits for an update. -/
theorem completes_miss {access : Option Nat} {out : Bool × Reaction g caches}
    (allocated : Allocated lines req.address false place) (done : miss id lines req.address access place = .ok out) :
    Completes id lines 0 out.2 := by
  unfold miss at done
  dsimp only at done
  split at done
  · rename_i occupied
    obtain ⟨reaction, evicted, done⟩ := bind_ok done
    cases done
    unfold evictLine at evicted
    dsimp only at evicted
    obtain ⟨_, _, evicted⟩ := bind_ok evicted
    obtain ⟨_, _, evicted⟩ := bind_ok evicted
    cases evicted
    refine ⟨rfl, kept_update fun _ waits => ?_⟩
    have idle := (allocated.2.resolve_left occupied).2.2
    omega
  · rename_i empty
    cases done
    exact ⟨rfl, kept_update fun occupied _ => absurd occupied empty⟩

/-- The writes that a handled request has moved on: none, unless it is done. -/
def Handled.completes (id : Fin caches) (lines : Lines g) (req : Request) : Handled g caches → Prop
  | .failed => True
  | .delayed reaction => Completes id lines 0 reaction
  | .success reaction => Completes id lines (req.writes id) reaction

theorem completes_onWriteRequest {handled : Handled g caches} (write : req.write = true)
    (done : onWriteRequest id cycleNo lines req = .ok handled) : handled.completes id lines req := by
  unfold onWriteRequest at done
  split at done
  · rename_i absent
    obtain ⟨place, allocated, within⟩ := allocateLine_spec false absent
    rw [allocated] at done
    cases place with
    | none =>
      cases done
      trivial
    | some place =>
      obtain ⟨_, same, done⟩ := bind_ok done
      cases same
      obtain ⟨out, missed, done⟩ := bind_ok done
      cases done
      exact completes_miss (within place rfl) missed
  · rename_i place found
    have occupied := (findLine_eq_some found).1
    have key : req.writes id = {(id, req.client, req.wid)} := if_pos write
    dsimp only at done
    split at done
    · cases done
      refine ⟨?_, kept_update fun _ _ => ⟨occupied, rfl⟩⟩
      rw [key]
      rfl
    · cases done
      refine ⟨?_, kept_update fun _ _ => ⟨occupied, rfl⟩⟩
      rw [key]
      rfl

theorem completes_onReadRequest {handled : Handled g caches} (read : req.write = false)
    (done : onReadRequest id cycleNo lines req = .ok handled) : handled.completes id lines req := by
  have key : req.writes id = 0 := if_neg (by simp [read])
  unfold onReadRequest at done
  split at done
  · rename_i absent
    obtain ⟨place, allocated, within⟩ := allocateLine_spec false absent
    rw [allocated] at done
    cases place with
    | none =>
      cases done
      trivial
    | some place =>
      obtain ⟨_, same, done⟩ := bind_ok done
      cases same
      obtain ⟨out, missed, done⟩ := bind_ok done
      have completes := completes_miss (within place rfl) missed
      cases loads : out.1 with
      | true =>
        simp only [loads, if_true] at done
        cases done
        rw [Handled.completes, key]
        exact completes
      | false =>
        simp only [loads, Bool.false_eq_true, if_false] at done
        cases done
        exact completes
  · rename_i place found
    have occupied := (findLine_eq_some found).1
    dsimp only at done
    split at done
    · cases done
      rw [Handled.completes, key]
      exact ⟨rfl, kept_update fun _ _ => ⟨occupied, rfl⟩⟩
    · obtain ⟨_, _, done⟩ := bind_ok done
      cases done
      rw [Handled.completes, key]
      exact ⟨rfl, .refl lines⟩

theorem completes_onClientRequest {handled : Handled g caches}
    (done : onClientRequest id cycleNo lines req = .ok handled) : handled.completes id lines req := by
  unfold onClientRequest at done
  split at done
  · rename_i write
    exact completes_onWriteRequest write done
  · rename_i read
    exact completes_onReadRequest (by simpa using read) done

end Cache

section Step
variable {s s₁ s₂ after : State setup} {msg : setup.Message} {port : Port setup}

/-- Nothing changes but messages and directories. -/
structure Aside (s after : State setup) : Prop where
  lines : after.lines = s.lines
  pending : after.pending = s.pending
  notices : after.notices = s.notices

theorem Aside.refl (s : State setup) : Aside s s := ⟨rfl, rfl, rfl⟩

theorem Aside.trans (first : Aside s s₁) (second : Aside s₁ s₂) : Aside s s₂ :=
  ⟨second.lines.trans first.lines, second.pending.trans first.pending, second.notices.trans first.notices⟩

theorem aside_take (done : s.take port = some (msg, after)) : Aside s after := by
  obtain ⟨_, _, same⟩ := Option.map_eq_some_iff.mp done
  cases same
  exact ⟨rfl, rfl, rfl⟩

theorem aside_push {minSpace : Nat} (done : s.push port msg minSpace = some after) : Aside s after := by
  obtain ⟨_, _, rfl⟩ := Option.map_eq_some_iff.mp done
  exact ⟨rfl, rfl, rfl⟩

theorem aside_send {node : setup.Node} {message : Option setup.Message} {minSpace : Nat}
    (done : s.send node message minSpace = some after) : Aside s after := by
  cases message with
  | none =>
    cases done
    exact .refl s
  | some msg => exact aside_push done

/-- A step loses and invents no write, and waiting lines stay. -/
structure Passes (s after : State setup) (new : Multiset (WriteKey setup.caches)) : Prop where
  writes : after.writes = s.writes + new
  kept : ∀ id, Kept (s.lines id) (after.lines id)

theorem updating_eq (s : State setup) : s.updating = total (fun x => x.2.writes) s.books.flight := rfl

theorem Aside.passes (aside : Aside s after) (updating : after.updating = s.updating) : Passes s after 0 := by
  refine ⟨?_, fun id => ?_⟩
  · rw [add_zero, State.writes, State.writes, State.waiting, State.waiting, State.answered, State.answered, updating,
      aside.pending, aside.notices]
  · rw [aside.lines]
    exact .refl _

/-- A message goes on, with the write that it stands for, or is gone and stands for none. -/
theorem passes_of_moved {x : Flying setup} {rest : Multiset (Flying setup)} (out : Option (Flying setup))
    (aside : Aside s after) (before : s.books.flight = x ::ₘ rest)
    (moved : after.books.flight = out.elim rest (· ::ₘ rest))
    (same : (out.elim 0 fun y => y.2.writes) = x.2.writes) : Passes s after 0 := by
  refine aside.passes ?_
  rw [updating_eq, updating_eq, before, moved, total_cons, total_elim, same]

theorem flight_push {minSpace : Nat} (done : s.push port msg minSpace = some after) :
    after.books.flight = (port.location, msg) ::ₘ s.books.flight := by
  rw [push_books done]
  rfl

theorem flight_take (done : s.take port = some (msg, after)) :
    s.books.flight = (port.location, msg) ::ₘ after.books.flight := by
  obtain ⟨rest, before, books⟩ := take_books done
  rw [before, books]
  rfl

theorem flight_send {id : Fin setup.caches} {message : Option setup.Message} {minSpace : Nat}
    (done : s.send (.cache id) message minSpace = some after) :
    total (fun x => x.2.writes) after.books.flight =
      message.elim 0 Message.writes + total (fun x => x.2.writes) s.books.flight := by
  rw [send_books done, fly_flight, total_elim]
  cases message with
  | none => rfl
  | some msg => rfl

/-- The notices of a reaction, and the message that it sends. -/
theorem passes_react {id : Fin setup.caches} {reaction : Reaction setup.geometry setup.caches} {minSpace : Nat}
    {inp : Multiset (WriteKey setup.caches)} (sent : s.send (.cache id) reaction.send minSpace = some after)
    (completes : Completes id (s.lines id) inp reaction) : Passes s (after.react id reaction) inp := by
  have aside := aside_send sent
  have flight : (after.react id reaction).updating = reaction.send.elim 0 Message.writes + s.updating := by
    rw [updating_eq, react_books]
    exact flight_send sent
  have notices : (after.react id reaction).answered =
      s.answered + total (Notice.writes id) (reaction.notices : Multiset Notice) := by
    have told : total (fun notice : Fin setup.caches × Notice => notice.2.writes notice.1)
        ((reaction.notices.map fun notice => (id, notice) : List (Fin setup.caches × Notice)) :
          Multiset (Fin setup.caches × Notice)) = total (Notice.writes id) (reaction.notices : Multiset Notice) := by
      rw [total, total, ← Multiset.map_coe, Multiset.map_map]
      rfl
    rw [State.answered, State.answered, State.react, total_append, told, aside.notices]
  refine ⟨?_, fun other => ?_⟩
  · rw [← completes.writes, State.writes, State.writes, flight, notices,
      show (after.react id reaction).waiting = s.waiting from congrArg waitingIn aside.pending]
    ac_rfl
  · rw [show (after.react id reaction).lines = Function.update s.lines id reaction.lines by
      rw [State.react, aside.lines]]
    by_cases here : other = id
    · subst here
      rw [Function.update_self]
      exact completes.kept
    · rw [Function.update_of_ne here]
      exact .refl _

/-- The front request leaves its buffer. -/
theorem waiting_take {pending : Fin caches → Buffer Request} {id : Fin caches} {req : Request} {rest : Buffer Request}
    (taken : (pending id).take? = some (req, rest)) :
    waitingIn pending = req.writes id + waitingIn (Function.update pending id rest) := by
  obtain ⟨front, _⟩ := Buffer.take?_eq_some taken
  have moved := account_update (fun id (buffer : Buffer Request) => total (Request.writes id) buffer.contents) pending id rest
  rw [front, show ((req :: rest.contents : List Request) : Multiset Request) = req ::ₘ rest.contents from rfl, total_cons,
    ← add_assoc, add_left_inj] at moved
  rw [waitingIn, waitingIn, ← moved, add_comm]

theorem waiting_push {pending : Fin caches → Buffer Request} {id : Fin caches} {req : Request} {buffer : Buffer Request}
    (pushed : (pending id).push req 1 = some buffer) :
    waitingIn (Function.update pending id buffer) = waitingIn pending + req.writes id := by
  have contents := Buffer.contents_push pushed
  have moved := account_update (fun id (buffer : Buffer Request) => total (Request.writes id) buffer.contents) pending id buffer
  rw [contents, total_append, total_singleton, add_comm (total _ _) (req.writes id), ← add_assoc, add_left_inj] at moved
  exact moved

theorem passes_doRequests {id : Fin setup.caches} (done : s.doRequests id = .ok (some after)) : Passes s after 0 := by
  unfold State.doRequests at done
  split at done
  · cases done
  · rename_i req rest taken
    obtain ⟨handled, run, done⟩ := bind_ok done
    have completes := completes_onClientRequest run
    cases handled with
    | failed => cases done
    | delayed reaction =>
      obtain ⟨sent, pushed, rfl⟩ := Option.map_eq_some_iff.mp (Except.ok.inj done)
      exact passes_react pushed completes
    | success reaction =>
      obtain ⟨sent, pushed, rfl⟩ := Option.map_eq_some_iff.mp (Except.ok.inj done)
      have passes := passes_react pushed completes
      refine ⟨?_, passes.kept⟩
      have writes := passes.writes
      have aside := aside_send pushed
      have popped : waitingIn s.pending = req.writes id + waitingIn (Function.update sent.pending id rest) := by
        rw [waiting_take taken, aside.pending]
      have before : (sent.react id reaction).waiting = waitingIn s.pending := congrArg waitingIn aside.pending
      have updating : State.updating { sent.react id reaction with pending := Function.update sent.pending id rest } =
          (sent.react id reaction).updating := by
        rw [updating_eq, updating_eq]
        exact congrArg (total _) (congrArg Books.flight (books_congr rfl rfl rfl (fun _ => rfl) rfl))
      rw [State.writes, State.writes, before, show s.waiting = _ from popped, popped] at writes
      rw [State.writes, State.writes, add_zero, show s.waiting = _ from popped]
      refine add_left_cancel (a := req.writes id) ?_
      calc req.writes id + (waitingIn (Function.update sent.pending id rest) +
              State.updating { sent.react id reaction with pending := Function.update sent.pending id rest } +
              (sent.react id reaction).answered)
        _ = req.writes id + waitingIn (Function.update sent.pending id rest) + (sent.react id reaction).updating +
              (sent.react id reaction).answered := by rw [updating]; ac_rfl
        _ = req.writes id + waitingIn (Function.update sent.pending id rest) + s.updating + s.answered +
              req.writes id := writes
        _ = req.writes id + (req.writes id + waitingIn (Function.update sent.pending id rest) + s.updating +
              s.answered) := by ac_rfl

theorem Passes.after_take {new : Multiset (WriteKey setup.caches)} (taken : s.take port = some (msg, s₁))
    (passes : Passes s₁ after (msg.writes + new)) : Passes s after new := by
  have aside := aside_take taken
  refine ⟨?_, fun id => aside.lines ▸ passes.kept id⟩
  have taking : s₁.writes = s.waiting + s₁.updating + s.answered := by
    rw [State.writes, State.waiting, State.answered, aside.pending, aside.notices]
    rfl
  rw [passes.writes, taking, State.writes, updating_eq s, flight_take taken, total_cons, ← updating_eq s₁]
  ac_rfl

theorem Passes.aside {new : Multiset (WriteKey setup.caches)} (passes : Passes s s₁ new) (aside : Aside s₁ after)
    (flight : after.books.flight = s₁.books.flight) : Passes s after new := by
  have further := aside.passes (by rw [updating_eq, updating_eq, flight])
  refine ⟨?_, fun id => aside.lines ▸ passes.kept id⟩
  rw [further.writes, add_zero, passes.writes]

theorem passes_doReceive {id : Fin setup.caches} (done : s.doReceive id = .ok (some after)) : Passes s after 0 := by
  unfold State.doReceive at done
  split at done
  · cases done
  · rename_i msg middle taken
    obtain ⟨reaction, run, done⟩ := bind_ok done
    obtain ⟨sent, pushed, rfl⟩ := Option.map_eq_some_iff.mp (Except.ok.inj done)
    rw [← (aside_take taken).pending, ← (aside_take taken).lines] at run
    refine Passes.after_take taken ?_
    rw [add_zero]
    exact passes_react pushed (completes_onMessageReceived run)

/-- The message that goes on stands for the same write. -/
theorem passes_push {msg' : setup.Message} {target : Port setup} {minSpace : Nat} (taken : s.take port = some (msg, s₁))
    (aside : Aside s₁ s₂) (flight : s₂.books.flight = s₁.books.flight) (pushed : s₂.push target msg' minSpace = some after)
    (same : msg'.writes = msg.writes) : Passes s after 0 := by
  refine passes_of_moved (some (target.location, msg')) (((aside_take taken).trans aside).trans (aside_push pushed))
    (flight_take taken) ?_ same
  rw [flight_push pushed, flight]
  rfl

theorem passes_doForward {node : setup.Node} (done : s.doForward node = some after) : Passes s after 0 := by
  obtain ⟨⟨msg, middle⟩, taken, pushed⟩ := Option.bind_eq_some_iff.mp done
  exact passes_push taken (.refl _) rfl pushed rfl

theorem onMessageReceivedBottom_msg {isBelow : Fin caches → Bool} {dir dir' : Dir} {msg msg' : Message caches}
    (done : onMessageReceivedBottom isBelow dir msg = .ok (dir', msg')) : msg' = { msg with ignore := false } := by
  unfold onMessageReceivedBottom at done
  dsimp only at done
  split at done
  · cases done
    rfl
  split at done
  · obtain ⟨_, _, done⟩ := bind_ok done
    obtain ⟨_, _, done⟩ := bind_ok done
    cases done
    rfl
  · obtain ⟨_, _, done⟩ := bind_ok done
    cases done
    rfl
  all_goals
    cases done
    rfl

theorem passes_doInBottom {id : Fin setup.directories} (done : s.doInBottom id = .ok (some after)) :
    Passes s after 0 := by
  unfold State.doInBottom at done
  split at done
  · cases done
  · rename_i msg middle taken
    obtain ⟨⟨dir, msg'⟩, run, done⟩ := bind_ok done
    obtain ⟨sent, pushed, rfl⟩ := Option.map_eq_some_iff.mp (Except.ok.inj done)
    have same : msg'.writes = msg.writes := by
      rw [onMessageReceivedBottom_msg run]
      rfl
    have flight : (sent.withDir id dir).books.flight = sent.books.flight := by
      rw [withDir_books, withDir_flight]
    exact (passes_push taken (.refl _) rfl pushed same).aside ⟨rfl, rfl, rfl⟩ flight

theorem passes_doInTop {id : Fin setup.directories} (done : s.doInTop id = some after) : Passes s after 0 := by
  obtain ⟨⟨msg, middle⟩, taken, done⟩ := Option.bind_eq_some_iff.mp done
  dsimp only at done
  have aside : Aside middle (middle.withDir id (onMessageReceivedTop (setup.isBelow id) (s.dirs id) msg).1) :=
    ⟨rfl, rfl, rfl⟩
  have flight := congrArg Books.flight
    (withDir_books middle id (onMessageReceivedTop (setup.isBelow id) (s.dirs id) msg).1)
  split at done
  · exact passes_push taken aside flight done rfl
  · split at done
    · rename_i shortcut
      cases done
      exact passes_push taken aside flight shortcut rfl
    · exact passes_push taken aside flight done rfl

def RootRoute.writes : RootRoute caches → Multiset (WriteKey caches)
  | .dropped => 0
  | .queued msg | .forwarded msg => msg.writes

/-- A root directory makes an answer of a request only, and drops evictions only. -/
theorem onRootMessageReceived_msg {isLocal : Address → Bool} {dir dir' : RootDir caches} {msg : Message caches}
    {route : RootRoute caches} (done : onRootMessageReceived isLocal dir msg = .ok (dir', route)) :
    route.writes = msg.writes := by
  unfold onRootMessageReceived at done
  split at done
  · cases done
    rfl
  split at done
  · split at done
    · cases done
      rfl
    · cases done
      rfl
  · rename_i type
    have nothing : msg.writes = 0 := writes_of_other (by simp [type])
    dsimp only at done
    split at done
    · cases done
      exact nothing.symm
    split at done
    · cases done
      exact nothing.symm
    · cases done
      rfl
  · rename_i type
    have nothing : msg.writes = 0 := writes_of_other (by simp [type])
    split at done
    · cases done
    · obtain ⟨_, _, done⟩ := bind_ok done
      dsimp only at done
      obtain ⟨_, _, done⟩ := bind_ok done
      split at done
      · cases done
        exact nothing.symm
      · cases done
        split
        · rfl
        · exact nothing.symm
  · cases done
    rfl
  · cases done
    rfl

theorem passes_doIncoming {id : Fin setup.roots} (done : s.doIncoming id = .ok (some after)) : Passes s after 0 := by
  unfold State.doIncoming at done
  split at done
  · cases done
  · rename_i msg middle taken
    obtain ⟨⟨dir, route⟩, run, done⟩ := bind_ok done
    have same := onRootMessageReceived_msg run
    have aside : Aside middle (middle.withRootDir id dir) := ⟨rfl, rfl, rfl⟩
    have flight := congrArg Books.flight (withRootDir_books middle id dir)
    dsimp only at done
    split at done
    · cases done
      exact passes_of_moved none ((aside_take taken).trans aside) (flight_take taken) flight same
    · exact passes_push taken aside flight (Except.ok.inj done) same
    · split at done
      · rename_i shortcut
        cases done
        exact passes_push taken aside flight shortcut same
      · exact passes_push taken aside flight (Except.ok.inj done) same

theorem passes_doMemoryRequests {id : Fin setup.roots} (done : s.doMemoryRequests id = .ok (some after)) :
    Passes s after 0 := by
  unfold State.doMemoryRequests at done
  split at done
  · cases done
  · rename_i msg middle taken
    have aside := aside_take taken
    split at done
    · exact passes_push taken (.refl _) rfl (Except.ok.inj done) rfl
    split at done
    · cases done
      refine passes_of_moved (some (.active id, msg)) ⟨aside.lines, aside.pending, aside.notices⟩ (flight_take taken)
        ?_ rfl
      rw [← take_active taken, activate_books]
      rfl
    · obtain ⟨_, eviction, done⟩ := bind_ok done
      have type : msg.type = .eviction := by
        unfold require at eviction
        split at eviction
        · rename_i yes
          simpa using yes
        · cases eviction
      cases done
      refine passes_of_moved none ⟨aside.lines, aside.pending, aside.notices⟩ (flight_take taken) ?_
        (writes_of_other (by simp [type])).symm
      exact congrArg Books.flight (books_congr rfl rfl rfl (fun _ => rfl) rfl)

theorem passes_doReadCompleted {id : Fin setup.roots} (inv : s.books.Conserved) (done : s.doReadCompleted id = some after) :
    Passes s after 0 := by
  unfold State.doReadCompleted at done
  split at done
  · cases done
  · rename_i msg rest front
    obtain ⟨others, before, books⟩ := active_books front
    obtain ⟨_, _, type⟩ : msg.ignore = false ∧ State.isLocal setup id msg.address = true ∧ msg.type = .request :=
      (inv.sound_head before).placed
    have aside := aside_push done
    have nothing : msg.writes = 0 := writes_of_other (by simp [type])
    have flight := flight_push done
    rw [books, fly_flight] at flight
    refine passes_of_moved (some _) ⟨aside.lines, aside.pending, aside.notices⟩ before flight ?_
    rw [nothing]
    rfl

theorem passes_doMemoryResponses {id : Fin setup.roots} (inv : s.books.Conserved)
    (done : s.doMemoryResponses id = .ok (some after)) : Passes s after 0 := by
  unfold State.doMemoryResponses at done
  split at done
  · cases done
  · rename_i msg middle taken
    obtain ⟨⟨dir, msg'⟩, run, done⟩ := bind_ok done
    obtain ⟨sent, pushed, rfl⟩ := Option.map_eq_some_iff.mp (Except.ok.inj done)
    have same : msg'.writes = msg.writes := by
      unfold onMemoryResponse at run
      split at run
      · cases run
        rfl
      · rename_i heard
        have type : msg.type = .requestDataToken :=
          ((inv.sound_head (flight_take taken)).placed (Bool.eq_false_iff.mpr heard)).2
        split at run
        · cases run
        · obtain ⟨_, _, run⟩ := bind_ok run
          cases run
          have nothing : msg.writes = 0 := writes_of_other (by simp [type])
          rw [nothing]
          exact writes_of_other (by simp [type])
    have flight : (sent.withRootDir id dir).books.flight = sent.books.flight := by
      rw [withRootDir_books, withRoot_flight]
    exact (passes_push taken (.refl _) rfl pushed same).aside ⟨rfl, rfl, rfl⟩ flight

theorem passes_request {id : Fin setup.caches} {req : Request} (done : s.request id req = some after) :
    Passes s after (req.writes id) := by
  obtain ⟨buffer, pushed, rfl⟩ := Option.map_eq_some_iff.mp done
  have updating : State.updating { s with pending := Function.update s.pending id buffer } = s.updating := by
    rw [updating_eq, updating_eq]
    exact congrArg (total _) (congrArg Books.flight (books_congr rfl rfl rfl (fun _ => rfl) rfl))
  refine ⟨?_, fun _ => .refl _⟩
  rw [State.writes, updating, State.writes, State.waiting, waiting_push pushed]
  change waitingIn s.pending + req.writes id + s.updating + s.answered = _
  rw [State.waiting]
  ac_rfl

theorem passes_step {e : Event setup} (inv : s.books.Conserved) (taken : s.next e = some after) :
    Passes s after e.writes := by
  unfold State.next at taken
  split at taken
  · rename_i result done
    subst taken
    cases e with
    | read id address => exact passes_request (Except.ok.inj done)
    | write id address client mdata wid =>
      obtain ⟨asked, pushed, rfl⟩ := Option.map_eq_some_iff.mp (Except.ok.inj done)
      have passes := passes_request pushed
      refine ⟨?_, passes.kept⟩
      have updating : State.updating { asked with notices := asked.notices ++ [(id, .snooped address mdata)] } =
          asked.updating := by
        rw [updating_eq, updating_eq]
        exact congrArg (total _) (congrArg Books.flight (books_congr rfl rfl rfl (fun _ => rfl) rfl))
      have answered : State.answered { asked with notices := asked.notices ++ [(id, .snooped address mdata)] } =
          asked.answered := by
        rw [State.answered, total_append, State.answered]
        exact add_zero _
      rw [State.writes, updating, answered]
      exact passes.writes
    | requests id => exact passes_doRequests done
    | receive id => exact passes_doReceive done
    | forward node => exact passes_doForward (Except.ok.inj done)
    | inBottom dir => exact passes_doInBottom done
    | inTop dir => exact passes_doInTop (Except.ok.inj done)
    | incoming root => exact passes_doIncoming done
    | memoryRequests root => exact passes_doMemoryRequests done
    | readCompleted root => exact passes_doReadCompleted inv (Except.ok.inj done)
    | memoryResponses root => exact passes_doMemoryResponses inv done
    | endCycle =>
      cases Option.some.inj (Except.ok.inj done)
      refine ⟨?_, fun _ => .refl _⟩
      have updating : State.updating { s with
          buffers := fun port => (s.buffers port).update
          pending := fun id => (s.pending id).update
          cycleNo := s.cycleNo + 1 } = s.updating := by
        rw [updating_eq, updating_eq]
        exact congrArg (total _)
          (congrArg Books.flight (books_congr rfl rfl rfl (fun port => Buffer.contents_update _) rfl))
      have waiting : waitingIn (fun id => (s.pending id).update) = waitingIn s.pending := by
        refine account_congr fun id => ?_
        rw [Buffer.contents_update]
      rw [State.writes, updating, State.waiting, waiting]
      exact (add_zero _).symm
  · cases taken

/-- Every write that a cache has accepted waits there, is on its way, or has been answered. -/
theorem accepted_eq_writes {memory : Address → LineData} {events : List (Event setup)}
    (run : Run State.next (fun _ _ => True) (.initial setup memory) events s) : accepted events = s.writes := by
  induction run with
  | start =>
    have waiting : (State.initial setup memory).waiting = 0 := by
      rw [State.waiting, waitingIn, account]
      exact Finset.sum_eq_zero fun id _ => rfl
    have updating : (State.initial setup memory).updating = 0 := by
      rw [State.updating, flight_initial, total_zero]
    rw [State.writes, waiting, updating]
    rfl
  | next earlier _ taken ih =>
    rw [accepted, total_append, total_singleton, ← accepted, ih, (passes_step (conserved_of_run earlier) taken).writes]

end Step

section Run
variable {s : State setup}

/-- A write to the line of the first load, by client 3 for thread 7. -/
def loadAndWrite : List (Event twoCaches) :=
  let first : Fin 2 := ⟨0, Nat.two_pos⟩
  firstLoad ++ [.write first 5 3 ⟨fun _ => 1, fun _ => true⟩ 7, .endCycle, .requests first, .endCycle]

end Run

/-! ### Reads -/

/-- The cache waits for this line. -/
def Loading (lines : Lines g) (address : Address) : Prop :=
  ∃ place, (lines place).state = .loading ∧ IsFor g address place (lines place).tag

/-- The read of this address waits for its line, or the clients have been told the bytes. -/
def Reads (lines : Lines g) (notices : List Notice) (address : Address) : Prop :=
  Loading lines address ∨ ∃ data, .readCompleted address data ∈ notices

/-- A line that the cache waits for stays, or its bytes are given to the clients. -/
def KeepsReads (lines : Lines g) (reaction : Reaction g caches) : Prop :=
  ∀ address, Loading lines address → Reads reaction.lines reaction.notices address

section ReadSteps
variable {id : Fin caches} {cycleNo : Nat} {lines : Lines g} {msg : Message caches} {req : Request} {place : Place g}
  {reaction : Reaction g caches}

theorem keepsReads_same (message : Option (Message caches)) (notices : List Notice) :
    KeepsReads lines ⟨lines, message, notices⟩ := fun _ loading => .inl loading

theorem keepsReads_update {line : Line} {message : Option (Message caches)} {notices : List Notice}
    (stays : (lines place).state = .loading → line.state = .loading ∧ line.tag = (lines place).tag) :
    KeepsReads lines ⟨Function.update lines place line, message, notices⟩ := by
  rintro address ⟨other, loading, isFor⟩
  refine .inl ⟨other, ?_⟩
  by_cases here : other = place
  · subst here
    obtain ⟨state, tag⟩ := stays loading
    simp only [Function.update_self, tag]
    exact ⟨state, isFor⟩
  · simp only [Function.update_of_ne here]
    exact ⟨loading, isFor⟩

theorem keepsReads_onRequest : KeepsReads lines (onRequest cycleNo lines msg) := by
  unfold onRequest
  split
  · exact keepsReads_same _ _
  rename_i place _
  dsimp only
  split
  · exact keepsReads_same _ _
  rename_i full
  split
  · exact keepsReads_update fun loading => absurd (fun state => by rw [loading] at state; cases state) full
  split
  · exact keepsReads_same _ _
  · exact keepsReads_same _ _

theorem keepsReads_onResponse {pending : List Request} (done : onResponse lines pending msg = .ok reaction) :
    KeepsReads lines reaction := by
  unfold onResponse at done
  split at done
  · cases done
  rename_i place found
  obtain ⟨_, _, done⟩ := bind_ok done
  obtain ⟨_, _, done⟩ := bind_ok done
  obtain ⟨_, _, done⟩ := bind_ok done
  cases done
  rintro address ⟨other, loading, isFor⟩
  by_cases here : other = place
  · subst here
    have same := isFor.unique (findLine_eq_some found).2
    exact .inr ⟨_, by rw [same]; exact List.mem_singleton_self _⟩
  · refine .inl ⟨other, ?_⟩
    simp only [Function.update_of_ne here]
    exact ⟨loading, isFor⟩

theorem keepsReads_onEviction (done : onEviction cycleNo lines msg = .ok reaction) : KeepsReads lines reaction := by
  unfold onEviction at done
  split at done
  · rename_i place found
    dsimp only at done
    split at done
    · rename_i full
      obtain ⟨_, _, done⟩ := bind_ok done
      cases done
      exact keepsReads_update fun loading => ⟨loading, rfl⟩
    · cases done
      exact keepsReads_same _ _
  · rename_i absent
    obtain ⟨place, allocated, within⟩ := allocateLine_spec true absent
    rw [allocated] at done
    cases place with
    | none =>
      cases done
      exact keepsReads_same _ _
    | some place =>
      cases done
      have empty := (within place rfl).2.resolve_right fun replaced => Bool.noConfusion replaced.1
      refine keepsReads_update fun loading => ?_
      rw [empty] at loading
      cases loading

theorem keepsReads_onUpdate (done : onUpdate id lines msg = .ok reaction) : KeepsReads lines reaction := by
  unfold onUpdate at done
  split at done
  · split at done
    · cases done
    · cases done
      exact keepsReads_same _ _
  · split at done
    · obtain ⟨_, _, done⟩ := bind_ok done
      cases done
      exact keepsReads_update fun loading => ⟨loading, rfl⟩
    · cases done
      exact keepsReads_update fun loading => ⟨loading, rfl⟩

theorem keepsReads_onMessageReceived {pending : List Request}
    (done : onMessageReceived id cycleNo pending lines msg = .ok reaction) : KeepsReads lines reaction := by
  unfold onMessageReceived at done
  split at done
  · cases done
    exact keepsReads_same _ _
  split at done
  · cases done
    exact keepsReads_onRequest
  · cases done
    exact keepsReads_onRequest
  · exact keepsReads_onResponse done
  · exact keepsReads_onEviction done
  · exact keepsReads_onUpdate done

/-- A miss evicts no line that the cache waits for, and waits for the new one when it does not evict. -/
theorem keepsReads_miss {access : Option Nat} {out : Bool × Reaction g caches} {address : Address}
    (allocated : Allocated lines address false place) (done : miss id lines address access place = .ok out) :
    KeepsReads lines out.2 ∧ (out.1 = true → Loading out.2.lines address) := by
  have idle : (lines place).state ≠ .loading := by
    rcases allocated.2 with empty | ⟨_, full, _⟩
    · simp [empty]
    · simp [full]
  unfold miss at done
  dsimp only at done
  split at done
  · obtain ⟨reaction, evicted, done⟩ := bind_ok done
    cases done
    unfold evictLine at evicted
    dsimp only at evicted
    obtain ⟨_, _, evicted⟩ := bind_ok evicted
    obtain ⟨_, _, evicted⟩ := bind_ok evicted
    cases evicted
    refine ⟨keepsReads_update fun loading => absurd loading idle, fun never => ?_⟩
    cases never
  · cases done
    refine ⟨keepsReads_update fun loading => absurd loading idle, fun _ => ⟨place, ?_⟩⟩
    simp only [Function.update_self]
    exact ⟨rfl, Prod.ext rfl allocated.1.symm⟩

/-- What has been done with the reads: the waiting ones are kept, and the request, when it is done, waits or is answered. -/
def Handled.reads (lines : Lines g) (req : Request) : Handled g caches → Prop
  | .failed => True
  | .delayed reaction => KeepsReads lines reaction
  | .success reaction => KeepsReads lines reaction ∧
      (req.write = false → Reads reaction.lines reaction.notices req.address)

theorem reads_onWriteRequest {handled : Handled g caches} (write : req.write = true)
    (done : onWriteRequest id cycleNo lines req = .ok handled) : handled.reads lines req := by
  have other (P : Prop) : req.write = false → P := fun read => by
    rw [write] at read
    cases read
  unfold onWriteRequest at done
  split at done
  · rename_i absent
    obtain ⟨place, allocated, within⟩ := allocateLine_spec false absent
    rw [allocated] at done
    cases place with
    | none =>
      cases done
      trivial
    | some place =>
      obtain ⟨_, same, done⟩ := bind_ok done
      cases same
      obtain ⟨out, missed, done⟩ := bind_ok done
      cases done
      exact (keepsReads_miss (within place rfl) missed).1
  · dsimp only at done
    split at done
    · cases done
      exact ⟨keepsReads_update fun loading => ⟨loading, rfl⟩, other _⟩
    · cases done
      exact ⟨keepsReads_update fun loading => ⟨loading, rfl⟩, other _⟩

theorem reads_onReadRequest {handled : Handled g caches} (done : onReadRequest id cycleNo lines req = .ok handled) :
    handled.reads lines req := by
  unfold onReadRequest at done
  split at done
  · rename_i absent
    obtain ⟨place, allocated, within⟩ := allocateLine_spec false absent
    rw [allocated] at done
    cases place with
    | none =>
      cases done
      trivial
    | some place =>
      obtain ⟨_, same, done⟩ := bind_ok done
      cases same
      obtain ⟨out, missed, done⟩ := bind_ok done
      obtain ⟨kept, loads⟩ := keepsReads_miss (within place rfl) missed
      cases new : out.1 with
      | true =>
        simp only [new, if_true] at done
        cases done
        exact ⟨kept, fun _ => .inl (loads new)⟩
      | false =>
        simp only [new, Bool.false_eq_true, if_false] at done
        cases done
        exact kept
  · rename_i place found
    dsimp only at done
    split at done
    · cases done
      exact ⟨keepsReads_update fun loading => ⟨loading, rfl⟩, fun _ => .inr ⟨_, List.mem_singleton_self _⟩⟩
    · rename_i partly
      obtain ⟨_, loading, done⟩ := bind_ok done
      cases done
      have state : (lines place).state = .loading := by
        unfold require at loading
        split at loading
        · rename_i yes
          simpa using yes
        · cases loading
      exact ⟨keepsReads_same _ _, fun _ => .inl ⟨place, state, (findLine_eq_some found).2⟩⟩

theorem reads_onClientRequest {handled : Handled g caches} (done : onClientRequest id cycleNo lines req = .ok handled) :
    handled.reads lines req := by
  unfold onClientRequest at done
  split at done
  · rename_i write
    exact reads_onWriteRequest write done
  · exact reads_onReadRequest done

end ReadSteps

/-- A read of this cache waits for its line, or its bytes are among the notices. -/
def ReadsIn (s : State setup) (notices : List (Fin setup.caches × Notice)) (id : Fin setup.caches) (address : Address) :
    Prop :=
  Loading (s.lines id) address ∨ ∃ data, (id, .readCompleted address data) ∈ notices

/-- A step only adds notices, and loses no read that waits. -/
def Carries (s after : State setup) : Prop :=
  ∃ more, after.notices = s.notices ++ more ∧ ∀ id address, Loading (s.lines id) address → ReadsIn after more id address

section ReadRun
variable {s s₁ s₂ sent after : State setup} {id : Fin setup.caches} {reaction : Reaction setup.geometry setup.caches}

theorem carries_of_lines {more : List (Fin setup.caches × Notice)} (lines : after.lines = s.lines)
    (notices : after.notices = s.notices ++ more) : Carries s after :=
  ⟨more, notices, fun id address loading => .inl (by rwa [lines])⟩

theorem Aside.carries (aside : Aside s after) : Carries s after :=
  carries_of_lines aside.lines (by rw [aside.notices, List.append_nil])

/-- What a reaction leaves waiting or tells the clients, in the state. -/
theorem Aside.readsIn_react {address : Address} (aside : Aside s sent)
    (reads : Reads reaction.lines reaction.notices address) :
    ReadsIn (sent.react id reaction) (reaction.notices.map fun notice => (id, notice)) id address := by
  refine reads.imp (fun loading => ?_) fun ⟨data, told⟩ => ⟨data, List.mem_map_of_mem told⟩
  simp only [State.react, Function.update_self]
  exact loading

theorem Aside.carries_react (aside : Aside s sent) (kept : KeepsReads (s.lines id) reaction) :
    Carries s (sent.react id reaction) := by
  refine ⟨_, congrArg (· ++ _) aside.notices, fun other address loading => ?_⟩
  by_cases here : other = id
  · subst here
    exact aside.readsIn_react (kept address loading)
  · refine .inl ?_
    simp only [State.react, Function.update_of_ne here, aside.lines]
    exact loading

/-- What the requests of a cache do to reads: the front one, when it is done, waits or is answered. -/
theorem carries_doRequests (done : s.doRequests id = .ok (some after)) : Carries s after ∧
    ∀ req rest, (s.pending id).take? = some (req, rest) → req.write = false → after.pending id = rest →
      ∃ more, after.notices = s.notices ++ more ∧ ReadsIn after more id req.address := by
  unfold State.doRequests at done
  split at done
  · cases done
  rename_i req rest taken
  obtain ⟨handled, run, done⟩ := bind_ok done
  have reads := reads_onClientRequest run
  cases handled with
  | failed => cases done
  | delayed reaction =>
    obtain ⟨sent, pushed, rfl⟩ := Option.map_eq_some_iff.mp (Except.ok.inj done)
    have aside := aside_send pushed
    refine ⟨aside.carries_react reads, fun req' rest' front _ same => ?_⟩
    rw [front] at taken
    cases taken
    have kept : sent.pending id = s.pending id := congrFun aside.pending id
    have popped := Buffer.popped_of_take? front
    rw [show sent.pending id = rest from same] at kept
    rw [← kept, popped.2] at popped
    cases popped.1
  | success reaction =>
    obtain ⟨sent, pushed, rfl⟩ := Option.map_eq_some_iff.mp (Except.ok.inj done)
    have aside := aside_send pushed
    refine ⟨aside.carries_react reads.1, fun req' rest' front read _ => ?_⟩
    rw [front] at taken
    cases taken
    exact ⟨_, congrArg (· ++ _) aside.notices, aside.readsIn_react (reads.2 read)⟩

/-- The processes that have nothing to do with a cache. -/
theorem aside_doForward {node : setup.Node} (done : s.doForward node = some after) : Aside s after := by
  obtain ⟨⟨msg, middle⟩, taken, pushed⟩ := Option.bind_eq_some_iff.mp done
  exact (aside_take taken).trans (aside_push pushed)

theorem aside_doInBottom {dir : Fin setup.directories} (done : s.doInBottom dir = .ok (some after)) : Aside s after := by
  unfold State.doInBottom at done
  split at done
  · cases done
  · rename_i msg middle taken
    obtain ⟨⟨dir, msg'⟩, _, done⟩ := bind_ok done
    obtain ⟨sent, pushed, rfl⟩ := Option.map_eq_some_iff.mp (Except.ok.inj done)
    exact ((aside_take taken).trans (aside_push pushed)).trans ⟨rfl, rfl, rfl⟩

theorem aside_doInTop {dir : Fin setup.directories} (done : s.doInTop dir = some after) : Aside s after := by
  obtain ⟨⟨msg, middle⟩, taken, done⟩ := Option.bind_eq_some_iff.mp done
  dsimp only at done
  have aside : Aside s (middle.withDir dir (onMessageReceivedTop (setup.isBelow dir) (s.dirs dir) msg).1) :=
    (aside_take taken).trans ⟨rfl, rfl, rfl⟩
  split at done
  · exact aside.trans (aside_push done)
  · split at done
    · rename_i shortcut
      cases done
      exact aside.trans (aside_push shortcut)
    · exact aside.trans (aside_push done)

theorem aside_doIncoming {root : Fin setup.roots} (done : s.doIncoming root = .ok (some after)) : Aside s after := by
  unfold State.doIncoming at done
  split at done
  · cases done
  rename_i msg middle taken
  obtain ⟨⟨dir, route⟩, _, done⟩ := bind_ok done
  have aside : Aside s (middle.withRootDir root dir) := (aside_take taken).trans ⟨rfl, rfl, rfl⟩
  dsimp only at done
  split at done
  · cases done
    exact aside
  · exact aside.trans (aside_push (Except.ok.inj done))
  · split at done
    · rename_i shortcut
      cases done
      exact aside.trans (aside_push shortcut)
    · exact aside.trans (aside_push (Except.ok.inj done))

theorem aside_doMemoryRequests {root : Fin setup.roots} (done : s.doMemoryRequests root = .ok (some after)) :
    Aside s after := by
  unfold State.doMemoryRequests at done
  split at done
  · cases done
  rename_i msg middle taken
  have aside := aside_take taken
  split at done
  · exact aside.trans (aside_push (Except.ok.inj done))
  split at done
  · cases done
    exact ⟨aside.lines, aside.pending, aside.notices⟩
  · obtain ⟨_, _, done⟩ := bind_ok done
    cases done
    exact ⟨aside.lines, aside.pending, aside.notices⟩

theorem aside_doReadCompleted {root : Fin setup.roots} (done : s.doReadCompleted root = some after) : Aside s after := by
  unfold State.doReadCompleted at done
  split at done
  · cases done
  · have aside := aside_push done
    exact ⟨aside.lines, aside.pending, aside.notices⟩

theorem aside_doMemoryResponses {root : Fin setup.roots} (done : s.doMemoryResponses root = .ok (some after)) :
    Aside s after := by
  unfold State.doMemoryResponses at done
  split at done
  · cases done
  · rename_i msg middle taken
    obtain ⟨⟨dir, msg'⟩, _, done⟩ := bind_ok done
    obtain ⟨sent, pushed, rfl⟩ := Option.map_eq_some_iff.mp (Except.ok.inj done)
    exact ((aside_take taken).trans (aside_push pushed)).trans ⟨rfl, rfl, rfl⟩

theorem carries_doReceive (done : s.doReceive id = .ok (some after)) : Carries s after := by
  unfold State.doReceive at done
  split at done
  · cases done
  · rename_i msg middle taken
    obtain ⟨reaction, run, done⟩ := bind_ok done
    obtain ⟨sent, pushed, rfl⟩ := Option.map_eq_some_iff.mp (Except.ok.inj done)
    exact ((aside_take taken).trans (aside_send pushed)).carries_react (keepsReads_onMessageReceived run)

theorem carries_request {req : Request} (done : s.request id req = some after) :
    after.lines = s.lines ∧ after.notices = s.notices := by
  obtain ⟨buffer, _, rfl⟩ := Option.map_eq_some_iff.mp done
  exact ⟨rfl, rfl⟩

theorem carries_step {e : Event setup} (taken : s.next e = some after) : Carries s after := by
  unfold State.next at taken
  split at taken
  · rename_i result done
    subst taken
    cases e with
    | read id address =>
      obtain ⟨lines, notices⟩ := carries_request (Except.ok.inj done)
      exact carries_of_lines lines (by rw [notices, List.append_nil])
    | write id address client mdata wid =>
      obtain ⟨asked, pushed, rfl⟩ := Option.map_eq_some_iff.mp (Except.ok.inj done)
      obtain ⟨lines, notices⟩ := carries_request pushed
      exact carries_of_lines lines (congrArg (· ++ _) notices)
    | requests id => exact (carries_doRequests done).1
    | receive id => exact carries_doReceive done
    | forward node => exact (aside_doForward (Except.ok.inj done)).carries
    | inBottom dir => exact (aside_doInBottom done).carries
    | inTop dir => exact (aside_doInTop (Except.ok.inj done)).carries
    | incoming root => exact (aside_doIncoming done).carries
    | memoryRequests root => exact (aside_doMemoryRequests done).carries
    | readCompleted root => exact (aside_doReadCompleted (Except.ok.inj done)).carries
    | memoryResponses root => exact (aside_doMemoryResponses done).carries
    | endCycle =>
      cases Option.some.inj (Except.ok.inj done)
      exact carries_of_lines rfl (List.append_nil _).symm
  · cases taken

/-- What has been told since stays told. -/
theorem readsIn_of_run {events : List (Event setup)} {more : List (Fin setup.caches × Notice)} {address : Address}
    (notices : s₁.notices = s.notices ++ more) (reads : ReadsIn s₁ more id address)
    (run : Run State.next (fun _ _ => True) s₁ events s₂) :
    ∃ more, s₂.notices = s.notices ++ more ∧ ReadsIn s₂ more id address := by
  induction run with
  | start => exact ⟨more, notices, reads⟩
  | next _ _ taken ih =>
    obtain ⟨more, notices, reads⟩ := ih
    obtain ⟨new, told, kept⟩ := carries_step taken
    refine ⟨more ++ new, by rw [told, notices, List.append_assoc], ?_⟩
    rcases reads with loading | ⟨data, told⟩
    · exact (kept id address loading).imp_right fun ⟨data, told⟩ => ⟨data, List.mem_append_right _ told⟩
    · exact .inr ⟨data, List.mem_append_left _ told⟩

/-- A line that a cache waits for has one request or answer of this cache on its way, and another line has none. -/
theorem onWay_loadsOf (inv : s.books.Conserved) (id : Fin setup.caches) (address : Address) :
    (Loading (s.lines id) address → s.books.onWay (fun x => x.2.loadsOf id) address = 1) ∧
      (¬ Loading (s.lines id) address → s.books.onWay (fun x => x.2.loadsOf id) address = 0) := by
  rw [← (inv.balanced address).loads id]
  refine ⟨fun ⟨place, loading, isFor⟩ => ?_, fun idle => ?_⟩
  · have occupied : (s.books.lines id place).state ≠ .empty := fun empty => by
      rw [show (s.books.lines id place).state = .loading from loading] at empty
      cases empty
    rw [held_of_place (inv.lines id) ⟨occupied, isFor⟩]
    exact if_pos loading
  · refine account_eq_zero.mpr fun place => ?_
    unfold share
    split
    · rename_i both
      exact if_neg fun loading => idle ⟨place, loading, both.2⟩
    · rfl

/-- A read that a cache has taken out of its buffer waits for its line, for which then one request or answer is on its
way, or the clients have been told the bytes since. -/
theorem reads_complete {memory : Address → LineData} {first others : List (Event setup)} {req : Request}
    {rest : Buffer Request} (run : Run State.next (fun _ _ => True) (.initial setup memory) first s)
    (taken : s.next (.requests id) = some s₁) (front : (s.pending id).take? = some (req, rest)) (read : req.write = false)
    (handled : s₁.pending id = rest) (later : Run State.next (fun _ _ => True) s₁ others s₂) :
    (∃ data, (id, .readCompleted req.address data) ∈ s₂.notices.drop s.notices.length) ∨
      Loading (s₂.lines id) req.address ∧ s₂.books.onWay (fun x => x.2.loadsOf id) req.address = 1 := by
  have done : s.doRequests id = .ok (some s₁) := by
    have taken := taken
    unfold State.next at taken
    split at taken
    · rename_i result done
      rw [taken] at done
      exact done
    · cases taken
  obtain ⟨_, told, reads⟩ := (carries_doRequests done).2 req rest front read handled
  obtain ⟨more, told, reads⟩ := readsIn_of_run told reads later
  rw [told, List.drop_left]
  rcases reads with loading | answered
  · have whole := (run.next trivial taken).append later
    exact .inr ⟨loading, (onWay_loadsOf (conserved_of_run whole) id req.address).1 loading⟩
  · exact .inl answered

end ReadRun

theorem reads_complete_load : ∃ s s₁ s₂ : State twoCaches,
    execute State.next (.initial twoCaches fun _ _ => 0) (firstLoad.take 2) = some s ∧
    s.next (.requests (0 : Fin 2)) = some s₁ ∧ execute State.next s₁ (firstLoad.drop 3) = some s₂ ∧
    ((∃ data, ((0 : Fin 2), .readCompleted 5 data) ∈ s₂.notices.drop s.notices.length) ∨
      Loading (s₂.lines (0 : Fin 2)) 5 ∧ s₂.books.onWay (fun x => x.2.loadsOf (0 : Fin 2)) 5 = 1) := by
  obtain ⟨s, s₁, rest, before, taken, front, handled⟩ : ∃ s s₁ rest,
      execute State.next (.initial twoCaches fun _ _ => 0) (firstLoad.take 2) = some s ∧
      s.next (.requests (0 : Fin 2)) = some s₁ ∧
      (s.pending (0 : Fin 2)).take? = some (⟨⟨fun _ => 0, fun _ => false⟩, false, 5, 0, 0⟩, rest) ∧
      s₁.pending (0 : Fin 2) = rest := ⟨_, _, _, rfl, rfl, rfl, rfl⟩
  have ends : ((execute State.next (.initial twoCaches fun _ _ => 0) (firstLoad.take 2)).bind fun s =>
      (s.next (.requests (0 : Fin 2))).bind fun s₁ => execute State.next s₁ (firstLoad.drop 3)).isSome = true := by
    decide +kernel
  rw [before, Option.bind_some, taken, Option.bind_some, Option.isSome_iff_exists] at ends
  obtain ⟨s₂, after⟩ := ends
  exact ⟨s, s₁, s₂, before, taken, after, reads_complete (run_of_execute (fun _ _ _ => trivial) before) taken front rfl
    handled (run_of_execute (fun _ _ _ => trivial) after)⟩

end Mgsim.Cdma
