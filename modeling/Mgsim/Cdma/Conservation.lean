import Mgsim.Cdma.Moves
import Mgsim.Lib.Checked
import Mgsim.Lib.Run

namespace Mgsim.Cdma
open Mgsim.Lib Books
variable {setup : Setup} {s : State setup}

theorem flight_initial (memory : Address → LineData) : (State.initial setup memory).flight = 0 := by
  have buffers : account Port.bag (State.initial setup memory).buffers = 0 := by
    refine Finset.sum_eq_zero fun port _ => ?_
    cases port with
    | incoming node => rfl
    | outgoing node => rfl
    | requests root => rfl
    | responses root => rfl
  have active : account activeBag (State.initial setup memory).active = 0 := Finset.sum_eq_zero fun root _ => rfl
  rw [State.flight, buffers, active]
  rfl

theorem conserved_initial (memory : Address → LineData) : (State.initial setup memory).books.Conserved := by
  have flight : (State.initial setup memory).books.flight = 0 := flight_initial memory
  have nothing : ∀ w address, held (g := setup.geometry) w address (fun _ => Line.initial) = 0 := fun w address =>
    account_eq_zero.mpr fun place => if_neg fun both => both.1 rfl
  have onWay : ∀ w address, (State.initial setup memory).books.onWay w address = 0 := by
    intro w address
    rw [Books.onWay, flight, weigh_zero]
  have inRoots : ∀ w address, (State.initial setup memory).books.inRoots w address = 0 := fun w address =>
    account_eq_zero.mpr fun root => rfl
  refine ⟨fun address => ⟨?_, fun id => ?_, fun id => ?_, fun id => ?_, fun dir => ?_⟩, fun id => linesOk_initial, ?_,
    (by intros; contradiction), (by intro _ _ same; cases same)⟩
  · have caches : (State.initial setup memory).books.inCaches address = 0 :=
      account_eq_zero.mpr fun id => nothing _ address
    rw [caches, onWay, inRoots, inRoots]
    rfl
  · rw [onWay]
    exact nothing _ address
  · rw [onWay]
    exact nothing _ address
  · rw [onWay, inRoots]
  · have ring : (State.initial setup memory).books.inRing dir address = 0 := by
      refine account_eq_zero.mpr fun id => ?_
      split
      · exact nothing _ address
      · rfl
    rw [onWay, ring]
    rfl
  · intro x member
    rw [flight] at member
    cases member

/-- No assertion fails, and the invariant holds after the step, if it happens. -/
def Safe (result : Checked (Option (State setup))) : Prop :=
  ∃ after, result = .ok after ∧ ∀ s' ∈ after, s'.books.Conserved

theorem safe_none : Safe (.ok none : Checked (Option (State setup))) := ⟨none, rfl, nofun⟩

/-- The message that a cache sends is on its ring. -/
theorem send_books {s' : State setup} {id : Fin setup.caches} {message : Option setup.Message} {minSpace : Nat}
    (done : s.send (.cache id) message minSpace = some s') :
    s'.books = s.books.fly ((message.map (onRing id)).elim s.books.flight (· ::ₘ s.books.flight)) := by
  cases message with
  | none =>
    cases done
    exact (fly_self rfl).symm
  | some msg => exact push_books done

/-- A reaction of a cache is a trade in the books. -/
theorem react_conserved {s₁ s₂ after : State setup} {id : Fin setup.caches} (inp : Option setup.Message)
    {reaction : Reaction setup.geometry setup.caches} {address : Address} {minSpace : Nat}
    {rest : Multiset (Flying setup)} (inv : s.books.Conserved)
    (before : s.books.flight = (inp.map (onRing id)).elim rest (· ::ₘ rest)) (taken : s₁.books = s.books.fly rest)
    (inpHere : ∀ msg ∈ inp, msg.address = address)
    (trades : Trades id address (s.lines id) reaction.lines inp reaction.send)
    (done : s₁.send (.cache id) reaction.send minSpace = some s₂) (same : after.books = (s₂.react id reaction).books) :
    after.books.Conserved := by
  have sound : ∀ msg ∈ inp, Sound (onRing id msg) := by
    rintro msg ⟨⟩
    exact inv.sound_head before
  rw [react_books, send_books done, taken, fly_flight, fly_fly, withLines_fly] at same
  have exchange : Exchange s.books after.books address (inp.map (onRing id)) (reaction.send.map (onRing id)) := by
    refine ⟨⟨rest, before, ?_⟩, ?_, ?_⟩
    · rw [same]
      rfl
    · intro x member
      obtain ⟨msg, here, rfl⟩ := Option.map_eq_some_iff.mp member
      exact inpHere msg here
    · intro x member
      obtain ⟨msg, here, rfl⟩ := Option.map_eq_some_iff.mp member
      rcases trades.sent msg here with old | ⟨there, _⟩
      · exact inpHere msg old
      · exact there
  refine inv.traded ⟨?_, ?_, ?_, exchange⟩ trades sound
  · rw [same]
    rfl
  · rw [same]
    rfl
  · rw [same]
    rfl

theorem safe_doRequests (inv : s.books.Conserved) (id : Fin setup.caches) : Safe (s.doRequests id) := by
  unfold State.doRequests
  cases (s.pending id).take? with
  | none => exact safe_none
  | some front =>
    obtain ⟨req, rest⟩ := front
    obtain ⟨handled, done, trades⟩ : Handles id (s.lines id) (onClientRequest id s.cycleNo (s.lines id) req) :=
      onClientRequest_spec (inv.lines id)
    simp only [done, bind, Except.bind]
    cases handled with
    | failed => exact safe_none
    | delayed reaction =>
      obtain ⟨address, trades⟩ := trades reaction rfl
      refine ⟨_, rfl, fun after member => ?_⟩
      obtain ⟨s₂, sent, rfl⟩ := Option.map_eq_some_iff.mp member
      exact react_conserved none inv rfl (fly_self rfl).symm nofun trades sent rfl
    | success reaction =>
      obtain ⟨address, trades⟩ := trades reaction rfl
      refine ⟨_, rfl, fun after member => ?_⟩
      obtain ⟨s₂, sent, rfl⟩ := Option.map_eq_some_iff.mp member
      exact react_conserved none inv rfl (fly_self rfl).symm nofun trades sent
        (books_congr rfl rfl rfl (fun _ => rfl) rfl)

theorem safe_doReceive (inv : s.books.Conserved) (id : Fin setup.caches) : Safe (s.doReceive id) := by
  unfold State.doReceive
  cases taken : s.take (.incoming (.cache id)) with
  | none => exact safe_none
  | some front =>
    obtain ⟨msg, after⟩ := front
    obtain ⟨rest, before, books⟩ := take_books taken
    have sound := inv.sound_head (x := onRing id msg) before
    have loads : 0 < msg.loadsOf id → 0 < held Line.loads msg.address (s.lines id) := fun loads => by
      have balance : held Line.loads msg.address (s.lines id) = _ := (inv.balanced msg.address).loads id
      rw [balance]
      exact lt_of_lt_of_le loads (le_onWay (x := onRing id msg) (w := fun x => x.2.loadsOf id) before)
    have updates : 0 < msg.updatesOf id → 0 < held Line.updating msg.address (s.lines id) := fun updates => by
      have balance : held Line.updating msg.address (s.lines id) = _ := (inv.balanced msg.address).updates id
      rw [balance]
      exact lt_of_lt_of_le updates (le_onWay (x := onRing id msg) (w := fun x => x.2.updatesOf id) before)
    obtain ⟨reaction, done, trades⟩ :
        ∃ reaction, onMessageReceived id s.cycleNo (s.pending id).data (s.lines id) msg = .ok reaction ∧
          Trades id msg.address (s.lines id) reaction.lines (some msg) reaction.send :=
      onMessageReceived_spec (inv.lines id) (sound.tokens rfl) loads updates
    simp only [done, bind, Except.bind]
    refine ⟨_, rfl, fun s' member => ?_⟩
    obtain ⟨s₂, sent, rfl⟩ := Option.map_eq_some_iff.mp member
    refine react_conserved (some msg) inv before books ?_ trades sent rfl
    rintro _ ⟨⟩
    rfl

theorem safe_doForward (inv : s.books.Conserved) (node : setup.Node) : Safe (.ok (s.doForward node)) := by
  refine ⟨_, rfl, fun s' member => ?_⟩
  obtain ⟨⟨msg, after⟩, taken, pushed⟩ := Option.bind_eq_some_iff.mp member
  obtain ⟨rest, before, books⟩ := take_books taken
  have ring : (Port.incoming (setup.next node)).location = (Port.outgoing node).location := by
    simp only [Port.location, setup.next_ring]
  rw [push_books pushed, books, fly_flight, fly_fly, ring, fly_self before]
  exact inv

theorem safe_doInBottom (inv : s.books.Conserved) (id : Fin setup.directories) : Safe (s.doInBottom id) := by
  unfold State.doInBottom
  cases taken : s.take (.incoming (.bottom id)) with
  | none => exact safe_none
  | some front =>
    obtain ⟨msg, after⟩ := front
    obtain ⟨rest, before, books⟩ := take_books taken
    simp only [Port.location, setup.bottom_ring] at before
    obtain ⟨dir, done, kept⟩ := Conserved.inBottom inv before
    have result : onMessageReceivedBottom (setup.isBelow id) (s.dirs id) msg = .ok (dir, { msg with ignore := false }) :=
      done
    simp only [result, bind, Except.bind]
    refine ⟨_, rfl, fun s' member => ?_⟩
    obtain ⟨s₂, pushed, rfl⟩ := Option.map_eq_some_iff.mp member
    rw [withDir_books, push_books pushed, books, fly_flight, fly_fly, withDir_fly, Port.location, setup.top_ring]
    exact kept

theorem safe_doInTop (inv : s.books.Conserved) (id : Fin setup.directories) : Safe (.ok (s.doInTop id)) := by
  refine ⟨_, rfl, fun s' member => ?_⟩
  obtain ⟨⟨msg, after⟩, taken, member⟩ := Option.bind_eq_some_iff.mp member
  obtain ⟨rest, before, books⟩ := take_books taken
  simp only [Port.location, setup.top_ring] at before
  have routed := inv.inTop id before
  dsimp only at member
  generalize result : onMessageReceivedTop (setup.isBelow id) (s.dirs id) msg = routing at member
  rw [show onMessageReceivedTop (setup.isBelow id) (s.books.dirs id) msg = routing from result] at routed
  obtain ⟨dir, route⟩ := routing
  have directed : (after.withDir id dir).books = (s.books.withDir id dir).fly rest := by
    rw [withDir_books, books, withDir_fly]
  cases route with
  | down =>
    rw [push_books member, directed, fly_flight, fly_fly, Port.location, setup.bottom_ring]
    exact routed
  | shortcut =>
    have same : s.books.withDir id dir = s.books := by
      rw [show dir = s.books.dirs id from routed, withDir_self]
    rw [same] at directed
    have onTop : (s.books.fly ((.ring none, msg) ::ₘ rest)).Conserved := by
      rw [fly_self before]
      exact inv
    dsimp only at member
    split at member
    · rename_i s₂ pushed
      cases member
      rw [push_books pushed, directed, fly_flight, fly_fly, Port.location, setup.top_ring]
      exact onTop
    · rw [push_books member, directed, fly_flight, fly_fly, Port.location, setup.bottom_ring]
      exact onTop.longWay ⟨fun _ => nofun, rfl⟩

theorem safe_doIncoming (inv : s.books.Conserved) (id : Fin setup.roots) : Safe (s.doIncoming id) := by
  unfold State.doIncoming
  cases taken : s.take (.incoming (.root id)) with
  | none => exact safe_none
  | some front =>
    obtain ⟨msg, after⟩ := front
    obtain ⟨rest, before, books⟩ := take_books taken
    simp only [Port.location, setup.root_ring] at before
    obtain ⟨dir, route, done, kept⟩ := inv.incoming id before
    have result : onRootMessageReceived (State.isLocal setup id) (s.rootDirs id) msg = .ok (dir, route) := done
    have directed : (after.withRootDir id dir).books = (s.books.withRoot id dir).fly rest := by
      rw [withRootDir_books, books, withRoot_fly]
    simp only [result, bind, Except.bind]
    cases route with
    | dropped =>
      refine ⟨_, rfl, fun s' member => ?_⟩
      cases member
      rw [directed]
      exact kept
    | queued msg =>
      refine ⟨_, rfl, fun s' member => ?_⟩
      rw [push_books member, directed, fly_flight, fly_fly]
      exact kept
    | forwarded msg =>
      dsimp only
      cases shortcut : (after.withRootDir id dir).push (.outgoing (.root id)) msg 2 with
      | some s₂ =>
        refine ⟨_, rfl, fun s' member => ?_⟩
        cases member
        rw [push_books shortcut, directed, fly_flight, fly_fly, Port.location, setup.root_ring]
        exact kept
      | none =>
        refine ⟨_, rfl, fun s' member => ?_⟩
        rw [push_books member, directed, fly_flight, fly_fly]
        exact kept.longWay ⟨nofun, rfl⟩

theorem safe_doMemoryRequests (inv : s.books.Conserved) (id : Fin setup.roots) : Safe (s.doMemoryRequests id) := by
  unfold State.doMemoryRequests
  cases taken : s.take (.requests id) with
  | none => exact safe_none
  | some front =>
    obtain ⟨msg, after⟩ := front
    obtain ⟨rest, before, books⟩ := take_books taken
    have sound := inv.sound_head before
    dsimp only
    by_cases ignored : msg.ignore = true
    · rw [if_pos ignored]
      refine ⟨_, rfl, fun s' member => ?_⟩
      rw [push_books member, books, fly_flight, fly_fly]
      have free : handed (.requests id) msg = false := by simp [handed, ignored]
      refine inv.carried (some (.responses id, msg)) before ?_ rfl (fun _ => rfl) (fun _ => rfl)
        (fun _ => rfl) (fun _ => rfl) ?_
      · rintro _ ⟨⟩
        rfl
      · rintro _ ⟨⟩
        exact ⟨fun _ => sound.tokens free, fun heard => absurd (heard.symm.trans ignored) (by simp)⟩
    · rw [if_neg ignored]
      have heard : msg.ignore = false := Bool.eq_false_iff.mpr ignored
      obtain ⟨here, type⟩ : State.isLocal setup id msg.address = true ∧ (msg.type = .request ∨ msg.type = .eviction) :=
        sound.placed heard
      by_cases request : msg.type = .request
      · rw [if_pos request]
        refine ⟨_, rfl, fun s' member => ?_⟩
        cases member
        rw [← take_active taken, activate_books, books, fly_flight, fly_fly]
        refine inv.carried (some (.active id, msg)) before ?_ rfl (fun _ => rfl) (fun _ => rfl)
          (fun _ => rfl) (fun _ => rfl) ?_
        · rintro _ ⟨⟩
          rfl
        · rintro _ ⟨⟩
          refine ⟨fun free => ?_, heard, here, request⟩
          rw [handed, heard] at free
          cases free
      · rw [if_neg request]
        have eviction := type.resolve_left request
        simp only [require, eviction, decide_true, if_true]
        refine ⟨_, rfl, fun s' member => ?_⟩
        have same : s'.books = after.books := by
          cases member
          exact books_congr rfl rfl rfl (fun _ => rfl) rfl
        rw [same, books]
        refine inv.carried none before (by intros; contradiction) ?_ ?_ ?_ ?_ (fun _ => rfl) (by intros; contradiction)
        · simp [tokensOf, handed, Port.location, heard]
        · intro who
          simp [Message.loadsOf, eviction]
        · intro who
          simp [Message.updatesOf, eviction]
        · intro who
          simp [askedBy, eviction]

theorem safe_doReadCompleted (inv : s.books.Conserved) (id : Fin setup.roots) : Safe (.ok (s.doReadCompleted id)) := by
  refine ⟨_, rfl, fun s' member => ?_⟩
  unfold State.doReadCompleted at member
  cases front : s.active id with
  | nil =>
    rw [front] at member
    cases member
  | cons msg messages =>
    rw [front] at member
    obtain ⟨rest, before, books⟩ := active_books front
    obtain ⟨heard, here, type⟩ : msg.ignore = false ∧ State.isLocal setup id msg.address = true ∧ msg.type = .request :=
      (inv.sound_head before).placed
    rw [push_books member, books, fly_flight, fly_fly]
    refine inv.carried (some (.responses id, _)) before ?_ ?_ ?_ ?_ ?_ (fun _ => rfl) ?_
    · rintro _ ⟨⟩
      rfl
    · simp [tokensOf, handed, heard]
    · intro who
      simp [Message.loadsOf, type]
    · intro who
      simp [Message.updatesOf, type]
    · intro who
      simp [askedBy, handed, heard, type]
    · rintro _ ⟨⟩
      refine ⟨fun free => ?_, fun _ => ⟨here, rfl⟩⟩
      rw [handed, heard] at free
      cases free

theorem safe_doMemoryResponses (inv : s.books.Conserved) (id : Fin setup.roots) : Safe (s.doMemoryResponses id) := by
  unfold State.doMemoryResponses
  cases taken : s.take (.responses id) with
  | none => exact safe_none
  | some front =>
    obtain ⟨msg, after⟩ := front
    obtain ⟨rest, before, books⟩ := take_books taken
    obtain ⟨dir, answer, done, kept⟩ := Conserved.answered inv before
    have result : onMemoryResponse (s.rootDirs id) msg = .ok (dir, answer) := done
    simp only [result, bind, Except.bind]
    refine ⟨_, rfl, fun s' member => ?_⟩
    obtain ⟨s₂, pushed, rfl⟩ := Option.map_eq_some_iff.mp member
    rw [withRootDir_books, push_books pushed, books, fly_flight, fly_fly, withRoot_fly, Port.location, setup.root_ring]
    exact kept

/-- A step changes nothing that the books know of. -/
theorem safe_same {after : Option (State setup)} (inv : s.books.Conserved) (same : ∀ s' ∈ after, s'.books = s.books) :
    Safe (.ok after) := by
  refine ⟨_, rfl, fun s' member => ?_⟩
  rw [same s' member]
  exact inv

theorem request_books {s' : State setup} {id : Fin setup.caches} {req : Request} (done : s.request id req = some s') :
    s'.books = s.books := by
  obtain ⟨buffer, _, rfl⟩ := Option.map_eq_some_iff.mp done
  exact books_congr rfl rfl rfl (fun _ => rfl) rfl

theorem safe_step (inv : s.books.Conserved) (e : Event setup) : Safe (s.step e) := by
  cases e with
  | read id address => exact safe_same inv fun s' member => request_books member
  | write id address client mdata wid =>
    refine safe_same inv fun s' member => ?_
    obtain ⟨s₁, done, rfl⟩ := Option.map_eq_some_iff.mp member
    rw [← request_books done]
    exact books_congr rfl rfl rfl (fun _ => rfl) rfl
  | requests id => exact safe_doRequests inv id
  | receive id => exact safe_doReceive inv id
  | forward node => exact safe_doForward inv node
  | inBottom dir => exact safe_doInBottom inv dir
  | inTop dir => exact safe_doInTop inv dir
  | incoming root => exact safe_doIncoming inv root
  | memoryRequests root => exact safe_doMemoryRequests inv root
  | readCompleted root => exact safe_doReadCompleted inv root
  | memoryResponses root => exact safe_doMemoryResponses inv root
  | endCycle =>
    refine safe_same inv fun s' member => ?_
    cases member
    exact books_congr rfl rfl rfl (fun port => Buffer.contents_update _) rfl

theorem conserved_of_run {memory : Address → LineData} {events : List (Event setup)}
    (run : Run State.next (fun _ _ => True) (.initial setup memory) events s) : s.books.Conserved := by
  refine run.invariant (I := fun s => s.books.Conserved) (conserved_initial memory) fun s e s' inv _ taken => ?_
  obtain ⟨after, done, kept⟩ := safe_step inv e
  rw [State.next, done] at taken
  exact kept s' taken

/-- A line is in the system from when its root directory has read it, or has
given out its tokens again, until all tokens are back. -/
def State.InSystem (s : State setup) (address : Address) : Prop :=
  ∃ root, ∃ line ∈ s.rootDirs root address, line.state = .full

open Classical in
theorem inSystem_eq (inv : s.books.Conserved) (address : Address) :
    s.books.inRoots RootLine.inSystem address = if s.InSystem address then 1 else 0 := by
  split
  · rename_i inSystem
    obtain ⟨root, line, entry, full⟩ := inSystem
    have here := (inv.roots root address line entry).isLocal
    rw [inRoots_local (fun root => inv.roots root address) here, show s.books.rootDirs root address = some line from entry,
      Option.elim_some, RootLine.inSystem, if_pos full]
  · rename_i outside
    refine account_eq_zero.mpr fun root => ?_
    cases entry : s.books.rootDirs root address with
    | none => rfl
    | some line => exact if_neg fun full => outside ⟨root, line, entry, full⟩

open Classical in
/-- In every state that a run reaches, the tokens of a line in its caches, in the
messages on their way and in its root directory are all tokens or none. A
write-back that waits for the memory has left the system with its line. Full
lines have tokens, loading ones have none, and no assertion fails in any next step. -/
theorem token_conservation {memory : Address → LineData} {events : List (Event setup)}
    (run : Run State.next (fun _ _ => True) (.initial setup memory) events s) :
    (∀ address, s.books.inCaches address + s.books.onWay tokensOf address + s.books.inRoots RootLine.tokens address =
      if s.InSystem address then setup.caches else 0) ∧
    (∀ id place, (s.lines id place).state = .full → 0 < (s.lines id place).tokens) ∧
    (∀ id place, (s.lines id place).state = .loading → (s.lines id place).tokens = 0) ∧
    ∀ e text, s.step e ≠ .error text := by
  have inv := conserved_of_run run
  refine ⟨fun address => ?_, fun id place => ((inv.lines id).line place).full,
    fun id place => ((inv.lines id).line place).loading, fun e text failed => ?_⟩
  · rw [(inv.balanced address).tokens, inSystem_eq inv address]
    split
    · rw [Nat.mul_one]
    · rw [Nat.mul_zero]
  · obtain ⟨after, done, _⟩ := safe_step inv e
    rw [failed] at done
    cases done

/-! A first load on a ring of two caches, each step in a cycle of its own. -/

def twoCaches : Setup where
  toNetwork := .oneLevel 2 1
  geometry := ⟨1, 1, .direct 1 Nat.one_pos⟩
  nodeBufferSize := some 2
  requestBufferSize := some 2
  externalOutputQueueSize := some 2
  externalInputQueueSize := some 2

def firstLoad : List (Event twoCaches) :=
  let first : Fin 2 := 0
  let second : Fin 2 := 1
  let root : Fin 1 := 0
  [.read first 5, .requests first, .forward (.cache first), .incoming root, .memoryRequests root, .readCompleted root,
    .memoryResponses root, .forward (.root root), .receive second, .forward (.cache second), .receive first].flatMap
    fun e => [e, .endCycle]

open Classical in
theorem token_conservation_load : ∃ s, execute State.next (.initial twoCaches fun _ _ => 0) firstLoad = some s ∧
    (s.lines (0 : Fin 2) ((0 : Fin 1), (0 : Fin 1))).tokens = 2 ∧
    s.books.inCaches 5 + s.books.onWay tokensOf 5 + s.books.inRoots RootLine.tokens 5 =
      if s.InSystem 5 then 2 else 0 := by
  have loaded : (execute State.next (.initial twoCaches fun _ _ => 0) firstLoad).map
      (fun s => (s.lines (0 : Fin 2) ((0 : Fin 1), (0 : Fin 1))).tokens) = some 2 := by decide +kernel
  obtain ⟨s, done, tokens⟩ := Option.map_eq_some_iff.mp loaded
  have run : Run State.next (fun _ _ => True) (.initial twoCaches fun _ _ => 0) firstLoad s :=
    run_of_execute (fun _ _ _ => trivial) done
  exact ⟨s, done, tokens, (token_conservation run).1 5⟩

/-! ### What the tokens are for -/

/-- This cache alone has the line: no other cache holds it, no message brings it to one, and the root directory has none of
its tokens. -/
structure State.Exclusive (s : State setup) (id : Fin setup.caches) (address : Address) : Prop where
  caches : ∀ other ≠ id, ∀ place, (s.lines other place).state = .full →
    ¬ Lines.IsFor setup.geometry address place (s.lines other place).tag
  messages : ∀ x ∈ s.flight, x.2.address = address → handed x.1 x.2 = false →
    x.2.type ≠ .requestDataToken ∧ x.2.type ≠ .eviction
  root : ∀ root, ∀ line ∈ s.rootDirs root address, line.tokens = 0

theorem not_isFor_of_held (inv : s.books.Conserved) {id : Fin setup.caches} {place : Place setup.geometry}
    {address : Address} (full : (s.lines id place).state = .full)
    (none : held Line.fullTokens address (s.books.lines id) = 0) :
    ¬ Lines.IsFor setup.geometry address place (s.lines id place).tag := fun isFor => by
  have occupied : (s.books.lines id place).state ≠ .empty := fun empty => by
    rw [show (s.books.lines id place).state = .full from full] at empty
    cases empty
  have weight : Line.fullTokens (s.lines id place) = 0 := (held_of_place (inv.lines id) ⟨occupied, isFor⟩).symm.trans none
  rw [Line.fullTokens, if_pos full] at weight
  exact absurd weight (((inv.lines id).line place).full full).ne'

/-- The holder of all tokens. -/
theorem exclusive_of_all_tokens (inv : s.books.Conserved) {id : Fin setup.caches} {place : Place setup.geometry}
    {address : Address} (found : Lines.findLine (s.lines id) address = some place) (full : (s.lines id place).state = .full)
    (all : (s.lines id place).tokens = setup.caches) : s.Exclusive id address := by
  have positive : 0 < setup.caches := id.pos
  have mine : held Line.fullTokens address (s.books.lines id) = setup.caches := by
    rw [held_of_findLine (inv.lines id) found]
    exact (if_pos full).trans all
  have balance := (inv.balanced address).tokens
  have inCaches : setup.caches ≤ s.books.inCaches address := by
    rw [← mine]
    exact le_account (fun _ => held Line.fullTokens address) s.books.lines id
  have most : setup.caches * s.books.inRoots RootLine.inSystem address ≤ setup.caches := by
    classical
    rw [inSystem_eq inv address]
    split <;> omega
  have others : ∀ other ≠ id, held Line.fullTokens address (s.books.lines other) = 0 := fun other different => by
    have pair := account_pair (f := fun _ => held Line.fullTokens address) (g := s.books.lines) (Ne.symm different)
    rw [mine] at pair
    have total : s.books.inCaches address = account (fun _ => held Line.fullTokens address) s.books.lines := rfl
    omega
  have onWay : s.books.onWay tokensOf address = 0 := by omega
  have inRoots : s.books.inRoots RootLine.tokens address = 0 := by omega
  refine ⟨fun other different place' full' isFor => ?_, fun x member here free => ?_, fun root line entry => ?_⟩
  · exact not_isFor_of_held inv full' (others other different) isFor
  · have weight := weigh_eq_zero.mp onWay x member
    rw [if_pos here, tokensOf, free, if_neg Bool.false_ne_true, Message.carried] at weight
    have tokens := (inv.sound x member).tokens free
    refine ⟨fun type => ?_, fun type => ?_⟩
    · rw [if_pos (Or.inl type)] at weight
      exact absurd weight (tokens (Or.inl type)).ne'
    · rw [if_pos (Or.inr type)] at weight
      exact absurd weight (tokens (Or.inr type)).ne'
  · have weight := account_eq_zero.mp inRoots root
    rwa [show s.books.rootDirs root address = some line from entry] at weight

/-- A write that a cache completes without an update on the ring is a write to a line that no one else has. -/
theorem silent_writes_exclusive {memory : Address → LineData} {events : List (Event setup)} {id : Fin setup.caches}
    {req : Request} {reaction : Reaction setup.geometry setup.caches}
    (run : Run State.next (fun _ _ => True) (.initial setup memory) events s) (write : req.write = true)
    (handled : onClientRequest id s.cycleNo (s.lines id) req = .ok (.success reaction)) (silent : reaction.send = none) :
    s.Exclusive id req.address := by
  rw [onClientRequest, if_pos write] at handled
  unfold onWriteRequest at handled
  split at handled
  · rename_i absent
    obtain ⟨place, allocated, _⟩ := allocateLine_spec false absent
    rw [allocated] at handled
    cases place with
    | none => cases handled
    | some place =>
      obtain ⟨_, same, handled⟩ := bind_ok handled
      cases same
      obtain ⟨_, _, handled⟩ := bind_ok handled
      cases handled
  · rename_i place found
    dsimp only at handled
    split at handled
    · rename_i both
      exact exclusive_of_all_tokens (conserved_of_run run) found both.1 both.2
    · cases handled
      cases silent

theorem silent_writes_exclusive_load : ∃ s, execute State.next (.initial twoCaches fun _ _ => 0) firstLoad = some s ∧
    s.Exclusive (0 : Fin 2) 5 := by
  let req : Request := ⟨⟨fun _ => 1, fun _ => true⟩, true, 5, 3, 7⟩
  have silent : (execute State.next (.initial twoCaches fun _ _ => 0) firstLoad).map (fun s =>
      match onClientRequest (0 : Fin 2) s.cycleNo (s.lines (0 : Fin 2)) req with
      | .ok (.success reaction) => reaction.send.isNone
      | _ => false) = some true := by decide +kernel
  obtain ⟨s, done, silent⟩ := Option.map_eq_some_iff.mp silent
  refine ⟨s, done, ?_⟩
  split at silent
  · rename_i reaction handled
    have write : req.write = true := rfl
    exact silent_writes_exclusive (run_of_execute (fun _ _ _ => trivial) done) write handled
      (Option.isNone_iff_eq_none.mp silent)
  · cases silent

/-- The count of a directory is that of the tokens in the caches of its ring and in the messages there that are not on a long
way, it has an entry where there are some, and when it keeps a message out of its ring then no cache there has the line. -/
theorem directories_account {memory : Address → LineData} {events : List (Event setup)}
    (run : Run State.next (fun _ _ => True) (.initial setup memory) events s) (dir : Fin setup.directories)
    (address : Address) :
    (s.dirs dir address).getD 0 = s.books.inRing dir address + s.books.onWay (tokensBelow dir) address ∧
    ((s.dirs dir address).isSome = true ↔ 0 < s.books.inRing dir address + s.books.onWay (tokensBelow dir) address) ∧
    ∀ msg : setup.Message, msg.address = address → msg.type = .request ∨ msg.type = .requestData ∨ msg.type = .update →
      (onMessageReceivedTop (setup.isBelow dir) (s.dirs dir) msg).2 = .shortcut →
      ∀ id, setup.isBelow dir id = true → ∀ place, (s.lines id place).state = .full →
        ¬ Lines.IsFor setup.geometry address place (s.lines id place).tag := by
  have inv := conserved_of_run run
  have count := (inv.balanced address).below dir
  have entry : (s.dirs dir address).isSome = true ↔ 0 < (s.dirs dir address).getD 0 := by
    have valid := inv.dirs dir address
    cases found : s.dirs dir address with
    | none => simp
    | some tokens =>
      rw [show s.books.dirs dir address = some tokens from found] at valid
      simp only [Option.isSome_some, Option.getD_some, true_iff]
      exact Nat.pos_of_ne_zero fun zero => valid (by rw [zero])
  refine ⟨count, by rw [entry]; exact iff_of_eq (congrArg _ count), ?_⟩
  rintro msg rfl type shortcut id below place full isFor
  have absent : (s.dirs dir msg.address).isSome = false := by
    unfold onMessageReceivedTop at shortcut
    rcases type with type | type | type
    all_goals
      rw [type] at shortcut
      by_contra present
      simp [present] at shortcut
  have none : s.books.inRing dir msg.address = 0 := by
    rw [Option.isSome_eq_false_iff, Option.isNone_iff_eq_none] at absent
    rw [show s.books.dirs dir msg.address = none from absent] at count
    simp only [Option.getD_none] at count
    omega
  have weight := account_eq_zero.mp none id
  rw [if_pos below] at weight
  exact not_isFor_of_held inv full weight isFor

/-- Two rings of one cache each. -/
def twoRings : Setup where
  toNetwork := .twoLevel 2 1 1 Nat.one_pos
  geometry := ⟨1, 1, .direct 1 Nat.one_pos⟩
  nodeBufferSize := some 2
  requestBufferSize := some 2
  externalOutputQueueSize := some 2
  externalInputQueueSize := some 2

def loadThroughDirectory : List (Event twoRings) :=
  let cache : Fin twoRings.caches := ⟨0, by decide⟩
  let root : Fin twoRings.roots := ⟨0, by decide⟩
  let dir : Fin twoRings.directories := ⟨0, by decide⟩
  let other : Fin twoRings.directories := ⟨1, by decide⟩
  [.read cache 5, .requests cache, .forward (.cache cache), .inBottom dir, .forward (.top dir), .incoming root,
    .memoryRequests root, .readCompleted root, .memoryResponses root, .forward (.root root), .inTop other,
    .forward (.top other), .inTop dir, .forward (.bottom dir), .receive cache].flatMap fun e => [e, .endCycle]

theorem directories_account_load : ∃ s, execute State.next (.initial twoRings fun _ _ => 0) loadThroughDirectory = some s ∧
    s.dirs ⟨0, by decide⟩ 5 = some 2 ∧ (s.dirs ⟨0, by decide⟩ 5).getD 0 =
      s.books.inRing ⟨0, by decide⟩ 5 + s.books.onWay (tokensBelow ⟨0, by decide⟩) 5 := by
  have counted : (execute State.next (.initial twoRings fun _ _ => 0) loadThroughDirectory).map
      (fun s => s.dirs ⟨0, by decide⟩ 5) = some (some 2) := by decide +kernel
  obtain ⟨s, done, count⟩ := Option.map_eq_some_iff.mp counted
  exact ⟨s, done, count, (directories_account (run_of_execute (fun _ _ _ => trivial) done) _ 5).1⟩

end Mgsim.Cdma
