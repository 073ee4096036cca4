import Mgsim.Cdma.Tokens

namespace Mgsim.Cdma
open Mgsim.Lib Lines
variable {g : Geometry} {caches : Nat} {id : Fin caches} {address : Address} {lines : Lines g}

/-- What a cache may send for a message it has received: the messages of other
caches go on, and a new message is sound. -/
structure Swap (id : Fin caches) (address : Address) (inp out : Option (Message caches)) : Prop where
  foreign : ∀ other ≠ id, out.elim 0 (Message.loadsOf other) = inp.elim 0 (Message.loadsOf other) ∧
    out.elim 0 (Message.updatesOf other) = inp.elim 0 (Message.updatesOf other)
  ignored : ∀ msg ∈ inp, msg.ignore = true → out = inp
  sent : ∀ msg ∈ out, inp = some msg ∨ msg.address = address ∧ msg.ignore = false ∧
    (msg.type = .requestDataToken ∨ msg.type = .eviction → 0 < msg.tokens) ∧ (msg.type = .eviction → msg.sender = id)

theorem Swap.forward (message : Option (Message caches)) : Swap id address message message :=
  ⟨fun _ _ => ⟨rfl, rfl⟩, fun _ _ _ => rfl, fun _ sent => Or.inl sent⟩

/-- The message is gone. -/
theorem Swap.taken {msg : Message caches} (heard : msg.ignore = false) (own : msg.type ≠ .eviction → msg.sender = id) :
    Swap id address (some msg) none := by
  refine ⟨fun other different => ?_, fun message member yes => ?_, nofun⟩
  · have foreign : msg.type ≠ .eviction → msg.sender ≠ other := fun type same =>
      different (same.symm.trans (own type))
    simp only [Option.elim_none, Option.elim_some, Message.loadsOf, Message.updatesOf]
    cases type : msg.type with
    | eviction => simp
    | request => simp [foreign (by simp [type])]
    | requestData => simp [foreign (by simp [type])]
    | requestDataToken => simp [foreign (by simp [type])]
    | update => simp [foreign (by simp [type])]
  · cases member
    rw [heard] at yes
    cases yes

/-- The message is new. -/
theorem Swap.new {msg : Message caches} (here : msg.address = address) (heard : msg.ignore = false)
    (own : msg.sender = id) (tokens : msg.type = .requestDataToken ∨ msg.type = .eviction → 0 < msg.tokens) :
    Swap id address none (some msg) := by
  refine ⟨fun other different => ?_, nofun, fun message member => ?_⟩
  · have foreign : msg.sender ≠ other := fun same => different (same.symm.trans own)
    simp [Message.loadsOf, Message.updatesOf, foreign]
  · cases member
    exact Or.inr ⟨here, heard, tokens, fun _ => own⟩

/-- A cache trades the message `inp` for the message `out`: in the books of this
address, lines and messages together are as before. -/
structure Trades (id : Fin caches) (address : Address) (lines lines' : Lines g) (inp out : Option (Message caches)) :
    Prop extends Swap id address inp out where
  others : ∀ w other, other ≠ address → held w other lines' = held w other lines
  ok : LinesOk lines'
  tokens : held Line.fullTokens address lines' + out.elim 0 Message.carried =
    held Line.fullTokens address lines + inp.elim 0 Message.carried
  loads : held Line.loads address lines' + inp.elim 0 (Message.loadsOf id) =
    held Line.loads address lines + out.elim 0 (Message.loadsOf id)
  updates : held Line.updating address lines' + inp.elim 0 (Message.updatesOf id) =
    held Line.updating address lines + out.elim 0 (Message.updatesOf id)

/-- The cache only forwards. -/
theorem Trades.forward (ok : LinesOk lines) (message : Option (Message caches)) :
    Trades id address lines lines message message :=
  ⟨.forward message, fun _ _ _ => rfl, ok, rfl, rfl, rfl⟩

/-- Ignored messages apart, tokens are as before: a cache forwards these. -/
theorem Trades.heard {lines' : Lines g} {inp out : Option (Message caches)}
    (trades : Trades id address lines lines' inp out) :
    held Line.fullTokens address lines' + out.elim 0 Message.heard =
      held Line.fullTokens address lines + inp.elim 0 Message.heard := by
  have tokens := trades.tokens
  by_cases forwards : out = inp
  · subst forwards
    omega
  · have inpHeard : ∀ msg ∈ inp, msg.ignore = false := fun msg member =>
      Bool.eq_false_iff.mpr fun yes => forwards (trades.ignored msg member yes)
    have outHeard : ∀ msg ∈ out, msg.ignore = false := by
      intro msg sent
      rcases trades.sent msg sent with old | ⟨_, heard, _⟩
      · exact inpHeard msg old
      · exact heard
    have same : ∀ message : Option (Message caches), (∀ msg ∈ message, msg.ignore = false) →
        message.elim 0 Message.heard = message.elim 0 Message.carried := by
      intro message all
      cases message with
      | none => rfl
      | some msg => simp [Message.heard, all msg rfl]
    rw [same inp inpHeard, same out outHeard]
    exact tokens

section Write
variable {inp out : Option (Message caches)} {place : Place g} {line : Line}

/-- One line changes. It may come into being only where no line has the address. -/
theorem Trades.write (ok : LinesOk lines) (swap : Swap id address inp out)
    (before : Fits address place (lines place)) (after : Fits address place line)
    (new : (lines place).state = .empty → findLine lines address = none)
    (full : line.state = .full → 0 < line.tokens) (loading : line.state = .loading → line.tokens = 0)
    (tokens : line.worth Line.fullTokens + out.elim 0 Message.carried =
      (lines place).worth Line.fullTokens + inp.elim 0 Message.carried)
    (loads : line.worth Line.loads + inp.elim 0 (Message.loadsOf id) =
      (lines place).worth Line.loads + out.elim 0 (Message.loadsOf id))
    (updates : line.worth Line.updating + inp.elim 0 (Message.updatesOf id) =
      (lines place).worth Line.updating + out.elim 0 (Message.updatesOf id)) :
    Trades id address lines (Function.update lines place line) inp out := by
  have moved : ∀ w, held w address (Function.update lines place line) + (lines place).worth w =
      held w address lines + line.worth w := fun w => held_update_self before after
  refine ⟨swap, fun w other different => held_update_other before after different,
    ⟨fun other => ?_, fun other => ?_⟩, ?_, ?_, ?_⟩
  · by_cases here : other = place
    · subst here
      rw [Function.update_self]
      exact lineOk_of_fits after full loading
    · rw [Function.update_of_ne here]
      exact ok.line other
  · by_cases here : other = address
    · subst here
      have count := moved fun _ => 1
      have limit := ok.single other
      have one : line.worth (fun _ => 1) ≤ 1 := by
        unfold Line.worth
        split
        · exact le_rfl
        · exact Nat.zero_le _
      by_cases empty : (lines place).state = .empty
      · rw [findLine_eq_none (new empty)] at count
        omega
      · rw [show (lines place).worth (fun _ => 1) = 1 from if_pos empty] at count
        omega
    · rw [held_update_other before after here]
      exact ok.single other
  · have := moved Line.fullTokens
    omega
  · have := moved Line.loads
    omega
  · have := moved Line.updating
    omega

/-- The line that `FindLine` finds changes, and keeps its tag. -/
theorem Trades.rewrite (ok : LinesOk lines) (swap : Swap id address inp out)
    (found : findLine lines address = some place) (same : line.tag = (lines place).tag) (nonempty : line.state ≠ .empty)
    (full : line.state = .full → 0 < line.tokens) (loading : line.state = .loading → line.tokens = 0)
    (tokens : line.fullTokens + out.elim 0 Message.carried = (lines place).fullTokens + inp.elim 0 Message.carried)
    (loads : line.loads + inp.elim 0 (Message.loadsOf id) = (lines place).loads + out.elim 0 (Message.loadsOf id))
    (updates : line.updating + inp.elim 0 (Message.updatesOf id) =
      (lines place).updating + out.elim 0 (Message.updatesOf id)) :
    Trades id address lines (Function.update lines place line) inp out := by
  obtain ⟨occupied, isFor⟩ := findLine_eq_some found
  have before : ∀ w, (lines place).worth w = w (lines place) := fun w => if_pos occupied
  have after : ∀ w, line.worth w = w line := fun w => if_pos nonempty
  refine .write ok swap (fun _ => isFor) (fun _ => same ▸ isFor) (fun empty => absurd empty occupied) full loading
    ?_ ?_ ?_
  · rwa [before, after]
  · rwa [before, after]
  · rwa [before, after]

end Write

section Messages
variable {cycleNo : Nat} {msg : Message caches}

/-- A copy of the line for the request: a token with it, if there is one to spare. -/
theorem Swap.answer (id : Fin caches) (answer : Message caches) (heard : msg.ignore = false)
    (request : msg.type = .request ∨ msg.type = .requestData)
    (type : answer.type = .requestData ∨ answer.type = .requestDataToken ∧ 0 < answer.tokens)
    (sender : answer.sender = msg.sender) (ignore : answer.ignore = msg.ignore) (same : answer.address = msg.address) :
    (∀ other, answer.loadsOf other = msg.loadsOf other ∧ answer.updatesOf other = msg.updatesOf other) ∧
      Swap id msg.address (some msg) (some answer) := by
  have weights : ∀ other, answer.loadsOf other = msg.loadsOf other ∧ answer.updatesOf other = msg.updatesOf other := by
    intro other
    rw [Message.loadsOf, Message.loadsOf, Message.updatesOf, Message.updatesOf, sender]
    rcases request with old | old <;> rcases type with new | ⟨new, _⟩ <;> simp [old, new]
  refine ⟨weights, fun other _ => weights other, fun message member yes => ?_, fun message member => ?_⟩
  · cases member
    rw [heard] at yes
    cases yes
  · cases member
    refine Or.inr ⟨same, ignore.trans heard, ?_, ?_⟩
    · rcases type with new | ⟨new, positive⟩
      · simp [new]
      · exact fun _ => positive
    · rcases type with new | ⟨new, _⟩ <;> simp [new]

theorem onRequest_spec (ok : LinesOk lines) (heard : msg.ignore = false)
    (request : msg.type = .request ∨ msg.type = .requestData) :
    Trades id msg.address lines (onRequest cycleNo lines msg).lines (some msg) (onRequest cycleNo lines msg).send := by
  have nothing : msg.carried = 0 := by
    rcases request with type | type <;> simp [Message.carried, type]
  unfold onRequest
  cases found : findLine lines msg.address with
  | none => exact .forward ok _
  | some place =>
    dsimp only
    by_cases full : (lines place).state = .full
    · rw [if_neg (not_not.mpr full)]
      by_cases spare : (lines place).tokens > 1
      · rw [if_pos spare]
        obtain ⟨weights, swap⟩ := Swap.answer id { msg with
          type := .requestDataToken, tokens := 1, dirty := (lines place).dirty
          data := { msg.data with data := (lines place).data } } heard request (Or.inr ⟨rfl, Nat.one_pos⟩) rfl rfl rfl
        refine .rewrite ok swap found rfl (by simp [full]) (fun _ => by dsimp only; omega) (by simp [full]) ?_ ?_ ?_
        · rw [Option.elim_some, Option.elim_some, nothing]
          simp only [Line.fullTokens, full, if_true, Message.carried, true_or]
          omega
        · simp only [Line.loads, Option.elim_some, (weights id).1]
        · simp only [Option.elim_some, (weights id).2]
      · rw [if_neg spare]
        by_cases type : msg.type = .request
        · rw [if_pos type]
          obtain ⟨weights, swap⟩ := Swap.answer id { msg with
            type := .requestData, dirty := (lines place).dirty
            data := { msg.data with data := (lines place).data } } heard request (Or.inl rfl) rfl rfl rfl
          refine ⟨swap, fun _ _ _ => rfl, ok, ?_, ?_, ?_⟩
          · rw [Option.elim_some, Option.elim_some, nothing]
            simp [Message.carried]
          · simp only [Option.elim_some, (weights id).1]
          · simp only [Option.elim_some, (weights id).2]
        · rw [if_neg type]
          exact .forward ok _
    · rw [if_pos full]
      exact .forward ok _

theorem onResponse_spec {pending : List Request} (ok : LinesOk lines) (heard : msg.ignore = false)
    (type : msg.type = .requestDataToken) (own : msg.sender = id) (tokens : 0 < msg.tokens)
    (expected : 0 < held Line.loads msg.address lines) :
    ∃ reaction, onResponse lines pending msg = .ok reaction ∧
      Trades id msg.address lines reaction.lines (some msg) reaction.send := by
  obtain ⟨place, found, loads⟩ := findLine_of_held ok expected
  have loading : (lines place).state = .loading := by
    by_contra different
    rw [Line.loads, if_neg different] at loads
    cases loads
  have none := (ok.line place).loading loading
  unfold onResponse
  simp only [found, require, loading, tokens, none, decide_true, if_true]
  refine ⟨_, rfl, .rewrite ok (.taken heard fun _ => own) found rfl (by simp) (fun _ => tokens)
    (by intros; contradiction) ?_ ?_ ?_⟩
  · simp [Line.fullTokens, loading, Message.carried, type]
  · simp [Line.loads, loading, Message.loadsOf, type, own]
  · simp [Message.updatesOf, type]

theorem onEviction_spec (ok : LinesOk lines) (heard : msg.ignore = false) (type : msg.type = .eviction)
    (tokens : 0 < msg.tokens) :
    ∃ reaction, onEviction cycleNo lines msg = .ok reaction ∧
      Trades id msg.address lines reaction.lines (some msg) reaction.send := by
  have swap : Swap id msg.address (some msg) none := .taken heard fun other => absurd type other
  unfold onEviction
  cases found : findLine lines msg.address with
  | some place =>
    dsimp only
    by_cases full : (lines place).state = .full
    · simp only [full, if_true, require, tokens, decide_true]
      refine ⟨_, rfl, .rewrite ok swap found rfl (by simp) (fun _ => Nat.add_pos_right _ tokens) (by simp) ?_ ?_ ?_⟩
      · simp [Line.fullTokens, full, Message.carried, type]
      · simp [Line.loads, full, Message.loadsOf, type]
      · simp [Message.updatesOf, type]
    · rw [if_neg full]
      exact ⟨_, rfl, .forward ok _⟩
  | none =>
    dsimp only
    obtain ⟨place, done, allocated⟩ := allocateLine_spec true found
    rw [done]
    cases place with
    | none => exact ⟨_, rfl, .forward ok _⟩
    | some place =>
      obtain ⟨inSet, empty⟩ := allocated place rfl
      have empty : (lines place).state = .empty := empty.resolve_right (by simp)
      refine ⟨_, rfl, .write ok swap (fun occupied => absurd empty occupied) (fun _ => ?_) (fun _ => found)
        (fun _ => tokens) (by intros; contradiction) ?_ ?_ ?_⟩
      · exact Prod.ext rfl inSet.symm
      · simp [Line.worth, empty, Line.fullTokens, Message.carried, type]
      · simp [Line.worth, empty, Line.loads, Message.loadsOf, type]
      · simp [Line.worth, empty, Message.updatesOf, type]

theorem onUpdate_spec (ok : LinesOk lines) (heard : msg.ignore = false) (type : msg.type = .update)
    (expected : msg.sender = id → 0 < held Line.updating msg.address lines) :
    ∃ reaction, onUpdate id lines msg = .ok reaction ∧
      Trades id msg.address lines reaction.lines (some msg) reaction.send := by
  unfold onUpdate
  by_cases own : msg.sender = id
  · obtain ⟨place, found, updating⟩ := findLine_of_held ok (expected own)
    have occupied := (findLine_eq_some found).1
    simp only [found, own, if_true, require, updating, decide_true]
    refine ⟨_, rfl, .rewrite ok (.taken heard fun _ => own) found rfl occupied (ok.line place).full
      (ok.line place).loading ?_ ?_ ?_⟩
    · simp [Line.fullTokens, Message.carried, type]
    · simp [Line.loads, Message.loadsOf, type]
    · simp only [Message.updatesOf, type, own, and_self, if_true, Option.elim_some, Option.elim_none]
      omega
  · cases found : findLine lines msg.address with
    | none =>
      simp only [own, if_false]
      exact ⟨_, rfl, .forward ok _⟩
    | some place =>
      simp only [own, if_false]
      exact ⟨_, rfl, .rewrite ok (.forward _) found rfl (findLine_eq_some found).1 (ok.line place).full
        (ok.line place).loading rfl rfl rfl⟩

/-- No assertion of `OnMessageReceived` fails, when an answer is expected. -/
theorem onMessageReceived_spec {pending : List Request} (ok : LinesOk lines)
    (tokens : msg.type = .requestDataToken ∨ msg.type = .eviction → 0 < msg.tokens)
    (loads : 0 < msg.loadsOf id → 0 < held Line.loads msg.address lines)
    (updates : 0 < msg.updatesOf id → 0 < held Line.updating msg.address lines) :
    ∃ reaction, onMessageReceived id cycleNo pending lines msg = .ok reaction ∧
      Trades id msg.address lines reaction.lines (some msg) reaction.send := by
  unfold onMessageReceived
  split
  · exact ⟨_, rfl, .forward ok _⟩
  · rename_i handles
    have heard : msg.ignore = false := Bool.eq_false_iff.mpr fun yes => handles (Or.inl yes)
    cases type : msg.type with
    | request => exact ⟨_, rfl, onRequest_spec ok heard (Or.inl type)⟩
    | requestData => exact ⟨_, rfl, onRequest_spec ok heard (Or.inr type)⟩
    | requestDataToken =>
      have own : msg.sender = id := by
        by_contra different
        exact handles (Or.inr ⟨type, different⟩)
      exact onResponse_spec ok heard type own (tokens (Or.inl type)) (loads (by simp [Message.loadsOf, type, own]))
    | eviction => exact onEviction_spec ok heard type (tokens (Or.inr type))
    | update => exact onUpdate_spec ok heard type fun own => updates (by simp [Message.updatesOf, type, own])

end Messages

section Requests
variable {cycleNo : Nat} {req : Request} {place : Place g}

/-- A line that is full leaves as a message, under the address that its tag gives. -/
theorem evictLine_spec (id : Fin caches) (ok : LinesOk lines) (full : (lines place).state = .full) (idle : (lines place).updating = 0) :
    ∃ reaction, evictLine id lines place = .ok reaction ∧
      Trades id (addressOf lines place) lines reaction.lines none reaction.send := by
  have tokens := (ok.line place).full full
  have isFor := (ok.line place).address (by simp [full])
  unfold evictLine
  simp only [full, idle, require, ne_eq, reduceCtorEq, not_false_eq_true, decide_true, if_true]
  refine ⟨_, rfl, .write ok (.new rfl rfl rfl fun _ => tokens) (fun _ => isFor) (fun occupied => absurd rfl occupied)
    (fun empty => ?_) (by simp) (by simp) ?_ ?_ ?_⟩
  · rw [full] at empty
    cases empty
  · simp [Line.worth, Line.fullTokens, full, Message.carried, Message.new]
  · simp [Line.worth, Line.loads, full, Message.loadsOf, Message.new]
  · simp [Line.worth, idle, Message.updatesOf, Message.new]

theorem miss_spec (id : Fin caches) (access : Option Nat) (ok : LinesOk lines) (absent : findLine lines req.address = none)
    (allocated : Allocated lines req.address false place) :
    ∃ result, miss id lines req.address access place = .ok result ∧
      ∃ address, Trades id address lines result.2.lines none result.2.send := by
  unfold miss
  dsimp only
  by_cases empty : (lines place).state = .empty
  · rw [if_neg (not_not.mpr empty)]
    refine ⟨_, rfl, req.address, .write ok (.new rfl rfl rfl (by simp [Message.new]))
      (fun occupied => absurd empty occupied) (fun _ => Prod.ext rfl allocated.1.symm) (fun _ => absent) nofun
      (fun _ => rfl) ?_ ?_ ?_⟩
    · simp [Line.worth, empty, loadingLine, Line.fullTokens, Message.carried, Message.new]
    · simp [Line.worth, empty, loadingLine, Line.loads, Message.loadsOf, Message.new]
    · simp [Line.worth, empty, loadingLine, Message.updatesOf, Message.new]
  · rw [if_pos empty]
    obtain ⟨_, full, idle⟩ := allocated.2.resolve_left empty
    obtain ⟨reaction, done, trades⟩ := evictLine_spec id ok full idle
    rw [done]
    exact ⟨_, rfl, _, trades⟩

/-- What the result of a request does to lines and messages. -/
def Handled.reaction : Handled g caches → Option (Reaction g caches)
  | .failed => none
  | .delayed reaction => some reaction
  | .success reaction => some reaction

/-- No assertion fails, and the result is a trade for a new message. -/
def Handles (id : Fin caches) (lines : Lines g) (result : Checked (Handled g caches)) : Prop :=
  ∃ handled, result = .ok handled ∧
    ∀ reaction ∈ handled.reaction, ∃ address, Trades id address lines reaction.lines none reaction.send

theorem onWriteRequest_spec (ok : LinesOk lines) : Handles id lines (onWriteRequest id cycleNo lines req) := by
  unfold onWriteRequest
  cases found : findLine lines req.address with
  | none =>
    dsimp only
    obtain ⟨place, done, allocated⟩ := allocateLine_spec false found
    rw [done]
    cases place with
    | none => exact ⟨_, rfl, nofun⟩
    | some place =>
      obtain ⟨result, done, trades⟩ := miss_spec id none ok found (allocated place rfl)
      refine ⟨.delayed result.2, ?_, ?_⟩
      · simp only [bind, Except.bind, done]
        rfl
      · rintro reaction ⟨⟩
        exact trades
  | some place =>
    obtain ⟨occupied, _⟩ := findLine_eq_some found
    dsimp only
    split
    · refine ⟨_, rfl, ?_⟩
      rintro reaction ⟨⟩
      exact ⟨req.address, .rewrite ok (.forward none) found rfl occupied (ok.line place).full (ok.line place).loading
        rfl rfl rfl⟩
    · refine ⟨_, rfl, ?_⟩
      rintro reaction ⟨⟩
      refine ⟨req.address, .rewrite ok (.new rfl rfl rfl (by simp [Message.new])) found rfl occupied
        (ok.line place).full (ok.line place).loading ?_ ?_ ?_⟩
      · simp [Line.fullTokens, Message.carried, Message.new]
      · simp [Line.loads, Message.loadsOf, Message.new]
      · simp [Message.updatesOf, Message.new]

theorem onReadRequest_spec (ok : LinesOk lines) : Handles id lines (onReadRequest id cycleNo lines req) := by
  unfold onReadRequest
  cases found : findLine lines req.address with
  | none =>
    dsimp only
    obtain ⟨place, done, allocated⟩ := allocateLine_spec false found
    rw [done]
    cases place with
    | none => exact ⟨_, rfl, nofun⟩
    | some place =>
      obtain ⟨result, done, trades⟩ := miss_spec id (some cycleNo) ok found (allocated place rfl)
      refine ⟨if result.1 then .success result.2 else .delayed result.2, ?_, ?_⟩
      · simp only [bind, Except.bind, done]
        rfl
      · cases result.1 with
        | true =>
          rintro reaction ⟨⟩
          exact trades
        | false =>
          rintro reaction ⟨⟩
          exact trades
  | some place =>
    obtain ⟨occupied, _⟩ := findLine_eq_some found
    dsimp only
    cases state : (lines place).state with
    | empty => exact absurd state occupied
    | full =>
      refine ⟨_, rfl, ?_⟩
      rintro reaction ⟨⟩
      refine ⟨req.address, .rewrite ok (.forward none) found rfl nofun (fun _ => (ok.line place).full state) nofun
        ?_ ?_ rfl⟩
      · simp [Line.fullTokens, state]
      · simp [Line.loads, state]
    | loading =>
      refine ⟨_, rfl, ?_⟩
      rintro reaction ⟨⟩
      exact ⟨req.address, .forward ok none⟩

/-- No assertion fails on a request of a client. -/
theorem onClientRequest_spec (ok : LinesOk lines) : Handles id lines (onClientRequest id cycleNo lines req) := by
  unfold onClientRequest
  split
  · exact onWriteRequest_spec ok
  · exact onReadRequest_spec ok

end Requests

end Mgsim.Cdma
