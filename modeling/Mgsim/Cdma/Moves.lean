import Mgsim.Cdma.Conserved

namespace Mgsim.Cdma
open Mgsim.Lib

section Directory
variable {caches : Nat} {isBelow : Fin caches → Bool} {dir : Dir} {msg : Message caches}

/-- No assertion of `OnMessageReceivedBottom` fails, when the directory counts the tokens of the message. -/
theorem onMessageReceivedBottom_spec (sender : msg.type = .eviction → msg.ignore = false → isBelow msg.sender = true)
    (positive : msg.type = .requestDataToken ∨ msg.type = .eviction → 0 < msg.tokens)
    (counted : msg.heard ≤ (dir msg.address).getD 0) (noZero : ∀ address, dir address ≠ some 0) :
    ∃ dir', onMessageReceivedBottom isBelow dir msg = .ok (dir', { msg with ignore := false }) ∧
      (∀ other ≠ msg.address, dir' other = dir other) ∧ (∀ address, dir' address ≠ some 0) ∧
      (dir' msg.address).getD 0 + msg.heard = (dir msg.address).getD 0 := by
  unfold onMessageReceivedBottom
  by_cases ignored : msg.ignore = true
  · refine ⟨dir, ?_, fun _ _ => rfl, noZero, ?_⟩
    · simp only [ignored, if_true]
      rfl
    · simp [Message.heard, ignored]
  · have heard : msg.ignore = false := Bool.eq_false_iff.mpr ignored
    by_cases carries : msg.type = .requestDataToken ∨ msg.type = .eviction
    · have weight : msg.heard = msg.tokens := by simp [Message.heard, heard, Message.carried, carries]
      have tokens := positive carries
      cases entry : dir msg.address with
      | none =>
        rw [entry, Option.getD_none] at counted
        omega
      | some tokens =>
        rw [entry, Option.getD_some, weight] at counted
        refine ⟨Function.update dir msg.address (if tokens - msg.tokens = 0 then none else some (tokens - msg.tokens)),
          ?_, fun other different => Function.update_of_ne different .., fun address => ?_, ?_⟩
        · rcases carries with type | type
          · simp only [heard, type, entry, require, counted, decide_true, if_true, Bool.false_eq_true,
              if_false]
            rfl
          · simp only [heard, type, entry, require, counted, decide_true, if_true, Bool.false_eq_true,
              if_false, sender type heard]
            rfl
        · by_cases here : address = msg.address
          · subst here
            rw [Function.update_self]
            split
            · simp
            · rename_i left
              intro zero
              exact left (Option.some.inj zero)
          · rw [Function.update_of_ne here]
            exact noZero address
        · rw [Function.update_self, weight, Option.getD_some]
          split
          · rw [Option.getD_none]
            omega
          · rw [Option.getD_some]
            omega
    · refine ⟨dir, ?_, fun _ _ => rfl, noZero, ?_⟩
      · cases type : msg.type with
        | request => simp only [heard, Bool.false_eq_true, if_false]; rfl
        | requestData => simp only [heard, Bool.false_eq_true, if_false]; rfl
        | requestDataToken => exact absurd (Or.inl type) carries
        | eviction => exact absurd (Or.inr type) carries
        | update => simp only [heard, Bool.false_eq_true, if_false]; rfl
      · simp [Message.heard, Message.carried, carries]

/-- A directory counts the tokens of a message that it puts on the ring below. -/
theorem onMessageReceivedTop_spec (isBelow : Fin caches → Bool) (heard : msg.ignore = false)
    (positive : msg.type = .requestDataToken → 0 < msg.tokens) (noZero : ∀ address, dir address ≠ some 0) :
    ((onMessageReceivedTop isBelow dir msg).2 = .shortcut → (onMessageReceivedTop isBelow dir msg).1 = dir) ∧
      (∀ other ≠ msg.address, (onMessageReceivedTop isBelow dir msg).1 other = dir other) ∧
      (∀ address, (onMessageReceivedTop isBelow dir msg).1 address ≠ some 0) ∧
      ((onMessageReceivedTop isBelow dir msg).2 = .down → msg.type ≠ .eviction ∧
        ((onMessageReceivedTop isBelow dir msg).1 msg.address).getD 0 = (dir msg.address).getD 0 + msg.heard) := by
  have plain : msg.type ≠ .requestDataToken → msg.type ≠ .eviction → msg.heard = 0 := by
    intro first second
    simp [Message.heard, Message.carried, first, second]
  unfold onMessageReceivedTop
  cases type : msg.type with
  | request => exact ⟨fun _ => rfl, fun _ _ => rfl, noZero, fun _ => ⟨(by simp), by simp [plain, type]⟩⟩
  | requestData => exact ⟨fun _ => rfl, fun _ _ => rfl, noZero, fun _ => ⟨(by simp), by simp [plain, type]⟩⟩
  | update => exact ⟨fun _ => rfl, fun _ _ => rfl, noZero, fun _ => ⟨(by simp), by simp [plain, type]⟩⟩
  | eviction => exact ⟨fun _ => rfl, fun _ _ => rfl, noZero, (by intros; contradiction)⟩
  | requestDataToken =>
    dsimp only
    split
    · have tokens := positive type
      refine ⟨(by intros; contradiction), fun other different => Function.update_of_ne different .., fun address => ?_, fun _ => ⟨(by simp), ?_⟩⟩
      · dsimp only
        by_cases here : address = msg.address
        · subst here
          rw [Function.update_self]
          intro zero
          have := Option.some.inj zero
          omega
        · rw [Function.update_of_ne here]
          exact noZero address
      · simp [Message.heard, heard, Message.carried, type]
    · exact ⟨fun _ => rfl, fun _ _ => rfl, noZero, (by intros; contradiction)⟩

end Directory

namespace Books
variable {setup : Setup} {b : Books setup} {msg : setup.Message} {rest : Multiset (Flying setup)}

theorem le_onWay {w : Flying setup → Nat} {x : Flying setup} (before : b.flight = x ::ₘ rest) :
    w x ≤ b.onWay w x.2.address := by
  have bound := le_weigh (w := fun y => if y.2.address = x.2.address then w y else 0)
    (before ▸ Multiset.mem_cons_self x rest : x ∈ b.flight)
  rwa [if_pos rfl] at bound

theorem Conserved.sound_head {x : Flying setup} (inv : Conserved b) (before : b.flight = x ::ₘ rest) : Sound x :=
  inv.sound x (before ▸ Multiset.mem_cons_self x rest)

theorem dirs_here {id : Fin setup.directories} {dir : Dir} : ((b.withDir id dir).fly rest).dirs id = dir :=
  Function.update_self ..

theorem dirs_other {id other : Fin setup.directories} {dir : Dir} (different : other ≠ id) :
    ((b.withDir id dir).fly rest).dirs other = b.dirs other := Function.update_of_ne different ..

/-- A directory takes a message and changes its entry by the tokens on the ring below. -/
theorem Conserved.redirected {id : Fin setup.directories} {dir : Dir} {x y : Flying setup} (inv : Conserved b)
    (before : b.flight = x ::ₘ rest) (same : y.2.address = x.2.address) (elsewhere : ∀ other ≠ x.2.address,
      dir other = b.dirs id other) (noZero : ∀ address, dir address ≠ some 0)
    (tokens : tokensOf y = tokensOf x) (loads : ∀ who, y.2.loadsOf who = x.2.loadsOf who)
    (updates : ∀ who, y.2.updatesOf who = x.2.updatesOf who) (asked : ∀ who, askedBy who y = askedBy who x)
    (here : (dir x.2.address).getD 0 + tokensBelow id x = (b.dirs id x.2.address).getD 0 + tokensBelow id y)
    (others : ∀ other ≠ id, tokensBelow other y = tokensBelow other x) (sound : Sound y) :
    Conserved ((b.withDir id dir).fly (y ::ₘ rest)) := by
  have exchange : Exchange b ((b.withDir id dir).fly (y ::ₘ rest)) x.2.address (some x) (some y) := by
    refine ⟨⟨rest, before, rfl⟩, ?_, ?_⟩
    · rintro _ ⟨⟩
      rfl
    · rintro _ ⟨⟩
      exact same
  refine inv.moved ⟨rfl, fun other address different => ?_, fun _ _ _ => rfl, exchange, ?_, loads, updates, ?_,
    fun other => ?_, ?_, fun root line => inv.roots root _ line, fun other => ?_⟩
  · by_cases itself : other = id
    · subst itself
      rw [dirs_here]
      exact elsewhere address different
    · rw [dirs_other itself]
  · rw [Option.elim_some, tokens]
    rfl
  · intro who
    rw [Option.elim_some, asked]
    rfl
  · rw [Option.elim_some]
    by_cases itself : other = id
    · subst itself
      rw [dirs_here]
      exact here
    · rw [dirs_other itself, others other itself]
  · rintro _ ⟨⟩
    exact sound
  · by_cases itself : other = id
    · subst itself
      rw [dirs_here]
      exact noZero _
    · rw [dirs_other itself]
      exact inv.dirs other _

theorem Conserved.inBottom {id : Fin setup.directories} (inv : Conserved b)
    (before : b.flight = (.ring (some id), msg) ::ₘ rest) :
    ∃ dir, onMessageReceivedBottom (setup.isBelow id) (b.dirs id) msg = .ok (dir, { msg with ignore := false }) ∧
      Conserved ((b.withDir id dir).fly ((.ring none, { msg with ignore := false }) ::ₘ rest)) := by
  have sound := inv.sound_head before
  have weight : tokensBelow id ((.ring (some id), msg) : Flying setup) = msg.heard := if_pos rfl
  have counted : msg.heard ≤ (b.dirs id msg.address).getD 0 := by
    have bound := le_onWay (w := tokensBelow id) before
    rw [weight] at bound
    rw [(inv.balanced msg.address).below id]
    exact Nat.le_add_left_of_le bound
  obtain ⟨dir, done, elsewhere, noZero, here⟩ :=
    onMessageReceivedBottom_spec sound.placed (sound.tokens rfl) counted (inv.dirs id)
  refine ⟨dir, done, inv.redirected before rfl elsewhere noZero rfl (fun _ => rfl) (fun _ => rfl) (fun _ => rfl) ?_
    (fun other different => ?_) ⟨fun _ => sound.tokens rfl, rfl⟩⟩
  · rw [weight]
    exact here
  · have below : (Where.ring (some id) : Where setup) ≠ .ring (some other) := fun same =>
      different (Option.some.inj (Where.ring.inj same)).symm
    simp [tokensBelow, below]

theorem Conserved.inTop (inv : Conserved b) (id : Fin setup.directories)
    (before : b.flight = (.ring none, msg) ::ₘ rest) :
    match onMessageReceivedTop (setup.isBelow id) (b.dirs id) msg with
    | (dir, .down) => Conserved ((b.withDir id dir).fly ((.ring (some id), msg) ::ₘ rest))
    | (dir, .shortcut) => dir = b.dirs id := by
  have sound := inv.sound_head before
  have heard : msg.ignore = false := sound.placed
  obtain ⟨shortcut, elsewhere, noZero, down⟩ := onMessageReceivedTop_spec (setup.isBelow id)
    heard (fun type => sound.tokens rfl (Or.inl type)) (inv.dirs id)
  cases result : onMessageReceivedTop (setup.isBelow id) (b.dirs id) msg with
  | mk dir route =>
    rw [result] at shortcut elsewhere noZero down
    cases route with
    | shortcut => exact shortcut rfl
    | down =>
      obtain ⟨type, here⟩ := down rfl
      refine inv.redirected before rfl elsewhere noZero rfl (fun _ => rfl) (fun _ => rfl) (fun _ => rfl) ?_
        (fun other different => ?_) ⟨fun _ => sound.tokens rfl, fun eviction => absurd eviction type⟩
      · rw [show tokensBelow id ((.ring (some id), msg) : Flying setup) = msg.heard from if_pos rfl]
        exact here
      · have below : (Where.ring (some id) : Where setup) ≠ .ring (some other) := fun same =>
          different (Option.some.inj (Where.ring.inj same)).symm
        simp [tokensBelow, below]

/-! ### Root directories -/

/-- Where the message of a root directory goes, if there is room to spare on the ring. -/
def landed (root : Fin setup.roots) : RootRoute setup.caches → Option (Flying setup)
  | .dropped => none
  | .queued msg => some (.requests root, msg)
  | .forwarded msg => some (.ring none, msg)

/-- No assertion fails, and the invariant holds again when the message has landed. -/
def Settles (b : Books setup) (root : Fin setup.roots) (rest : Multiset (Flying setup))
    (result : Checked (RootDir setup.caches × RootRoute setup.caches)) : Prop :=
  ∃ dir route, result = .ok (dir, route) ∧ Conserved ((b.withRoot root dir).fly ((landed root route).elim rest (· ::ₘ rest)))

section Root
variable {root : Fin setup.roots}

theorem Conserved.passed (inv : Conserved b) (before : b.flight = (.ring none, msg) ::ₘ rest) :
    Settles b root rest (.ok (b.rootDirs root, .forwarded msg)) := by
  refine ⟨_, _, rfl, ?_⟩
  rw [withRoot_self, show (landed root (.forwarded msg)).elim rest (· ::ₘ rest) = b.flight from before.symm,
    fly_self rfl]
  exact inv

/-- Tokens in flight and in the root directory are part of the tokens of a line in the system. -/
theorem Conserved.root_bound {x : Flying setup} (inv : Conserved b) (before : b.flight = x ::ₘ rest)
    (here : State.isLocal setup root x.2.address = true) :
    tokensOf x + (b.rootDirs root x.2.address).elim 0 RootLine.tokens ≤
      setup.caches * (b.rootDirs root x.2.address).elim 0 RootLine.inSystem := by
  have old : ∀ w, b.inRoots w x.2.address = (b.rootDirs root x.2.address).elim 0 w := fun w =>
    inRoots_local (fun root => inv.roots root _) here
  have balance := (inv.balanced x.2.address).tokens
  have bound := le_onWay (w := tokensOf) before
  rw [old, old] at balance
  omega

theorem Conserved.rootRequest (inv : Conserved b) (before : b.flight = (.ring none, msg) ::ₘ rest)
    (here : State.isLocal setup root msg.address = true) (type : msg.type = .request)
    (absent : b.rootDirs root msg.address = none) :
    Settles b root rest (.ok (Function.update (b.rootDirs root) msg.address (some ⟨.loading, 0, msg.sender⟩),
      .queued msg)) := by
  have heard : msg.ignore = false := (inv.sound_head before).placed
  refine ⟨_, _, rfl, inv.settled (some (.requests root, msg)) before here ?_ ?_ ?_ (fun _ => rfl) (fun _ => rfl)
    (fun id => ?_) (fun _ => rfl) ?_⟩
  · rintro _ ⟨⟩
    rfl
  · rintro _ ⟨⟩
    exact ⟨nofun, fun _ => rfl⟩
  · simp [tokensOf, handed, heard, Message.carried, type, absent, RootLine.inSystem]
  · simp [askedBy, handed, heard, type, absent, RootLine.askedBy]
  · rintro _ ⟨⟩
    refine ⟨fun free => ?_, fun _ => ⟨here, Or.inl type⟩⟩
    rw [handed, heard] at free
    cases free

/-- The root directory attaches all its tokens to a request with data. -/
theorem Conserved.rootAttach {tokens : Nat} {line : RootLine setup.caches} (inv : Conserved b)
    (before : b.flight = (.ring none, msg) ::ₘ rest) (here : State.isLocal setup root msg.address = true)
    (type : msg.type = .requestData) (positive : 0 < tokens) (full : line.state = .full)
    (moved : tokens + line.tokens + setup.caches * (b.rootDirs root msg.address).elim 0 RootLine.inSystem =
      (b.rootDirs root msg.address).elim 0 RootLine.tokens + setup.caches)
    (idle : ∀ id, (b.rootDirs root msg.address).elim 0 (RootLine.askedBy id) = 0) :
    Settles b root rest (.ok (Function.update (b.rootDirs root) msg.address (some line),
      .forwarded { msg with type := .requestDataToken, tokens := tokens })) := by
  have heard : msg.ignore = false := (inv.sound_head before).placed
  refine ⟨_, _, rfl, inv.settled
    (some (.ring none, { msg with type := .requestDataToken, tokens := tokens })) before here ?_ ?_ ?_ ?_ ?_
    (fun id => ?_) (fun _ => rfl) ?_⟩
  · rintro _ ⟨⟩
    rfl
  · rintro _ ⟨⟩
    rw [full]
    exact ⟨nofun, nofun⟩
  · simp only [Option.elim_some, tokensOf, handed, Bool.false_eq_true, if_false, Message.carried, if_true, type,
      reduceCtorEq, or_false, RootLine.inSystem, full, Nat.mul_one, Nat.zero_add]
    exact moved
  · intro id
    simp [Message.loadsOf, type]
  · intro id
    simp [Message.updatesOf, type]
  · rw [idle]
    simp [askedBy, handed, RootLine.askedBy, full]
  · rintro _ ⟨⟩
    exact ⟨fun _ _ => positive, heard⟩

theorem Conserved.rootRequestData (inv : Conserved b) (before : b.flight = (.ring none, msg) ::ₘ rest)
    (here : State.isLocal setup root msg.address = true) (type : msg.type = .requestData) :
    Settles b root rest (onRootMessageReceived (State.isLocal setup root) (b.rootDirs root) msg) := by
  unfold onRootMessageReceived
  simp only [here, Bool.not_true, Bool.false_eq_true, if_false, type]
  cases entry : b.rootDirs root msg.address with
  | none =>
    have caches : 0 < setup.caches := Fin.pos msg.sender
    simp only [Option.getD_none, if_true]
    refine inv.rootAttach before here type caches rfl ?_ ?_
    · simp [entry]
    · simp [entry]
  | some line =>
    have ok := inv.roots root msg.address line entry
    simp only [Option.getD_some, ok.nonempty, if_false]
    by_cases attaches : line.tokens > 0
    · have full : line.state = .full := by
        cases state : line.state with
        | empty => exact absurd state ok.nonempty
        | loading =>
          have noTokens := ok.loading state
          omega
        | full => rfl
      rw [if_pos attaches]
      refine inv.rootAttach before here type attaches full ?_ ?_
      · simp [entry, RootLine.inSystem, full]
      · simp [entry, RootLine.askedBy, full]
    · rw [if_neg attaches]
      exact inv.passed before

theorem Conserved.rootEviction (inv : Conserved b) (before : b.flight = (.ring none, msg) ::ₘ rest)
    (here : State.isLocal setup root msg.address = true) (type : msg.type = .eviction) :
    Settles b root rest (onRootMessageReceived (State.isLocal setup root) (b.rootDirs root) msg) := by
  have sound := inv.sound_head before
  have heard : msg.ignore = false := sound.placed
  have tokens := sound.tokens rfl (Or.inr type)
  have bound := inv.root_bound before here
  simp only [tokensOf, handed, Bool.false_eq_true, if_false, Message.carried, type, or_true, if_true] at bound tokens
  unfold onRootMessageReceived
  simp only [here, Bool.not_true, Bool.false_eq_true, if_false, type]
  cases entry : b.rootDirs root msg.address with
  | none =>
    simp only [entry, Option.elim_none, Nat.mul_zero] at bound
    omega
  | some line =>
    have ok := inv.roots root msg.address line entry
    simp only [entry, Option.elim_some] at bound
    have full : line.state = .full := by
      by_contra different
      rw [RootLine.inSystem, if_neg different] at bound
      omega
    simp only [RootLine.inSystem, full, if_true, Nat.mul_one] at bound
    simp only [require, full, decide_true, if_true, bound]
    by_cases left : msg.tokens + line.tokens < setup.caches
    · simp only [left, if_true]
      refine ⟨_, _, rfl, inv.settled none before here (by intros; contradiction) ?_ ?_ ?_ ?_ ?_ (fun _ => rfl) (by intros; contradiction)⟩
      · rintro _ ⟨⟩
        exact ⟨by simp, by simp⟩
      · simp [tokensOf, handed, Message.carried, type, entry, RootLine.inSystem, full]
      · intro id
        simp [Message.loadsOf, type]
      · intro id
        simp [Message.updatesOf, type]
      · intro id
        simp [askedBy, handed, entry, RootLine.askedBy, full]
    · simp only [left, if_false]
      have all : msg.tokens + line.tokens = setup.caches := by omega
      cases dirty : msg.dirty with
      | true =>
        refine ⟨_, _, rfl, inv.settled (some (.requests root, msg)) before here ?_ (by intros; contradiction) ?_ (fun _ => rfl)
          (fun _ => rfl) (fun id => ?_) (fun _ => rfl) ?_⟩
        · rintro _ ⟨⟩
          rfl
        · simp only [Option.elim_some, Option.elim_none, tokensOf, handed, heard, Message.carried, type, entry,
            RootLine.inSystem, full]
          simp [all]
        · simp [askedBy, handed, type, entry, RootLine.askedBy, full]
        · rintro _ ⟨⟩
          refine ⟨fun free => ?_, fun _ => ⟨here, Or.inr type⟩⟩
          rw [handed, heard] at free
          cases free
      | false =>
        refine ⟨_, _, rfl, inv.settled none before here (by intros; contradiction) (by intros; contradiction) ?_ ?_ ?_ ?_ (fun _ => rfl) (by intros; contradiction)⟩
        · simp only [Option.elim_some, Option.elim_none, tokensOf, handed, Message.carried, type, entry,
            RootLine.inSystem, full]
          simp [all]
        · intro id
          simp [Message.loadsOf, type]
        · intro id
          simp [Message.updatesOf, type]
        · intro id
          simp [askedBy, handed, entry, RootLine.askedBy, full]

theorem Conserved.incoming (inv : Conserved b) (root : Fin setup.roots)
    (before : b.flight = (.ring none, msg) ::ₘ rest) :
    Settles b root rest (onRootMessageReceived (State.isLocal setup root) (b.rootDirs root) msg) := by
  by_cases here : State.isLocal setup root msg.address = true
  · cases type : msg.type with
    | request =>
      unfold onRootMessageReceived
      simp only [here, Bool.not_true, Bool.false_eq_true, if_false, type]
      cases entry : b.rootDirs root msg.address with
      | none => exact inv.rootRequest before here type entry
      | some line => exact inv.passed before
    | requestData => exact inv.rootRequestData before here type
    | eviction => exact inv.rootEviction before here type
    | requestDataToken =>
      unfold onRootMessageReceived
      simp only [here, Bool.not_true, Bool.false_eq_true, if_false, type]
      exact inv.passed before
    | update =>
      unfold onRootMessageReceived
      simp only [here, Bool.not_true, Bool.false_eq_true, if_false, type]
      exact inv.passed before
  · unfold onRootMessageReceived
    rw [if_pos (by simp [here])]
    exact inv.passed before

/-- The answer of the memory brings a line into the system, with all tokens. -/
theorem Conserved.answered (inv : Conserved b) (before : b.flight = (.responses root, msg) ::ₘ rest) :
    ∃ dir answer, onMemoryResponse (b.rootDirs root) msg = .ok (dir, answer) ∧
      Conserved ((b.withRoot root dir).fly ((.ring none, answer) ::ₘ rest)) := by
  have sound := inv.sound_head before
  unfold onMemoryResponse
  by_cases ignored : msg.ignore = true
  · rw [if_pos ignored]
    refine ⟨_, _, rfl, ?_⟩
    rw [withRoot_self]
    have free : handed (.responses root) msg = false := by simp [handed, ignored]
    refine inv.carried (some (.ring none, { msg with ignore := false })) before ?_ ?_ (fun _ => rfl)
      (fun _ => rfl) (fun id => ?_) (fun _ => rfl) ?_
    · rintro _ ⟨⟩
      rfl
    · simp only [Option.elim_some, tokensOf, free]
      rfl
    · simp only [Option.elim_some, askedBy, free]
      rfl
    · rintro _ ⟨⟩
      exact ⟨fun _ => sound.tokens free, rfl⟩
  · have heard : msg.ignore = false := Bool.eq_false_iff.mpr ignored
    obtain ⟨here, type⟩ : State.isLocal setup root msg.address = true ∧ msg.type = .requestDataToken :=
      sound.placed heard
    have waits : 0 < (b.rootDirs root msg.address).elim 0 (RootLine.askedBy msg.sender) := by
      have asked := (inv.balanced msg.address).asked msg.sender
      have bound := le_onWay (w := askedBy msg.sender) before
      rw [inRoots_local (fun root => inv.roots root _) here] at asked
      rw [← asked]
      refine lt_of_lt_of_le ?_ bound
      simp [askedBy, handed, heard, type]
    cases entry : b.rootDirs root msg.address with
    | none =>
      rw [entry] at waits
      cases waits
    | some line =>
      have ok := inv.roots root msg.address line entry
      rw [entry, Option.elim_some, RootLine.askedBy] at waits
      obtain ⟨loading, sender⟩ : line.state = .loading ∧ line.sender = msg.sender := by
        by_contra different
        rw [if_neg different] at waits
        cases waits
      have noTokens := ok.loading loading
      simp only [heard, Bool.false_eq_true, if_false, require, loading, decide_true, if_true]
      refine ⟨_, _, rfl, inv.settled (some (.ring none, { msg with
        tokens := setup.caches, sender := line.sender, ignore := false })) before here ?_ ?_ ?_ ?_ ?_ (fun id => ?_)
        (fun _ => rfl) ?_⟩
      · rintro _ ⟨⟩
        rfl
      · rintro _ ⟨⟩
        exact ⟨(by simp), (by intros; contradiction)⟩
      · simp [tokensOf, handed, heard, Message.carried, type, entry, RootLine.inSystem, loading, noTokens]
      · intro id
        simp [Message.loadsOf, sender]
      · intro id
        simp [Message.updatesOf, sender]
      · simp [askedBy, handed, heard, type, entry, RootLine.askedBy, loading, sender]
      · rintro _ ⟨⟩
        exact ⟨fun _ _ => Fin.pos msg.sender, rfl⟩

end Root

end Books

end Mgsim.Cdma
