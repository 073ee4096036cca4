import Mgsim.Cdma.Books
import Mgsim.Cdma.Trades

namespace Mgsim.Cdma
open Mgsim.Lib
variable {setup : Setup}

/-- A root directory has given the message to its memory, or has the answer of
the memory. Messages that go the long way through the queues are not meant. -/
def handed : Where setup → setup.Message → Bool
  | .ring _, _ => false
  | .requests _, msg | .active _, msg | .responses _, msg => !msg.ignore

/-! What messages in flight weigh. -/

def tokensOf (x : Flying setup) : Nat := if handed x.1 x.2 then 0 else x.2.carried

/-- A read that the memory does for this cache. -/
def askedBy (id : Fin setup.caches) (x : Flying setup) : Nat :=
  if handed x.1 x.2 = true ∧ x.2.type ≠ .eviction ∧ x.2.sender = id then 1 else 0

/-- The tokens on the ring below a directory, which does not count ignored messages. -/
def tokensBelow (dir : Fin setup.directories) (x : Flying setup) : Nat :=
  if x.1 = .ring (some dir) then x.2.heard else 0

def RootLine.inSystem {caches : Nat} (line : RootLine caches) : Nat := if line.state = .full then 1 else 0

def RootLine.askedBy {caches : Nat} (id : Fin caches) (line : RootLine caches) : Nat :=
  if line.state = .loading ∧ line.sender = id then 1 else 0

namespace Books

def inCaches (b : Books setup) (address : Address) : Nat := account (fun _ => held Line.fullTokens address) b.lines

def inRing (b : Books setup) (dir : Fin setup.directories) (address : Address) : Nat :=
  account (fun id lines => if setup.isBelow dir id then held Line.fullTokens address lines else 0) b.lines

def onWay (b : Books setup) (w : Flying setup → Nat) (address : Address) : Nat :=
  weigh (fun x => if x.2.address = address then w x else 0) b.flight

def inRoots (b : Books setup) (w : RootLine setup.caches → Nat) (address : Address) : Nat :=
  account (fun _ dir => (dir address).elim 0 w) b.rootDirs

/-- The books of one address balance. -/
structure Balanced (b : Books setup) (address : Address) : Prop where
  tokens : b.inCaches address + b.onWay tokensOf address + b.inRoots RootLine.tokens address =
    setup.caches * b.inRoots RootLine.inSystem address
  loads : ∀ id, held Line.loads address (b.lines id) = b.onWay (fun x => x.2.loadsOf id) address
  updates : ∀ id, held Line.updating address (b.lines id) = b.onWay (fun x => x.2.updatesOf id) address
  asked : ∀ id, b.onWay (askedBy id) address = b.inRoots (RootLine.askedBy id) address
  below : ∀ dir, (b.dirs dir address).getD 0 = b.inRing dir address + b.onWay (tokensBelow dir) address

/-- What holds of a message by the place where it is. -/
def Placed : Where setup → setup.Message → Prop
  | .ring none, msg => msg.ignore = false
  | .ring (some dir), msg => msg.type = .eviction → msg.ignore = false → setup.isBelow dir msg.sender = true
  | .requests root, msg => msg.ignore = false →
    State.isLocal setup root msg.address = true ∧ (msg.type = .request ∨ msg.type = .eviction)
  | .active root, msg => msg.ignore = false ∧ State.isLocal setup root msg.address = true ∧ msg.type = .request
  | .responses root, msg => msg.ignore = false →
    State.isLocal setup root msg.address = true ∧ msg.type = .requestDataToken

structure Sound (x : Flying setup) : Prop where
  tokens : handed x.1 x.2 = false → x.2.type = .requestDataToken ∨ x.2.type = .eviction → 0 < x.2.tokens
  placed : Placed x.1 x.2

structure RootOk (root : Fin setup.roots) (address : Address) (line : RootLine setup.caches) : Prop where
  isLocal : State.isLocal setup root address = true
  nonempty : line.state ≠ .empty
  loading : line.state = .loading → line.tokens = 0

/-- The invariant: the books of all addresses balance, and what they count is sound. -/
structure Conserved (b : Books setup) : Prop where
  balanced : ∀ address, b.Balanced address
  lines : ∀ id, LinesOk (b.lines id)
  sound : ∀ x ∈ b.flight, Sound x
  roots : ∀ root address, ∀ line ∈ b.rootDirs root address, RootOk root address line
  dirs : ∀ dir address, b.dirs dir address ≠ some 0

/-- At most one message leaves the flight and at most one enters it, for one address. -/
structure Exchange (b b' : Books setup) (address : Address) (inp out : Option (Flying setup)) : Prop where
  flight : ∃ rest, b.flight = inp.elim rest (· ::ₘ rest) ∧ b'.flight = out.elim rest (· ::ₘ rest)
  inpHere : ∀ x ∈ inp, x.2.address = address
  outHere : ∀ x ∈ out, x.2.address = address

section Exchange
variable {b b' : Books setup} {address other : Address} {inp out : Option (Flying setup)} {w : Flying setup → Nat}

theorem weigh_optional {α : Type} {w : α → Nat} {x : Option α} {rest : Multiset α} :
    weigh w (x.elim rest (· ::ₘ rest)) = x.elim 0 w + weigh w rest := by
  cases x with
  | none => simp
  | some x => simp

theorem elim_here {x : Option (Flying setup)} (here : ∀ y ∈ x, y.2.address = address) :
    x.elim 0 (fun y => if y.2.address = other then w y else 0) = if address = other then x.elim 0 w else 0 := by
  cases x with
  | none => simp
  | some x => simp only [Option.elim_some, here x rfl]

theorem Exchange.here (exchange : Exchange b b' address inp out) :
    b'.onWay w address + inp.elim 0 w = b.onWay w address + out.elim 0 w := by
  obtain ⟨rest, before, after⟩ := exchange.flight
  rw [onWay, onWay, before, after, weigh_optional, weigh_optional, elim_here exchange.inpHere,
    elim_here exchange.outHere, if_pos rfl, if_pos rfl]
  omega

theorem Exchange.elsewhere (exchange : Exchange b b' address inp out) (different : other ≠ address) :
    b'.onWay w other = b.onWay w other := by
  obtain ⟨rest, before, after⟩ := exchange.flight
  rw [onWay, onWay, before, after, weigh_optional, weigh_optional, elim_here exchange.inpHere,
    elim_here exchange.outHere, if_neg (Ne.symm different), if_neg (Ne.symm different)]

theorem Exchange.sound (exchange : Exchange b b' address inp out) (old : ∀ x ∈ b.flight, Sound x)
    (new : ∀ x ∈ out, Sound x) : ∀ x ∈ b'.flight, Sound x := by
  obtain ⟨rest, before, after⟩ := exchange.flight
  have others : ∀ x ∈ rest, Sound x := by
    intro x member
    refine old x ?_
    rw [before]
    cases inp with
    | none => exact member
    | some y => exact Multiset.mem_cons_of_mem member
  intro x member
  rw [after] at member
  cases out with
  | none => exact others x member
  | some y =>
    rcases Multiset.mem_cons.mp member with rfl | later
    · exact new x rfl
    · exact others x later

end Exchange

/-! ### The books after a trade of a cache -/

section Trade
variable {b b' : Books setup} {id : Fin setup.caches} {address : Address} {lines : Lines setup.geometry}
  {inp out : Option setup.Message}

/-- A message on the ring of a cache. -/
def onRing (id : Fin setup.caches) (msg : setup.Message) : Flying setup := (.ring (setup.ring (.cache id)), msg)

/-- A cache changes its lines and exchanges a message on its ring for another. -/
structure Traded (b b' : Books setup) (id : Fin setup.caches) (address : Address) (lines : Lines setup.geometry)
    (inp out : Option setup.Message) : Prop where
  lines : b'.lines = Function.update b.lines id lines
  dirs : b'.dirs = b.dirs
  rootDirs : b'.rootDirs = b.rootDirs
  exchange : Exchange b b' address (inp.map (onRing id)) (out.map (onRing id))

theorem elim_onRing {w : Flying setup → Nat} {message : Option setup.Message} :
    (message.map (onRing id)).elim 0 w = message.elim 0 fun msg => w (onRing id msg) := by
  cases message with
  | none => rfl
  | some msg => rfl

theorem elim_zero (message : Option setup.Message) : message.elim 0 (fun _ => 0) = 0 := by
  cases message <;> rfl

theorem tokensBelow_onRing (dir : Fin setup.directories) (msg : setup.Message) :
    tokensBelow dir (onRing id msg) = if setup.isBelow dir id then msg.heard else 0 := by
  by_cases below : setup.isBelow dir id = true
  · have ring := (setup.isBelow_iff dir id).mp below
    simp [tokensBelow, onRing, ring, below]
  · have ring : setup.ring (.cache id) ≠ some dir := fun same => below ((setup.isBelow_iff dir id).mpr same)
    simp [tokensBelow, onRing, ring, below]

theorem sound_onRing (trades : Trades id address (b.lines id) lines inp out)
    (sound : ∀ msg ∈ inp, Sound (onRing id msg)) : ∀ msg ∈ out, Sound (onRing id msg) := by
  intro msg sent
  rcases trades.sent msg sent with old | ⟨_, heard, tokens, own⟩
  · exact sound msg old
  · refine ⟨fun _ => tokens, ?_⟩
    unfold onRing
    cases ring : setup.ring (.cache id) with
    | none => exact heard
    | some dir =>
      intro type _
      rw [own type]
      exact (setup.isBelow_iff dir id).mpr ring

/-- In the books of the address, the change of the lines makes up for the messages. -/
theorem Balanced.traded (old : b.Balanced address) (traded : Traded b b' id address lines inp out)
    (trades : Trades id address (b.lines id) lines inp out) : b'.Balanced address := by
  have way : ∀ w, b'.onWay w address + inp.elim 0 (fun msg => w (onRing id msg)) =
      b.onWay w address + out.elim 0 (fun msg => w (onRing id msg)) := by
    intro w
    have moved := traded.exchange.here (w := w)
    rwa [elim_onRing, elim_onRing] at moved
  -- loading lines and updating counts are booked per cache, in the same way
  have perCache : ∀ (w : Line → Nat) (weight : Fin setup.caches → setup.Message → Nat),
      (held w address lines + inp.elim 0 (weight id) = held w address (b.lines id) + out.elim 0 (weight id)) →
      (∀ other ≠ id, out.elim 0 (weight other) = inp.elim 0 (weight other)) →
      (∀ other, held w address (b.lines other) = b.onWay (fun x => weight other x.2) address) →
      ∀ other, held w address (b'.lines other) = b'.onWay (fun x => weight other x.2) address := by
    intro w weight own foreign balance other
    have moved : b'.onWay (fun x => weight other x.2) address + inp.elim 0 (weight other) =
      b.onWay (fun x => weight other x.2) address + out.elim 0 (weight other) := way _
    have before := balance other
    by_cases here : other = id
    · subst here
      rw [traded.lines, Function.update_self]
      omega
    · have same := foreign other here
      rw [traded.lines, Function.update_of_ne here]
      omega
  refine ⟨?_, perCache _ Message.loadsOf trades.loads (fun other different => (trades.foreign other different).1)
    old.loads, perCache _ Message.updatesOf trades.updates (fun other different => (trades.foreign other different).2)
    old.updates, fun other => ?_, fun dir => ?_⟩
  · have caches := account_update (fun _ => held Line.fullTokens address) b.lines id lines
    have moved : b'.onWay tokensOf address + inp.elim 0 Message.carried =
      b.onWay tokensOf address + out.elim 0 Message.carried := way tokensOf
    have tokens := trades.tokens
    have balance := old.tokens
    simp only [inCaches, inRoots, traded.lines, traded.rootDirs] at balance ⊢
    omega
  · have moved : b'.onWay (askedBy other) address + inp.elim 0 (fun _ => 0) =
      b.onWay (askedBy other) address + out.elim 0 (fun _ => 0) := way (askedBy other)
    rw [elim_zero, elim_zero] at moved
    rw [inRoots, traded.rootDirs]
    exact moved.trans (old.asked other)
  · have caches := account_update
      (fun id lines => if setup.isBelow dir id then held Line.fullTokens address lines else 0) b.lines id lines
    have moved := way (tokensBelow dir)
    simp only [tokensBelow_onRing] at moved
    have heard := trades.heard
    have balance := old.below dir
    simp only [inRing, traded.lines, traded.dirs] at balance ⊢
    cases below : setup.isBelow dir id with
    | true =>
      rw [below] at moved
      have moved : b'.onWay (tokensBelow dir) address + inp.elim 0 Message.heard =
        b.onWay (tokensBelow dir) address + out.elim 0 Message.heard := moved
      simp only [below, if_true] at caches
      omega
    | false =>
      simp only [below, Bool.false_eq_true, if_false, elim_zero] at caches moved
      omega

/-- In the books of another address nothing moves, when only entries of this one change. -/
theorem Balanced.elsewhere {inp out : Option (Flying setup)} {other : Address} (old : b.Balanced other)
    (different : other ≠ address) (exchange : Exchange b b' address inp out)
    (lines : ∀ w id, held w other (b'.lines id) = held w other (b.lines id))
    (dirs : ∀ dir, b'.dirs dir other = b.dirs dir other)
    (rootDirs : ∀ root, b'.rootDirs root other = b.rootDirs root other) : b'.Balanced other := by
  have caches : b'.inCaches other = b.inCaches other := account_congr fun id => lines Line.fullTokens id
  have roots : ∀ w, b'.inRoots w other = b.inRoots w other := fun w =>
    account_congr fun root => by rw [rootDirs root]
  have rings : ∀ dir, b'.inRing dir other = b.inRing dir other := fun dir =>
    account_congr fun id => by rw [lines]
  refine ⟨?_, fun id => ?_, fun id => ?_, fun id => ?_, fun dir => ?_⟩
  · rw [caches, exchange.elsewhere different, roots, roots]
    exact old.tokens
  · rw [lines, exchange.elsewhere different]
    exact old.loads id
  · rw [lines, exchange.elsewhere different]
    exact old.updates id
  · rw [exchange.elsewhere different, roots]
    exact old.asked id
  · rw [dirs, rings, exchange.elsewhere different]
    exact old.below dir

theorem Conserved.traded (inv : Conserved b) (traded : Traded b b' id address lines inp out)
    (trades : Trades id address (b.lines id) lines inp out) (sound : ∀ msg ∈ inp, Sound (onRing id msg)) :
    Conserved b' := by
  have lineOf : ∀ other, b'.lines other = if other = id then lines else b.lines other := fun other => by
    rw [traded.lines, Function.update_apply]
  refine ⟨fun other => ?_, fun other => ?_, ?_, ?_, ?_⟩
  · by_cases here : other = address
    · subst here
      exact (inv.balanced other).traded traded trades
    · refine (inv.balanced other).elsewhere here traded.exchange (fun w who => ?_) (fun dir => ?_) fun root => ?_
      · rw [lineOf]
        split
        · rename_i same
          subst same
          exact trades.others w other here
        · rfl
      · rw [traded.dirs]
      · rw [traded.rootDirs]
  · rw [lineOf]
    split
    · exact trades.ok
    · exact inv.lines other
  · refine traded.exchange.sound inv.sound fun x member => ?_
    obtain ⟨msg, here, rfl⟩ := Option.map_eq_some_iff.mp member
    exact sound_onRing trades sound msg here
  · rw [traded.rootDirs]
    exact inv.roots
  · rw [traded.dirs]
    exact inv.dirs

end Trade

/-! ### The books after a message has moved between directories -/

section Move
variable {b b' : Books setup} {address : Address} {x : Flying setup} {out : Option (Flying setup)}

/-- A directory or root directory takes a message, and changes its entry for
the address. The entry makes up for what the message weighs at its new place. -/
structure Moved (b b' : Books setup) (address : Address) (x : Flying setup) (out : Option (Flying setup)) : Prop where
  lines : b'.lines = b.lines
  dirsElsewhere : ∀ dir, ∀ other ≠ address, b'.dirs dir other = b.dirs dir other
  rootsElsewhere : ∀ root, ∀ other ≠ address, b'.rootDirs root other = b.rootDirs root other
  exchange : Exchange b b' address (some x) out
  tokens : out.elim 0 tokensOf + b'.inRoots RootLine.tokens address +
      setup.caches * b.inRoots RootLine.inSystem address =
    tokensOf x + b.inRoots RootLine.tokens address + setup.caches * b'.inRoots RootLine.inSystem address
  loads : ∀ id, out.elim 0 (fun y => y.2.loadsOf id) = x.2.loadsOf id
  updates : ∀ id, out.elim 0 (fun y => y.2.updatesOf id) = x.2.updatesOf id
  asked : ∀ id, out.elim 0 (askedBy id) + b.inRoots (RootLine.askedBy id) address =
    askedBy id x + b'.inRoots (RootLine.askedBy id) address
  below : ∀ dir, (b'.dirs dir address).getD 0 + tokensBelow dir x =
    (b.dirs dir address).getD 0 + out.elim 0 (tokensBelow dir)
  sound : ∀ y ∈ out, Sound y
  roots : ∀ root, ∀ line ∈ b'.rootDirs root address, RootOk root address line
  dirs : ∀ dir, b'.dirs dir address ≠ some 0

theorem Conserved.moved (inv : Conserved b) (moved : Moved b b' address x out) : Conserved b' := by
  have way : ∀ w, b'.onWay w address + w x = b.onWay w address + out.elim 0 w := fun w => moved.exchange.here
  refine ⟨fun other => ?_, ?_, moved.exchange.sound inv.sound moved.sound, fun root other line entry => ?_,
    fun dir other => ?_⟩
  · by_cases here : other = address
    · subst here
      have old := inv.balanced other
      refine ⟨?_, fun id => ?_, fun id => ?_, fun id => ?_, fun dir => ?_⟩
      · have tokens := way tokensOf
        have balance := old.tokens
        have change := moved.tokens
        rw [inCaches, moved.lines]
        rw [inCaches] at balance
        omega
      · have loads := way fun y => y.2.loadsOf id
        have same := moved.loads id
        have balance := old.loads id
        rw [moved.lines]
        omega
      · have updates := way fun y => y.2.updatesOf id
        have same := moved.updates id
        have balance := old.updates id
        rw [moved.lines]
        omega
      · have asked := way (askedBy id)
        have change := moved.asked id
        have balance := old.asked id
        omega
      · have below := way (tokensBelow dir)
        have change := moved.below dir
        have balance := old.below dir
        rw [inRing, moved.lines]
        rw [inRing] at balance
        omega
    · refine (inv.balanced other).elsewhere here moved.exchange (fun w id => ?_) (fun dir => ?_) fun root => ?_
      · rw [moved.lines]
      · exact moved.dirsElsewhere dir other here
      · exact moved.rootsElsewhere root other here
  · rw [moved.lines]
    exact inv.lines
  · by_cases here : other = address
    · subst here
      exact moved.roots root line entry
    · rw [moved.rootsElsewhere root other here] at entry
      exact inv.roots root other line entry
  · by_cases here : other = address
    · subst here
      exact moved.dirs dir
    · rw [moved.dirsElsewhere dir other here]
      exact inv.dirs dir other

/-- A message goes on, or is gone, without any change of a directory. -/
theorem Conserved.carried {rest : Multiset (Flying setup)} (inv : Conserved b) (out : Option (Flying setup))
    (before : b.flight = x ::ₘ rest)
    (outHere : ∀ y ∈ out, y.2.address = x.2.address) (tokens : out.elim 0 tokensOf = tokensOf x)
    (loads : ∀ id, out.elim 0 (fun y => y.2.loadsOf id) = x.2.loadsOf id)
    (updates : ∀ id, out.elim 0 (fun y => y.2.updatesOf id) = x.2.updatesOf id)
    (asked : ∀ id, out.elim 0 (askedBy id) = askedBy id x)
    (below : ∀ dir, out.elim 0 (tokensBelow dir) = tokensBelow dir x) (sound : ∀ y ∈ out, Sound y) :
    Conserved (b.fly (out.elim rest (· ::ₘ rest))) := by
  have exchange : Exchange b (b.fly (out.elim rest (· ::ₘ rest))) x.2.address (some x) out := by
    refine ⟨⟨rest, before, rfl⟩, ?_, outHere⟩
    rintro _ ⟨⟩
    rfl
  refine inv.moved ⟨rfl, fun _ _ _ => rfl, fun _ _ _ => rfl, exchange, ?_, loads, updates, ?_, ?_, sound,
    fun root line => inv.roots root _ line, fun dir => inv.dirs dir _⟩
  · rw [tokens]
    rfl
  · intro id
    rw [asked]
    rfl
  · intro dir
    rw [below]
    rfl

/-- A message that could take the shortcut goes the long way instead. -/
theorem Conserved.longWay {msg : setup.Message} {rest : Multiset (Flying setup)} {location : Where setup}
    (inv : Conserved (b.fly ((.ring none, msg) ::ₘ rest)))
    (queue : Placed location { msg with ignore := true } ∧ handed location { msg with ignore := true } = false) :
    Conserved (b.fly ((location, { msg with ignore := true }) ::ₘ rest)) := by
  have sound := inv.sound (.ring none, msg) (Multiset.mem_cons_self _ _)
  refine inv.carried (some (location, { msg with ignore := true })) rfl ?_ ?_
    (fun _ => rfl) (fun _ => rfl) (fun id => ?_) (fun dir => ?_) ?_
  · rintro _ ⟨⟩
    rfl
  · simp only [Option.elim_some, tokensOf, queue.2]
    rfl
  · simp only [Option.elim_some, askedBy, queue.2]
    rfl
  · simp [tokensBelow, Message.heard]
  · rintro _ ⟨⟩
    exact ⟨fun _ => sound.tokens rfl, queue.1⟩

/-- The root directory of an address has its only entry. -/
theorem inRoots_local {w : RootLine setup.caches → Nat} {root : Fin setup.roots}
    (roots : ∀ root, ∀ line ∈ b.rootDirs root address, RootOk root address line)
    (here : State.isLocal setup root address = true) : b.inRoots w address = (b.rootDirs root address).elim 0 w := by
  refine account_of_only (f := fun _ (dir : RootDir setup.caches) => (dir address).elim 0 w) root fun other different => ?_
  cases entry : b.rootDirs other address with
  | none => rfl
  | some line =>
    have there := (roots other line entry).isLocal
    rw [State.isLocal, decide_eq_true_eq] at here there
    exact absurd (Fin.ext (there.symm.trans here)) different

/-- A root directory changes its entry for an address of its own. -/
theorem Conserved.settled {root : Fin setup.roots} {entry : Option (RootLine setup.caches)}
    {rest : Multiset (Flying setup)} (inv : Conserved b) (out : Option (Flying setup)) (before : b.flight = x ::ₘ rest)
    (here : State.isLocal setup root x.2.address = true) (outHere : ∀ y ∈ out, y.2.address = x.2.address)
    (ok : ∀ line ∈ entry, line.state ≠ .empty ∧ (line.state = .loading → line.tokens = 0))
    (tokens : out.elim 0 tokensOf + entry.elim 0 RootLine.tokens +
        setup.caches * (b.rootDirs root x.2.address).elim 0 RootLine.inSystem =
      tokensOf x + (b.rootDirs root x.2.address).elim 0 RootLine.tokens +
        setup.caches * entry.elim 0 RootLine.inSystem)
    (loads : ∀ id, out.elim 0 (fun y => y.2.loadsOf id) = x.2.loadsOf id)
    (updates : ∀ id, out.elim 0 (fun y => y.2.updatesOf id) = x.2.updatesOf id)
    (asked : ∀ id, out.elim 0 (askedBy id) + (b.rootDirs root x.2.address).elim 0 (RootLine.askedBy id) =
      askedBy id x + entry.elim 0 (RootLine.askedBy id))
    (below : ∀ dir, out.elim 0 (tokensBelow dir) = tokensBelow dir x) (sound : ∀ y ∈ out, Sound y) :
    Conserved ((b.withRoot root (Function.update (b.rootDirs root) x.2.address entry)).fly
      (out.elim rest (· ::ₘ rest))) := by
  have roots : ∀ other, ∀ line ∈ Function.update b.rootDirs root
      (Function.update (b.rootDirs root) x.2.address entry) other x.2.address, RootOk other x.2.address line := by
    intro other line isEntry
    by_cases same : other = root
    · subst same
      rw [Function.update_self, Function.update_self] at isEntry
      exact ⟨here, (ok line isEntry).1, (ok line isEntry).2⟩
    · rw [Function.update_of_ne same] at isEntry
      exact inv.roots other _ line isEntry
  have old : ∀ w, b.inRoots w x.2.address = (b.rootDirs root x.2.address).elim 0 w := fun w =>
    inRoots_local (fun root => inv.roots root _) here
  have new : ∀ w, ((b.withRoot root (Function.update (b.rootDirs root) x.2.address entry)).fly
      (out.elim rest (· ::ₘ rest))).inRoots w x.2.address = entry.elim 0 w := by
    intro w
    rw [inRoots_local roots here]
    simp only [fly, withRoot, Function.update_self]
  have exchange : Exchange b ((b.withRoot root (Function.update (b.rootDirs root) x.2.address entry)).fly
      (out.elim rest (· ::ₘ rest))) x.2.address (some x) out := by
    refine ⟨⟨rest, before, rfl⟩, ?_, outHere⟩
    rintro _ ⟨⟩
    rfl
  refine inv.moved ⟨rfl, fun _ _ _ => rfl, fun other address different => ?_, exchange, ?_, loads, updates,
    fun id => ?_, fun dir => ?_, sound, roots, fun dir => inv.dirs dir _⟩
  · simp only [fly, withRoot]
    by_cases same : other = root
    · subst same
      rw [Function.update_self, Function.update_of_ne different]
    · rw [Function.update_of_ne same]
  · rw [old, old, new, new]
    exact tokens
  · rw [old, new]
    exact asked id
  · rw [below]
    rfl

end Move

end Books

end Mgsim.Cdma
