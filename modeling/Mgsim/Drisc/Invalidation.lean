import Mgsim.Drisc.LineProtocol

namespace Mgsim.Drisc
open Mgsim.Lib Mgsim.Mmu

/-- The state of a line that a fetch can hit. -/
def LineState.Usable (state : LineState) : Prop := state = .loading ∨ state = .full

namespace ICache
variable {TID : Type} {c c' : ICache TID} {number : Addr} {cid : Nat} {line : Line TID}

theorem mem_setLines {setIndex : Nat} (positive : 0 < c.assoc) : cid ∈ c.setLines setIndex ↔ cid / c.assoc = setIndex := by
  simp only [setLines, List.mem_map, List.mem_range]
  constructor
  · rintro ⟨i, inside, rfl⟩
    rw [Nat.mul_comm, Nat.mul_add_div positive, Nat.div_eq_of_lt inside, Nat.add_zero]
  · rintro rfl
    exact ⟨cid % c.assoc, Nat.mod_lt _ positive, Nat.div_add_mod' cid c.assoc⟩

/-- The line stands for a line number of the memory. -/
def Tagged (c : ICache TID) (number : Addr) (cid : Nat) : Prop :=
  cid ∈ c.setLines (c.selector.map number).2 ∧ (c.lines cid).state ≠ .empty ∧ (c.lines cid).tag = (c.selector.map number).1

/-- A search that finds no line of the tag has met none. -/
theorem findLineFrom_absent {tag : Addr} {cids : List Nat} {empty replace : Option Nat}
    (missed : ∀ cid, c.findLineFrom tag cids empty replace ≠ .hit cid) (member : cid ∈ cids)
    (used : (c.lines cid).state ≠ .empty) : (c.lines cid).tag ≠ tag := by
  induction cids generalizing empty replace with
  | nil => cases member
  | cons first rest ih =>
    rw [findLineFrom] at missed
    split_ifs at missed with unused own free
    · rcases List.mem_cons.mp member with rfl | later
      · exact absurd unused used
      · exact ih missed later
    · exact absurd rfl (missed first)
    · rcases List.mem_cons.mp member with rfl | later
      · exact own
      · exact ih missed later
    · rcases List.mem_cons.mp member with rfl | later
      · exact own
      · exact ih missed later

theorem not_tagged {address : Addr} (missed : ∀ cid, c.findLine address ≠ .hit cid) :
    ¬ c.Tagged (c.lineNumber address) cid := by
  rintro ⟨member, used, tag⟩
  exact findLineFrom_absent missed member used tag

theorem tagged_of_hit {address : Addr} (found : c.findLine address = .hit cid) : c.Tagged (c.lineNumber address) cid :=
  findLine_hit found

/-- No line is allocated, and no line becomes usable. -/
structure Subsides (c c' : ICache TID) : Prop where
  assoc : c'.assoc = c.assoc
  selector : c'.selector = c.selector
  lineSize : c'.lineSize = c.lineSize
  lines : ∀ cid, (c'.lines cid).tag = (c.lines cid).tag ∧ ((c'.lines cid).state ≠ .empty → (c.lines cid).state ≠ .empty) ∧
    ((c'.lines cid).state.Usable → (c.lines cid).state.Usable)

theorem Subsides.refl (c : ICache TID) : c.Subsides c := ⟨rfl, rfl, rfl, fun _ => ⟨rfl, id, id⟩⟩

theorem Subsides.tagged (subsides : c.Subsides c') (tagged : c'.Tagged number cid) : c.Tagged number cid := by
  obtain ⟨member, used, tag⟩ := tagged
  rw [setLines, subsides.assoc, subsides.selector] at member
  rw [subsides.selector, (subsides.lines cid).1] at tag
  exact ⟨member, (subsides.lines cid).2.1 used, tag⟩

theorem subsides_setLine (tag : line.tag = (c.lines cid).tag)
    (used : line.state ≠ .empty → (c.lines cid).state ≠ .empty) (usable : line.state.Usable → (c.lines cid).state.Usable) :
    c.Subsides (c.setLine cid line) := by
  refine ⟨rfl, rfl, rfl, fun other => ?_⟩
  rw [setLine_lines]
  by_cases own : other = cid
  · subst own
    rw [Function.update_self]
    exact ⟨tag, used, usable⟩
  · rw [Function.update_of_ne own]
    exact ⟨rfl, id, id⟩

/-- The lines that can be hit were requested after their last invalidation. -/
structure Fresh (c : ICache TID) (requested : Nat → Nat) (invalidated : Addr → Nat) (time : Nat) : Prop where
  positive : 0 < c.assoc
  lineSize : 0 < c.lineSize ∧ c.lineSize < 2 ^ 64
  clock : ∀ number, invalidated number < time
  unique : ∀ number first second, c.Tagged number first → c.Tagged number second → first = second
  fresh : ∀ number cid, c.Tagged number cid → (c.lines cid).state.Usable → invalidated number < requested cid

section Fresh
variable {requested : Nat → Nat} {invalidated : Addr → Nat} {time : Nat} {address : Addr}

theorem Fresh.subsides (kept : c.Fresh requested invalidated time) (subsides : c.Subsides c') :
    c'.Fresh requested invalidated time where
  positive := by
    rw [subsides.assoc]
    exact kept.positive
  lineSize := by
    rw [subsides.lineSize]
    exact kept.lineSize
  clock := kept.clock
  unique := fun number first second one two =>
    kept.unique number first second (subsides.tagged one) (subsides.tagged two)
  fresh := fun number cid tagged usable =>
    kept.fresh number cid (subsides.tagged tagged) ((subsides.lines cid).2.2 usable)

theorem Fresh.later (kept : c.Fresh requested invalidated time) : c.Fresh requested invalidated (time + 1) :=
  ⟨kept.positive, kept.lineSize, fun number => Nat.lt_succ_of_lt (kept.clock number), kept.unique, kept.fresh⟩

/-- A line is allocated and requested. -/
theorem Fresh.request (kept : c.Fresh requested invalidated time) {cycleNo : Nat} {tid : Option TID}
    (found : c.findLine address = .allocate cid) :
    (c.request address cid cycleNo tid).Fresh (Function.update requested cid time) invalidated time := by
  have missed : ∀ other, ¬ c.Tagged (c.lineNumber address) other := fun other =>
    not_tagged fun hit equation => nomatch found.symm.trans equation
  have lines : (c.request address cid cycleNo tid).lines =
      Function.update c.lines cid (c.requestedLine address cid cycleNo tid) := rfl
  have old : ∀ {number other}, other ≠ cid → (c.request address cid cycleNo tid).Tagged number other →
      c.Tagged number other := by
    intro number other different tagged
    rw [Tagged, lines, Function.update_of_ne different] at tagged
    exact tagged
  -- An address with the tag of the new line has no other line in its set.
  have alone : ∀ {number other}, (c.request address cid cycleNo tid).Tagged number cid → ¬ c.Tagged number other := by
    intro number other tagged before
    rw [Tagged, lines, Function.update_self] at tagged
    refine missed other ⟨?_, before.2.1, before.2.2.trans tagged.2.2.symm⟩
    have member := (mem_setLines kept.positive).mp (findLine_allocate found).1
    have member' : cid / c.assoc = (c.selector.map number).2 := (mem_setLines kept.positive).mp tagged.1
    rw [← member, member']
    exact before.1
  refine ⟨kept.positive, kept.lineSize, kept.clock, fun number first second one two => ?_, fun number other tagged usable => ?_⟩
  · by_cases atFirst : first = cid
    · by_contra different
      subst atFirst
      exact alone one (old (Ne.symm different) two)
    · by_cases atSecond : second = cid
      · subst atSecond
        exact absurd (old atFirst one) (alone two)
      · exact kept.unique number first second (old atFirst one) (old atSecond two)
  · by_cases own : other = cid
    · subst own
      rw [Function.update_self]
      exact kept.clock number
    · rw [lines, Function.update_of_ne own] at usable
      rw [Function.update_of_ne own]
      exact kept.fresh number other (old own tagged) usable

/-- A fetch that does not fail keeps the lines fresh. -/
theorem Fresh.fetch (kept : c.Fresh requested invalidated time) {cycleNo : Nat} {tid : Option TID} {fetched : Fetched TID}
    (fetches : c.Fetches address cycleNo tid fetched) (granted : fetched.result ≠ .failed) :
    fetched.cache.Fresh
      ((c.allocated? address).elim requested fun cid => Function.update requested cid time) invalidated time := by
  have none_of_hit : ∀ {own}, c.findLine (c.align address) = .hit own → c.allocated? address = none := by
    intro own found
    simp only [allocated?, found]
  cases fetches with
  | failed => exact absurd rfl granted
  | @full _ own found state =>
    rw [none_of_hit found]
    refine kept.subsides (subsides_setLine rfl id id)
  | @joined _ own found state =>
    rw [none_of_hit found]
    refine kept.subsides (subsides_setLine rfl id id)
  | @awaited own found state =>
    rw [none_of_hit found]
    refine kept.subsides (subsides_setLine rfl id id)
  | @requested _ own found room =>
    rw [allocated?_eq_some.mpr ⟨found, room⟩]
    exact kept.request found

theorem onMemoryInvalidated_subsides (c : ICache TID) (address : Addr) : c.Subsides (c.onMemoryInvalidated address) := by
  rcases c.onMemoryInvalidated_spec address with same | ⟨cid, state, found, changed, cases⟩
  · rw [same]
    exact .refl c
  · rw [changed]
    refine subsides_setLine rfl (fun _ => (findLine_hit found).2.1) fun usable => ?_
    rcases cases with ⟨_, _, rfl⟩ | rfl <;> rcases usable with impossible | impossible <;> cases impossible

/-- No line of the address can be hit after its invalidation. -/
theorem Fresh.unusable (kept : c.Fresh requested invalidated time)
    (tagged : (c.onMemoryInvalidated address).Tagged (c.lineNumber address) cid) :
    ¬ ((c.onMemoryInvalidated address).lines cid).state.Usable := by
  have before := (c.onMemoryInvalidated_subsides address).tagged tagged
  unfold onMemoryInvalidated
  split
  · rename_i none
    refine absurd before (not_tagged fun hit found => ?_)
    rw [hit?, found] at none
    cases none
  · rename_i own found
    obtain rfl : own = cid := kept.unique _ _ _ (tagged_of_hit (hit?_eq found)) before
    split
    · rw [setLine_lines, Function.update_self]
      split_ifs <;> rintro (impossible | impossible) <;> cases impossible
    · rw [setLine_lines, Function.update_self]
      rintro (impossible | impossible) <;> cases impossible
    · rename_i notFull notLoading
      exact fun usable => usable.elim notLoading notFull

theorem Fresh.invalidate (kept : c.Fresh requested invalidated time) (address : Addr) :
    (c.onMemoryInvalidated address).Fresh requested
      (Function.update invalidated (c.lineNumber address) time) (time + 1) := by
  have after := (kept.subsides (c.onMemoryInvalidated_subsides address)).later
  refine ⟨after.positive, after.lineSize, fun number => ?_, after.unique, fun number cid tagged usable => ?_⟩
  · by_cases own : number = c.lineNumber address
    · subst own
      rw [Function.update_self]
      exact Nat.lt_succ_self time
    · rw [Function.update_of_ne own]
      exact after.clock number
  · have other : number ≠ c.lineNumber address := by
      rintro rfl
      exact kept.unusable tagged usable
    rw [Function.update_of_ne other]
    exact after.fresh number cid tagged usable

theorem onMemoryReadCompleted_subsides (c : ICache TID) (address : Addr) (data : Nat → Byte) :
    c.Subsides (c.onMemoryReadCompleted address data).2 := by
  rcases c.onMemoryReadCompleted_spec address data with same | ⟨cid, _, _, changed⟩
  · rw [same]
    exact .refl c
  · rw [changed]
    have subsides : c.Subsides (c.setLine cid { c.lines cid with data }) := subsides_setLine rfl id id
    exact ⟨rfl, rfl, rfl, subsides.lines⟩

theorem onMemorySnooped_subsides (c : ICache TID) (address : Addr) (data : Nat → Byte) (mask : Nat → Bool) :
    c.Subsides (c.onMemorySnooped address data mask) := by
  unfold onMemorySnooped
  split
  · exact .refl c
  · exact subsides_setLine rfl id id

theorem releaseCacheLine_subsides (done : c.releaseCacheLine cid = some c') : c.Subsides c' := by
  obtain ⟨line, rfl, _, _, _, tag, state⟩ := releaseCacheLine_spec done
  rcases state with ⟨invalid, empty, _⟩ | same
  · refine subsides_setLine tag (fun used => absurd empty used) fun usable => ?_
    rw [empty] at usable
    rcases usable with impossible | impossible <;> cases impossible
  · exact subsides_setLine tag (same ▸ id) (same ▸ id)

/-- A line that is filled is subsiding when it could be hit before. -/
theorem fill_subsides (usable : (c.lines cid).state.Usable) (rest : List Nat) :
    c.Subsides { c.fill cid with incoming := rest } := by
  have subsides : c.Subsides (c.fill cid) := by
    refine subsides_setLine ?_ (fun _ => ?_) fun _ => usable
    · split_ifs <;> rfl
    · rcases usable with state | state <;> rw [state] <;> decide
  exact ⟨rfl, rfl, rfl, subsides.lines⟩

theorem lineNumber_align (positive : 0 < c.lineSize) (bound : c.lineSize < 2 ^ 64) (address : Addr) :
    c.lineNumber (c.align address) = c.lineNumber address := by
  have inside := address.isLt
  have offset := Nat.mod_le address.toNat c.lineSize
  have small : address.toNat % c.lineSize < 2 ^ 64 := offset.trans_lt inside
  have aligned : (c.align address).toNat = address.toNat - address.toNat % c.lineSize := by
    rw [align, BitVec.toNat_sub_of_le]
    · rw [BitVec.toNat_ofNat, Nat.mod_eq_of_lt small]
    · rw [BitVec.le_def, BitVec.toNat_ofNat, Nat.mod_eq_of_lt small]
      exact offset
  apply BitVec.eq_of_toNat_eq
  rw [lineNumber, lineNumber, BitVec.toNat_udiv, BitVec.toNat_udiv, aligned, BitVec.toNat_ofNat, Nat.mod_eq_of_lt bound]
  have whole := Nat.div_add_mod address.toNat c.lineSize
  rw [show address.toNat - address.toNat % c.lineSize = c.lineSize * (address.toNat / c.lineSize) by omega,
    Nat.mul_div_cancel_left _ positive]

end Fresh

end ICache

namespace FetchSystem
variable {TID : Type} [Fintype TID] [DecidableEq TID] {s s' : FetchSystem TID}

omit [Fintype TID] [DecidableEq TID] in
/-- A fetch that hits a line, hits one that was requested after the last
invalidation of its address. -/
def Effective (s : FetchSystem TID) : Prop :=
  ∀ address size cycleNo tid fetched, s.cache.fetch address size cycleNo tid = some fetched → fetched.result ≠ .failed →
    s.cache.hit? (s.cache.align address) = some fetched.cid →
    s.invalidated (s.cache.lineNumber address) < s.requested fetched.cid

omit [Fintype TID] [DecidableEq TID] in
/-- No line is filled that was invalidated after its request. -/
def KeepsInvalid (s : FetchSystem TID) (e : FetchEvent TID) : Prop :=
  ∀ cid, s.filled? e = some cid → (s.cache.lines cid).state.Usable

omit [Fintype TID] [DecidableEq TID] in
def Fresh (s : FetchSystem TID) : Prop := s.cache.Fresh s.requested s.invalidated s.time

theorem Fresh.event (kept : s.Fresh) {e : FetchEvent TID} (valid : s.KeepsInvalid e) (taken : s.event e = some s') :
    s'.cache.Fresh s'.requested s'.invalidated (s.time + 1) := by
  cases e with
  | activate tid address =>
    obtain ⟨fetched, done, rfl⟩ := Option.map_eq_some_iff.mp taken
    have granted := (ICache.Fresh.fetch kept (ICache.fetch_spec done) ·)
    cases result : fetched.result with
    | failed => exact kept.later
    | _ => exact (granted (by rw [result]; decide)).later
  | create address =>
    obtain ⟨fetched, done, rfl⟩ := Option.map_eq_some_iff.mp taken
    have granted := (ICache.Fresh.fetch kept (ICache.fetch_spec done) ·)
    cases result : fetched.result with
    | failed => exact kept.later
    | _ => exact (granted (by rw [result]; decide)).later
  | created =>
    simp only [FetchSystem.event] at taken
    unfold FetchSystem.created at taken
    split at taken
    · obtain ⟨cache, done, rfl⟩ := Option.map_eq_some_iff.mp taken
      exact (kept.subsides (ICache.releaseCacheLine_subsides done)).later
    · cases taken
  | release tid =>
    obtain ⟨cache, done, rfl⟩ := Option.map_eq_some_iff.mp taken
    exact (kept.subsides (ICache.releaseCacheLine_subsides done)).later
  | readCompleted address data =>
    cases taken
    exact (kept.subsides (s.cache.onMemoryReadCompleted_subsides address data)).later
  | snooped address data mask =>
    cases taken
    exact (kept.subsides (s.cache.onMemorySnooped_subsides address data mask)).later
  | invalidated address =>
    cases taken
    exact kept.invalidate address
  | outgoing =>
    simp only [FetchSystem.event] at taken
    split at taken
    · cases taken
    · rename_i rest _
      cases taken
      have drained : s.cache.Subsides { s.cache with outgoing := rest } := ⟨rfl, rfl, rfl, (ICache.Subsides.refl s.cache).lines⟩
      exact (kept.subsides drained).later
  | incoming =>
    simp only [FetchSystem.event] at taken
    unfold FetchSystem.incoming at taken
    split at taken
    · cases taken
    · rename_i own rest pending
      cases taken
      have usable := valid own (by rw [filled?, pending, List.head?_cons])
      exact (kept.subsides (ICache.fill_subsides usable rest)).later
  | tick =>
    cases taken
    exact kept.later

omit [Fintype TID] [DecidableEq TID] in
theorem fresh_initial {cache : ICache TID} {assoc sets lineSize : Nat} {selector : BankSelector}
    {outgoingSize incomingSize : Option Nat} (bound : lineSize < 2 ^ 64)
    (made : ICache.create assoc sets lineSize selector outgoingSize incomingSize = .ok cache) : (initial cache).Fresh := by
  unfold ICache.create at made
  split_ifs at made with noAssoc oddSets oddLine small
  cases made
  have positive : assoc ≠ 0 := fun zero => noAssoc (.inl zero)
  have none : ∀ number cid, ¬ ICache.Tagged (⟨assoc, lineSize, selector, fun _ => ICache.Line.initial, [], outgoingSize, [],
      incomingSize⟩ : ICache TID) number cid := fun number cid tagged => tagged.2.1 rfl
  refine ⟨Nat.pos_of_ne_zero positive, ⟨?_, bound⟩, fun number => Nat.one_pos, ?_, ?_⟩
  · change 0 < lineSize
    omega
  · exact fun number first second tagged => absurd tagged (none number first)
  · exact fun number cid tagged => absurd tagged (none number cid)

omit [Fintype TID] [DecidableEq TID] in
theorem Fresh.effective (kept : s.Fresh) : s.Effective := by
  intro address size cycleNo tid fetched done granted hit
  have found := ICache.hit?_eq hit
  have tagged := ICache.tagged_of_hit found
  rw [ICache.lineNumber_align kept.lineSize.1 kept.lineSize.2] at tagged
  refine kept.fresh _ _ tagged ?_
  cases ICache.fetch_spec done with
  | failed => exact absurd rfl granted
  | full _ _ state => exact .inr state
  | joined _ _ state => exact .inl state
  | awaited _ state => exact .inl state
  | requested _ allocated _ => exact nomatch found.symm.trans allocated

/-- In a run that fills no invalidated line, no fetch hits a line that was
requested before the last invalidation of its address. -/
theorem invalidation_effective {cache : ICache TID} {assoc sets lineSize : Nat} {selector : BankSelector}
    {outgoingSize incomingSize : Option Nat} {events : List (FetchEvent TID)} (bound : lineSize < 2 ^ 64)
    (made : ICache.create assoc sets lineSize selector outgoingSize incomingSize = .ok cache)
    (run : Run step (fun s e => s.MayHappen e ∧ s.KeepsInvalid e) (initial cache) events s) : s.Effective := by
  have kept : s.Fresh := by
    refine run.invariant (I := Fresh) (fresh_initial bound made) fun s e s' kept allowed taken => ?_
    obtain ⟨after, done, rfl⟩ := Option.map_eq_some_iff.mp taken
    have fresh : after.cache.Fresh after.requested after.invalidated (s.time + 1) := kept.event allowed.2 done
    exact fresh
  exact kept.effective

section SmallCache

instance (s : FetchSystem TID) (e : FetchEvent TID) : Decidable (s.KeepsInvalid e) :=
  decidable_of_iff ((s.filled? e).all fun cid => (s.cache.lines cid).state = .loading ∨ (s.cache.lines cid).state = .full) <| by
    rw [KeepsInvalid]
    cases s.filled? e <;> simp [LineState.Usable]

/-- A line is fetched, and fetched again after its invalidation. -/
def fetchedAgain : List (FetchEvent (Fin 2)) :=
  answeredFetch ++ [.incoming, .release 0, .invalidated 0x1000, .activate 0 0x1000, .outgoing,
    .readCompleted 0x1000 (fun _ => 2), .incoming]

/-- The second thread hits the line that was fetched again. -/
theorem invalidation_effective_fetchedAgain : ∃ s fetched,
    Run step (fun s e => s.MayHappen e ∧ s.KeepsInvalid e) (initial smallICache) fetchedAgain s ∧
    s.cache.fetch 0x1000 instructionSize s.cycleNo (some 1) = some fetched ∧ fetched.result = .success ∧
    0 < s.invalidated (s.cache.lineNumber 0x1000) ∧
    s.invalidated (s.cache.lineNumber 0x1000) < s.requested fetched.cid := by
  have whole : ((execute (checked (fun s e => decide (s.MayHappen e ∧ s.KeepsInvalid e)) step) (initial smallICache)
      fetchedAgain).bind fun s => (s.cache.fetch 0x1000 instructionSize s.cycleNo (some 1)).map fun fetched =>
        decide (fetched.result = .success ∧ s.cache.hit? (s.cache.align 0x1000) = some fetched.cid ∧
          0 < s.invalidated (s.cache.lineNumber 0x1000))) = some true := by
    decide +kernel
  obtain ⟨s, done, rest⟩ := Option.bind_eq_some_iff.mp whole
  obtain ⟨fetched, found, seen⟩ := Option.map_eq_some_iff.mp rest
  obtain ⟨success, hit, invalidated⟩ := of_decide_eq_true seen
  have run : Run step (fun s e => s.MayHappen e ∧ s.KeepsInvalid e) (initial smallICache) fetchedAgain s :=
    run_of_checked (fun _ _ => of_decide_eq_true) done
  have effective := invalidation_effective (by decide) smallICache_made run
  exact ⟨s, fetched, run, found, success, invalidated,
    effective 0x1000 instructionSize s.cycleNo (some 1) fetched found (by rw [success]; decide) hit⟩

/-- A line is invalidated between its request and its answer. -/
def invalidatedInFlight : List (FetchEvent (Fin 2)) :=
  [.activate 0 0x1000, .outgoing, .invalidated 0x1000, .readCompleted 0x1000 (fun _ => 1), .incoming]

/-- The second thread hits the data that was requested before the invalidation. -/
theorem stale_line_hit : ∃ s fetched, Run step MayHappen (initial smallICache) invalidatedInFlight s ∧
    s.cache.fetch 0x1000 instructionSize s.cycleNo (some 1) = some fetched ∧ fetched.result = .success ∧
    s.requested fetched.cid < s.invalidated (s.cache.lineNumber 0x1000) ∧ ¬ s.Effective := by
  have whole : ((execute (checked (fun s e => decide (s.MayHappen e)) step) (initial smallICache)
      invalidatedInFlight).bind fun s => (s.cache.fetch 0x1000 instructionSize s.cycleNo (some 1)).map fun fetched =>
        decide (fetched.result = .success ∧ s.cache.hit? (s.cache.align 0x1000) = some fetched.cid ∧
          s.requested fetched.cid < s.invalidated (s.cache.lineNumber 0x1000))) = some true := by
    decide +kernel
  obtain ⟨s, done, rest⟩ := Option.bind_eq_some_iff.mp whole
  obtain ⟨fetched, found, seen⟩ := Option.map_eq_some_iff.mp rest
  obtain ⟨success, hit, stale⟩ := of_decide_eq_true seen
  refine ⟨s, fetched, run_of_checked (fun _ _ => of_decide_eq_true) done, found, success, stale, fun effective => ?_⟩
  have later := effective 0x1000 instructionSize s.cycleNo (some 1) fetched found (by rw [success]; decide) hit
  omega

end SmallCache

end FetchSystem

end Mgsim.Drisc
