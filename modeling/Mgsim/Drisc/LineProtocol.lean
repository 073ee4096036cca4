import Mgsim.Drisc.LineReferences

namespace Mgsim.Drisc
open Mgsim.Lib Mgsim.Mmu

namespace ICache
variable {TID : Type} {c : ICache TID} {address : Addr} {cycleNo cid : Nat} {tid : Option TID} {fetched : Fetched TID}

theorem allocated?_eq_some : c.allocated? address = some cid ↔ c.findLine (c.align address) = .allocate cid ∧ c.canRequest := by
  unfold allocated?
  split
  · rename_i found
    simp only [Option.ite_none_right_eq_some, Option.some.injEq, found, Lookup.allocate.injEq, and_comm]
  · rename_i other
    simp only [reduceCtorEq, false_iff, not_and]
    exact fun found => absurd found (other _)

theorem Fetches.incoming (fetches : c.Fetches address cycleNo tid fetched) : fetched.cache.incoming = c.incoming := by
  cases fetches <;> rfl

theorem setLine_tag {own : Nat} {line : Line TID} (same : line.tag = (c.lines own).tag) (other : Nat) :
    ((c.setLine own line).lines other).tag = (c.lines other).tag := by
  rw [setLine_lines]
  by_cases equal : other = own
  · subst equal
    rwa [Function.update_self]
  · rw [Function.update_of_ne equal]

/-- Only an allocated line gets another tag. -/
theorem Fetches.tag (fetches : c.Fetches address cycleNo tid fetched) (other : c.allocated? address ≠ some cid) :
    (fetched.cache.lines cid).tag = (c.lines cid).tag := by
  cases fetches with
  | failed => rfl
  | full => exact setLine_tag (by rfl) cid
  | joined => exact setLine_tag (by rfl) cid
  | awaited => exact setLine_tag (by rfl) cid
  | @requested _ own found room =>
    have different : cid ≠ own := by
      rintro rfl
      exact other (allocated?_eq_some.mpr ⟨found, room⟩)
    exact congrArg Line.tag (Function.update_of_ne different _ _)

end ICache

namespace FetchSystem
variable {TID : Type} [Fintype TID] [DecidableEq TID] {s s' : FetchSystem TID} {cid : Nat}

omit [Fintype TID] [DecidableEq TID] in
/-- The line that an event allocates. -/
def requested? (s : FetchSystem TID) : FetchEvent TID → Option Nat
  | .activate _ address => s.cache.allocated? address
  | .create address => s.cache.allocated? address
  | _ => none

omit [Fintype TID] [DecidableEq TID] in
/-- The line that an event fills. -/
def filled? (s : FetchSystem TID) : FetchEvent TID → Option Nat
  | .incoming => s.cache.incoming.head?
  | _ => none

/-- The references of every line are the threads and the family creation that hold it or wait for it. -/
def Counted (s : FetchSystem TID) : Prop :=
  ∀ cid, (s.cache.lines cid).references = account (fun _ => FetchThread.holds cid) s.thread + s.createLine.holds cid

/-- A step keeps the lines with references, and activates the threads of a line
once, when the line is filled and its data has come. -/
structure FollowsProtocol (s : FetchSystem TID) (e : FetchEvent TID) (s' : FetchSystem TID) : Prop where
  kept : ∀ cid, 0 < (s.cache.lines cid).references →
    s.requested? e ≠ some cid ∧ (s'.cache.lines cid).tag = (s.cache.lines cid).tag
  activated : ∀ t cid, (s.thread t).WaitsFor cid → s.filled? e = some cid →
    s.answered cid = true ∧ (s'.thread t).state = .active ∧ (s'.thread t).cid = cid ∧
      s'.activated.count t = s.activated.count t + 1
  waiting : ∀ t cid, (s.thread t).WaitsFor cid → s.filled? e ≠ some cid →
    s'.thread t = s.thread t ∧ s'.activated.count t = s.activated.count t

omit [Fintype TID] [DecidableEq TID] in
/-- No line is allocated while its number is in the incoming buffer. -/
def Careful (s : FetchSystem TID) (e : FetchEvent TID) : Prop :=
  s.MayHappen e ∧ ∀ cid, s.requested? e = some cid → cid ∉ s.cache.incoming

instance (s : FetchSystem TID) (e : FetchEvent TID) : Decidable (s.Careful e) :=
  decidable_of_iff (s.MayHappen e ∧ (s.requested? e).all (· ∉ s.cache.incoming)) <| by
    rw [Careful]
    cases s.requested? e <;> simp

omit [DecidableEq TID] in
theorem References.requested_free (kept : s.References) {e : FetchEvent TID} (requested : s.requested? e = some cid) :
    (s.cache.lines cid).references = 0 := by
  have free : ∀ address, s.cache.allocated? address = some cid → (s.cache.lines cid).references = 0 := by
    intro address allocated
    exact (ICache.findLine_allocate (ICache.allocated?_eq_some.mp allocated).1).2.elim (kept cid).unused id
  cases e with
  | activate tid address => exact free address requested
  | create address => exact free address requested
  | _ => cases requested

/-- A line with references keeps its tag. -/
theorem References.tag (kept : s.References) {e : FetchEvent TID} (taken : s.event e = some s')
    (used : 0 < (s.cache.lines cid).references) : (s'.cache.lines cid).tag = (s.cache.lines cid).tag := by
  have other : s.requested? e ≠ some cid := by
    intro requested
    have free := kept.requested_free requested
    omega
  cases e with
  | activate tid address =>
    obtain ⟨fetched, done, rfl⟩ := Option.map_eq_some_iff.mp taken
    have same := (ICache.fetch_spec done).tag other
    cases result : fetched.result with
    | failed => rfl
    | _ => exact same
  | create address =>
    obtain ⟨fetched, done, rfl⟩ := Option.map_eq_some_iff.mp taken
    have same := (ICache.fetch_spec done).tag other
    cases result : fetched.result with
    | failed => rfl
    | _ => exact same
  | created =>
    simp only [event] at taken
    unfold FetchSystem.created at taken
    split at taken
    · obtain ⟨cache, done, rfl⟩ := Option.map_eq_some_iff.mp taken
      obtain ⟨line, rfl, _, _, _, same, _⟩ := ICache.releaseCacheLine_spec done
      exact ICache.setLine_tag same cid
    · cases taken
  | release tid =>
    obtain ⟨cache, done, rfl⟩ := Option.map_eq_some_iff.mp taken
    obtain ⟨line, rfl, _, _, _, same, _⟩ := ICache.releaseCacheLine_spec done
    exact ICache.setLine_tag same cid
  | readCompleted address data =>
    cases taken
    rcases s.cache.onMemoryReadCompleted_spec address data with same | ⟨own, _, _, changed⟩
    · simp only [FetchSystem.readCompleted, same]
    · simp only [FetchSystem.readCompleted, changed]
      exact ICache.setLine_tag (by rfl) cid
  | snooped address data mask =>
    cases taken
    simp only [ICache.onMemorySnooped]
    split
    · rfl
    · exact ICache.setLine_tag (by rfl) cid
  | invalidated address =>
    cases taken
    rcases s.cache.onMemoryInvalidated_spec address with same | ⟨own, state, _, changed, _⟩
    · simp only [same]
    · simp only [changed]
      exact ICache.setLine_tag (by rfl) cid
  | outgoing =>
    simp only [event] at taken
    split at taken
    · cases taken
    · cases taken
      rfl
  | incoming =>
    obtain ⟨own, rest, woken, _, _, _, rfl⟩ := kept.woken taken
    refine ICache.setLine_tag ?_ cid
    split_ifs <;> rfl
  | tick =>
    cases taken
    rfl

/-- A thread that waits is left alone until its line is filled. -/
theorem References.left (kept : s.References) {e : FetchEvent TID} (may : s.MayHappen e) (taken : s.event e = some s')
    {t : TID} (waits : (s.thread t).WaitsFor cid) (other : s.filled? e ≠ some cid) :
    s'.thread t = s.thread t ∧ s'.activated.count t = s.activated.count t := by
  have waiting : (s.thread t).state = .waiting := waits.1
  cases e with
  | activate tid address =>
    have different : t ≠ tid := by
      rintro rfl
      cases waiting.symm.trans may
    obtain ⟨fetched, done, rfl⟩ := Option.map_eq_some_iff.mp taken
    cases result : fetched.result with
    | failed => exact ⟨rfl, rfl⟩
    | delayed => exact ⟨Function.update_of_ne different _ _, rfl⟩
    | success =>
      refine ⟨Function.update_of_ne different _ _, ?_⟩
      simp [different.symm]
  | create address =>
    obtain ⟨fetched, done, rfl⟩ := Option.map_eq_some_iff.mp taken
    cases result : fetched.result <;> exact ⟨rfl, rfl⟩
  | created =>
    simp only [event] at taken
    unfold FetchSystem.created at taken
    split at taken
    · obtain ⟨cache, done, rfl⟩ := Option.map_eq_some_iff.mp taken
      exact ⟨rfl, rfl⟩
    · cases taken
  | release tid =>
    have different : t ≠ tid := by
      rintro rfl
      cases waiting.symm.trans may
    obtain ⟨cache, done, rfl⟩ := Option.map_eq_some_iff.mp taken
    exact ⟨Function.update_of_ne different _ _, rfl⟩
  | readCompleted address data =>
    cases taken
    exact ⟨rfl, rfl⟩
  | snooped address data mask =>
    cases taken
    exact ⟨rfl, rfl⟩
  | invalidated address =>
    cases taken
    exact ⟨rfl, rfl⟩
  | outgoing =>
    simp only [event] at taken
    split at taken
    · cases taken
    · cases taken
      exact ⟨rfl, rfl⟩
  | incoming =>
    obtain ⟨own, rest, woken, pending, _, members, rfl⟩ := kept.woken taken
    have absent : t ∉ woken := by
      intro member
      refine other ?_
      rw [filled?, pending, List.head?_cons, ← ((members t).mp member).2, waits.2]
    exact ⟨if_neg absent, by simp [List.count_eq_zero_of_not_mem absent]⟩
  | tick =>
    cases taken
    exact ⟨rfl, rfl⟩

/-- The threads of a line that is filled are activated once. -/
theorem References.activated (kept : s.References) {e : FetchEvent TID} (taken : s.event e = some s')
    {t : TID} (waits : (s.thread t).WaitsFor cid) (filled : s.filled? e = some cid) :
    (s'.thread t).state = .active ∧ (s'.thread t).cid = cid ∧ s'.activated.count t = s.activated.count t + 1 := by
  cases e with
  | incoming =>
    obtain ⟨own, rest, woken, pending, nodup, members, rfl⟩ := kept.woken taken
    rw [filled?, pending, List.head?_cons, Option.some.injEq] at filled
    subst filled
    have member : t ∈ woken := (members t).mpr waits
    refine ⟨?_, ?_, ?_⟩
    · simp only [if_pos member]
    · simp only [if_pos member]
      exact waits.2
    · rw [List.count_append, List.count_eq_one_of_mem nodup member]
  | _ => cases filled

omit [Fintype TID] [DecidableEq TID] in
/-- The data of every line in the incoming buffer has come. -/
def Answered (s : FetchSystem TID) : Prop := ∀ cid ∈ s.cache.incoming, s.answered cid = true

omit [Fintype TID] [DecidableEq TID] in
theorem Answered.noteFetch (answered : s.Answered) {address : Addr}
    (careful : ∀ cid, s.cache.allocated? address = some cid → cid ∉ s.cache.incoming) :
    (s.noteFetch address).Answered := by
  intro cid member
  cases allocated : s.cache.allocated? address with
  | none =>
    simp only [FetchSystem.noteFetch, allocated, Option.elim_none]
    exact answered cid member
  | some own =>
    have different : cid ≠ own := by
      rintro rfl
      exact careful cid allocated member
    simp only [FetchSystem.noteFetch, allocated, Option.elim_some, Function.update_of_ne different]
    exact answered cid member

theorem Answered.step (answered : s.Answered) {e : FetchEvent TID} (careful : s.Careful e) (taken : s.event e = some s') :
    s'.Answered := by
  cases e with
  | activate tid address =>
    obtain ⟨fetched, done, rfl⟩ := Option.map_eq_some_iff.mp taken
    have same := (ICache.fetch_spec done).incoming
    have noted := answered.noteFetch careful.2
    cases result : fetched.result with
    | failed => exact answered
    | _ => exact fun cid member => noted cid (same ▸ member)
  | create address =>
    obtain ⟨fetched, done, rfl⟩ := Option.map_eq_some_iff.mp taken
    have same := (ICache.fetch_spec done).incoming
    have noted := answered.noteFetch careful.2
    cases result : fetched.result with
    | failed => exact answered
    | _ => exact fun cid member => noted cid (same ▸ member)
  | created =>
    simp only [event] at taken
    unfold FetchSystem.created at taken
    split at taken
    · obtain ⟨cache, done, rfl⟩ := Option.map_eq_some_iff.mp taken
      obtain ⟨line, rfl, _⟩ := ICache.releaseCacheLine_spec done
      exact answered
    · cases taken
  | release tid =>
    obtain ⟨cache, done, rfl⟩ := Option.map_eq_some_iff.mp taken
    obtain ⟨line, rfl, _⟩ := ICache.releaseCacheLine_spec done
    exact answered
  | readCompleted address data =>
    cases taken
    intro cid member
    rcases s.cache.onMemoryReadCompleted_spec address data with same | ⟨own, _, _, changed⟩
    · simp only [FetchSystem.readCompleted, same] at member ⊢
      rw [answered cid member, Bool.true_or]
    · simp only [FetchSystem.readCompleted, changed, List.drop_left] at member ⊢
      rcases List.mem_append.mp member with earlier | new
      · rw [answered cid earlier, Bool.true_or]
      · simp [List.mem_singleton.mp new]
  | snooped address data mask =>
    cases taken
    simp only [Answered, ICache.onMemorySnooped]
    split <;> exact answered
  | invalidated address =>
    cases taken
    rcases s.cache.onMemoryInvalidated_spec address with same | ⟨own, state, _, changed, _⟩
    · simpa only [Answered, same] using answered
    · simp only [Answered, changed]
      exact answered
  | outgoing =>
    simp only [event] at taken
    split at taken
    · cases taken
    · cases taken
      exact answered
  | incoming =>
    simp only [event] at taken
    unfold FetchSystem.incoming at taken
    split at taken
    · cases taken
    · rename_i own rest pending
      cases taken
      exact fun cid member => answered cid (pending ▸ List.mem_cons_of_mem _ member)
  | tick =>
    cases taken
    exact answered

omit [DecidableEq TID] in
/-- A cache as its constructor leaves it. -/
theorem references_initial {cache : ICache TID} {assoc sets lineSize : Nat} {selector : BankSelector}
    {outgoingSize incomingSize : Option Nat}
    (made : ICache.create assoc sets lineSize selector outgoingSize incomingSize = .ok cache) :
    (initial cache).References ∧ (initial cache).Answered := by
  unfold ICache.create at made
  split_ifs at made
  cases made
  constructor
  · intro cid
    refine ⟨?_, ⟨[], .nil rfl, List.nodup_nil, fun t => ?_⟩, ?_, fun _ => rfl, fun _ => ⟨rfl, rfl⟩⟩
    · exact (account_eq_zero.mpr fun t => FetchThread.holds_of_ready rfl).symm
    · refine ⟨fun member => absurd member List.not_mem_nil, fun waits => ?_⟩
      exact nomatch waits.1
    · refine ⟨fun set => ?_, fun waits => ?_⟩
      · exact nomatch set
      · exact nomatch waits
  · exact fun cid member => absurd member List.not_mem_nil

/-- In a run that allocates no line whose number is in the incoming buffer, the
references are counted and every step follows the protocol. -/
theorem reference_protocol {cache : ICache TID} {assoc sets lineSize : Nat} {selector : BankSelector}
    {outgoingSize incomingSize : Option Nat} {events : List (FetchEvent TID)}
    (made : ICache.create assoc sets lineSize selector outgoingSize incomingSize = .ok cache)
    (run : Run step Careful (initial cache) events s) :
    s.Counted ∧ ∀ e s', s.Careful e → s.step e = some s' → s.FollowsProtocol e s' := by
  have kept : s.References ∧ s.Answered := by
    refine run.invariant (I := fun s => s.References ∧ s.Answered) (references_initial made) fun s e s' kept careful taken =>
      ⟨kept.1.step careful.1 taken, ?_⟩
    obtain ⟨after, done, rfl⟩ := Option.map_eq_some_iff.mp taken
    have answered : after.Answered := kept.2.step careful done
    exact answered
  refine ⟨fun cid => (kept.1 cid).counted, fun e s' careful taken => ?_⟩
  obtain ⟨after, done, rfl⟩ := Option.map_eq_some_iff.mp taken
  refine ⟨fun cid used => ⟨fun requested => ?_, ?_⟩, fun t cid waits filled => ⟨?_, ?_⟩, ?_⟩
  · have free := kept.1.requested_free requested
    omega
  · have same : (after.cache.lines cid).tag = (s.cache.lines cid).tag := kept.1.tag done used
    exact same
  · cases e with
    | incoming => exact kept.2 cid (List.mem_of_head? filled)
    | _ => cases filled
  · have activated : (after.thread t).state = .active ∧ _ := kept.1.activated done waits filled
    exact activated
  · intro t cid waits other
    have left : after.thread t = s.thread t ∧ _ := kept.1.left careful.1 done waits other
    exact left

section SmallCache

scoped instance neZero_threads : NeZero 2 := ⟨by decide⟩

def smallICache : ICache (Fin 2) := ⟨2, 64, .zeroSelector, fun _ => .initial, [], some 2, [], some 2⟩

theorem smallICache_made : ICache.create 2 1 64 .zeroSelector (some 2) (some 2) = .ok smallICache := by
  rfl

/-- A thread fetches a line, which is requested and answered. -/
def answeredFetch : List (FetchEvent (Fin 2)) :=
  [.activate 0 0x1000, .outgoing, .readCompleted 0x1000 fun _ => 1]

/-- The thread is activated when the line is filled. -/
theorem reference_protocol_answeredFetch : ∃ s s', Run step Careful (initial smallICache) answeredFetch s ∧
    s.step .incoming = some s' ∧ (s.cache.lines 1).references = 1 ∧ s'.activated.count 0 = 1 := by
  have whole : ((execute (checked (fun s e => decide (s.Careful e)) step) (initial smallICache) answeredFetch).bind
      fun s => (s.step .incoming).map fun s' => decide (s.Careful .incoming ∧ (s.thread 0).WaitsFor 1 ∧
        s.filled? .incoming = some 1 ∧ s.activated.count 0 = 0 ∧ (s.cache.lines 1).references = 1)) = some true := by
    decide +kernel
  obtain ⟨s, done, rest⟩ := Option.bind_eq_some_iff.mp whole
  obtain ⟨s', taken, seen⟩ := Option.map_eq_some_iff.mp rest
  obtain ⟨careful, waits, filled, before, references⟩ := of_decide_eq_true seen
  have run : Run step Careful (initial smallICache) answeredFetch s := run_of_checked (fun _ _ => of_decide_eq_true) done
  have followed := (reference_protocol smallICache_made run).2 .incoming s' careful taken
  have once := (followed.activated 0 1 waits filled).2.2.2
  exact ⟨s, s', run, taken, references, by rw [once, before]⟩

/-- The line of a thread is invalidated, and its address is answered for another
client. In the same cycle the thread gives the line back, and another one allocates it. -/
def reusedLine : List (FetchEvent (Fin 2)) :=
  answeredFetch ++ [.incoming, .invalidated 0x1000, .readCompleted 0x1000 fun _ => 1, .release 0, .activate 1 0x2000,
    .outgoing]

/-- The second thread is activated before the data of its line has come. -/
theorem activated_without_data : ∃ s s', Run step MayHappen (initial smallICache) reusedLine s ∧
    s.step .incoming = some s' ∧ (s.thread 1).state = .waiting ∧ s.answered 1 = false ∧ (s'.thread 1).state = .active ∧
    ¬ s.FollowsProtocol .incoming s' := by
  have whole : ((execute (checked (fun s e => decide (s.MayHappen e)) step) (initial smallICache) reusedLine).bind
      fun s => (s.step .incoming).map fun s' => decide ((s.thread 1).WaitsFor 1 ∧ s.filled? .incoming = some 1 ∧
        s.answered 1 = false ∧ (s'.thread 1).state = .active)) = some true := by
    decide +kernel
  obtain ⟨s, done, rest⟩ := Option.bind_eq_some_iff.mp whole
  obtain ⟨s', taken, seen⟩ := Option.map_eq_some_iff.mp rest
  obtain ⟨waits, filled, unanswered, active⟩ := of_decide_eq_true seen
  refine ⟨s, s', run_of_checked (fun _ _ => of_decide_eq_true) done, taken, waits.1, unanswered, active, fun followed => ?_⟩
  have answered := (followed.activated 1 1 waits filled).1
  rw [unanswered] at answered
  cases answered

end SmallCache

end FetchSystem

end Mgsim.Drisc
