import Mgsim.Drisc.ICache
import Mgsim.Lib.Account

namespace Mgsim.Drisc
open Mgsim.Lib Mgsim.Mmu

namespace ICache
variable {TID : Type} {c : ICache TID} {tag : Addr} {cids : List Nat} {empty replace : Option Nat} {cid : Nat}

theorem findLineFrom_hit (found : c.findLineFrom tag cids empty replace = .hit cid) :
    cid ∈ cids ∧ (c.lines cid).state ≠ .empty ∧ (c.lines cid).tag = tag := by
  induction cids generalizing empty replace with
  | nil => cases empty <;> cases replace <;> cases found
  | cons first rest ih =>
    rw [findLineFrom] at found
    split_ifs at found with unused own free
    · exact (ih found).imp_left (List.mem_cons_of_mem _)
    · cases found
      exact ⟨List.mem_cons_self, unused, own⟩
    · exact (ih found).imp_left (List.mem_cons_of_mem _)
    · exact (ih found).imp_left (List.mem_cons_of_mem _)

/-- A line that can be allocated is empty, or has no reference. -/
theorem findLineFrom_allocate (found : c.findLineFrom tag cids empty replace = .allocate cid) :
    empty = some cid ∨ replace = some cid ∨ cid ∈ cids ∧ ((c.lines cid).state = .empty ∨ (c.lines cid).references = 0) := by
  induction cids generalizing empty replace with
  | nil =>
    cases empty with
    | some first =>
      cases found
      exact .inl rfl
    | none =>
      cases replace with
      | some old =>
        cases found
        exact .inr (.inl rfl)
      | none => cases found
  | cons first rest ih =>
    have further : cid ∈ rest ∧ ((c.lines cid).state = .empty ∨ (c.lines cid).references = 0) →
        cid ∈ first :: rest ∧ ((c.lines cid).state = .empty ∨ (c.lines cid).references = 0) :=
      And.imp_left (List.mem_cons_of_mem _)
    rw [findLineFrom] at found
    split_ifs at found with unused own free
    · rcases ih found with same | old | inRest
      · cases same
        exact .inr (.inr ⟨List.mem_cons_self, .inl unused⟩)
      · exact .inr (.inl old)
      · exact .inr (.inr (further inRest))
    · rcases ih found with early | same | inRest
      · exact .inl early
      · cases same
        exact .inr (.inr ⟨List.mem_cons_self, .inr free.1⟩)
      · exact .inr (.inr (further inRest))
    · exact (ih found).imp_right (Or.imp_right further)

theorem findLine_hit {address : Addr} (found : c.findLine address = .hit cid) :
    cid ∈ c.setLines (c.selector.map (c.lineNumber address)).2 ∧ (c.lines cid).state ≠ .empty ∧
      (c.lines cid).tag = (c.selector.map (c.lineNumber address)).1 :=
  findLineFrom_hit found

theorem findLine_allocate {address : Addr} (found : c.findLine address = .allocate cid) :
    cid ∈ c.setLines (c.selector.map (c.lineNumber address)).2 ∧
      ((c.lines cid).state = .empty ∨ (c.lines cid).references = 0) := by
  rcases findLineFrom_allocate found with impossible | impossible | free
  · cases impossible
  · cases impossible
  · exact free

theorem hit?_eq {address : Addr} (found : c.hit? address = some cid) : c.findLine address = .hit cid := by
  unfold hit? at found
  split at found
  · rename_i equation
    cases found
    exact equation
  · cases found

@[simp] theorem setLine_lines {line : Line TID} : (c.setLine cid line).lines = Function.update c.lines cid line := rfl

@[simp] theorem setLine_incoming {line : Line TID} : (c.setLine cid line).incoming = c.incoming := rfl

theorem releaseCacheLine_spec {c' : ICache TID} (done : c.releaseCacheLine cid = some c') :
    ∃ line, c' = c.setLine cid line ∧ line.references = (c.lines cid).references - 1 ∧
      line.waiting = (c.lines cid).waiting ∧ line.creation = (c.lines cid).creation ∧ line.tag = (c.lines cid).tag ∧
      ((c.lines cid).state = .invalid ∧ line.state = .empty ∧ line.references = 0 ∨ line.state = (c.lines cid).state) := by
  unfold releaseCacheLine at done
  split_ifs at done
  cases done
  refine ⟨_, rfl, rfl, rfl, rfl, rfl, ?_⟩
  unfold Line.release
  split_ifs with last
  · exact .inl ⟨last.2, rfl, last.1⟩
  · exact .inr rfl

/-- The answer of a read is dropped, or it is the data of a line. -/
theorem onMemoryReadCompleted_spec (c : ICache TID) (address : Addr) (data : Nat → Byte) :
    (c.onMemoryReadCompleted address data).2 = c ∨
      ∃ cid, c.findLine address = .hit cid ∧ (c.lines cid).state ≠ .full ∧
        (c.onMemoryReadCompleted address data).2 =
          { c.setLine cid { c.lines cid with data } with incoming := c.incoming ++ [cid] } := by
  unfold onMemoryReadCompleted
  split
  · exact .inl rfl
  · rename_i cid found
    split_ifs with full room
    · exact .inl rfl
    · exact .inr ⟨cid, hit?_eq found, full, rfl⟩
    · exact .inl rfl

theorem onMemoryInvalidated_spec (c : ICache TID) (address : Addr) :
    c.onMemoryInvalidated address = c ∨
      ∃ cid state, c.findLine address = .hit cid ∧ c.onMemoryInvalidated address = c.setLine cid { c.lines cid with state } ∧
        ((c.lines cid).state = .full ∧ (c.lines cid).references = 0 ∧ state = .empty ∨ state = .invalid) := by
  unfold onMemoryInvalidated
  split
  · exact .inl rfl
  · rename_i cid found
    split
    · rename_i full
      refine .inr ⟨cid, _, hit?_eq found, rfl, ?_⟩
      split_ifs with free
      · exact .inl ⟨full, free, rfl⟩
      · exact .inr rfl
    · exact .inr ⟨cid, _, hit?_eq found, rfl, .inr rfl⟩
    · exact .inl rfl

/-- What a fetch can do: nothing, take a full line, join those that wait for a line,
or allocate a line. -/
inductive Fetches (c : ICache TID) (address : Addr) (cycleNo : Nat) : Option TID → Fetched TID → Prop
  | failed (tid : Option TID) (cid : Nat) : Fetches c address cycleNo tid ⟨.failed, cid, tid, c⟩
  | full (tid : Option TID) {cid : Nat} : c.findLine (c.align address) = .hit cid → (c.lines cid).state = .full →
      Fetches c address cycleNo tid ⟨.success, cid, tid, c.setLine cid (c.referencedLine cid cycleNo)⟩
  | joined (t : TID) {cid : Nat} : c.findLine (c.align address) = .hit cid → (c.lines cid).state = .loading →
      Fetches c address cycleNo (some t) ⟨.delayed, cid, (c.lines cid).waiting.head,
        c.setLine cid { c.referencedLine cid cycleNo with waiting := (c.lines cid).waiting.push t }⟩
  | awaited {cid : Nat} : c.findLine (c.align address) = .hit cid → (c.lines cid).state = .loading →
      Fetches c address cycleNo none ⟨.delayed, cid, none,
        c.setLine cid { c.referencedLine cid cycleNo with creation := true }⟩
  | requested (tid : Option TID) {cid : Nat} : c.findLine (c.align address) = .allocate cid → c.canRequest →
      Fetches c address cycleNo tid ⟨.delayed, cid, none, c.request (c.align address) cid cycleNo tid⟩

theorem fetch_spec {address : Addr} {size cycleNo : Nat} {tid : Option TID} {fetched : Fetched TID}
    (done : c.fetch address size cycleNo tid = some fetched) : c.Fetches address cycleNo tid fetched := by
  rw [fetch] at done
  split_ifs at done
  cases found : c.findLine (c.align address) with
  | full =>
    simp only [found] at done
    cases done
    exact .failed _ _
  | hit cid =>
    simp only [found, fetchHit] at done
    cases state : (c.lines cid).state with
    | empty => simp only [state, reduceCtorEq] at done
    | invalid =>
      simp only [state] at done
      cases done
      exact .failed _ _
    | full =>
      simp only [state] at done
      cases done
      exact .full tid found state
    | loading =>
      simp only [state] at done
      cases tid with
      | some t =>
        cases done
        exact .joined t found state
      | none =>
        simp only at done
        split_ifs at done
        cases done
        exact .awaited found state
  | allocate cid =>
    simp only [found, fetchMiss, Option.some.injEq] at done
    subst done
    split_ifs with room
    · exact .requested tid found room
    · exact .failed _ _

end ICache

namespace ICache.ThreadQueue
variable {TID : Type} {next next' : TID → TID} {queue : ThreadQueue TID} {items : List TID}

/-- The threads of a waiting list, the one that came last in front. -/
inductive Holds (next : TID → TID) : ThreadQueue TID → List TID → Prop
  | none (tail : Option TID) : Holds next ⟨none, tail⟩ []
  | some {head tail : TID} {items : List TID} : Segment next head items tail → Holds next ⟨some head, some tail⟩ items

theorem Holds.head_eq_none (holds : Holds next queue items) : queue.head = .none ↔ items = [] := by
  cases holds with
  | none => exact ⟨fun _ => rfl, fun _ => rfl⟩
  | some segment => exact ⟨fun none => (nomatch none), fun none => absurd none segment.ne_nil⟩

theorem Holds.nil (free : queue.head = .none) : Holds next queue [] := by
  cases queue
  subst free
  exact .none _

theorem Holds.congr (holds : Holds next queue items) (same : ∀ t ∈ items, next' t = next t) : Holds next' queue items := by
  cases holds with
  | none tail => exact .none tail
  | some segment => exact .some (segment.congr same)

theorem Holds.push [DecidableEq TID] (holds : Holds next queue items) {t : TID} (fresh : t ∉ items) :
    Holds (Function.update next t (queue.head.getD t)) (queue.push t) (t :: items) := by
  cases holds with
  | none => exact .some .last
  | @some head tail _ segment =>
    refine .some (.cons ?_)
    rw [Function.update_self]
    exact segment.update fresh

end ICache.ThreadQueue

/-- The references of a thread to a line. -/
def FetchThread.holds {TID : Type} (cid : Nat) (thread : FetchThread TID) : Nat :=
  if thread.state ≠ .ready ∧ thread.cid = cid then 1 else 0

def FetchThread.WaitsFor {TID : Type} (thread : FetchThread TID) (cid : Nat) : Prop :=
  thread.state = .waiting ∧ thread.cid = cid

instance {TID : Type} (thread : FetchThread TID) (cid : Nat) : Decidable (thread.WaitsFor cid) :=
  inferInstanceAs (Decidable (_ ∧ _))

/-- The references of the family creation to a line. -/
def CreateLine.holds (cid : Nat) : CreateLine → Nat
  | .idle => 0
  | .loading own => if own = cid then 1 else 0
  | .loaded own => if own = cid then 1 else 0

def link {TID : Type} (thread : TID → FetchThread TID) (t : TID) : TID := (thread t).next.getD t

/-- A line for which nobody waits. -/
def LineState.Settled (state : LineState) : Prop := state = .empty ∨ state = .full

/-- A line, the threads and the family creation agree about who holds the line. -/
structure Referenced {TID : Type} [Fintype TID] (thread : TID → FetchThread TID) (createLine : CreateLine) (cid : Nat)
    (line : ICache.Line TID) : Prop where
  counted : line.references = account (fun _ => FetchThread.holds cid) thread + createLine.holds cid
  waiting : ∃ items, line.waiting.Holds (link thread) items ∧ items.Nodup ∧ ∀ t, t ∈ items ↔ (thread t).WaitsFor cid
  creation : line.creation = true ↔ createLine = .loading cid
  unused : line.state = .empty → line.references = 0
  settled : line.state.Settled → line.waiting.head = none ∧ line.creation = false

section
variable {TID : Type} {thread : TID → FetchThread TID} {cid : Nat} {t : TID} {taken : FetchThread TID}

theorem FetchThread.holds_of_ready {state : FetchThread TID} (ready : state.state = .ready) : state.holds cid = 0 :=
  if_neg fun holder => holder.1 ready

theorem FetchThread.holds_of_busy {state : FetchThread TID} (busy : state.state ≠ .ready) :
    state.holds cid = if state.cid = cid then 1 else 0 := by
  simp only [FetchThread.holds, ne_eq, busy, not_false_eq_true, true_and]

theorem FetchThread.WaitsFor.holds {state : FetchThread TID} (waits : state.WaitsFor cid) : state.holds cid = 1 :=
  if_pos ⟨by rw [waits.1]; decide, waits.2⟩

theorem link_update_of_ne [DecidableEq TID] {other : TID} (different : other ≠ t) :
    link (Function.update thread t taken) other = link thread other := by
  simp only [link, Function.update_of_ne different]

theorem link_update [DecidableEq TID] :
    link (Function.update thread t taken) = Function.update (link thread) t (taken.next.getD t) := by
  funext other
  by_cases same : other = t
  · subst same
    simp only [link, Function.update_self]
  · rw [link_update_of_ne same, Function.update_of_ne same]

end

namespace Referenced
variable {TID : Type} [Fintype TID] {thread : TID → FetchThread TID} {createLine : CreateLine} {cid other : Nat}
  {line line' : ICache.Line TID} {t : TID}

/-- Nobody waits for a line without references. -/
theorem unheld (counted : line.references = account (fun _ => FetchThread.holds cid) thread + createLine.holds cid)
    (waiting : ∃ items, line.waiting.Holds (link thread) items ∧ items.Nodup ∧ ∀ t, t ∈ items ↔ (thread t).WaitsFor cid)
    (creation : line.creation = true ↔ createLine = .loading cid) (free : line.references = 0) :
    line.waiting.head = none ∧ line.creation = false := by
  obtain ⟨items, holds, _, members⟩ := waiting
  constructor
  · rw [holds.head_eq_none, List.eq_nil_iff_forall_not_mem]
    intro t member
    have none := account_eq_zero.mp (show account (fun _ => FetchThread.holds cid) thread = 0 by omega) t
    rw [((members t).mp member).holds] at none
    cases none
  · by_contra set
    have own := creation.mp (by simpa using set)
    subst own
    simp only [CreateLine.holds, if_true] at counted
    omega

theorem free (kept : Referenced thread createLine cid line) (free : line.references = 0) :
    line.waiting.head = none ∧ line.creation = false :=
  unheld kept.counted kept.waiting kept.creation free

/-- A line keeps its references while its state changes. -/
theorem set (kept : Referenced thread createLine cid line) (references : line'.references = line.references)
    (queue : line'.waiting = line.waiting) (creation : line'.creation = line.creation)
    (unused : line'.state = .empty → line.references = 0) (settled : line'.state.Settled → line.state.Settled) :
    Referenced thread createLine cid line' where
  counted := references.trans kept.counted
  waiting := queue ▸ kept.waiting
  creation := creation ▸ kept.creation
  unused := fun empty => references.trans (unused empty)
  settled := by
    intro state
    rw [queue, creation]
    exact kept.settled (settled state)

variable [DecidableEq TID] {taken : FetchThread TID}

/-- A line is untouched by a thread that does not hold it. -/
theorem frame (kept : Referenced thread createLine other line) (before : (thread t).holds other = 0)
    (after : taken.holds other = 0) : Referenced (Function.update thread t taken) createLine other line where
  counted := by
    have change := account_update (fun _ => FetchThread.holds other) thread t taken
    have counted := kept.counted
    omega
  waiting := by
    obtain ⟨items, holds, nodup, members⟩ := kept.waiting
    have absent : t ∉ items := by
      intro member
      have held := ((members t).mp member).holds
      omega
    refine ⟨items, holds.congr fun s member => link_update_of_ne (ne_of_mem_of_not_mem member absent), nodup, fun s => ?_⟩
    by_cases same : s = t
    · subst same
      rw [Function.update_self]
      refine ⟨fun member => absurd member absent, fun waits => ?_⟩
      have held := waits.holds
      omega
    · rw [Function.update_of_ne same]
      exact members s
  creation := kept.creation
  unused := kept.unused
  settled := kept.settled

/-- A thread without a line takes a full one. -/
theorem take (kept : Referenced thread createLine cid line) (ready : (thread t).state = .ready)
    (active : taken.state = .active) (own : taken.cid = cid) (full : line.state = .full)
    (references : line'.references = line.references + 1) (queue : line'.waiting = line.waiting)
    (creation : line'.creation = line.creation) (state : line'.state = .full) :
    Referenced (Function.update thread t taken) createLine cid line' where
  counted := by
    have change := account_update (fun _ => FetchThread.holds cid) thread t taken
    have counted := kept.counted
    have before : (thread t).holds cid = 0 := FetchThread.holds_of_ready ready
    have after : taken.holds cid = if taken.cid = cid then 1 else 0 :=
      FetchThread.holds_of_busy (by rw [active]; decide)
    rw [if_pos own] at after
    omega
  waiting := by
    obtain ⟨items, holds, nodup, members⟩ := kept.waiting
    have empty := holds.head_eq_none.mp (kept.settled (.inr full)).1
    subst empty
    rw [queue]
    refine ⟨[], holds.congr (by simp), nodup, fun s => ?_⟩
    by_cases same : s = t
    · subst same
      rw [Function.update_self]
      refine ⟨fun member => absurd member List.not_mem_nil, fun waits => ?_⟩
      rw [FetchThread.WaitsFor, active] at waits
      exact nomatch waits.1
    · rw [Function.update_of_ne same]
      exact members s
  creation := creation ▸ kept.creation
  unused := fun empty => nomatch state.symm.trans empty
  settled := by
    rw [queue, creation]
    exact fun _ => kept.settled (.inr full)

/-- A thread without a line joins those that wait for one. -/
theorem join (kept : Referenced thread createLine cid line) (ready : (thread t).state = .ready)
    (references : line'.references = line.references + 1) (queue : line'.waiting = line.waiting.push t)
    (creation : line'.creation = line.creation) (state : line'.state = .loading) :
    Referenced (Function.update thread t ⟨.waiting, cid, line.waiting.head⟩) createLine cid line' where
  counted := by
    have change := account_update (fun _ => FetchThread.holds cid) thread t ⟨.waiting, cid, line.waiting.head⟩
    have counted := kept.counted
    have before : (thread t).holds cid = 0 := FetchThread.holds_of_ready ready
    have after : FetchThread.holds cid ⟨.waiting, cid, line.waiting.head⟩ = 1 := FetchThread.WaitsFor.holds ⟨rfl, rfl⟩
    omega
  waiting := by
    obtain ⟨items, holds, nodup, members⟩ := kept.waiting
    have fresh : t ∉ items := by
      intro member
      have waits := ((members t).mp member).1
      rw [ready] at waits
      cases waits
    rw [queue, link_update]
    refine ⟨t :: items, holds.push fresh, List.nodup_cons.mpr ⟨fresh, nodup⟩, fun s => ?_⟩
    by_cases same : s = t
    · subst same
      rw [Function.update_self]
      exact ⟨fun _ => ⟨rfl, rfl⟩, fun _ => List.mem_cons_self⟩
    · rw [Function.update_of_ne same, List.mem_cons, or_iff_right same]
      exact members s
  creation := creation ▸ kept.creation
  unused := fun empty => nomatch state.symm.trans empty
  settled := by
    rw [state]
    rintro (impossible | impossible) <;> cases impossible

/-- A thread gives its line back. -/
theorem release (kept : Referenced thread createLine cid line) (active : (thread t).state = .active)
    (own : (thread t).cid = cid) (ready : taken.state = .ready) (references : line'.references = line.references - 1)
    (queue : line'.waiting = line.waiting) (creation : line'.creation = line.creation)
    (state : line'.state = .empty ∧ line'.references = 0 ∨ line'.state = line.state) :
    Referenced (Function.update thread t taken) createLine cid line' := by
  have counted : line'.references =
      account (fun _ => FetchThread.holds cid) (Function.update thread t taken) + createLine.holds cid := by
    have change := account_update (fun _ => FetchThread.holds cid) thread t taken
    have counted := kept.counted
    have before : (thread t).holds cid = if (thread t).cid = cid then 1 else 0 :=
      FetchThread.holds_of_busy (by rw [active]; decide)
    have after : taken.holds cid = 0 := FetchThread.holds_of_ready ready
    rw [if_pos own] at before
    omega
  have waiting : ∃ items, line'.waiting.Holds (link (Function.update thread t taken)) items ∧ items.Nodup ∧
      ∀ s, s ∈ items ↔ (Function.update thread t taken s).WaitsFor cid := by
    obtain ⟨items, holds, nodup, members⟩ := kept.waiting
    have absent : t ∉ items := by
      intro member
      have waits := ((members t).mp member).1
      rw [active] at waits
      cases waits
    rw [queue]
    refine ⟨items, holds.congr fun s member => link_update_of_ne (ne_of_mem_of_not_mem member absent), nodup, fun s => ?_⟩
    by_cases same : s = t
    · subst same
      rw [Function.update_self]
      refine ⟨fun member => absurd member absent, fun waits => ?_⟩
      rw [FetchThread.WaitsFor, ready] at waits
      exact nomatch waits.1
    · rw [Function.update_of_ne same]
      exact members s
  have creation' : line'.creation = true ↔ createLine = .loading cid := creation ▸ kept.creation
  refine ⟨counted, waiting, creation', fun empty => ?_, fun settled => ?_⟩
  · rcases state with ⟨_, none⟩ | same
    · exact none
    · rw [references, kept.unused (same.symm.trans empty)]
  · rcases state with ⟨_, none⟩ | same
    · exact unheld counted waiting creation' none
    · rw [queue, creation]
      exact kept.settled (same ▸ settled)

omit [DecidableEq TID] in
/-- The family creation moves while it does not hold the line. -/
theorem frame_create {createLine' : CreateLine} (kept : Referenced thread createLine other line)
    (before : createLine.holds other = 0) (after : createLine'.holds other = 0) :
    Referenced thread createLine' other line where
  counted := by
    have counted := kept.counted
    omega
  waiting := kept.waiting
  creation := by
    rw [kept.creation]
    constructor <;> rintro rfl <;> simp [CreateLine.holds] at before after
  unused := kept.unused
  settled := kept.settled

omit [DecidableEq TID] in
/-- The family creation takes a full line. -/
theorem take_create (kept : Referenced thread .idle cid line) (full : line.state = .full)
    (references : line'.references = line.references + 1) (queue : line'.waiting = line.waiting)
    (creation : line'.creation = line.creation) (state : line'.state = .full) :
    Referenced thread (.loaded cid) cid line' where
  counted := by
    have counted := kept.counted
    simp only [CreateLine.holds, if_true] at counted ⊢
    omega
  waiting := queue ▸ kept.waiting
  creation := by
    rw [creation, kept.creation]
    simp
  unused := fun empty => nomatch state.symm.trans empty
  settled := by
    rw [queue, creation]
    exact fun _ => kept.settled (.inr full)

omit [DecidableEq TID] in
/-- The family creation waits for a line. -/
theorem join_create (kept : Referenced thread .idle cid line) (references : line'.references = line.references + 1)
    (queue : line'.waiting = line.waiting) (creation : line'.creation = true) (state : line'.state = .loading) :
    Referenced thread (.loading cid) cid line' where
  counted := by
    have counted := kept.counted
    simp only [CreateLine.holds, if_true] at counted ⊢
    omega
  waiting := queue ▸ kept.waiting
  creation := by simp only [creation]
  unused := fun empty => nomatch state.symm.trans empty
  settled := by
    rw [state]
    rintro (impossible | impossible) <;> cases impossible

omit [DecidableEq TID] in
/-- The family creation gives its line back. -/
theorem release_create (kept : Referenced thread (.loaded cid) cid line)
    (references : line'.references = line.references - 1) (queue : line'.waiting = line.waiting)
    (creation : line'.creation = line.creation)
    (state : line'.state = .empty ∧ line'.references = 0 ∨ line'.state = line.state) :
    Referenced thread .idle cid line' := by
  have counted : line'.references = account (fun _ => FetchThread.holds cid) thread + CreateLine.idle.holds cid := by
    have counted := kept.counted
    simp only [CreateLine.holds, if_true] at counted ⊢
    omega
  have creation' : line'.creation = true ↔ CreateLine.idle = .loading cid := by
    rw [creation, kept.creation]
    simp
  refine ⟨counted, queue ▸ kept.waiting, creation', fun empty => ?_, fun settled => ?_⟩
  · rcases state with ⟨_, none⟩ | same
    · exact none
    · rw [references, kept.unused (same.symm.trans empty)]
  · rcases state with ⟨_, none⟩ | same
    · exact unheld counted (queue ▸ kept.waiting) creation' none
    · rw [queue, creation]
      exact kept.settled (same ▸ settled)

/-- The line is full: those that waited for it have it. -/
theorem fill (kept : Referenced thread createLine cid line) {woken : List TID}
    (members : ∀ t, t ∈ woken ↔ (thread t).WaitsFor cid) (references : line'.references = line.references)
    (queue : line'.waiting.head = none) (creation : line'.creation = false) (state : line'.state = .full) :
    Referenced (fun t => if t ∈ woken then { thread t with state := .active } else thread t)
      (if line.creation then .loaded cid else createLine) cid line' where
  counted := by
    have threads : account (fun _ => FetchThread.holds cid)
        (fun t => if t ∈ woken then { thread t with state := .active } else thread t) =
        account (fun _ => FetchThread.holds cid) thread := by
      refine account_congr fun t => ?_
      split_ifs with member
      · have waits := (members t).mp member
        rw [waits.holds]
        exact if_pos ⟨by simp, waits.2⟩
      · rfl
    have creates : (if line.creation then CreateLine.loaded cid else createLine).holds cid = createLine.holds cid := by
      split_ifs with waits
      · rw [kept.creation.mp waits]
        rfl
      · rfl
    rw [references, kept.counted, threads, creates]
  waiting := by
    refine ⟨[], .nil queue, List.nodup_nil, fun t => ⟨fun member => absurd member List.not_mem_nil, fun waits => ?_⟩⟩
    split_ifs at waits with member
    · exact nomatch waits.1
    · exact absurd ((members t).mpr waits) member
  creation := by
    rw [creation]
    split_ifs with waits
    · simp
    · have idle := kept.creation.not.mp waits
      simpa using idle
  unused := fun empty => nomatch state.symm.trans empty
  settled := fun _ => ⟨queue, creation⟩

/-- Another line is full. -/
theorem frame_fill (kept : Referenced thread createLine other line) (different : cid ≠ other) {woken : List TID}
    (members : ∀ t, t ∈ woken → (thread t).WaitsFor cid) {creates : Bool} (owner : creates → createLine = .loading cid) :
    Referenced (fun t => if t ∈ woken then { thread t with state := .active } else thread t)
      (if creates then .loaded cid else createLine) other line := by
  have same : ∀ t, (if t ∈ woken then { thread t with state := .active } else thread t).WaitsFor other ↔
      (thread t).WaitsFor other := by
    intro t
    split_ifs with member
    · have waits := members t member
      refine ⟨fun active => ?_, fun away => absurd (waits.2.symm.trans away.2) different⟩
      exact nomatch active.1
    · rfl
  have linked : link (fun t => if t ∈ woken then { thread t with state := .active } else thread t) = link thread := by
    funext t
    rw [link, link]
    split_ifs <;> rfl
  refine ⟨?_, ?_, ?_, kept.unused, kept.settled⟩
  · have threads : account (fun _ => FetchThread.holds other)
        (fun t => if t ∈ woken then { thread t with state := .active } else thread t) =
        account (fun _ => FetchThread.holds other) thread := by
      refine account_congr fun t => ?_
      split_ifs with member
      · have waits := members t member
        simp only [FetchThread.holds, waits.2, different, and_false, if_false]
      · rfl
    have creates : (if creates then CreateLine.loaded cid else createLine).holds other = createLine.holds other := by
      split_ifs with waits
      · rw [owner waits]
        rfl
      · rfl
    rw [kept.counted, threads, creates]
  · obtain ⟨items, holds, nodup, listed⟩ := kept.waiting
    exact ⟨items, linked ▸ holds, nodup, fun t => (listed t).trans (same t).symm⟩
  · rw [kept.creation]
    split_ifs with waits
    · rw [owner waits]
      simp [different]
    · rfl

end Referenced

namespace FetchSystem
variable {TID : Type} [Fintype TID] [DecidableEq TID] {s s' : FetchSystem TID} {cid : Nat}

omit [DecidableEq TID] in
/-- All lines agree with their holders. -/
def References (s : FetchSystem TID) : Prop := ∀ cid, Referenced s.thread s.createLine cid (s.cache.lines cid)

section Line
variable {thread : TID → FetchThread TID} {createLine : CreateLine} {lines : Nat → ICache.Line TID} {line : ICache.Line TID}

omit [DecidableEq TID] in
theorem references_update (own : Referenced thread createLine cid line)
    (others : ∀ other ≠ cid, Referenced thread createLine other (lines other)) (other : Nat) :
    Referenced thread createLine other (Function.update lines cid line other) := by
  by_cases same : other = cid
  · subst same
    rwa [Function.update_self]
  · rw [Function.update_of_ne same]
    exact others other same

end Line

/-- The thread joins the line of its fetch. -/
theorem References.activate (kept : s.References) {tid : TID} {address : Addr} (ready : (s.thread tid).state = .ready)
    (taken : s.activate tid address = some s') : s'.References := by
  obtain ⟨fetched, done, rfl⟩ := Option.map_eq_some_iff.mp taken
  cases ICache.fetch_spec done with
  | failed => exact kept
  | @full _ cid found full =>
    refine references_update ((kept cid).take ready rfl rfl full rfl rfl rfl full) fun other different => ?_
    exact (kept other).frame (FetchThread.holds_of_ready ready) (if_neg fun holder => different holder.2.symm)
  | @joined _ cid found loading =>
    refine references_update ((kept cid).join ready rfl rfl rfl loading) fun other different => ?_
    exact (kept other).frame (FetchThread.holds_of_ready ready) (if_neg fun holder => different holder.2.symm)
  | @requested _ cid found room =>
    have free : (s.cache.lines cid).references = 0 := (ICache.findLine_allocate found).2.elim (kept cid).unused id
    obtain ⟨nobody, idle⟩ := (kept cid).free free
    have joined : Referenced (Function.update s.thread tid ⟨.waiting, cid, (s.cache.lines cid).waiting.head⟩) s.createLine cid
        (s.cache.requestedLine (s.cache.align address) cid s.cycleNo (some tid)) := by
      refine (kept cid).join ready ?_ ?_ idle.symm rfl
      · rw [free]
        rfl
      · simp [ICache.ThreadQueue.push, nobody, ICache.requestedLine]
    rw [nobody] at joined
    refine references_update joined fun other different => ?_
    exact (kept other).frame (FetchThread.holds_of_ready ready) (if_neg fun holder => different holder.2.symm)

/-- The family creation holds the line of its fetch. -/
theorem References.create (kept : s.References) {address : Addr} (idle : s.createLine = .idle)
    (taken : s.create address = some s') : s'.References := by
  obtain ⟨fetched, done, rfl⟩ := Option.map_eq_some_iff.mp taken
  have none : ∀ cid, s.createLine.holds cid = 0 := fun cid => by
    rw [idle]
    rfl
  have others : ∀ {cid other : Nat}, other ≠ cid → (if cid = other then 1 else 0) = 0 :=
    fun different => if_neg different.symm
  have kept' : ∀ cid, Referenced s.thread .idle cid (s.cache.lines cid) := fun cid => idle ▸ kept cid
  generalize nobody : (Option.none : Option TID) = client at done
  cases ICache.fetch_spec done with
  | failed => exact kept
  | @full _ cid found full =>
    refine references_update ((kept' cid).take_create full rfl rfl rfl full) fun other different => ?_
    exact (kept other).frame_create (none other) (others different)
  | joined => cases nobody
  | @awaited cid found loading =>
    refine references_update ((kept' cid).join_create rfl rfl rfl loading) fun other different => ?_
    exact (kept other).frame_create (none other) (others different)
  | @requested _ cid found room =>
    cases nobody
    have free : (s.cache.lines cid).references = 0 := (ICache.findLine_allocate found).2.elim (kept cid).unused id
    refine references_update ((kept' cid).join_create ?_ rfl rfl rfl) fun other different => ?_
    · rw [free]
      rfl
    · exact (kept other).frame_create (none other) (others different)

theorem References.release (kept : s.References) {tid : TID} (active : (s.thread tid).state = .active)
    (taken : s.event (.release tid) = some s') : s'.References := by
  obtain ⟨cache, done, rfl⟩ := Option.map_eq_some_iff.mp taken
  obtain ⟨line, rfl, references, queue, creation, _, state⟩ := ICache.releaseCacheLine_spec done
  refine references_update ?_ fun other different => ?_
  · exact (kept _).release active rfl rfl references queue creation (state.imp_left And.right)
  · exact (kept other).frame (if_neg fun holder => different holder.2.symm) (FetchThread.holds_of_ready rfl)

theorem References.created (kept : s.References) (taken : s.created = some s') : s'.References := by
  unfold FetchSystem.created at taken
  split at taken
  · rename_i cid loaded
    obtain ⟨cache, done, rfl⟩ := Option.map_eq_some_iff.mp taken
    obtain ⟨line, rfl, references, queue, creation, _, state⟩ := ICache.releaseCacheLine_spec done
    refine references_update ?_ fun other different => ?_
    · exact (loaded ▸ kept cid).release_create references queue creation (state.imp_left And.right)
    · refine (kept other).frame_create ?_ rfl
      rw [loaded]
      exact if_neg different.symm
  · cases taken

theorem References.readCompleted (kept : s.References) (address : Addr) (data : Nat → Byte) :
    (s.readCompleted address data).References := by
  intro other
  rcases s.cache.onMemoryReadCompleted_spec address data with same | ⟨cid, found, _, changed⟩
  · simp only [FetchSystem.readCompleted, same]
    exact kept other
  · simp only [FetchSystem.readCompleted, changed]
    refine references_update ?_ (fun other _ => kept other) other
    exact (kept cid).set rfl rfl rfl (kept cid).unused id

omit [DecidableEq TID] in
theorem References.snooped (kept : s.References) (address : Addr) (data : Nat → Byte) (mask : Nat → Bool) :
    { s with cache := s.cache.onMemorySnooped address data mask }.References := by
  simp only [ICache.onMemorySnooped]
  split
  · exact kept
  · exact references_update ((kept _).set rfl rfl rfl (kept _).unused id) fun other _ => kept other

theorem References.invalidated (kept : s.References) (address : Addr) (times : Addr → Nat) :
    { s with cache := s.cache.onMemoryInvalidated address, invalidated := times }.References := by
  intro other
  rcases s.cache.onMemoryInvalidated_spec address with same | ⟨cid, state, found, changed, cases⟩
  · simp only [same]
    exact kept other
  · simp only [changed]
    refine references_update ((kept cid).set ?_ ?_ ?_ ?_ ?_) (fun other _ => kept other) other
    · rfl
    · rfl
    · rfl
    · rcases cases with ⟨_, free, _⟩ | rfl
      · exact fun _ => free
      · exact fun impossible => nomatch impossible
    · rcases cases with ⟨full, _, _⟩ | rfl
      · exact fun _ => .inr full
      · rintro (impossible | impossible) <;> cases impossible

/-- The walk over a waiting list meets its threads. -/
theorem queuedThreads_eq {queue : ICache.ThreadQueue TID} {items : List TID} (holds : queue.Holds (link s.thread) items)
    (nodup : items.Nodup) : s.queuedThreads queue = items := by
  cases holds with
  | none => rfl
  | some segment => exact segment.walk_eq nodup nodup.length_le_card

/-- The line in front of the incoming buffer wakes the threads that wait for it. -/
theorem References.woken (kept : s.References) (taken : s.incoming = some s') :
    ∃ cid rest woken, s.cache.incoming = cid :: rest ∧ woken.Nodup ∧ (∀ t, t ∈ woken ↔ (s.thread t).WaitsFor cid) ∧
      s' = { s with
        cache := { s.cache.fill cid with incoming := rest }
        createLine := if (s.cache.lines cid).creation then .loaded cid else s.createLine
        thread := fun t => if t ∈ woken then { s.thread t with state := .active } else s.thread t
        activated := s.activated ++ woken } := by
  unfold incoming at taken
  split at taken
  · cases taken
  · rename_i cid rest pending
    obtain ⟨items, holds, nodup, members⟩ := (kept cid).waiting
    have walked : (if (s.cache.lines cid).waiting.head.isSome then s.queuedThreads (s.cache.lines cid).waiting else []) =
        items := by
      split_ifs with some
      · exact queuedThreads_eq holds nodup
      · exact (holds.head_eq_none.mp (by simpa using some)).symm
    simp only [walked] at taken
    cases taken
    exact ⟨cid, rest, items, pending, nodup, members, rfl⟩

theorem References.incoming (kept : s.References) (taken : s.incoming = some s') : s'.References := by
  obtain ⟨cid, rest, woken, _, _, members, rfl⟩ := kept.woken taken
  refine references_update ((kept cid).fill members ?_ ?_ ?_ ?_) fun other different => ?_
  · split_ifs <;> rfl
  · split_ifs with some
    · rfl
    · simpa using some
  · split_ifs <;> rfl
  · split_ifs <;> rfl
  · exact (kept other).frame_fill different.symm (fun t => (members t).mp) (kept cid).creation.mp

/-- The references are counted at every step that may happen. -/
theorem References.step (kept : s.References) {e : FetchEvent TID} (may : s.MayHappen e) (taken : s.step e = some s') :
    s'.References := by
  obtain ⟨after, done, rfl⟩ := Option.map_eq_some_iff.mp taken
  change after.References
  cases e with
  | activate tid address => exact kept.activate may done
  | create address => exact kept.create may done
  | created => exact kept.created done
  | release tid => exact kept.release may done
  | readCompleted address data =>
    cases done
    exact kept.readCompleted address data
  | snooped address data mask =>
    cases done
    exact kept.snooped address data mask
  | invalidated address =>
    cases done
    exact kept.invalidated address _
  | outgoing =>
    simp only [event] at done
    split at done
    · cases done
    · cases done
      exact kept
  | incoming => exact kept.incoming done
  | tick =>
    cases done
    exact kept

end FetchSystem

end Mgsim.Drisc
