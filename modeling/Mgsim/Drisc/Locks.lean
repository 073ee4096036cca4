import Mgsim.Lib.Run
import Mgsim.Drisc.Waiting

namespace Mgsim.Drisc
open Mgsim.Lib Mgsim.Mmu

/-- A response in the queue and the line that it is about. -/
def Queued (tlb : Tlb) (response : Tlb.Completion) (ref : LineRef) : Prop :=
  if response.present then
    response.tlbLineRef = some ref ∧ response.cid ≠ invalidCid ∧ (tlb.line ref).present = true
  else ref.table = 0

/-- The translation of a line is outstanding: its miss is not answered, or the
data cache has not consumed the answer. -/
def System.Outstanding (s : System) (ref : LineRef) : Prop :=
  (ref.table = 0 ∧ ref.line ∈ s.misses) ∨ ref ∈ s.delivered

/-- The answers that keep the locks in order: the response queue takes them, and a
translation is not for a store, whose response releases nothing. -/
def LockGuard (s : System) : Event → Prop
  | .answer msg => Refuses s.core.tlb msg ∨ (s.core.cache.lookupResponses.HasRoom ∧
      (msg.get .present ≠ 0 → (s.core.tlb.line ⟨0, (msg.get .lineIndex).toNat⟩).dLineRef ≠ invalidCid))
  | _ => True

instance (s : System) (e : Event) : Decidable (LockGuard s e) :=
  match e with
  | .answer msg => inferInstanceAs (Decidable (Refuses s.core.tlb msg ∨ (s.core.cache.lookupResponses.HasRoom ∧
      (msg.get .present ≠ 0 → (s.core.tlb.line ⟨0, (msg.get .lineIndex).toNat⟩).dLineRef ≠ invalidCid))))
  | .read .. | .write .. | .invalidate _ | .property _ | .lookupResponses | .readResponses | .memoryRead ..
  | .snoop .. | .memoryInvalidate _ | .outgoing | .writebacks | .transmit | .endCycle => inferInstanceAs (Decidable True)

/-- The locks are the outstanding translations, each of them once. -/
structure Locks (s : System) : Prop extends Waiting s where
  locked : ∀ ref, s.core.tlb.Inside ref → ((s.core.tlb.line ref).locked = true ↔ s.Outstanding ref)
  delivered : ∀ ref ∈ s.delivered, s.core.tlb.Inside ref
  once : s.delivered.Nodup
  apart : ∀ i ∈ s.misses, (⟨0, i⟩ : LineRef) ∉ s.delivered
  length : s.core.cache.lookupResponses.contents.length = s.delivered.length
  queue : ∀ entry ∈ s.core.cache.lookupResponses.contents.zip s.delivered, Queued s.core.tlb entry.1 entry.2

section Step
variable {s s' : System} {e : Event}

theorem Queued.of_present {tlb tlb' : Tlb} {response : Tlb.Completion} {ref : LineRef}
    (queued : Queued tlb response ref) (kept : (tlb'.line ref).present = (tlb.line ref).present) :
    Queued tlb' response ref := by
  unfold Queued at *
  rwa [kept]

theorem Locks.delivered_locked (locks : Locks s) {ref : LineRef} (member : ref ∈ s.delivered) :
    (s.core.tlb.line ref).locked = true :=
  (locks.locked ref (locks.delivered ref member)).mpr (Or.inr member)

/-- A line without lock is not outstanding. -/
theorem Locks.not_outstanding (locks : Locks s) {ref : LineRef} (inside : s.core.tlb.Inside ref)
    (free : (s.core.tlb.line ref).locked = false) : ¬ s.Outstanding ref := by
  intro outstanding
  rw [(locks.locked ref inside).mpr outstanding] at free
  cases free

/-- Nothing has happened to the locked lines. -/
theorem Locks.of_same (locks : Locks s) (waiting : Waiting s')
    (inside : ∀ ref, s'.core.tlb.Inside ref ↔ s.core.tlb.Inside ref)
    (locked : ∀ ref, (s'.core.tlb.line ref).locked = (s.core.tlb.line ref).locked)
    (present : ∀ ref, (s.core.tlb.line ref).locked = true →
      (s'.core.tlb.line ref).present = (s.core.tlb.line ref).present)
    (queue : s'.core.cache.lookupResponses.contents = s.core.cache.lookupResponses.contents)
    (misses : s'.misses = s.misses) (delivered : s'.delivered = s.delivered) : Locks s' where
  toWaiting := waiting
  locked := by
    intro ref isInside
    rw [locked, System.Outstanding, misses, delivered]
    exact locks.locked ref ((inside ref).mp isInside)
  delivered := by
    intro ref member
    rw [inside]
    exact locks.delivered ref (delivered ▸ member)
  once := delivered ▸ locks.once
  apart := by
    rw [misses, delivered]
    exact locks.apart
  length := by
    rw [queue, delivered]
    exact locks.length
  queue := by
    rw [queue, delivered]
    intro entry member
    have inQueue := (List.of_mem_zip member).2
    exact (locks.queue entry member).of_present (present entry.2 (locks.delivered_locked inQueue))

/-- A miss locks a line that was free. -/
theorem Locks.miss (locks : Locks s) (waiting : Waiting s') {ref : LineRef}
    (changes : s.core.tlb.Changes s'.core.tlb [ref]) (first : ref.table = 0) (inside : s.core.tlb.Inside ref)
    (free : (s.core.tlb.line ref).locked = false) (locked : (s'.core.tlb.line ref).locked = true)
    (queue : s'.core.cache.lookupResponses.contents = s.core.cache.lookupResponses.contents)
    (misses : s'.misses = ref.line :: s.misses) (delivered : s'.delivered = s.delivered) : Locks s' := by
  have fresh := locks.not_outstanding inside free
  have notDelivered : ref ∉ s.delivered := fun member => fresh (Or.inr member)
  refine ⟨waiting, fun other isInside => ?_, ?_, delivered ▸ locks.once, ?_, ?_, ?_⟩
  · rw [System.Outstanding, misses, delivered]
    by_cases same : other = ref
    · subst same
      exact iff_of_true locked (Or.inl ⟨first, List.mem_cons_self⟩)
    · rw [changes.locked other (by simpa using same), locks.locked other (changes.inside.mp isInside),
        System.Outstanding]
      have different : other.table = 0 → other.line ≠ ref.line := by
        intro table line
        exact same (by cases other; cases ref; simp_all)
      constructor
      · rintro (⟨table, member⟩ | member)
        · exact Or.inl ⟨table, List.mem_cons_of_mem _ member⟩
        · exact Or.inr member
      · rintro (⟨table, member⟩ | member)
        · exact Or.inl ⟨table, (List.mem_cons.mp member).resolve_left (different table)⟩
        · exact Or.inr member
  · intro other member
    rw [changes.inside]
    exact locks.delivered other (delivered ▸ member)
  · rw [misses, delivered]
    intro i member
    rcases List.mem_cons.mp member with rfl | old
    · have same : (⟨0, ref.line⟩ : LineRef) = ref := by rw [← first]
      rwa [same]
    · exact locks.apart i old
  · rw [queue, delivered]
    exact locks.length
  · rw [queue, delivered]
    intro entry member
    have inQueue := (List.of_mem_zip member).2
    have other : entry.2 ∉ [ref] := by
      intro same
      rw [List.mem_singleton.mp same] at inQueue
      exact notDelivered inQueue
    exact (locks.queue entry member).of_present (changes.kept _ other (locks.delivered_locked inQueue)).1

/-- An answer hands the lock of a miss on to a queued response, for the
answered line itself or for a line above table 0 that was free. -/
theorem Locks.answer (locks : Locks s) (waiting : Waiting s') {i : Nat} (ref : LineRef) {response : Tlb.Completion}
    (miss : i ∈ s.misses) (changes : s.core.tlb.Changes s'.core.tlb [⟨0, i⟩, ref]) (inside : s.core.tlb.Inside ref)
    (moved : (ref = ⟨0, i⟩ ∧ (s'.core.tlb.line ref).locked = true) ∨
      (ref.table ≠ 0 ∧ (s.core.tlb.line ref).locked = false ∧ (s'.core.tlb.line ref).locked = true ∧
        (s'.core.tlb.line ⟨0, i⟩).locked = false))
    (queued : Queued s'.core.tlb response ref)
    (queue : s'.core.cache.lookupResponses.contents = s.core.cache.lookupResponses.contents ++ [response])
    (misses : s'.misses = s.misses.erase i) (delivered : s'.delivered = s.delivered ++ [ref]) : Locks s' := by
  have answered := locks.apart i miss
  have gone : i ∉ s.misses.erase i := locks.nodup.not_mem_erase
  have fresh : ref ∉ s.delivered := by
    rcases moved with ⟨rfl, _⟩ | ⟨_, free, _⟩
    · exact answered
    · exact fun member => locks.not_outstanding inside free (Or.inr member)
  have now : (s'.core.tlb.line ref).locked = true := by
    rcases moved with ⟨_, now⟩ | ⟨_, _, now, _⟩
    · exact now
    · exact now
  refine ⟨waiting, fun other isInside => ?_, ?_, ?_, ?_, ?_, ?_⟩
  · rw [System.Outstanding, misses, delivered]
    by_cases same : other = ref
    · subst same
      exact iff_of_true now (Or.inr (by simp))
    by_cases own : other = ⟨0, i⟩
    · subst own
      rcases moved with ⟨rfl, _⟩ | ⟨_, _, _, released⟩
      · exact absurd rfl same
      · refine iff_of_false (by simp [released]) ?_
        rintro (⟨_, member⟩ | member)
        · exact gone member
        · rcases List.mem_append.mp member with old | last
          · exact answered old
          · exact same (List.mem_singleton.mp last)
    · rw [changes.locked other (by simp [same, own]), locks.locked other (changes.inside.mp isInside),
        System.Outstanding]
      have different : other.table = 0 → other.line ≠ i := by
        intro table line
        exact own (by cases other; simp_all)
      constructor
      · rintro (⟨table, member⟩ | member)
        · exact Or.inl ⟨table, (List.mem_erase_of_ne (different table)).mpr member⟩
        · exact Or.inr (List.mem_append_left _ member)
      · rintro (⟨table, member⟩ | member)
        · exact Or.inl ⟨table, List.mem_of_mem_erase member⟩
        · exact Or.inr ((List.mem_append.mp member).resolve_right fun last => same (List.mem_singleton.mp last))
  · intro other member
    rw [changes.inside]
    rw [delivered] at member
    rcases List.mem_append.mp member with old | last
    · exact locks.delivered other old
    · rw [List.mem_singleton.mp last]
      exact inside
  · rw [delivered]
    exact List.nodup_append'.mpr ⟨locks.once, List.nodup_singleton _, by simpa using fresh⟩
  · rw [misses, delivered]
    intro j member last
    have old : j ∈ s.misses := List.mem_of_mem_erase member
    rcases List.mem_append.mp last with earlier | new
    · exact locks.apart j old earlier
    · rw [List.mem_singleton] at new
      rcases moved with ⟨same, _⟩ | ⟨other, _⟩
      · rw [same] at new
        cases new
        exact gone member
      · exact other (by rw [← new])
  · rw [queue, delivered, List.length_append, List.length_append, locks.length]
    rfl
  · rw [queue, delivered, List.zip_append locks.length]
    intro entry member
    rcases List.mem_append.mp member with old | new
    · have inQueue := (List.of_mem_zip old).2
      have other : entry.2 ∉ ([⟨0, i⟩, ref] : List LineRef) := by
        intro same
        rcases List.mem_pair.mp same with own | own
        · rw [own] at inQueue
          exact answered inQueue
        · rw [own] at inQueue
          exact fresh inQueue
      exact (locks.queue entry old).of_present (changes.kept _ other (locks.delivered_locked inQueue)).1
    · rw [List.zip_cons_cons, List.zip_nil_left, List.mem_singleton] at new
      rw [new]
      exact queued

/-- The data cache consumes the response at the front and releases its line. -/
theorem Locks.consume (locks : Locks s) (waiting : Waiting s') {ref : LineRef} {response : Tlb.Completion}
    {rest : List LineRef} (front : s.delivered = ref :: rest)
    (changes : s.core.tlb.Changes s'.core.tlb [ref]) (released : (s'.core.tlb.line ref).locked = false)
    (queue : s.core.cache.lookupResponses.contents = response :: s'.core.cache.lookupResponses.contents)
    (misses : s'.misses = s.misses) (delivered : s'.delivered = rest) : Locks s' := by
  have once := locks.once
  rw [front, List.nodup_cons] at once
  have member : ref ∈ s.delivered := by
    rw [front]
    exact List.mem_cons_self
  have apart : ∀ i ∈ s.misses, (⟨0, i⟩ : LineRef) ∉ s.delivered := locks.apart
  refine ⟨waiting, fun other isInside => ?_, ?_, delivered ▸ once.2, ?_, ?_, ?_⟩
  · rw [System.Outstanding, misses, delivered]
    by_cases same : other = ref
    · subst same
      refine iff_of_false (by simp [released]) ?_
      rintro (⟨table, miss⟩ | later)
      · refine apart other.line miss ?_
        have own : (⟨0, other.line⟩ : LineRef) = other := by rw [← table]
        rwa [own]
      · exact once.1 later
    · rw [changes.locked other (by simpa using same), locks.locked other (changes.inside.mp isInside),
        System.Outstanding, front, List.mem_cons]
      simp only [same, false_or]
  · intro other later
    rw [changes.inside]
    rw [delivered] at later
    refine locks.delivered other ?_
    rw [front]
    exact List.mem_cons_of_mem _ later
  · rw [misses, delivered]
    intro i miss later
    refine apart i miss ?_
    rw [front]
    exact List.mem_cons_of_mem _ later
  · have length := locks.length
    rw [queue, front, List.length_cons, List.length_cons] at length
    rw [delivered]
    omega
  · rw [delivered]
    intro entry old
    have before := locks.queue entry
    rw [queue, front, List.zip_cons_cons] at before
    have inQueue := (List.of_mem_zip old).2
    have other : entry.2 ∉ [ref] := by
      intro same
      rw [List.mem_singleton.mp same] at inQueue
      exact once.1 inQueue
    have locked : (s.core.tlb.line entry.2).locked = true := by
      refine locks.delivered_locked ?_
      rw [front]
      exact List.mem_cons_of_mem _ inQueue
    exact (before (List.mem_cons_of_mem _ old)).of_present (changes.kept _ other locked).1

/-- With room in the queue a resolved miss has left its response there. -/
theorem queue_of_room {response : Tlb.Completion} {line : Nat}
    (room : s.core.cache.lookupResponses.HasRoom)
    (after : s'.core.cache.lookupResponses = (s.core.cache.onTlbLookupCompleted response).2.lookupResponses)
    (same : s' = s.resolve s'.core line response) :
    s'.core.cache.lookupResponses.contents = s.core.cache.lookupResponses.contents ++ [response] ∧
      s'.delivered = s.delivered ++ [response.tlbLineRef.getD ⟨0, line⟩] := by
  obtain ⟨buffer, pushed, contents⟩ := room.push response
  have delivered := congrArg System.delivered same
  simp only [DCache.onTlbLookupCompleted, pushed] at after
  simp only [System.resolve, DCache.onTlbLookupCompleted, pushed, if_true] at delivered
  rw [after]
  exact ⟨contents, delivered⟩

/-- An answer that meets the guard. -/
theorem Locks.stored (locks : Locks s) (waiting : Waiting s') {msg : MgtMsg} {response : Tlb.Completion} {tlb : Tlb}
    (allowed : LockGuard s (.answer msg)) (wanted : (msg.get .lineIndex).toNat ∈ s.misses)
    (stored : s.core.tlb.Stored msg (response, tlb)) (newTlb : s'.core.tlb = tlb)
    (after : s'.core.cache.lookupResponses = (s.core.cache.onTlbLookupCompleted response).2.lookupResponses)
    (same : s' = s.resolve s'.core (msg.get .lineIndex).toNat response) : Locks s' := by
  obtain ⟨room, notStore⟩ := allowed.resolve_left (stored_not_refused stored)
  obtain ⟨queue, delivered⟩ := queue_of_room room after same
  have misses : s'.misses = s.misses.erase (msg.get .lineIndex).toNat := congrArg System.misses same
  have inside := locks.inside _ wanted
  have pending := locks.pending _ wanted
  cases stored with
  | notPresent _ _ _ =>
    refine locks.answer waiting _ wanted (.of_eq (by rw [newTlb]) (by rw [newTlb])) inside (Or.inl ⟨rfl, ?_⟩) ?_
      queue misses delivered
    · rw [newTlb]
      exact pending.2
    · rfl
  | @filled line present _ _ atLine =>
    subst atLine
    refine locks.answer waiting _ wanted ?_ inside (Or.inl ⟨rfl, ?_⟩) ?_ queue misses delivered
    · rw [newTlb]
      exact Tlb.changes_setLine (by simp)
    · rw [newTlb, Tlb.line_setLine_self]
      exact pending.2
    · refine (if_pos rfl).mpr ⟨rfl, notStore present, ?_⟩
      rw [newTlb, Tlb.line_setLine_self]
  | @moved line victim tableId i present _ other inRange _ atLine place atVictim free =>
    subst atLine atVictim
    have lines : (⟨0, (msg.get .lineIndex).toNat⟩ : LineRef) ≠ ⟨tableId, i⟩ := by
      intro equal
      exact other (congrArg LineRef.table equal).symm
    have insideMoved : s.core.tlb.Inside ⟨tableId, i⟩ := by
      refine ⟨inRange, ?_⟩
      rw [place]
      exact (locks.wf.tables tableId inRange).pickDestination_lt
    refine locks.answer waiting ⟨tableId, i⟩ wanted ?_ insideMoved (Or.inr ⟨other, free, ?_, ?_⟩) ?_ queue
      misses delivered
    · rw [newTlb]
      exact (Tlb.changes_setLine (by simp)).trans (Tlb.changes_setLine (by simp))
    · rw [newTlb, Tlb.line_setLine_ne lines.symm, Tlb.line_setLine_self]
    · rw [newTlb, Tlb.line_setLine_self]
    · refine (if_pos rfl).mpr ⟨rfl, notStore present, ?_⟩
      rw [newTlb, Tlb.line_setLine_ne lines.symm, Tlb.line_setLine_self]

/-- What the data cache consumes is the answer at the front, and the line it
releases is the line of this answer. -/
theorem Locks.consumed (locks : Locks s) (waiting : Waiting s') (consumed : s.core.Consumed (.success, s'.core))
    (misses : s'.misses = s.misses) (delivered : s'.delivered = s.delivered.tail) : Locks s' := by
  have length := locks.length
  have entries := locks.queue
  cases front : s.delivered with
  | nil =>
    rw [front] at length
    cases consumed with
    | store contents _ _ _ => simp [contents] at length
    | load contents _ _ _ _ _ _ => simp [contents] at length
  | cons ref rest =>
    rw [front] at delivered
    cases consumed with
    | @store _ response contents present magic _ =>
      have head := entries (response, ref) (by simp [contents, front])
      rw [Queued, if_pos present] at head
      exact absurd magic head.2.1
    | @load _ response at_ contents present _ released _ _ sameTlb =>
      have head := entries (response, ref) (by simp [contents, front])
      rw [Queued, if_pos present] at head
      cases Option.some.inj (head.1.symm.trans released)
      refine locks.consume waiting front ?_ ?_ contents misses delivered
      · rw [sameTlb]
        exact Tlb.changes_setLine List.mem_cons_self
      · rw [sameTlb, Tlb.line_setLine_self]

theorem Locks.effect (locks : Locks s) (allowed : LockGuard s e) (effect : Effect s e s') : Locks s' := by
  have waiting := locks.toWaiting.effect effect
  cases effect with
  | quiet changes queue misses delivered _ _ =>
    exact locks.of_same waiting (fun _ => changes.inside) (fun ref => changes.locked ref (by simp))
      (fun ref locked => (changes.kept ref (by simp) locked).1) queue misses delivered
  | missed changes first inside free _ locked _ queue misses delivered _ _ =>
    exact locks.miss waiting changes first (inside locks.wf locks.nonempty) free locked queue misses delivered
  | @joined ref _ changes absent locked absent' locked' _ _ queue misses delivered _ _ =>
    refine locks.of_same waiting (fun _ => changes.inside) (fun other => ?_) (fun other before => ?_) queue misses delivered
    · by_cases same : other = ref
      · rw [same, locked, locked']
      · exact changes.locked other (by simpa using same)
    · by_cases same : other = ref
      · rw [same, absent, absent']
      · exact (changes.kept other (by simpa using same) before).1
  | answered event wanted stored after queue same =>
    subst event
    exact locks.stored waiting allowed wanted stored after queue same
  | consumed consumed misses delivered _ _ =>
    exact locks.consumed waiting consumed misses delivered

theorem Locks.step (locks : Locks s) (allowed : LockGuard s e) (taken : s.step e = some s') : Locks s' :=
  locks.effect allowed (System.step_effect taken)

end Step

theorem Fresh.locks {core : Core} (fresh : Fresh core) : Locks (.initial core) where
  toWaiting := fresh.waiting
  locked := by
    intro ref inside
    refine iff_of_false (by simp [System.initial, fresh.unlocked inside.1]) ?_
    rintro (⟨_, member⟩ | member)
    · cases member
    · cases member
  delivered := by simp [System.initial]
  once := List.nodup_nil
  apart := by simp [System.initial]
  length := by simp [System.initial, fresh.queue]
  queue := by simp [System.initial]

theorem locks_of_run {core : Core} {events : List Event} {s : System} (fresh : Fresh core)
    (run : Run System.step LockGuard (.initial core) events s) : Locks s :=
  run.invariant fresh.locks fun _ _ _ locks allowed taken => locks.step allowed taken

/-- What the locks promise in a state: they match the outstanding translations,
which no line has twice; the consumed answer releases its line, and `getLine`
accepts it; and without outstanding translations no lock is in the way. -/
structure LockDiscipline (s : System) : Prop where
  locked : ∀ ref, s.core.tlb.Inside ref → ((s.core.tlb.line ref).locked = true ↔ s.Outstanding ref)
  once : s.misses.Nodup ∧ s.delivered.Nodup ∧ ∀ i ∈ s.misses, (⟨0, i⟩ : LineRef) ∉ s.delivered
  released : ∀ ref rest s', s.delivered = ref :: rest → s.step .lookupResponses = some s' → s'.delivered = rest →
    (s.core.tlb.line ref).locked = true ∧ (s'.core.tlb.line ref).locked = false
  getLine : ∀ response ∈ s.core.cache.lookupResponses.contents, response.present = true →
    ∃ ref out, response.tlbLineRef = some ref ∧ s.core.tlb.getLine ref = .ok out
  idle : s.misses = [] → s.delivered = [] →
    (∀ contextId vAddr, (s.core.tlb.tables 0).storePending contextId vAddr ≠ none) ∧
      ∀ msg, Tlb.KnownFilter msg → ∃ tlb, s.core.tlb.onInvalidateMsg msg = .ok tlb

theorem Locks.unlocked_of_idle {s : System} (locks : Locks s) (misses : s.misses = []) (delivered : s.delivered = [])
    {ref : LineRef} (inside : s.core.tlb.Inside ref) : (s.core.tlb.line ref).locked = false := by
  by_contra locked
  rw [Bool.not_eq_false, locks.locked ref inside, System.Outstanding, misses, delivered] at locked
  rcases locked with ⟨_, member⟩ | member
  · cases member
  · cases member

theorem Locks.released {s s' : System} (locks : Locks s) (taken : s.step .lookupResponses = some s')
    {ref : LineRef} {rest : List LineRef} (front : s.delivered = ref :: rest) (delivered : s'.delivered = rest) :
    (s.core.tlb.line ref).locked = true ∧ (s'.core.tlb.line ref).locked = false := by
  have allowed : LockGuard s .lookupResponses := trivial
  have after := locks.step allowed taken
  have member : ref ∈ s.delivered := by
    rw [front]
    exact List.mem_cons_self
  have once := locks.once
  rw [front, List.nodup_cons] at once
  have inside := locks.delivered ref member
  have misses : s'.misses = s.misses ∧ s'.core.tlb.Inside ref := by
    cases System.step_effect taken with
    | quiet changes _ _ same _ _ =>
      rw [same, front] at delivered
      exact absurd (congrArg List.length delivered) (by simp)
    | missed _ _ _ _ _ _ _ _ _ same _ _ =>
      rw [same, front] at delivered
      exact absurd (congrArg List.length delivered) (by simp)
    | joined _ _ _ _ _ _ _ _ misses same _ _ =>
      rw [same, front] at delivered
      exact absurd (congrArg List.length delivered) (by simp)
    | answered event _ _ _ _ _ => cases event
    | consumed consumed misses _ _ _ =>
      refine ⟨misses, ?_⟩
      cases consumed with
      | store _ _ _ same => rwa [same]
      | @load _ _ taken _ _ _ _ _ _ same =>
        rw [same]
        exact (@Tlb.changes_setLine _ [taken] _ _ List.mem_cons_self).inside.mpr inside
  refine ⟨locks.delivered_locked member, ?_⟩
  by_contra locked
  rw [Bool.not_eq_false, after.locked ref misses.2, System.Outstanding, misses.1, delivered] at locked
  rcases locked with ⟨table, miss⟩ | later
  · have own : (⟨0, ref.line⟩ : LineRef) = ref := by rw [← table]
    refine locks.apart ref.line miss ?_
    rwa [own]
  · exact once.1 later

/-- A response for a present page is for a line that `getLine` accepts. -/
theorem Locks.getLine_isOk {s : System} (locks : Locks s) {response : Tlb.Completion}
    (member : response ∈ s.core.cache.lookupResponses.contents) (present : response.present = true) :
    ∃ ref out, response.tlbLineRef = some ref ∧ s.core.tlb.getLine ref = .ok out := by
  obtain ⟨i, bound, rfl⟩ := List.getElem_of_mem member
  have inside : i < s.delivered.length := locks.length ▸ bound
  have entry : (s.core.cache.lookupResponses.contents[i], s.delivered[i]) ∈
      s.core.cache.lookupResponses.contents.zip s.delivered := by
    rw [List.mem_iff_getElem]
    exact ⟨i, by simpa using ⟨bound, inside⟩, List.getElem_zip⟩
  have queued := locks.queue _ entry
  rw [Queued, if_pos present] at queued
  have locked := locks.delivered_locked (List.getElem_mem inside)
  obtain ⟨out, accepted⟩ := Tlb.getLine_isOk locked queued.2.2
  exact ⟨_, out, queued.1, accepted⟩

theorem Locks.discipline {s : System} (locks : Locks s) : LockDiscipline s where
  locked := locks.locked
  once := ⟨locks.nodup, locks.once, locks.apart⟩
  released := fun _ _ _ front taken delivered => locks.released taken front delivered
  getLine := fun _ member present => locks.getLine_isOk member present
  idle := by
    intro misses delivered
    have unlocked : ∀ ref, s.core.tlb.Inside ref → (s.core.tlb.line ref).locked = false :=
      fun _ inside => locks.unlocked_of_idle misses delivered inside
    refine ⟨fun contextId vAddr refused => ?_, fun msg known => Tlb.onInvalidateMsg_isOk known unlocked⟩
    have victim := unlocked ⟨0, (s.core.tlb.tables 0).pickDestination⟩
      ⟨locks.nonempty, (locks.wf.tables 0 locks.nonempty).pickDestination_lt⟩
    rw [Tlb.line] at victim
    simp [Table.storePending, victim] at refused

/-- In every run whose answers find room in the response queue, and bring no
page for which a store was the last to wait, the locks keep their discipline. -/
theorem lock_while_outstanding {core : Core} {events : List Event} {s : System} (fresh : Fresh core)
    (run : Run System.step LockGuard (.initial core) events s) : LockDiscipline s :=
  (locks_of_run fresh run).discipline

section Stale

/-- The refill of the first miss, a page that can be read, and the step of the
data cache that consumes its response. -/
def refillAndConsume : List Event := [.answer (Tlb.refillMsg 0 2 0x300000), .endCycle, .lookupResponses]

def loadAndRefill : List Event :=
  [.property Tlb.enableMsg, .read 0 0x200000000 8 none] ++ refillAndConsume

def storeAndRefill : List Event :=
  [.property Tlb.enableMsg, .write 0 0 0x200000000 [1] 0] ++ refillAndConsume

theorem lock_while_outstanding_load :
    ∃ core s, defaultCore = .ok core ∧ execute System.step (.initial core) loadAndRefill = some s ∧ LockDiscipline s := by
  have whole : (defaultCore.toOption.bind fun core =>
      (execute (checked (fun s e => decide (LockGuard s e)) System.step) (.initial core) loadAndRefill).map
        fun _ => ()) = some () := by
    decide +kernel
  cases started : defaultCore with
  | error fault =>
    rw [started] at whole
    cases whole
  | ok core =>
    rw [started] at whole
    obtain ⟨s, done, _⟩ := Option.map_eq_some_iff.mp whole
    have run : Run System.step LockGuard (.initial core) loadAndRefill s :=
      run_of_checked (fun _ _ => of_decide_eq_true) done
    exact ⟨core, s, rfl, execute_of_run run, lock_while_outstanding (fresh_of_defaultCore started) run⟩

/-- The store has left its line locked, and the next invalidation throws. -/
theorem stale_lock_of_store :
    (defaultCore.toOption.bind fun core => (execute System.step (.initial core) storeAndRefill).map fun s =>
      ((s.misses, s.delivered), s.core.cache.lookupResponses.contents, (s.core.tlb.line ⟨0, 0⟩).locked,
        (s.core.tlb.onInvalidateMsg ⟨0, 0⟩).map fun _ => ())) =
      some (([], []), [], true, .error (.domainError "Attempt to invalidate locked TLB line")) := by
  decide +kernel

end Stale

end Mgsim.Drisc
