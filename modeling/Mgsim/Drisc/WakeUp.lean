import Mgsim.Lib.Run
import Mgsim.Drisc.Waiting

namespace Mgsim.Drisc
open Mgsim.Lib Mgsim.Mmu

/-- The accesses of which none joins another on a pending page, unless a store
repeats itself, and the answers for which the response queue has room. -/
def WakeGuard (s : System) : Event → Prop
  | .read contextId address _ _ => s.core.HasLine address → ∀ ref, ¬ s.PendingAt contextId address ref
  | .write id contextId address _ _ => ∀ ref, s.PendingAt contextId address ref → s.waiters ref.line = [.store id]
  | .answer msg => Refuses s.core.tlb msg ∨ s.core.cache.lookupResponses.HasRoom
  | _ => True

/-- The pending lines refer to the one waiter of their page. -/
structure Parking (s : System) : Prop extends Waiting s where
  alone : ∀ i ∈ s.misses, ∃ waiter, s.waiters i = [waiter] ∧ (s.core.tlb.line ⟨0, i⟩).dLineRef = waiter.cid
  empty : ∀ i ∉ s.misses, s.waiters i = []
  notified : ∀ resolution ∈ s.log, resolution.notified = resolution.waiters.map Waiter.cid

section Step
variable {s s' : System} {e : Event}

/-- Nothing has happened to the pending lines and their waiters. -/
theorem Parking.of_same (parking : Parking s) (waiting : Waiting s')
    (reference : ∀ i ∈ s.misses, (s'.core.tlb.line ⟨0, i⟩).dLineRef = (s.core.tlb.line ⟨0, i⟩).dLineRef)
    (misses : s'.misses = s.misses) (waiters : s'.waiters = s.waiters) (log : s'.log = s.log) : Parking s' := by
  refine ⟨waiting, fun i member => ?_, fun i absent => ?_, ?_⟩
  · rw [misses] at member
    rw [waiters, reference i member]
    exact parking.alone i member
  · rw [misses] at absent
    rw [waiters]
    exact parking.empty i absent
  · rw [log]
    exact parking.notified

/-- A line with a miss keeps its reference when another line changes. -/
theorem Parking.reference (parking : Parking s) {refs : List LineRef} (changes : s.core.tlb.Changes s'.core.tlb refs)
    {i : Nat} (member : i ∈ s.misses) (outside : (⟨0, i⟩ : LineRef) ∉ refs) :
    (s'.core.tlb.line ⟨0, i⟩).dLineRef = (s.core.tlb.line ⟨0, i⟩).dLineRef :=
  (changes.kept _ outside (parking.pending i member).2).2

theorem Parking.missed (parking : Parking s) (waiting : Waiting s') {i : Nat} {waiter : Waiter}
    (changes : s.core.tlb.Changes s'.core.tlb [⟨0, i⟩]) (free : (s.core.tlb.line ⟨0, i⟩).locked = false)
    (reference : (s'.core.tlb.line ⟨0, i⟩).dLineRef = waiter.cid) (misses : s'.misses = i :: s.misses)
    (waiters : s'.waiters = Function.update s.waiters i [waiter]) (log : s'.log = s.log) : Parking s' := by
  have fresh := parking.not_mem_misses free
  refine ⟨waiting, fun j member => ?_, fun j absent => ?_, ?_⟩
  · rw [misses] at member
    rcases List.mem_cons.mp member with rfl | old
    · exact ⟨waiter, by rw [waiters, Function.update_self], reference⟩
    · have different : j ≠ i := by
        rintro rfl
        exact fresh old
      rw [waiters, Function.update_of_ne different, parking.reference changes old (by simpa using different)]
      exact parking.alone j old
  · rw [misses, List.mem_cons, not_or] at absent
    rw [waiters, Function.update_of_ne absent.1]
    exact parking.empty j absent.2
  · rw [log]
    exact parking.notified

/-- A store joins the page on which it waits already. -/
theorem Parking.repeated (parking : Parking s) (waiting : Waiting s') {i : Nat} {waiter : Waiter}
    (changes : s.core.tlb.Changes s'.core.tlb [⟨0, i⟩]) (own : s.waiters i = [waiter])
    (reference : (s'.core.tlb.line ⟨0, i⟩).dLineRef = waiter.cid) (misses : s'.misses = s.misses)
    (waiters : s'.waiters = s.waiters) (log : s'.log = s.log) : Parking s' := by
  refine ⟨waiting, fun j member => ?_, fun j absent => ?_, ?_⟩
  · rw [misses] at member
    by_cases same : j = i
    · subst same
      exact ⟨waiter, by rw [waiters, own], reference⟩
    · rw [waiters, parking.reference changes member (by simpa using same)]
      exact parking.alone j member
  · rw [misses] at absent
    rw [waiters]
    exact parking.empty j absent
  · rw [log]
    exact parking.notified

/-- With room in the queue an answer notifies the waiters of its page. -/
theorem Parking.resolution (parking : Parking s) {i : Nat} {response : Tlb.Completion}
    (room : s.core.cache.lookupResponses.HasRoom) (wanted : i ∈ s.misses)
    (reference : response.cid = (s.core.tlb.line ⟨0, i⟩).dLineRef) (same : s' = s.resolve s'.core i response) :
    s'.log = s.log ++ [⟨s.waiters i, (s.waiters i).map Waiter.cid⟩] := by
  obtain ⟨waiter, alone, refers⟩ := parking.alone i wanted
  obtain ⟨buffer, pushed, _⟩ := room.push response
  have log := congrArg System.log same
  simp only [System.resolve, DCache.onTlbLookupCompleted, pushed, if_true] at log
  rw [log, reference, refers, alone]
  rfl

theorem Parking.answered (parking : Parking s) (waiting : Waiting s') {msg : MgtMsg} {response : Tlb.Completion}
    (room : s.core.cache.lookupResponses.HasRoom) (wanted : (msg.get .lineIndex).toNat ∈ s.misses)
    (stored : s.core.tlb.Stored msg (response, s'.core.tlb))
    (same : s' = s.resolve s'.core (msg.get .lineIndex).toNat response) : Parking s' := by
  have misses : s'.misses = s.misses.erase (msg.get .lineIndex).toNat := congrArg System.misses same
  have waiters : s'.waiters = Function.update s.waiters (msg.get .lineIndex).toNat [] := congrArg System.waiters same
  have log := parking.resolution room wanted (stored_pending stored).2 same
  obtain ⟨refs, changes, touched⟩ := stored_changes stored
  refine ⟨waiting, fun j member => ?_, fun j absent => ?_, fun resolution member => ?_⟩
  · rw [misses, parking.nodup.mem_erase_iff] at member
    have outside : (⟨0, j⟩ : LineRef) ∉ refs := by
      intro inRefs
      rcases touched _ inRefs with own | ⟨other, _⟩
      · exact member.1 (congrArg LineRef.line own)
      · exact other rfl
    rw [waiters, Function.update_of_ne member.1, parking.reference changes member.2 outside]
    exact parking.alone j member.2
  · rw [waiters]
    by_cases own : j = (msg.get .lineIndex).toNat
    · rw [own, Function.update_self]
    · rw [Function.update_of_ne own]
      rw [misses, List.mem_erase_of_ne own] at absent
      exact parking.empty j absent
  · rw [log] at member
    rcases List.mem_append.mp member with old | last
    · exact parking.notified resolution old
    · rw [List.mem_singleton.mp last]

theorem Parking.effect (parking : Parking s) (allowed : WakeGuard s e) (effect : Effect s e s') : Parking s' := by
  have waiting := parking.toWaiting.effect effect
  cases effect with
  | quiet changes _ misses _ waiters log =>
    exact parking.of_same waiting (fun i member => parking.reference changes member (by simp)) misses waiters log
  | @missed ref waiter changes first _ free _ _ reference _ misses _ waiters log =>
    obtain ⟨table, line⟩ := ref
    dsimp only at first
    subst first
    exact parking.missed waiting changes free reference misses waiters log
  | @joined ref waiter changes _ _ _ _ reference found _ misses _ waiters log =>
    obtain ⟨contextId, address, found, event⟩ := found
    have table := parking.pendingAt_table found
    obtain ⟨_, line⟩ := ref
    dsimp only at table
    subst table
    rcases event with ⟨hasLine, size, reg, rfl⟩ | ⟨id, data, tid, rfl, rfl⟩
    · exact absurd found (allowed hasLine _)
    · have own := allowed _ found
      refine parking.repeated waiting changes own reference misses ?_ log
      rw [waiters, if_pos (by rw [own]; exact List.mem_cons_self), Function.update_eq_self]
  | answered event wanted stored after _ same =>
    subst event
    have room := allowed.resolve_left (stored_not_refused stored)
    rw [← after] at stored
    exact parking.answered waiting room wanted stored same
  | consumed consumed misses _ waiters log =>
    refine parking.of_same waiting (fun i member => ?_) misses waiters log
    cases consumed with
    | store _ _ _ same => rw [same]
    | @load _ _ ref _ _ _ _ _ present same =>
      have other : (⟨0, i⟩ : LineRef) ≠ ref := by
        rintro rfl
        rw [(parking.pending i member).1] at present
        cases present
      rw [same, Tlb.line_setLine_ne other]

theorem Parking.step (parking : Parking s) (allowed : WakeGuard s e) (taken : s.step e = some s') : Parking s' :=
  parking.effect allowed (System.step_effect taken)

/-- A waiter stays until the answer for its page, which notifies it. -/
theorem Parking.kept (parking : Parking s) (allowed : WakeGuard s e) (effect : Effect s e s') {i : Nat}
    {waiter : Waiter} (member : waiter ∈ s.waiters i) :
    waiter ∈ s'.waiters i ∨
      (s'.waiters i = [] ∧ s'.log = s.log ++ [⟨s.waiters i, (s.waiters i).map Waiter.cid⟩]) := by
  cases effect with
  | quiet _ _ _ _ waiters _ =>
    left
    rwa [waiters]
  | @missed ref _ _ first _ free _ _ _ _ _ _ waiters _ =>
    have other : i ≠ ref.line := by
      rintro rfl
      have own : (⟨0, ref.line⟩ : LineRef) = ref := by rw [← first]
      rw [parking.empty _ (parking.not_mem_misses (by rw [own]; exact free))] at member
      cases member
    left
    rwa [waiters, Function.update_of_ne other]
  | @joined ref _ _ _ _ _ _ _ _ _ _ _ waiters _ =>
    left
    rw [waiters]
    by_cases same : i = ref.line
    · subst same
      rw [Function.update_self]
      split
      · exact member
      · exact List.mem_append_left _ member
    · rwa [Function.update_of_ne same]
  | @answered msg response tlb event wanted stored _ _ same =>
    subst event
    have waiters : s'.waiters = Function.update s.waiters (msg.get .lineIndex).toNat [] := congrArg System.waiters same
    by_cases own : i = (msg.get .lineIndex).toNat
    · right
      subst own
      have room := allowed.resolve_left (stored_not_refused stored)
      exact ⟨by rw [waiters, Function.update_self],
        parking.resolution room wanted (stored_pending stored).2 same⟩
    · left
      rwa [waiters, Function.update_of_ne own]
  | consumed _ _ _ waiters _ =>
    left
    rwa [waiters]

end Step

theorem Fresh.parking {core : Core} (fresh : Fresh core) : Parking (.initial core) where
  toWaiting := fresh.waiting
  alone := by simp [System.initial]
  empty := by simp [System.initial]
  notified := by simp [System.initial]

theorem parking_of_run {core : Core} {events : List Event} {s : System} (fresh : Fresh core)
    (run : Run System.step WakeGuard (.initial core) events s) : Parking s :=
  run.invariant fresh.parking fun _ _ _ parking allowed taken => parking.step allowed taken

/-- What the wake-ups promise in a state: the page of a waiter is pending and
refers to it, no step loses a waiter before the answer for its page, and every
answer has notified each of its waiters once. -/
structure WakesOnce (s : System) : Prop where
  pending : ∀ i waiter, waiter ∈ s.waiters i → i ∈ s.misses ∧ (s.core.tlb.tables 0).IsPending i ∧
    (s.core.tlb.line ⟨0, i⟩).dLineRef = waiter.cid
  kept : ∀ e s', WakeGuard s e → s.step e = some s' → ∀ i waiter, waiter ∈ s.waiters i →
    waiter ∈ s'.waiters i ∨
      (s'.waiters i = [] ∧ s'.log = s.log ++ [⟨s.waiters i, (s.waiters i).map Waiter.cid⟩])
  notified : ∀ resolution ∈ s.log, resolution.notified = resolution.waiters.map Waiter.cid

/-- In every run whose accesses do not join another access on its pending page,
and whose answers find room in the response queue, no wake-up is lost. -/
theorem wakes_every_waiter {core : Core} {events : List Event} {s : System} (fresh : Fresh core)
    (run : Run System.step WakeGuard (.initial core) events s) : WakesOnce s := by
  have parking := parking_of_run fresh run
  refine ⟨fun i waiter member => ?_, fun e s' allowed taken i waiter member => ?_, parking.notified⟩
  · have wanted : i ∈ s.misses := by
      by_contra absent
      rw [parking.empty i absent] at member
      cases member
    obtain ⟨other, alone, reference⟩ := parking.alone i wanted
    rw [alone, List.mem_singleton] at member
    subst member
    obtain ⟨absent, locked⟩ := parking.pending i wanted
    exact ⟨wanted, ⟨(parking.inside i wanted).2, absent, locked⟩, reference⟩
  · exact parking.kept allowed (System.step_effect taken) member

section LostWakeUp

/-- Two loads of one page, and its refill. -/
def twoLoads : List Event :=
  [.property Tlb.enableMsg, .read 0 0x200000000 8 none, .read 0 0x200000040 8 none,
    .answer (Tlb.refillMsg 0 2 0x300000)]

/-- Only the cache line of the second load is notified. -/
theorem lost_wake_up_of_load :
    (defaultCore.toOption.bind fun core => (execute System.step (.initial core) twoLoads).map System.log) =
      some [⟨[.load 0 0, .load 1 1], [1]⟩] := by
  decide +kernel

/-- No page is pending. -/
def System.idle (s : System) : Bool :=
  (List.range s.core.tlb.numTables).all fun k => (List.range (s.core.tlb.tables k).numLines).all fun i =>
    !(s.core.tlb.line ⟨k, i⟩).is .pending

theorem not_pendingAt_of_idle {s : System} (idle : s.idle = true) {contextId : BitVec 16} {address : Addr}
    {ref : LineRef} : ¬ s.PendingAt contextId address ref := by
  intro found
  have table := List.all_eq_true.mp idle ref.table (List.mem_range.mpr found.holds.table)
  have atLine := List.all_eq_true.mp table ref.line (List.mem_range.mpr found.holds.line)
  have locked := found.holds.inUse.1.resolve_left (by simp [found.absent])
  rw [Table.is_pending] at atLine
  simp [found.absent, locked] at atLine

def wakeCheck (s : System) : Event → Bool
  | .read .. | .write .. => s.idle
  | .answer _ => s.core.cache.lookupResponses.HasRoom
  | _ => true

theorem wakeGuard_of_check (s : System) (e : Event) (accepted : wakeCheck s e = true) : WakeGuard s e := by
  cases e with
  | read => exact fun _ _ => not_pendingAt_of_idle accepted
  | write => exact fun _ found => absurd found (not_pendingAt_of_idle accepted)
  | answer => exact Or.inr (of_decide_eq_true accepted)
  | _ => trivial

def oneStore : List Event :=
  [.property Tlb.enableMsg, .write 7 0 0x200000000 [1] 0, .answer (Tlb.refillMsg 0 2 0x300000), .endCycle,
    .lookupResponses]

theorem wakes_every_waiter_store :
    ∃ core s, defaultCore = .ok core ∧ execute System.step (.initial core) oneStore = some s ∧
      s.log = [⟨[.store 7], [invalidCid]⟩] ∧ WakesOnce s := by
  have whole : (defaultCore.toOption.bind fun core =>
      (execute (checked wakeCheck System.step) (.initial core) oneStore).map System.log) =
        some [⟨[.store 7], [invalidCid]⟩] := by
    decide +kernel
  cases started : defaultCore with
  | error fault =>
    rw [started] at whole
    cases whole
  | ok core =>
    rw [started] at whole
    obtain ⟨s, done, log⟩ := Option.map_eq_some_iff.mp whole
    have run : Run System.step WakeGuard (.initial core) oneStore s := run_of_checked wakeGuard_of_check done
    exact ⟨core, s, rfl, execute_of_run run, log, wakes_every_waiter (fresh_of_defaultCore started) run⟩

end LostWakeUp

end Mgsim.Drisc
