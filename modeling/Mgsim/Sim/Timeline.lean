import Mgsim.Sim.Step

namespace Mgsim.Sim
open Mgsim.Lib
variable {P S A W : Type}

/-- What the kernel schedules a clock by. -/
structure Timing where
  frequency : Nat
  period : Nat
  next : Option ClockId
  cycle : Nat
  activated : Bool

/-- The part of the kernel that decides which clock runs when. -/
structure Timeline where
  cycle : Nat
  masterFreq : Nat
  numClocks : Nat
  activeClocks : Option ClockId
  clocks : ClockId → Timing

def Clock.timing (clock : Clock P S A) : Timing :=
  ⟨clock.frequency, clock.period, clock.next, clock.cycle, clock.activated⟩

def Kernel.timeline (k : Kernel P S A W) : Timeline :=
  ⟨k.cycle, k.masterFreq, k.numClocks, k.activeClocks, fun c => (k.clocks c).timing⟩

/-- What components can do to the schedule: they activate clocks. A request to stop stays. -/
inductive Moves : Kernel P S A W → Kernel P S A W → Prop
  | quiet {k k'} : k'.timeline = k.timeline → (k.suspended = true → k'.suspended = true) → Moves k k'
  | activate {k k' : Kernel P S A W} {c} : k.activateClock c = some k' → Moves k k'
  | trans {k₁ k₂ k₃} : Moves k₁ k₂ → Moves k₂ k₃ → Moves k₁ k₃

theorem Kernel.setClock_timeline {k : Kernel P S A W} {c : ClockId} {clock : Clock P S A}
    (same : clock.timing = (k.clocks c).timing) : (k.setClock c clock).timeline = k.timeline := by
  unfold Kernel.timeline Kernel.setClock
  congr 1
  funext d
  by_cases here : d = c
  · rw [here]
    dsimp only
    rw [Function.update_self, same]
  · dsimp only
    rw [Function.update_of_ne here]

theorem Kernel.setProcess_timeline [DecidableEq P] {k : Kernel P S A W} {p : P} {process : Process P} :
    (k.setProcess p process).timeline = k.timeline := rfl

theorem Kernel.linkProcess_timeline [DecidableEq P] {k : Kernel P S A W} {c : ClockId} {p : P} :
    (k.linkProcess c p).timeline = k.timeline := by
  unfold Kernel.linkProcess
  refine (Kernel.setClock_timeline ?_).trans ?_
  · rfl
  · split <;> rfl

theorem Kernel.unlinkProcess_timeline [DecidableEq P] {k : Kernel P S A W} {p : P} {place : Place P} :
    (k.unlinkProcess p place).timeline = k.timeline := by
  have stored : (k.storeLink place (k.processes p).next).timeline = k.timeline := by
    cases place with
    | head c => exact Kernel.setClock_timeline rfl
    | after q => rfl
  unfold Kernel.unlinkProcess
  dsimp only
  split
  · exact stored
  · exact stored

/-- An activation of a clock changes neither the time nor what ends the loop. -/
theorem Kernel.activateClock_frame {k k' : Kernel P S A W} {c : ClockId} (called : k.activateClock c = some k') :
    k'.cycle = k.cycle ∧ k'.suspended = k.suspended ∧ k'.idle = k.idle := by
  unfold Kernel.activateClock at called
  split at called
  · cases called
    exact ⟨rfl, rfl, rfl⟩
  split at called
  · cases called
  dsimp only at called
  split at called
  · cases called
  · cases called
    split <;> exact ⟨rfl, rfl, rfl⟩

section Retire
variable [DecidableEq P] [DecidableEq S] [DecidableEq A] {bound : Nat} {k k' : Kernel P S A W}

theorem Kernel.retireClock_frame {c : ClockId} (called : k.retireClock c = some k') :
    k'.cycle = k.cycle ∧ k'.suspended = k.suspended ∧ k'.idle = k.idle := by
  unfold Kernel.retireClock at called
  dsimp only at called
  split at called
  · cases called
  split at called
  · obtain ⟨sameCycle, sameStop, sameIdle⟩ := Kernel.activateClock_frame called
    exact ⟨sameCycle, sameStop, sameIdle⟩
  · cases called
    exact ⟨rfl, rfl, rfl⟩

theorem Kernel.retireClocks_frame {start : Option ClockId} (called : Kernel.retireClocks bound start k = some k') :
    k'.cycle = k.cycle ∧ k'.suspended = k.suspended ∧ k'.idle = k.idle := by
  induction bound generalizing start k with
  | zero =>
    cases start with
    | none =>
      cases called
      exact ⟨rfl, rfl, rfl⟩
    | some c => cases called
  | succ bound ih =>
    cases start with
    | none =>
      cases called
      exact ⟨rfl, rfl, rfl⟩
    | some c =>
      unfold Kernel.retireClocks at called
      split at called
      · obtain ⟨middle, retired, rest⟩ := Option.bind_eq_some_iff.mp called
        obtain ⟨sameCycle, sameStop, sameIdle⟩ := Kernel.retireClock_frame retired
        obtain ⟨laterCycle, laterStop, laterIdle⟩ := ih rest
        exact ⟨laterCycle.trans sameCycle, laterStop.trans sameStop, laterIdle.trans sameIdle⟩
      · cases called
        exact ⟨rfl, rfl, rfl⟩

end Retire

/-- Time stands still while the components run. -/
theorem Moves.same_cycle {k k' : Kernel P S A W} (moves : Moves k k') : k'.cycle = k.cycle := by
  induction moves with
  | quiet same _ => exact congrArg Timeline.cycle same
  | activate called => exact (Kernel.activateClock_frame called).1
  | trans _ _ first second => exact second.trans first

theorem Moves.suspended {k k' : Kernel P S A W} (moves : Moves k k') (stopped : k.suspended = true) :
    k'.suspended = true := by
  induction moves with
  | quiet _ kept => exact kept stopped
  | activate called => exact (Kernel.activateClock_frame called).2.1.trans stopped
  | trans _ _ first second => exact second (first stopped)

namespace Moves
variable {k k' : Kernel P S A W}

theorem refl (k : Kernel P S A W) : Moves k k := .quiet rfl id

theorem of_quiet {k₁ : Kernel P S A W} (moves : Moves k₁ k') (same : k₁.timeline = k.timeline)
    (kept : k.suspended = true → k₁.suspended = true) : Moves k k' :=
  .trans (.quiet same kept) moves

variable [DecidableEq P] [DecidableEq S] [DecidableEq A] {comp : Components P S A W}

theorem activateProcess {c : ClockId} {p : P} (called : k.activateProcess c p = some k') : Moves k k' := by
  unfold Kernel.activateProcess at called
  dsimp only at called
  split at called
  · refine of_quiet (.activate called) ?_ ?_
    · rw [Kernel.setProcess_timeline, Kernel.linkProcess_timeline, Kernel.setProcess_timeline]
    · unfold Kernel.linkProcess
      dsimp only
      split <;> exact id
  · cases called
    exact .quiet rfl id

theorem deactivate {p : P} (called : k.deactivate p = some k') : Moves k k' := by
  unfold Kernel.deactivate at called
  dsimp only at called
  split at called
  · split at called
    · cases called
    · rename_i place _
      cases called
      refine .quiet ?_ ?_
      · rw [Kernel.setProcess_timeline, Kernel.unlinkProcess_timeline, Kernel.setProcess_timeline]
      · unfold Kernel.unlinkProcess
        cases place <;> dsimp only <;> split <;> exact id
  · cases called
    exact .quiet rfl id

theorem registerUpdate {c : ClockId} {s : S} (called : k.registerUpdate c s = some k') : Moves k k' := by
  unfold Kernel.registerUpdate at called
  split at called
  · cases called
    exact refl k
  · obtain ⟨middle, activated, rfl⟩ := Option.map_eq_some_iff.mp called
    refine .trans (of_quiet (.activate activated) ?_ id) (.quiet rfl id)
    exact Kernel.setClock_timeline rfl

theorem requestArbitration {c : ClockId} {a : A} (called : k.requestArbitration c a = some k') : Moves k k' := by
  unfold Kernel.requestArbitration at called
  split at called
  · cases called
    exact refl k
  · obtain ⟨middle, activated, rfl⟩ := Option.map_eq_some_iff.mp called
    refine .trans (of_quiet (.activate activated) ?_ id) (.quiet rfl id)
    exact Kernel.setClock_timeline rfl

theorem call {c : Call P S A} (called : k.call comp c = some k') : Moves k k' := by
  cases c with
  | registerUpdate s => exact registerUpdate called
  | requestArbitration a => exact requestArbitration called
  | activateProcess c p => exact activateProcess called
  | deactivate p =>
    unfold Kernel.call at called
    exact deactivate called
  | abort =>
    cases called
    exact .quiet rfl id
  | stop =>
    cases called
    exact .quiet rfl fun _ => rfl

end Moves

/-- The lists of active processes, with the activations of the processes. -/
structure Links (P : Type) where
  heads : ClockId → Option P
  next : P → Option P
  pPrev : P → Option (Place P)
  activations : P → Nat

def Kernel.links (k : Kernel P S A W) : Links P :=
  ⟨fun c => (k.clocks c).activeProcesses, fun p => (k.processes p).next, fun p => (k.processes p).pPrev,
    fun p => (k.processes p).activations⟩

/-- A change of the kernel that is neither about its schedule nor about its lists of processes. -/
structure Quiet (k k' : Kernel P S A W) : Prop where
  timeline : k'.timeline = k.timeline
  links : k'.links = k.links
  stopped : k.suspended = true → k'.suspended = true

section Links
variable {k k' : Kernel P S A W} {c : ClockId}

theorem Kernel.setClock_links {clock : Clock P S A} (same : clock.activeProcesses = (k.clocks c).activeProcesses) :
    (k.setClock c clock).links = k.links := by
  unfold Kernel.links Kernel.setClock
  congr 1
  funext d
  by_cases here : d = c
  · rw [here]
    dsimp only
    rw [Function.update_self, same]
  · dsimp only
    rw [Function.update_of_ne here]

theorem Kernel.setProcess_links [DecidableEq P] {p : P} {process : Process P} (next : process.next = (k.processes p).next)
    (pPrev : process.pPrev = (k.processes p).pPrev) (activations : process.activations = (k.processes p).activations) :
    (k.setProcess p process).links = k.links := by
  have same (q : P) : ((k.setProcess p process).processes q).next = (k.processes q).next ∧
      ((k.setProcess p process).processes q).pPrev = (k.processes q).pPrev ∧
      ((k.setProcess p process).processes q).activations = (k.processes q).activations := by
    unfold Kernel.setProcess
    dsimp only
    by_cases here : q = p
    · rw [here, Function.update_self]
      exact ⟨next, pPrev, activations⟩
    · rw [Function.update_of_ne here]
      exact ⟨rfl, rfl, rfl⟩
  unfold Kernel.links
  rw [Links.mk.injEq]
  exact ⟨rfl, funext fun q => (same q).1, funext fun q => (same q).2.1, funext fun q => (same q).2.2⟩

/-- The activation of a clock leaves the lists of processes. -/
theorem Kernel.activateClock_links (called : k.activateClock c = some k') : k'.links = k.links := by
  unfold Kernel.activateClock at called
  split at called
  · cases called
    rfl
  split at called
  · cases called
  dsimp only at called
  split at called
  · cases called
  · cases called
    refine (Kernel.setClock_links ?_).trans ?_
    · rfl
    · split
      · rfl
      · exact Kernel.setClock_links rfl

end Links

/-- What the components do in a turn: they make calls, and the kernel keeps its notes. -/
inductive Does [DecidableEq P] [DecidableEq S] [DecidableEq A] (comp : Components P S A W) :
    Kernel P S A W → Kernel P S A W → Prop
  | quiet {k k'} : Quiet k k' → Does comp k k'
  | call {k k' : Kernel P S A W} {c} : k.call comp c = some k' → Does comp k k'
  | trans {k₁ k₂ k₃} : Does comp k₁ k₂ → Does comp k₂ k₃ → Does comp k₁ k₃

namespace Does
variable [DecidableEq P] [DecidableEq S] [DecidableEq A] {comp : Components P S A W} {k k' : Kernel P S A W}

theorem refl (k : Kernel P S A W) : Does comp k k := .quiet ⟨rfl, rfl, id⟩

theorem of_quiet {k₁ : Kernel P S A W} (does : Does comp k₁ k') (quiet : Quiet k k₁) : Does comp k k' :=
  .trans (.quiet quiet) does

theorem calls {list : List (Call P S A)} {world : W} (called : k.calls comp list world = some k') : Does comp k k' := by
  unfold Kernel.calls at called
  have followed (start : Kernel P S A W) (made : list.foldlM (fun k c => k.call comp c) start = some k') :
      Does comp start k' := by
    clear called
    induction list generalizing start with
    | nil =>
      cases made
      exact refl _
    | cons c rest ih =>
      rw [List.foldlM_cons] at made
      obtain ⟨middle, first, later⟩ := Option.bind_eq_some_iff.mp made
      exact .trans (.call first) (ih middle later)
  exact of_quiet (followed _ called) ⟨rfl, rfl, id⟩

/-- A loop over clocks does what its body does. -/
theorem forClocks {body : ClockId → Kernel P S A W → Option (Kernel P S A W)} {bound : Nat} {start : Option ClockId}
    (bodyDoes : ∀ c k k', body c k = some k' → Does comp k k') (called : Kernel.forClocks body bound start k = some k') :
    Does comp k k' := by
  induction bound generalizing start k with
  | zero =>
    cases start with
    | none =>
      cases called
      exact refl _
    | some c => cases called
  | succ bound ih =>
    cases start with
    | none =>
      cases called
      exact refl _
    | some c =>
      unfold Kernel.forClocks at called
      split at called
      · obtain ⟨middle, first, later⟩ := Option.bind_eq_some_iff.mp called
        exact .trans (bodyDoes _ _ _ first) (ih later)
      · cases called
        exact refl _

theorem forProcesses {body : P → Kernel P S A W → Option (Kernel P S A W)} {bound : Nat} {start : Option P}
    (bodyDoes : ∀ p k k', body p k = some k' → Does comp k k') (called : Kernel.forProcesses body bound start k = some k') :
    Does comp k k' := by
  induction bound generalizing start k with
  | zero =>
    cases start with
    | none =>
      cases called
      exact refl _
    | some p => cases called
  | succ bound ih =>
    cases start with
    | none =>
      cases called
      exact refl _
    | some p =>
      obtain ⟨middle, first, later⟩ := Option.bind_eq_some_iff.mp called
      exact .trans (bodyDoes _ _ _ first) (ih later)

theorem run {p : P} {result : Result} (called : k.run comp p = some (result, k')) : Does comp k k' := by
  obtain ⟨⟨answer, list, world⟩, _, rest⟩ := Option.bind_eq_some_iff.mp called
  obtain ⟨after, made, same⟩ := Option.map_eq_some_iff.mp rest
  cases same
  exact calls made

theorem acquireProcess {p : P} (called : Kernel.acquireProcess comp p k = some k') : Does comp k k' := by
  obtain ⟨⟨result, middle⟩, ran, rest⟩ := Option.bind_eq_some_iff.mp called
  have moved : Does comp k middle := of_quiet (run ran) ⟨rfl, rfl, id⟩
  cases result with
  | failed =>
    cases rest
    exact moved.trans (.quiet ⟨rfl, Kernel.setProcess_links rfl rfl rfl, id⟩)
  | delayed => cases rest
  | success =>
    cases rest
    exact moved.trans (.quiet ⟨rfl, Kernel.setProcess_links rfl rfl rfl, id⟩)

theorem acquireClock {bound : Nat} {c : ClockId} (called : Kernel.acquireClock comp bound c k = some k') : Does comp k k' :=
  of_quiet (forProcesses (fun _ _ _ => acquireProcess) called) ⟨rfl, rfl, id⟩

theorem forArbitrators {bound : Nat} {start : Option A} (called : Kernel.forArbitrators comp bound start k = some k') :
    Does comp k k' := by
  induction bound generalizing start k with
  | zero =>
    cases start with
    | none =>
      cases called
      exact refl _
    | some a => cases called
  | succ bound ih =>
    cases start with
    | none =>
      cases called
      exact refl _
    | some a =>
      obtain ⟨⟨list, world⟩, _, rest⟩ := Option.bind_eq_some_iff.mp called
      obtain ⟨middle, made, later⟩ := Option.bind_eq_some_iff.mp rest
      exact (calls made).trans (of_quiet (ih later) ⟨rfl, rfl, id⟩)

theorem arbitrateClock {bound : Nat} {c : ClockId} (called : Kernel.arbitrateClock comp bound c k = some k') :
    Does comp k k' := by
  obtain ⟨middle, arbitrated, rfl⟩ := Option.map_eq_some_iff.mp called
  have moved : Does comp k middle := of_quiet (forArbitrators arbitrated) ⟨rfl, rfl, id⟩
  refine moved.trans (.quiet ⟨?_, ?_, id⟩)
  · exact Kernel.setClock_timeline rfl
  · exact Kernel.setClock_links rfl

theorem commitProcess {p : P} (called : Kernel.commitProcess comp p k = some k') : Does comp k k' := by
  unfold Kernel.commitProcess at called
  split at called
  · cases called
    exact refl _
  · obtain ⟨⟨checked, middle⟩, ran, rest⟩ := Option.bind_eq_some_iff.mp called
    have moved : Does comp k middle := of_quiet (run ran) ⟨rfl, rfl, id⟩
    cases checked with
    | failed =>
      cases rest
      exact moved.trans (.quiet ⟨rfl, Kernel.setProcess_links rfl rfl rfl, id⟩)
    | delayed => cases rest
    | success =>
      obtain ⟨⟨committed, after⟩, again, done⟩ := Option.bind_eq_some_iff.mp rest
      have further : Does comp middle after := of_quiet (run again) ⟨rfl, rfl, id⟩
      dsimp only at done
      split at done
      · cases done
        refine moved.trans (further.trans (.quiet ⟨rfl, ?_, id⟩))
        show (after.setProcess p { after.processes p with state := .running }).links = after.links
        exact Kernel.setProcess_links rfl rfl rfl
      · cases done

theorem commitClock {bound : Nat} {c : ClockId} (called : Kernel.commitClock comp bound c k = some k') : Does comp k k' :=
  of_quiet (forProcesses (fun _ _ _ => commitProcess) called) ⟨rfl, rfl, id⟩

theorem forStorages {bound : Nat} {start : Option S} (called : Kernel.forStorages comp bound start k = some k') :
    Does comp k k' := by
  induction bound generalizing start k with
  | zero =>
    cases start with
    | none =>
      cases called
      exact refl _
    | some s => cases called
  | succ bound ih =>
    cases start with
    | none =>
      cases called
      exact refl _
    | some s =>
      obtain ⟨⟨list, world⟩, _, rest⟩ := Option.bind_eq_some_iff.mp called
      obtain ⟨middle, made, later⟩ := Option.bind_eq_some_iff.mp rest
      exact (calls made).trans (of_quiet (ih later) ⟨rfl, rfl, id⟩)

theorem updateClock {bound : Nat} {c : ClockId} (called : Kernel.updateClock comp bound c k = some k') : Does comp k k' := by
  obtain ⟨middle, updated, rfl⟩ := Option.map_eq_some_iff.mp called
  exact (forStorages updated).trans (.quiet ⟨Kernel.setClock_timeline rfl, Kernel.setClock_links rfl, id⟩)

theorem updateStorages {bound : Nat} (called : k.updateStorages comp bound = some k') : Does comp k k' :=
  forClocks (fun _ _ _ => updateClock) called

/-- The phases of a cycle are calls of the components. -/
theorem phases {bound : Nat} (called : k.phases comp bound = some k') : Does comp k k' := by
  obtain ⟨k₁, acquired, rest⟩ := Option.bind_eq_some_iff.mp called
  obtain ⟨k₂, arbitrated, rest⟩ := Option.bind_eq_some_iff.mp rest
  obtain ⟨k₃, committed, updated⟩ := Option.bind_eq_some_iff.mp rest
  have first : Does comp k k₁ := of_quiet (forClocks (fun _ _ _ => acquireClock) acquired) ⟨rfl, rfl, id⟩
  exact first.trans ((forClocks (fun _ _ _ => arbitrateClock) arbitrated).trans
    ((forClocks (fun _ _ _ => commitClock) committed).trans (updateStorages updated)))

end Does

namespace Moves
variable [DecidableEq P] [DecidableEq S] [DecidableEq A] {comp : Components P S A W} {k k' : Kernel P S A W}

theorem of_does (does : Does comp k k') : Moves k k' := by
  induction does with
  | quiet quiet => exact .quiet quiet.timeline quiet.stopped
  | call called => exact call called
  | trans _ _ first second => exact first.trans second

theorem updateStorages {bound : Nat} (called : k.updateStorages comp bound = some k') : Moves k k' :=
  of_does (Does.updateStorages called)

/-- In the phases of a cycle the components activate clocks, and nothing else happens to the schedule. -/
theorem phases {bound : Nat} (called : k.phases comp bound = some k') : Moves k k' := of_does (Does.phases called)

end Moves

end Mgsim.Sim
