import Mathlib.Data.Fintype.Card
import Mgsim.Lib.Run
import Mgsim.Sim.Storage
import Mgsim.Sim.Timeline

namespace Mgsim.Sim
open Mgsim.Lib
variable {P S A W Item T : Type}

/-- Which clock a storage has, and which process is sensitive on it. -/
structure Wiring (P S : Type) where
  storageClock : S → ClockId
  sensitive : S → P

/-- What happens to the storages and the processes: operations and updates of storages, explicit activations and
deactivations, and everything else that the kernel and the components do. -/
inductive AccountEvent (P S A W Item T : Type)
  | operate (s : S) (phase : Phase) (op : StorageOp Item T)
  | link (element next : T)
  | update (s : S)
  | activateProcess (clock : ClockId) (p : P)
  | deactivate (p : P)
  | other (kernel : Kernel P S A W)

/-- A kernel with its storages, and how often components have explicitly activated and deactivated each process. -/
structure Accounts (P S A W Item T : Type) where
  kernel : Kernel P S A W
  objects : S → StorageObject Item T
  table : T → T
  activates : P → Nat
  deactivates : P → Nat

/-- A kernel with other lists of active processes. -/
def Kernel.withLinks (k : Kernel P S A W) (links : Links P) : Kernel P S A W :=
  { k with
    clocks := fun c => { k.clocks c with activeProcesses := links.heads c }
    processes := fun p => { k.processes p with
      next := links.next p
      pPrev := links.pPrev p
      activations := links.activations p } }

namespace Accounts
variable [DecidableEq P] [DecidableEq S] [DecidableEq A] [DecidableEq T] (wiring : Wiring P S)

/-- `Notify` and `Unnotify` of a storage. -/
def signal (s : S) (k : Kernel P S A W) : Signal → Option (Kernel P S A W)
  | .notify => k.activateProcess (wiring.storageClock s) (wiring.sensitive s)
  | .unnotify => k.deactivate (wiring.sensitive s)

/-- One event. Everything else leaves the lists of active processes, which only activations and deactivations
write. -/
def step (r : Accounts P S A W Item T) : AccountEvent P S A W Item T → Option (Accounts P S A W Item T)
  | .operate s phase op => ((r.objects s).operate phase r.table op).bind fun (registers, object) =>
      (if registers then r.kernel.registerUpdate (wiring.storageClock s) s else some r.kernel).map fun k =>
        { r with kernel := k, objects := Function.update r.objects s object }
  | .link element next => some { r with table := Function.update r.table element next }
  | .update s => ((r.objects s).update r.table).bind fun (signals, table, object) =>
      (signals.foldlM (signal wiring s) r.kernel).map fun k =>
        { r with kernel := k, table := table, objects := Function.update r.objects s object }
  | .activateProcess c p => (r.kernel.activateProcess c p).map fun k =>
      { r with kernel := k, activates := Function.update r.activates p (r.activates p + 1) }
  | .deactivate p => (r.kernel.deactivate p).map fun k =>
      { r with kernel := k, deactivates := Function.update r.deactivates p (r.deactivates p + 1) }
  | .other k => some { r with kernel := k.withLinks r.kernel.links }

/-- An explicit deactivation takes back an explicit activation, and a process that is activated has fewer
activations than its counter can hold. -/
def Guard (r : Accounts P S A W Item T) : AccountEvent P S A W Item T → Prop
  | .update s => (r.objects s).occupied = false → (r.kernel.processes (wiring.sensitive s)).activations + 1 < 2 ^ 32
  | .activateProcess _ p => (r.kernel.processes p).activations + 1 < 2 ^ 32
  | .deactivate p => r.deactivates p < r.activates p
  | _ => True

/-- How many storages on which a process is sensitive are not empty. -/
def notified [Fintype S] (r : Accounts P S A W Item T) (p : P) : Nat :=
  (Finset.univ.filter fun s => wiring.sensitive s = p ∧ (r.objects s).occupied = true).card

/-- No process is active, and the storages are empty. -/
structure Initial (r : Accounts P S A W Item T) : Prop where
  heads : ∀ c, (r.kernel.clocks c).activeProcesses = none
  activations : ∀ p, (r.kernel.processes p).activations = 0
  empty : ∀ s, (r.objects s).occupied = false
  activates : ∀ p, r.activates p = 0
  deactivates : ∀ p, r.deactivates p = 0

end Accounts

/-- The clocks of a process: those of its storages, and those with which it has been explicitly activated. -/
def Wiring.Clocked (wiring : Wiring P S) (events : List (AccountEvent P S A W Item T)) (c : ClockId) (p : P) : Prop :=
  (∃ s, wiring.sensitive s = p ∧ wiring.storageClock s = c) ∨ .activateProcess c p ∈ events

/-- The activations of the processes are accounted for after some events. The active processes are linked once, in
the list of one of their clocks, and the others are not linked. -/
structure Accounted [DecidableEq P] [Fintype S] (wiring : Wiring P S) (events : List (AccountEvent P S A W Item T))
    (r : Accounts P S A W Item T) : Prop where
  count : ∀ p, ((r.kernel.processes p).activations : Int) = r.notified wiring p + r.activates p - r.deactivates p
  inForce : ∀ p, r.deactivates p ≤ r.activates p
  linked : ∃ items, Intrusive r.kernel.links.heads r.kernel.links.next r.kernel.links.pPrev items ∧
    (∀ p, 0 < (r.kernel.processes p).activations ↔ ∃ c, p ∈ items c) ∧ ∀ c, ∀ p ∈ items c, wiring.Clocked events c p

section Links
variable [DecidableEq P] {k k' : Kernel P S A W} {c : ClockId} {p : P}

/-- The lists after a process has been stored. -/
theorem Kernel.links_setProcess (process : Process P) : (k.setProcess p process).links =
    ⟨k.links.heads, Function.update k.links.next p process.next, Function.update k.links.pPrev p process.pPrev,
      Function.update k.links.activations p process.activations⟩ := by
  have field {β : Type} (f : Process P → β) :
      (fun q => f ((k.setProcess p process).processes q)) = Function.update (fun q => f (k.processes q)) p (f process) := by
    funext q
    unfold Kernel.setProcess
    dsimp only
    by_cases here : q = p
    · rw [here, Function.update_self, Function.update_self]
    · rw [Function.update_of_ne here, Function.update_of_ne here]
  unfold Kernel.links
  rw [Links.mk.injEq]
  exact ⟨rfl, field Process.next, field Process.pPrev, field Process.activations⟩

theorem Kernel.links_setClock (clock : Clock P S A) : (k.setClock c clock).links =
    { k.links with heads := Function.update k.links.heads c clock.activeProcesses } := by
  unfold Kernel.links Kernel.setClock
  congr 1
  funext d
  dsimp only
  by_cases here : d = c
  · rw [here, Function.update_self, Function.update_self]
  · rw [Function.update_of_ne here, Function.update_of_ne here]

@[simp] theorem Kernel.setProcess_here (process : Process P) : (k.setProcess p process).processes p = process :=
  Function.update_self ..

theorem Kernel.setProcess_there {q : P} (process : Process P) (other : q ≠ p) :
    (k.setProcess p process).processes q = k.processes q := Function.update_of_ne other ..

theorem Kernel.linkProcess_links (absent : k.links.heads c ≠ some p) : (k.linkProcess c p).links =
    ⟨Function.update k.links.heads c (some p), Function.update k.links.next p (k.links.heads c),
      fun q => if q = p then some (.head c) else if k.links.heads c = some q then some (.after p) else k.links.pPrev q,
      k.links.activations⟩ := by
  have counts (q : P) : Function.update k.links.activations q (k.processes q).activations = k.links.activations :=
    Function.update_eq_self q k.links.activations
  unfold Kernel.linkProcess
  dsimp only
  cases head : (k.clocks c).activeProcesses with
  | none =>
    have noHead : k.links.heads c = none := head
    rw [Kernel.links_setClock, Kernel.links_setProcess, Links.mk.injEq]
    refine ⟨rfl, by rw [noHead], ?_, counts p⟩
    dsimp only
    funext q
    by_cases here : q = p
    · rw [here, Function.update_self, if_pos rfl]
    · rw [Function.update_of_ne here, if_neg here, noHead, if_neg nofun]
  | some first =>
    have atHead : k.links.heads c = some first := head
    have other : first ≠ p := by
      rintro rfl
      exact absent atHead
    rw [Kernel.links_setClock, Kernel.links_setProcess, Kernel.setProcess_there _ other, Kernel.links_setProcess, Links.mk.injEq]
    refine ⟨rfl, ?_, ?_, ?_⟩
    · dsimp only
      funext q
      by_cases here : q = first
      · rw [here, Function.update_self, Function.update_of_ne other]
        rfl
      · rw [Function.update_of_ne here, atHead]
    · dsimp only
      funext q
      by_cases here : q = first
      · rw [here, Function.update_self, if_neg other, if_pos atHead]
      · rw [Function.update_of_ne here, atHead, if_neg fun same => here (Option.some.inj same).symm]
        by_cases atP : q = p
        · rw [atP, Function.update_self, if_pos rfl]
        · rw [Function.update_of_ne atP, if_neg atP]
    · dsimp only
      rw [counts p, counts first]

theorem Kernel.storeLink_links (place : Place P) (next : Option P) : (k.storeLink place next).links =
    { k.links with
      heads := fun m => if place = .head m then next else k.links.heads m
      next := fun q => if place = .after q then next else k.links.next q } := by
  cases place with
  | head m =>
    rw [Kernel.storeLink, Kernel.links_setClock, Links.mk.injEq]
    refine ⟨?_, ?_, rfl, rfl⟩
    · funext d
      by_cases here : d = m
      · rw [here, Function.update_self, if_pos rfl]
      · rw [Function.update_of_ne here, if_neg fun same => here (Spot.head.inj same).symm]
    · funext q
      rw [if_neg nofun]
  | after b =>
    rw [Kernel.storeLink, Kernel.links_setProcess, Links.mk.injEq]
    refine ⟨?_, ?_, Function.update_eq_self b k.links.pPrev, Function.update_eq_self b k.links.activations⟩
    · funext d
      rw [if_neg nofun]
    · funext q
      by_cases here : q = b
      · rw [here, Function.update_self, if_pos rfl]
      · rw [Function.update_of_ne here, if_neg fun same => here (Spot.after.inj same).symm]

theorem Kernel.unlinkProcess_links (place : Place P) (notSelf : place ≠ .after p) : (k.unlinkProcess p place).links =
    { k.links with
      heads := fun m => if place = .head m then k.links.next p else k.links.heads m
      next := fun q => if place = .after q then k.links.next p else k.links.next q
      pPrev := fun q => if k.links.next p = some q then some place else k.links.pPrev q } := by
  have stored := Kernel.storeLink_links (k := k) place (k.processes p).next
  have sameNext : ((k.storeLink place (k.processes p).next).processes p).next = k.links.next p := by
    have nexts := congrFun (congrArg Links.next stored) p
    exact nexts.trans (if_neg notSelf)
  unfold Kernel.unlinkProcess
  dsimp only
  rw [sameNext]
  cases behind : k.links.next p with
  | none =>
    refine stored.trans ?_
    rw [Links.mk.injEq]
    refine ⟨?_, ?_, ?_, rfl⟩
    · rw [← behind]
      rfl
    · rw [← behind]
      rfl
    · funext q
      rw [if_neg nofun]
  | some first =>
    dsimp only
    rw [Kernel.links_setProcess, Links.mk.injEq]
    refine ⟨?_, ?_, ?_, ?_⟩
    · rw [stored, ← behind]
      rfl
    · refine (Function.update_eq_self first (k.storeLink place (k.processes p).next).links.next).trans ?_
      rw [stored, ← behind]
      rfl
    · funext q
      rw [stored]
      dsimp only
      by_cases here : q = first
      · rw [here, Function.update_self, if_pos rfl]
      · rw [Function.update_of_ne here, if_neg fun same => here (Option.some.inj same).symm]
    · refine (Function.update_eq_self first (k.storeLink place (k.processes p).next).links.activations).trans ?_
      rw [stored]

/-- The processes have the expected activations, and those with any are linked once, on a clock that may have them. -/
structure Listed (links : Links P) (allowed : ClockId → P → Prop) (expected : P → Nat) : Prop where
  counts : ∀ p, links.activations p = expected p
  small : ∀ p, expected p < 2 ^ 32
  lists : ∃ items, Intrusive links.heads links.next links.pPrev items ∧ (∀ p, 0 < expected p ↔ ∃ c, p ∈ items c) ∧
    ∀ c, ∀ p ∈ items c, allowed c p

variable {allowed : ClockId → P → Prop} {expected : P → Nat}

/-- The counts when one of them changes. -/
theorem Listed.update_counts {links : Links P} {count : Nat} (listed : Listed links allowed expected) (q : P) :
    Function.update links.activations p count q = Function.update expected p count q := by
  by_cases here : q = p
  · rw [here, Function.update_self, Function.update_self]
  · rw [Function.update_of_ne here, Function.update_of_ne here]
    exact listed.counts q

theorem Listed.update_small {links : Links P} {count : Nat} (listed : Listed links allowed expected) (small : count < 2 ^ 32)
    (q : P) : Function.update expected p count q < 2 ^ 32 := by
  by_cases here : q = p
  · rw [here, Function.update_self]
    exact small
  · rw [Function.update_of_ne here]
    exact listed.small q

/-- The lists when only the count of a process is stored. -/
theorem Kernel.setCount_links (count : Nat) : (k.setProcess p { k.processes p with activations := count }).links =
    { k.links with activations := Function.update k.links.activations p count } := by
  have nexts : Function.update k.links.next p (k.processes p).next = k.links.next := Function.update_eq_self p k.links.next
  have pPrevs : Function.update k.links.pPrev p (k.processes p).pPrev = k.links.pPrev :=
    Function.update_eq_self p k.links.pPrev
  rw [Kernel.links_setProcess]
  dsimp only
  rw [nexts, pPrevs]

/-- The state of a process is not about the lists. -/
theorem Kernel.setState_links (state : RunState) :
    (k.setProcess p { k.processes p with state := state }).links = k.links := Kernel.setProcess_links rfl rfl rfl

/-- Only the count of a process changes. -/
theorem Listed.recount {count : Nat} (listed : Listed k.links allowed expected) (small : count < 2 ^ 32)
    (same : 0 < count ↔ 0 < expected p) :
    Listed (k.setProcess p { k.processes p with activations := count }).links allowed (Function.update expected p count) := by
  obtain ⟨items, lists, active, allow⟩ := listed.lists
  rw [Kernel.setCount_links]
  refine ⟨listed.update_counts, listed.update_small small, items, lists, fun q => ?_, allow⟩
  rw [← active q]
  by_cases here : q = p
  · rw [here, Function.update_self]
    exact same
  · rw [Function.update_of_ne here]

theorem Listed.activate (listed : Listed k.links allowed expected) (allow : allowed c p) (small : expected p + 1 < 2 ^ 32)
    (called : k.activateProcess c p = some k') : Listed k'.links allowed (Function.update expected p (expected p + 1)) := by
  have now : (k.processes p).activations = expected p := listed.counts p
  unfold Kernel.activateProcess at called
  dsimp only at called
  rw [now, Nat.mod_eq_of_lt small] at called
  split at called
  · rename_i first
    have none : expected p = 0 := by omega
    obtain ⟨items, lists, active, allowedItems⟩ := listed.lists
    have fresh (m : ClockId) : p ∉ items m := by
      intro member
      have positive := (active p).mpr ⟨m, member⟩
      omega
    have absent : k.links.heads c ≠ some p := by
      intro atHead
      rw [(lists.chain c).head_eq] at atHead
      exact fresh c (List.mem_of_head? atHead)
    have counted := Kernel.setCount_links (k := k) (p := p) (expected p + 1)
    have linked := Kernel.linkProcess_links (c := c) (p := p)
      (k := k.setProcess p { k.processes p with activations := expected p + 1 }) (by rw [counted]; exact absent)
    have activated := (Kernel.activateClock_links called).trans ((Kernel.setState_links .active).trans linked)
    rw [activated, counted]
    dsimp only
    refine ⟨listed.update_counts, listed.update_small small, Function.update items c (p :: items c), ?_, fun q => ?_, ?_⟩
    · refine lists.push fresh (Function.update_self ..) (fun m other => Function.update_of_ne other ..)
        (Function.update_self ..) (fun q other => Function.update_of_ne other ..) (if_pos rfl) (fun q atHead => ?_)
        fun q other notHead => ?_
      · have other : q ≠ p := by
          rintro rfl
          exact absent atHead
        exact (if_neg other).trans (if_pos atHead)
      · exact (if_neg other).trans (if_neg notHead)
    · by_cases here : q = p
      · rw [here, Function.update_self]
        exact ⟨fun _ => ⟨c, by rw [Function.update_self]; exact List.mem_cons_self⟩, fun _ => Nat.succ_pos _⟩
      · rw [Function.update_of_ne here, active q]
        refine exists_congr fun m => ?_
        by_cases same : m = c
        · rw [same, Function.update_self, List.mem_cons]
          exact (or_iff_right here).symm
        · rw [Function.update_of_ne same]
    · intro m q member
      by_cases same : m = c
      · rw [same, Function.update_self] at member
        rcases List.mem_cons.mp member with rfl | member
        · rw [same]
          exact allow
        · rw [same]
          exact allowedItems c q member
      · rw [Function.update_of_ne same] at member
        exact allowedItems m q member
  · rename_i again
    cases called
    exact listed.recount small ⟨fun _ => by omega, fun _ => Nat.succ_pos _⟩

theorem Listed.deactivate (listed : Listed k.links allowed expected) (positive : 0 < expected p)
    (called : k.deactivate p = some k') : Listed k'.links allowed (Function.update expected p (expected p - 1)) := by
  have now : (k.processes p).activations = expected p := listed.counts p
  have small := listed.small p
  unfold Kernel.deactivate at called
  dsimp only at called
  rw [now, show (expected p + (2 ^ 32 - 1)) % 2 ^ 32 = expected p - 1 by omega] at called
  split at called
  · rename_i last
    obtain ⟨items, lists, active, allowedItems⟩ := listed.lists
    obtain ⟨c, member⟩ := (active p).mp positive
    obtain ⟨front, back, split⟩ := List.append_of_mem member
    split at called
    · cases called
    · rename_i place atPlace
      cases called
      have backed := lists.backed c
      have nodup := lists.nodup c
      rw [split] at backed nodup
      have gone : p ∉ front ++ back := (List.nodup_cons.mp (List.nodup_middle.mp nodup)).1
      have atP : k.links.pPrev p = some place := atPlace
      have notSelf : place ≠ .after p := by
        rintro rfl
        rcases List.eq_nil_or_concat front with rfl | ⟨before, b, rfl⟩
        · cases Option.some.inj (backed.at_head.symm.trans atP)
        · rw [List.concat_eq_append, List.append_assoc, List.singleton_append] at backed
          cases Option.some.inj (backed.at_next.symm.trans atP)
          exact gone (by simp)
      have counted := Kernel.setCount_links (k := k) (p := p) (expected p - 1)
      have unlinked := Kernel.unlinkProcess_links (p := p)
        (k := k.setProcess p { k.processes p with activations := expected p - 1 }) place notSelf
      rw [(Kernel.setState_links .idle).trans unlinked, counted]
      dsimp only
      refine ⟨listed.update_counts, listed.update_small (by omega), Function.update items c (front ++ back), ?_,
        fun q => ?_, ?_⟩
      · refine lists.remove split (fun m atM => ?_) (fun m notM => ?_) (fun q _ after => ?_) (fun q _ notAfter => ?_)
          (fun q _ next => ?_) fun q _ notNext => ?_
        · exact if_pos (Option.some.inj (atP.symm.trans atM))
        · exact if_neg fun same => notM (atP.trans (congrArg some same))
        · exact if_pos (Option.some.inj (atP.symm.trans after))
        · exact if_neg fun same => notAfter (atP.trans (congrArg some same))
        · exact (if_pos next).trans atP.symm
        · exact if_neg notNext
      · by_cases here : q = p
        · rw [here, Function.update_self, last]
          refine ⟨fun impossible => absurd impossible (Nat.lt_irrefl 0), fun ⟨m, inside⟩ => ?_⟩
          by_cases same : m = c
          · rw [same, Function.update_self] at inside
            exact absurd inside gone
          · rw [Function.update_of_ne same] at inside
            exact absurd member (lists.apart m c same inside)
        · rw [Function.update_of_ne here, active q]
          refine exists_congr fun m => ?_
          by_cases same : m = c
          · rw [same, Function.update_self, split]
            simp [here]
          · rw [Function.update_of_ne same]
      · intro m q inside
        by_cases same : m = c
        · rw [same, Function.update_self] at inside
          rw [same]
          refine allowedItems c q ?_
          rw [split]
          rcases List.mem_append.mp inside with inFront | inBack
          · exact List.mem_append_left _ inFront
          · exact List.mem_append_right _ (List.mem_cons_of_mem _ inBack)
        · rw [Function.update_of_ne same] at inside
          exact allowedItems m q inside
  · rename_i more
    cases called
    exact listed.recount (by omega) ⟨fun _ => positive, fun _ => by omega⟩

/-- The signals of an update keep the lists, and count the storage if it is not empty. -/
theorem Listed.signals [DecidableEq S] [DecidableEq A] {wiring : Wiring P S} {s : S} {base : Nat} {b b' : Bool}
    {signals : List Signal} (toggles : Toggles b signals b') (listed : Listed k.links allowed expected)
    (allow : allowed (wiring.storageClock s) (wiring.sensitive s)) (now : expected (wiring.sensitive s) = base + b.toNat)
    (small : base + 1 < 2 ^ 32) (called : signals.foldlM (Accounts.signal wiring s) k = some k') :
    Listed k'.links allowed (Function.update expected (wiring.sensitive s) (base + b'.toNat)) := by
  induction toggles generalizing k expected with
  | nil =>
    cases called
    rw [← now, Function.update_eq_self]
    exact listed
  | notify _ ih =>
    rw [List.foldlM_cons] at called
    obtain ⟨middle, first, later⟩ := Option.bind_eq_some_iff.mp called
    have zero : expected (wiring.sensitive s) = base := now
    have before := listed.activate allow (by omega) first
    have after := ih before (by rw [Function.update_self, zero]; rfl) later
    rw [Function.update_idem] at after
    exact after
  | unnotify _ ih =>
    rw [List.foldlM_cons] at called
    obtain ⟨middle, first, later⟩ := Option.bind_eq_some_iff.mp called
    have one : expected (wiring.sensitive s) = base + 1 := now
    have before := listed.deactivate (p := wiring.sensitive s) (by omega) first
    have after := ih before (by rw [Function.update_self, one]; rfl) later
    rw [Function.update_idem] at after
    exact after

theorem Kernel.registerUpdate_links [DecidableEq S] {s : S} (called : k.registerUpdate c s = some k') :
    k'.links = k.links := by
  unfold Kernel.registerUpdate at called
  split at called
  · cases called
    rfl
  · obtain ⟨middle, activated, rfl⟩ := Option.map_eq_some_iff.mp called
    exact (Kernel.activateClock_links activated).trans (Kernel.setClock_links rfl)

theorem Kernel.requestArbitration_links [DecidableEq A] {a : A} (called : k.requestArbitration c a = some k') :
    k'.links = k.links := by
  unfold Kernel.requestArbitration at called
  split at called
  · cases called
    rfl
  · obtain ⟨middle, activated, rfl⟩ := Option.map_eq_some_iff.mp called
    exact (Kernel.activateClock_links activated).trans (Kernel.setClock_links rfl)

theorem Listed.mono {wider : ClockId → P → Prop} (listed : Listed k.links allowed expected)
    (more : ∀ c p, allowed c p → wider c p) : Listed k.links wider expected := by
  obtain ⟨items, lists, active, allow⟩ := listed.lists
  exact ⟨listed.counts, listed.small, items, lists, active, fun c p member => more c p (allow c p member)⟩

end Links

section Accounts
variable [DecidableEq P] [DecidableEq S] [DecidableEq A] [DecidableEq T] [Fintype S] {wiring : Wiring P S}
  {r r' : Accounts P S A W Item T} {events : List (AccountEvent P S A W Item T)} {event : AccountEvent P S A W Item T}

namespace Accounts

/-- How many activations of a process are to be in force. -/
def expected (wiring : Wiring P S) (r : Accounts P S A W Item T) (p : P) : Nat :=
  r.notified wiring p + (r.activates p - r.deactivates p)

/-- How many of the other storages are not empty. -/
def notifiedBut (wiring : Wiring P S) (r : Accounts P S A W Item T) (s : S) (p : P) : Nat :=
  (Finset.univ.filter fun x => (wiring.sensitive x = p ∧ (r.objects x).occupied = true) ∧ x ≠ s).card

theorem notified_congr (same : ∀ s, (r'.objects s).occupied = (r.objects s).occupied) :
    r'.notified wiring = r.notified wiring := by
  funext p
  unfold notified
  simp only [same]

theorem notified_eq (s : S) : r.notified wiring (wiring.sensitive s) =
    r.notifiedBut wiring s (wiring.sensitive s) + (r.objects s).occupied.toNat := by
  unfold notified notifiedBut
  cases full : (r.objects s).occupied with
  | false =>
    refine congrArg Finset.card (Finset.filter_congr fun x _ => ?_)
    refine ⟨fun both => ⟨both, ?_⟩, fun both => both.1⟩
    rintro rfl
    cases full.symm.trans both.2
  | true =>
    rw [Bool.toNat_true, ← Finset.card_insert_of_notMem (a := s) (by simp)]
    congr 1
    ext x
    by_cases here : x = s
    · simp [here, full]
    · simp [here]

/-- Only the process of a storage sees that the storage has changed. -/
theorem notified_update {s : S} {object : StorageObject Item T} (objects : r'.objects = Function.update r.objects s object) :
    r'.notified wiring = Function.update (r.notified wiring) (wiring.sensitive s)
      (r.notifiedBut wiring s (wiring.sensitive s) + object.occupied.toNat) := by
  have others (x : S) (other : x ≠ s) : r'.objects x = r.objects x := by
    rw [objects, Function.update_of_ne other]
  funext p
  by_cases here : p = wiring.sensitive s
  · rw [here, Function.update_self, notified_eq s, objects, Function.update_self]
    congr 1
    unfold notifiedBut
    refine congrArg Finset.card (Finset.filter_congr fun x _ => and_congr_left fun other => ?_)
    rw [others x other]
  · rw [Function.update_of_ne here]
    unfold notified
    refine congrArg Finset.card (Finset.filter_congr fun x _ => and_congr_right fun sensitive => ?_)
    rw [others x]
    rintro rfl
    exact here sensitive.symm

end Accounts

/-- What every event keeps. -/
structure InForce (wiring : Wiring P S) (events : List (AccountEvent P S A W Item T)) (r : Accounts P S A W Item T) :
    Prop where
  listed : Listed r.kernel.links (wiring.Clocked events) (r.expected wiring)
  inForce : ∀ p, r.deactivates p ≤ r.activates p

theorem Accounts.Initial.inForce (initial : r.Initial) : InForce wiring [] r := by
  have zero (p : P) : r.expected wiring p = 0 := by
    unfold Accounts.expected Accounts.notified
    rw [initial.activates, initial.deactivates]
    simp [initial.empty]
  refine ⟨⟨fun p => ?_, fun p => ?_, fun _ => [], ⟨fun c => ?_, fun c => .nil, fun c => .nil, fun _ _ _ => List.disjoint_nil_left _⟩,
    fun p => ?_, nofun⟩, fun p => ?_⟩
  · rw [zero]
    exact initial.activations p
  · rw [zero]
    decide
  · rw [show r.kernel.links.heads c = none from initial.heads c]
    exact .nil
  · rw [zero]
    exact ⟨fun impossible => absurd impossible (Nat.lt_irrefl 0), fun ⟨_, member⟩ => nomatch member⟩
  · rw [initial.deactivates]
    exact Nat.zero_le _

/-- A change of the counts of one process changes what is expected of it. -/
theorem Accounts.expected_update (p : P) (count : Nat) (notified : r'.notified wiring = r.notified wiring)
    (here : r.notified wiring p + (r'.activates p - r'.deactivates p) = count)
    (there : ∀ q, q ≠ p → r'.activates q - r'.deactivates q = r.activates q - r.deactivates q) :
    r'.expected wiring = Function.update (r.expected wiring) p count := by
  funext q
  unfold expected
  rw [notified]
  by_cases same : q = p
  · rw [same, Function.update_self]
    exact here
  · rw [Function.update_of_ne same, there q same]

/-- One event keeps the account. -/
theorem Accounts.step_inForce (kept : InForce wiring events r) (allowed : r.Guard wiring event)
    (called : r.step wiring event = some r') : InForce wiring (events ++ [event]) r' := by
  have listed : Listed r.kernel.links (wiring.Clocked (events ++ [event])) (r.expected wiring) :=
    kept.listed.mono fun c p clocked => clocked.imp_right fun member => List.mem_append_left _ member
  have now (p : P) : (r.kernel.processes p).activations = r.expected wiring p := kept.listed.counts p
  cases event with
  | operate s phase op =>
    obtain ⟨⟨registers, object⟩, operated, rest⟩ := Option.bind_eq_some_iff.mp called
    obtain ⟨k, registered, rfl⟩ := Option.map_eq_some_iff.mp rest
    have links : k.links = r.kernel.links := by
      cases registers with
      | false =>
        cases registered
        rfl
      | true => exact Kernel.registerUpdate_links registered
    have same (x : S) : (Function.update r.objects s object x).occupied = (r.objects x).occupied := by
      by_cases here : x = s
      · rw [here, Function.update_self, StorageObject.operate_occupied operated]
      · rw [Function.update_of_ne here]
    have notified : notified wiring { r with kernel := k, objects := Function.update r.objects s object } =
        r.notified wiring := notified_congr same
    refine ⟨?_, kept.inForce⟩
    unfold expected at listed ⊢
    rw [notified]
    exact links ▸ listed
  | link element next =>
    cases called
    exact ⟨listed, kept.inForce⟩
  | update s =>
    obtain ⟨⟨signals, table, object⟩, updated, rest⟩ := Option.bind_eq_some_iff.mp called
    obtain ⟨k, signalled, rfl⟩ := Option.map_eq_some_iff.mp rest
    let p := wiring.sensitive s
    let base := r.notifiedBut wiring s p + (r.activates p - r.deactivates p)
    have counted : r.expected wiring p = base + (r.objects s).occupied.toNat := by
      unfold expected
      rw [notified_eq s, Nat.add_right_comm]
    have small : base + 1 < 2 ^ 32 := by
      cases full : (r.objects s).occupied with
      | false =>
        have fits := allowed full
        rw [now, counted, full] at fits
        exact fits
      | true =>
        have fits := listed.small p
        rw [counted, full] at fits
        exact fits
    have after := listed.signals (StorageObject.update_toggles updated) (.inl ⟨s, rfl, rfl⟩) counted small signalled
    have notified : notified wiring { r with kernel := k, table := table, objects := Function.update r.objects s object } =
        Function.update (r.notified wiring) p (r.notifiedBut wiring s p + object.occupied.toNat) := notified_update rfl
    have counts : expected wiring { r with kernel := k, table := table, objects := Function.update r.objects s object } =
        Function.update (r.expected wiring) p (base + object.occupied.toNat) := by
      funext q
      unfold expected
      rw [notified]
      by_cases here : q = p
      · rw [here, Function.update_self, Function.update_self]
        exact Nat.add_right_comm ..
      · rw [Function.update_of_ne here, Function.update_of_ne here]
    exact ⟨counts ▸ after, kept.inForce⟩
  | activateProcess c p =>
    obtain ⟨k, activated, rfl⟩ := Option.map_eq_some_iff.mp called
    have inForce := kept.inForce p
    have small : (r.kernel.processes p).activations + 1 < 2 ^ 32 := allowed
    rw [now p] at small
    have more := listed.activate (.inr (List.mem_append_right _ List.mem_cons_self)) small activated
    have counts : expected wiring { r with kernel := k, activates := Function.update r.activates p (r.activates p + 1) } =
        Function.update (r.expected wiring) p (r.expected wiring p + 1) := by
      refine expected_update p _ rfl ?_ fun q other => ?_
      · dsimp only
        rw [Function.update_self]
        unfold expected
        omega
      · dsimp only
        rw [Function.update_of_ne other]
    refine ⟨counts ▸ more, fun q => ?_⟩
    dsimp only
    by_cases here : q = p
    · rw [here, Function.update_self]
      omega
    · rw [Function.update_of_ne here]
      exact kept.inForce q
  | deactivate p =>
    unfold step at called
    obtain ⟨k, deactivated, rfl⟩ := Option.map_eq_some_iff.mp called
    have inForce : r.deactivates p < r.activates p := allowed
    have positive : 0 < r.expected wiring p := by
      unfold expected
      omega
    have fewer := listed.deactivate positive deactivated
    have counts : expected wiring { r with
        kernel := k, deactivates := Function.update r.deactivates p (r.deactivates p + 1) } =
        Function.update (r.expected wiring) p (r.expected wiring p - 1) := by
      refine expected_update p _ rfl ?_ fun q other => ?_
      · dsimp only
        rw [Function.update_self]
        unfold expected
        omega
      · dsimp only
        rw [Function.update_of_ne other]
    refine ⟨counts ▸ fewer, fun q => ?_⟩
    dsimp only
    by_cases here : q = p
    · rw [here, Function.update_self]
      omega
    · rw [Function.update_of_ne here]
      exact kept.inForce q
  | other k =>
    cases called
    exact ⟨listed, kept.inForce⟩

/-- In every run in which each explicit deactivation takes back an explicit activation, the activations of the
processes are accounted for. -/
theorem processes_accounted {start : Accounts P S A W Item T} (initial : start.Initial)
    (run : Run (Accounts.step wiring) (Accounts.Guard wiring) start events r) : Accounted wiring events r := by
  have kept : InForce wiring events r := by
    induction run with
    | start => exact initial.inForce
    | next _ allowed taken ih => exact Accounts.step_inForce ih allowed taken
  have now (p : P) : (r.kernel.processes p).activations = r.expected wiring p := kept.listed.counts p
  refine ⟨fun p => ?_, kept.inForce, ?_⟩
  · have inForce := kept.inForce p
    rw [now]
    unfold Accounts.expected
    omega
  · obtain ⟨items, lists, active, allow⟩ := kept.listed.lists
    exact ⟨items, lists, fun p => by rw [now, active], allow⟩

end Accounts

/-- What happens to the lists of active processes: activations, deactivations, and nothing else. -/
inductive Relinks [DecidableEq P] : Kernel P S A W → Kernel P S A W → Prop
  | activate {k k' c p} : k.activateProcess c p = some k' → Relinks k k'
  | deactivate {k k' p} : k.deactivate p = some k' → Relinks k k'
  | other {k k'} : k'.links = k.links → Relinks k k'
  | trans {k₁ k₂ k₃} : Relinks k₁ k₂ → Relinks k₂ k₃ → Relinks k₁ k₃

/-- A change of a kernel that leaves the lists is an event of the account. -/
theorem Accounts.step_other [DecidableEq P] [DecidableEq S] [DecidableEq A] [DecidableEq T] {wiring : Wiring P S}
    {r : Accounts P S A W Item T} {k : Kernel P S A W} (same : k.links = r.kernel.links) :
    r.step wiring (.other k) = some { r with kernel := k } := by
  unfold step
  rw [← same]
  rfl

namespace Relinks
variable [DecidableEq P] [DecidableEq S] [DecidableEq A] {comp : Components P S A W} {k k' : Kernel P S A W} {bound : Nat}

theorem of_does (does : Does comp k k') : Relinks k k' := by
  induction does with
  | quiet quiet => exact .other quiet.links
  | @call k k' c called =>
    cases c with
    | registerUpdate s => exact .other (Kernel.registerUpdate_links called)
    | requestArbitration a => exact .other (Kernel.requestArbitration_links called)
    | activateProcess c p => exact .activate called
    | deactivate p =>
      unfold Kernel.call at called
      exact .deactivate called
    | abort | stop =>
      cases called
      exact .other rfl
  | trans _ _ first second => exact first.trans second

theorem retireClock {c : ClockId} (called : k.retireClock c = some k') : k'.links = k.links := by
  have cleared (first : Option ClockId) : ({ k with activeClocks := first }.setClock c
      { k.clocks c with activated := false }).links = k.links :=
    Kernel.setClock_links (k := { k with activeClocks := first }) rfl
  unfold Kernel.retireClock at called
  dsimp only at called
  split at called
  · cases called
  split at called
  · exact (Kernel.activateClock_links called).trans (cleared _)
  · cases called
    exact cleared _

theorem retireClocks {start : Option ClockId} (called : Kernel.retireClocks bound start k = some k') :
    k'.links = k.links := by
  induction bound generalizing start k with
  | zero =>
    cases start with
    | none =>
      cases called
      rfl
    | some c => cases called
  | succ bound ih =>
    cases start with
    | none =>
      cases called
      rfl
    | some c =>
      unfold Kernel.retireClocks at called
      split at called
      · obtain ⟨middle, retired, rest⟩ := Option.bind_eq_some_iff.mp called
        exact (ih rest).trans (retireClock retired)
      · cases called
        rfl

/-- A turn of `Step` activates and deactivates processes, and otherwise leaves the lists. -/
theorem turn (called : k.turn comp bound = some k') : Relinks k k' := by
  obtain ⟨k₁, ran, rest⟩ := Option.bind_eq_some_iff.mp called
  obtain ⟨busy, _, done⟩ := Option.bind_eq_some_iff.mp rest
  have phases : Relinks k k₁ := of_does (Does.phases ran)
  refine phases.trans (.other ?_)
  split at done
  · obtain ⟨k₂, retired, advanced⟩ := Option.bind_eq_some_iff.mp done
    have same : k₂.links = k₁.links := retireClocks (k := { k₁ with idle := false }) retired
    unfold Kernel.advance at advanced
    split at advanced
    · cases advanced
      exact same
    · split at advanced
      · cases advanced
        exact same
      · cases advanced
  · cases done
    rfl

end Relinks

section Examples

/-- A kernel with one clock, and a process that is sensitive on a buffer. -/
def oneProcess : Accounts Unit Unit Unit Unit Nat Nat where
  kernel := (Kernel.create (fun _ => ⟨.idle, 0, none, none, 0⟩) (fun _ => ⟨none, false⟩) (fun _ => ⟨none, false⟩) ()).pushClock 1 1
  objects := fun _ => .buffer ⟨2, 1, [], [], false⟩
  table := id
  activates := fun _ => 0
  deactivates := fun _ => 0

def oneSensitive : Wiring Unit Unit := ⟨fun _ => 0, fun _ => ()⟩

theorem oneProcess_initial : oneProcess.Initial where
  heads := by
    intro c
    unfold oneProcess Kernel.pushClock Kernel.create
    dsimp only
    by_cases here : c = 0
    · rw [here, Function.update_self]
    · rw [Function.update_of_ne here]
  activations := fun _ => rfl
  empty := fun _ => rfl
  activates := fun _ => rfl
  deactivates := fun _ => rfl

/-- The guard, as far as it can be computed. -/
def Accounts.guards (r : Accounts Unit Unit Unit Unit Nat Nat) : AccountEvent Unit Unit Unit Unit Nat Nat → Bool
  | .update _ | .activateProcess _ _ => decide ((r.kernel.processes ()).activations + 1 < 2 ^ 32)
  | .deactivate p => decide (r.deactivates p < r.activates p)
  | _ => true

/-- The process is explicitly activated and deactivated while its buffer has an item. -/
def activateTwice : List (AccountEvent Unit Unit Unit Unit Nat Nat) :=
  [.operate () .commit (.push 5 1), .update (), .activateProcess 0 (), .operate () .commit .popBuffer, .update (),
    .deactivate ()]

theorem processes_accounted_activateTwice : ∃ r, execute (Accounts.step oneSensitive) oneProcess activateTwice = some r ∧
    Accounted oneSensitive activateTwice r := by
  have done : (execute (checked Accounts.guards (Accounts.step oneSensitive)) oneProcess activateTwice).isSome := by
    decide +kernel
  obtain ⟨r, executed⟩ := Option.isSome_iff_exists.mp done
  have enough (r : Accounts Unit Unit Unit Unit Nat Nat) (e : AccountEvent Unit Unit Unit Unit Nat Nat)
      (passed : r.guards e = true) : r.Guard oneSensitive e := by
    cases e with
    | operate | link | other => trivial
    | update s => exact fun _ => of_decide_eq_true passed
    | activateProcess c p =>
      have small : (r.kernel.processes ()).activations + 1 < 2 ^ 32 := of_decide_eq_true passed
      exact small
    | deactivate p =>
      have inForce : r.deactivates p < r.activates p := of_decide_eq_true passed
      exact inForce
  have run : Run (Accounts.step oneSensitive) (Accounts.Guard oneSensitive) oneProcess activateTwice r :=
    run_of_checked enough executed
  exact ⟨r, execute_of_run run, processes_accounted oneProcess_initial run⟩

/-- What `DoNothing` of a process does that is only sensitive on a buffer, before the buffer is emptied. -/
def deactivateNotified : List (AccountEvent Unit Unit Unit Unit Nat Nat) :=
  [.operate () .commit (.push 5 1), .update (), .deactivate (), .operate () .commit .popBuffer, .update ()]

/-- The counter goes below zero. The storage is empty, and the process is not linked. -/
theorem activations_underflow : ∃ r, execute (Accounts.step oneSensitive) oneProcess deactivateNotified = some r ∧
    (r.kernel.processes ()).activations = 2 ^ 32 - 1 ∧ r.notified oneSensitive () = 0 ∧
      (r.kernel.clocks 0).activeProcesses = none ∧ ¬ Accounted oneSensitive deactivateNotified r := by
  have done : (execute (Accounts.step oneSensitive) oneProcess deactivateNotified).map
      (fun r => ((r.kernel.processes ()).activations, r.notified oneSensitive (), (r.kernel.clocks 0).activeProcesses,
        r.activates (), r.deactivates ())) = some (2 ^ 32 - 1, 0, none, 0, 1) := by
    decide +kernel
  obtain ⟨r, executed, seen⟩ := Option.map_eq_some_iff.mp done
  obtain ⟨count, seen⟩ := Prod.mk.inj seen
  obtain ⟨notified, seen⟩ := Prod.mk.inj seen
  obtain ⟨unlinked, seen⟩ := Prod.mk.inj seen
  obtain ⟨activates, deactivates⟩ := Prod.mk.inj seen
  refine ⟨r, executed, count, notified, unlinked, fun accounted => ?_⟩
  have balance := accounted.count ()
  rw [count, notified, activates, deactivates] at balance
  exact absurd balance (by decide)

end Examples

end Mgsim.Sim
