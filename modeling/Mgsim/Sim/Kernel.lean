import Mathlib.Algebra.Ring.Nat
import Mathlib.Logic.Function.Basic
import Mgsim.Lib.Buffer
import Mgsim.Lib.Intrusive

namespace Mgsim.Sim
open Mgsim.Lib

inductive RunState
  | idle
  | active
  | running
  | deadlock
  | aborted
  deriving DecidableEq

inductive Result
  | failed
  | delayed
  | success
  deriving DecidableEq

/-- `INFINITE_CYCLES`; the cycle counter has 64 bits. -/
def infiniteCycles : Nat := 2 ^ 64 - 1

/-- A clock is known by its index in `m_clocks`. -/
abbrev ClockId := Nat

structure Clock (P S A : Type) where
  frequency : Nat
  period : Nat
  next : Option ClockId
  cycle : Nat
  activeProcesses : Option P
  activeStorages : Option S
  activeArbitrators : Option A
  activated : Bool

/-- What `m_pPrev` of a process points to: the head of the list of a clock, or `m_next` of the process before it. -/
abbrev Place (P : Type) := Spot ClockId P

structure Process (P : Type) where
  state : RunState
  activations : Nat
  next : Option P
  pPrev : Option (Place P)
  stalls : Nat

/-- The fields that `Storage` and `Arbitrator` have of their own. -/
structure Request (X : Type) where
  next : Option X
  activated : Bool

/-- `Kernel`, with the clocks, the processes and the storages and arbitrators that it knows. `world` is
everything that belongs to the components, and `idle` the variable of `Step`. -/
structure Kernel (P S A W : Type) where
  lastsuspend : Nat
  cycle : Nat
  masterFreq : Nat
  clock : Option ClockId
  process : Option P
  numClocks : Nat
  clocks : ClockId → Clock P S A
  activeClocks : Option ClockId
  phase : Phase
  aborted : Bool
  suspended : Bool
  idle : Bool
  processes : P → Process P
  storages : S → Request S
  arbitrators : A → Request A
  world : W

/-- What components call while they run. -/
inductive Call (P S A : Type)
  | registerUpdate (storage : S)
  | requestArbitration (arbitrator : A)
  | activateProcess (clock : ClockId) (process : P)
  | deactivate (process : P)
  | abort
  | stop

/-- The components: the clocks of their storages and arbitrators, and what their code does, which may read
everything. -/
structure Components (P S A W : Type) where
  storageClock : S → ClockId
  arbitratorClock : A → ClockId
  delegate : P → Kernel P S A W → Option (Result × List (Call P S A) × W)
  update : S → Kernel P S A W → Option (List (Call P S A) × W)
  onArbitrate : A → Kernel P S A W → Option (List (Call P S A) × W)

/-- `gcd`, Euclid's algorithm. -/
def gcd (a b : Nat) : Nat := if b = 0 then a else gcd b (a % b)
termination_by b
decreasing_by exact Nat.mod_lt _ (Nat.pos_of_ne_zero (by assumption))

/-- `lcm` of two `unsigned long`; the product is computed first. -/
def lcm (a b : Nat) : Nat := a * b % 2 ^ 64 / gcd a b

namespace Kernel
variable {P S A W : Type} [DecidableEq P] [DecidableEq S] [DecidableEq A]

/-- The constructor. -/
def create (processes : P → Process P) (storages : S → Request S) (arbitrators : A → Request A) (world : W) :
    Kernel P S A W :=
  ⟨infiniteCycles, 0, 0, none, none, 0, fun _ => ⟨0, 0, none, 0, none, none, none, false⟩, none, .commit, false, false,
    false, processes, storages, arbitrators, world⟩

def setClock (k : Kernel P S A W) (c : ClockId) (clock : Clock P S A) : Kernel P S A W :=
  { k with clocks := Function.update k.clocks c clock }

def setProcess (k : Kernel P S A W) (p : P) (process : Process P) : Kernel P S A W :=
  { k with processes := Function.update k.processes p process }

/-- The loop of `CreateClock` over the clocks from the index `c` on: the clock that has the frequency, or the
master frequency of all clocks. -/
def findClock (k : Kernel P S A W) (frequency : Nat) : Nat → ClockId → Nat → ClockId ⊕ Nat
  | 0, _, masterFreq => .inr masterFreq
  | rest + 1, c, masterFreq =>
    if (k.clocks c).frequency = frequency then .inl c
    else k.findClock frequency rest (c + 1) (lcm masterFreq (k.clocks c).frequency)

/-- All clocks get their periods from a new master frequency. -/
def setMaster (k : Kernel P S A W) (masterFreq : Nat) : Kernel P S A W :=
  { k with
    masterFreq := masterFreq
    clocks := fun c => if c < k.numClocks then { k.clocks c with period := masterFreq / (k.clocks c).frequency }
      else k.clocks c }

/-- A clock is put behind the others. -/
def pushClock (k : Kernel P S A W) (frequency period : Nat) : Kernel P S A W :=
  { k with
    numClocks := k.numClocks + 1
    clocks := Function.update k.clocks k.numClocks ⟨frequency, period, none, 0, none, none, none, false⟩ }

/-- `CreateClock`: the clock, or `none` where an assertion fails. -/
def createClock (k : Kernel P S A W) (frequency : Nat) : Option (ClockId × Kernel P S A W) :=
  if k.cycle ≠ 0 then none
  else if frequency = 0 then none
  else
    match k.findClock frequency k.numClocks 0 1 with
    | .inl c => some (c, k)
    | .inr others =>
      let masterFreq := lcm others frequency
      let k' := if k.masterFreq ≠ masterFreq then k.setMaster masterFreq else k
      if k.masterFreq ≠ masterFreq ∧ ∃ c < k.numClocks, masterFreq % (k.clocks c).frequency ≠ 0 then none
      else if masterFreq % frequency ≠ 0 then none
      else some (k.numClocks, k'.pushClock frequency (masterFreq / frequency))

/-- The search in `ActivateClock`: the clock before the place of a clock that runs at `cycle`, if it is not the
first, and the clock behind it. -/
def searchPlace (k : Kernel P S A W) (cycle : Nat) : Nat → Option ClockId → Option ClockId →
    Option (Option ClockId × Option ClockId)
  | _, before, none => some (before, none)
  | 0, _, some _ => none
  | bound + 1, before, some after =>
    if (k.clocks after).cycle < cycle then k.searchPlace cycle bound (some after) (k.clocks after).next
    else some (before, some after)

/-- The next cycle at which a clock runs. -/
def nextTick (cycle period : Nat) : Nat := (cycle / period * period + period) % 2 ^ 64

/-- `ActivateClock`; there are at most as many links as clocks. A period of zero is a division by zero. -/
def activateClock (k : Kernel P S A W) (c : ClockId) : Option (Kernel P S A W) :=
  if (k.clocks c).activated then some k
  else if (k.clocks c).period = 0 then none
  else
    let cycle := nextTick k.cycle (k.clocks c).period
    match k.searchPlace cycle k.numClocks none k.activeClocks with
    | none => none
    | some (before, after) =>
      let linked := match before with
        | none => { k with activeClocks := some c }
        | some b => k.setClock b { k.clocks b with next := some c }
      some (linked.setClock c { linked.clocks c with cycle := cycle, next := after, activated := true })

/-- A process is put in front of the active processes of a clock. -/
def linkProcess (k : Kernel P S A W) (c : ClockId) (p : P) : Kernel P S A W :=
  let next := (k.clocks c).activeProcesses
  let linked := k.setProcess p { k.processes p with next := next, pPrev := some (.head c) }
  let behind := match next with
    | none => linked
    | some q => linked.setProcess q { linked.processes q with pPrev := some (.after p) }
  behind.setClock c { behind.clocks c with activeProcesses := some p }

/-- `Clock::ActivateProcess`. -/
def activateProcess (k : Kernel P S A W) (c : ClockId) (p : P) : Option (Kernel P S A W) :=
  let count := ((k.processes p).activations + 1) % 2 ^ 32
  let counted := k.setProcess p { k.processes p with activations := count }
  if count = 1 then
    let queued := counted.linkProcess c p
    (queued.setProcess p { queued.processes p with state := .active }).activateClock c
  else some counted

/-- A link is written where `m_pPrev` points to. -/
def storeLink (k : Kernel P S A W) (place : Place P) (next : Option P) : Kernel P S A W :=
  match place with
  | .head c => k.setClock c { k.clocks c with activeProcesses := next }
  | .after q => k.setProcess q { k.processes q with next := next }

/-- A process is taken from the list in which `place` has the link to it. -/
def unlinkProcess (k : Kernel P S A W) (p : P) (place : Place P) : Kernel P S A W :=
  let unlinked := k.storeLink place (k.processes p).next
  match (unlinked.processes p).next with
  | none => unlinked
  | some q => unlinked.setProcess q { unlinked.processes q with pPrev := some place }

/-- `Process::Deactivate`. -/
def deactivate (k : Kernel P S A W) (p : P) : Option (Kernel P S A W) :=
  let count := ((k.processes p).activations + (2 ^ 32 - 1)) % 2 ^ 32
  let counted := k.setProcess p { k.processes p with activations := count }
  if count = 0 then
    match (k.processes p).pPrev with
    | none => none
    | some place =>
      let unlinked := counted.unlinkProcess p place
      some (unlinked.setProcess p { unlinked.processes p with state := .idle })
  else some counted

/-- `RegisterUpdate` of a storage on a clock. -/
def registerUpdate (k : Kernel P S A W) (c : ClockId) (s : S) : Option (Kernel P S A W) :=
  if (k.storages s).activated then some k
  else ((k.setClock c { k.clocks c with activeStorages := some s }).activateClock c).map fun k' =>
    { k' with storages := Function.update k'.storages s ⟨(k.clocks c).activeStorages, true⟩ }

/-- `RequestArbitration` of an arbitrator on a clock. -/
def requestArbitration (k : Kernel P S A W) (c : ClockId) (a : A) : Option (Kernel P S A W) :=
  if (k.arbitrators a).activated then some k
  else ((k.setClock c { k.clocks c with activeArbitrators := some a }).activateClock c).map fun k' =>
    { k' with arbitrators := Function.update k'.arbitrators a ⟨(k.clocks c).activeArbitrators, true⟩ }

variable (comp : Components P S A W)

def call (k : Kernel P S A W) : Call P S A → Option (Kernel P S A W)
  | .registerUpdate s => k.registerUpdate (comp.storageClock s) s
  | .requestArbitration a => k.requestArbitration (comp.arbitratorClock a) a
  | .activateProcess c p => k.activateProcess c p
  | .deactivate p => k.deactivate p
  | .abort => some { k with aborted := true }
  | .stop => some { k with suspended := true }

/-- The calls of a component, which leaves `world`. -/
def calls (k : Kernel P S A W) (list : List (Call P S A)) (world : W) : Option (Kernel P S A W) :=
  list.foldlM (fun k c => k.call comp c) { k with world := world }

end Kernel

end Mgsim.Sim
