import Mgsim.Sim.Kernel

namespace Mgsim.Sim
open Mgsim.Lib

namespace Kernel
variable {P S A W : Type} [DecidableEq P] [DecidableEq S] [DecidableEq A]

/-- A loop over the active clocks that run in this cycle, which follows at most `bound` links. -/
def forClocks (body : ClockId → Kernel P S A W → Option (Kernel P S A W)) :
    Nat → Option ClockId → Kernel P S A W → Option (Kernel P S A W)
  | _, none, k => some k
  | 0, some _, _ => none
  | bound + 1, some c, k =>
    if k.cycle = (k.clocks c).cycle then
      (body c k).bind fun k' => forClocks body bound (k'.clocks c).next k'
    else some k

/-- A loop over processes. -/
def forProcesses (body : P → Kernel P S A W → Option (Kernel P S A W)) :
    Nat → Option P → Kernel P S A W → Option (Kernel P S A W)
  | _, none, k => some k
  | 0, some _, _ => none
  | bound + 1, some p, k => (body p k).bind fun k' => forProcesses body bound (k'.processes p).next k'

variable (comp : Components P S A W)

/-- A call of the delegate of a process. -/
def run (k : Kernel P S A W) (p : P) : Option (Result × Kernel P S A W) :=
  (comp.delegate p k).bind fun (result, list, world) => (k.calls comp list world).map fun k' => (result, k')

/-- A process in the acquire phase. -/
def acquireProcess (p : P) (k : Kernel P S A W) : Option (Kernel P S A W) :=
  ({ k with process := some p }.run comp p).bind fun (result, k') =>
    match result with
    | .success => some (k'.setProcess p { k'.processes p with state := .running })
    | .failed => some (k'.setProcess p { k'.processes p with
        state := .deadlock, stalls := ((k'.processes p).stalls + 1) % 2 ^ 64 })
    | .delayed => none

def acquireClock (bound : Nat) (c : ClockId) (k : Kernel P S A W) : Option (Kernel P S A W) :=
  forProcesses (acquireProcess comp) bound (k.clocks c).activeProcesses { k with clock := some c }

/-- The arbitrators of a clock; the link of an arbitrator is read when it has been called. -/
def forArbitrators : Nat → Option A → Kernel P S A W → Option (Kernel P S A W)
  | _, none, k => some k
  | 0, some _, _ => none
  | bound + 1, some a, k =>
    (comp.onArbitrate a k).bind fun (list, world) => (k.calls comp list world).bind fun k' =>
      forArbitrators bound (k'.arbitrators a).next
        { k' with arbitrators := Function.update k'.arbitrators a { k'.arbitrators a with activated := false } }

def arbitrateClock (bound : Nat) (c : ClockId) (k : Kernel P S A W) : Option (Kernel P S A W) :=
  (forArbitrators comp bound (k.clocks c).activeArbitrators { k with clock := some c }).map fun k' =>
    k'.setClock c { k'.clocks c with activeArbitrators := none }

/-- A process in the check and the commit phase. -/
def commitProcess (p : P) (k : Kernel P S A W) : Option (Kernel P S A W) :=
  if (k.processes p).state = .deadlock then some k
  else
    ({ k with process := some p, phase := .check }.run comp p).bind fun (checked, k') =>
      match checked with
      | .success => ({ k' with phase := .commit }.run comp p).bind fun (committed, after) =>
          if committed = Result.success then
            some { after.setProcess p { after.processes p with state := .running } with idle := false }
          else none
      | .failed => some (k'.setProcess p { k'.processes p with state := .deadlock })
      | .delayed => none

def commitClock (bound : Nat) (c : ClockId) (k : Kernel P S A W) : Option (Kernel P S A W) :=
  forProcesses (commitProcess comp) bound (k.clocks c).activeProcesses { k with clock := some c }

/-- The storages of a clock are updated, and something has been done. -/
def forStorages : Nat → Option S → Kernel P S A W → Option (Kernel P S A W)
  | _, none, k => some k
  | 0, some _, _ => none
  | bound + 1, some s, k =>
    (comp.update s k).bind fun (list, world) => (k.calls comp list world).bind fun k' =>
      forStorages bound (k'.storages s).next
        { k' with storages := Function.update k'.storages s { k'.storages s with activated := false }, idle := false }

def updateClock (bound : Nat) (c : ClockId) (k : Kernel P S A W) : Option (Kernel P S A W) :=
  (forStorages comp bound (k.clocks c).activeStorages k).map fun k' =>
    k'.setClock c { k'.clocks c with activeStorages := none }

/-- `UpdateStorages`, which clears `idle` where it answers that a storage has been updated. -/
def updateStorages (bound : Nat) (k : Kernel P S A W) : Option (Kernel P S A W) :=
  forClocks (updateClock comp bound) bound k.activeClocks k

/-- Whether a clock from `c` on runs in a later cycle. -/
def hasLater (k : Kernel P S A W) : Nat → Option ClockId → Option Bool
  | _, none => some false
  | 0, some _ => none
  | bound + 1, some c => if k.cycle < (k.clocks c).cycle then some true else k.hasLater bound (k.clocks c).next

/-- A clock that has run is taken from the queue, and comes back if it still has active components. -/
def retireClock (c : ClockId) (k : Kernel P S A W) : Option (Kernel P S A W) :=
  let retired := { k with activeClocks := (k.clocks c).next }.setClock c { k.clocks c with activated := false }
  if (k.clocks c).activeArbitrators ≠ none then none
  else if (k.clocks c).activeProcesses ≠ none ∨ (k.clocks c).activeStorages ≠ none then retired.activateClock c
  else some retired

/-- The loop over the clocks that have run; the next one is read before the clock is put back. -/
def retireClocks : Nat → Option ClockId → Kernel P S A W → Option (Kernel P S A W)
  | _, none, k => some k
  | 0, some _, _ => none
  | bound + 1, some c, k =>
    if k.cycle = (k.clocks c).cycle then (k.retireClock c).bind fun k' => retireClocks bound (k.clocks c).next k'
    else some k

/-- Time advances to the first clock to run. -/
def advance (k : Kernel P S A W) : Option (Kernel P S A W) :=
  match k.activeClocks with
  | none => some k
  | some c => if k.cycle < (k.clocks c).cycle then some { k with cycle := (k.clocks c).cycle } else none

/-- The phases of one cycle. -/
def phases (bound : Nat) (k : Kernel P S A W) : Option (Kernel P S A W) :=
  (forClocks (acquireClock comp bound) bound k.activeClocks { k with idle := true, phase := .acquire }).bind fun k₁ =>
    (forClocks (arbitrateClock comp bound) bound k₁.activeClocks k₁).bind fun k₂ =>
      (forClocks (commitClock comp bound) bound k₂.activeClocks k₂).bind fun k₃ => k₃.updateStorages comp bound

/-- One turn of the loop in `Step`. -/
def turn (bound : Nat) (k : Kernel P S A W) : Option (Kernel P S A W) :=
  (k.phases comp bound).bind fun k₁ =>
    (if k₁.idle then k₁.hasLater bound k₁.activeClocks else some true).bind fun busy =>
      if busy then (retireClocks bound k₁.activeClocks { k₁ with idle := false }).bind advance
      else some { k₁ with idle := true }

/-- The cycle at which `Step` ends. -/
def endOf (k : Kernel P S A W) (cycles : Nat) : Nat :=
  if cycles = infiniteCycles then cycles else (k.cycle + cycles) % 2 ^ 64

/-- What `Step` does before its loop. -/
def enter (bound : Nat) (k : Kernel P S A W) : Option (Kernel P S A W) :=
  (if k.cycle = 0 then k.updateStorages comp bound else some k).bind fun k₁ =>
    let started := { k₁ with aborted := false, suspended := false, idle := false }
    match k₁.activeClocks with
    | none => some started
    | some c => if k₁.cycle ≤ (k₁.clocks c).cycle then some { started with cycle := (k₁.clocks c).cycle } else none

/-- The condition of the loop in `Step`. -/
def Continues (k : Kernel P S A W) (endcycle : Nat) : Prop :=
  k.aborted = false ∧ (k.suspended = false ∨ k.lastsuspend = k.cycle) ∧ k.idle = false ∧
    (endcycle = infiniteCycles ∨ k.cycle < endcycle)

instance (k : Kernel P S A W) (endcycle : Nat) : Decidable (k.Continues endcycle) := by
  unfold Continues
  infer_instance

/-- The loop in `Step`, for at most `fuel` turns. -/
def loop (bound endcycle : Nat) : Nat → Kernel P S A W → Option (Kernel P S A W)
  | 0, k => if k.Continues endcycle then none else some k
  | fuel + 1, k => if k.Continues endcycle then (k.turn comp bound).bind (loop bound endcycle fuel) else some k

/-- What `Step` does after its loop: its result and the kernel. -/
def leave (k : Kernel P S A W) (endcycle : Nat) : RunState × Kernel P S A W :=
  let k' := { k with cycle := min k.cycle endcycle }
  if k.suspended then (.aborted, { k' with lastsuspend := k'.cycle })
  else (if k.idle then .idle else .running, k')

/-- `Step`, with at most `fuel` turns of its loop and `bound` links of a list. -/
def step (bound fuel : Nat) (k : Kernel P S A W) (cycles : Nat) : Option (RunState × Kernel P S A W) :=
  (k.enter comp bound).bind fun k₁ => (loop comp bound (k.endOf cycles) fuel k₁).map fun k₂ => k₂.leave (k.endOf cycles)

end Kernel

end Mgsim.Sim
