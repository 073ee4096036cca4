import Mathlib.Algebra.GCDMonoid.Multiset
import Mathlib.Algebra.GCDMonoid.Nat
import Mgsim.Lib.Run
import Mgsim.Sim.Queue

namespace Mgsim.Sim
open Mgsim.Lib

/-- What happens to a clock, and in which cycle; a clock is idled when nothing could be done in the cycle. -/
inductive Tick
  | activated (cycle : Nat)
  | ran (cycle : Nat)
  | idled (cycle : Nat)
  deriving DecidableEq

/-- The history of a clock, and the cycle in which it has to run next: a clock that is activated runs at the
next multiple of its period, and then it is not active until it is activated again. -/
inductive Schedule (period : Nat) : List Tick → Option Nat → Prop
  | start : Schedule period [] none
  | activated {log now} : Schedule period log none → (∀ before, .ran before ∈ log → before ≤ now) →
      Schedule period (log ++ [.activated now]) (some ((now / period + 1) * period))
  | ran {log due} : Schedule period log (some due) → Schedule period (log ++ [.ran due]) none
  | idled {log due} : Schedule period log (some due) → Schedule period (log ++ [.idled due]) (some due)

variable {P S A W : Type} [DecidableEq P] [DecidableEq S] [DecidableEq A]

namespace Kernel

/-- No product that `lcm` forms in `CreateClock` is too large for its type. -/
def ProductsFit (k : Kernel P S A W) (frequency : Nat) : Nat → ClockId → Nat → Prop
  | 0, _, masterFreq => masterFreq * frequency < 2 ^ 64
  | rest + 1, c, masterFreq =>
    (k.clocks c).frequency = frequency ∨
      (masterFreq * (k.clocks c).frequency < 2 ^ 64 ∧
        k.ProductsFit frequency rest (c + 1) (lcm masterFreq (k.clocks c).frequency))

instance (k : Kernel P S A W) (frequency : Nat) : (rest : Nat) → (c : ClockId) → (masterFreq : Nat) →
    Decidable (k.ProductsFit frequency rest c masterFreq)
  | 0, _, _ => inferInstanceAs (Decidable (_ < _))
  | rest + 1, c, masterFreq =>
    have := instDecidableProductsFit k frequency rest (c + 1) (lcm masterFreq (k.clocks c).frequency)
    inferInstanceAs (Decidable (_ ∨ (_ ∧ k.ProductsFit frequency rest (c + 1) (lcm masterFreq (k.clocks c).frequency))))

/-- `CreateClock` changes the master frequency. -/
def Rescales (k : Kernel P S A W) (frequency : Nat) : Prop :=
  match k.findClock frequency k.numClocks 0 1 with
  | .inl _ => False
  | .inr others => k.masterFreq ≠ lcm others frequency

instance (k : Kernel P S A W) (frequency : Nat) : Decidable (k.Rescales frequency) := by
  unfold Rescales
  split <;> infer_instance

/-- The next multiples of the periods of all clocks are cycles. -/
def TicksFit (k : Kernel P S A W) : Prop := ∀ c < k.numClocks, (k.cycle / (k.clocks c).period + 1) * (k.clocks c).period < 2 ^ 64

end Kernel

/-- What happens to the kernel from outside; `Step` is entered, takes its turns and is left. -/
inductive KernelEvent (P S A : Type)
  | createClock (frequency : Nat)
  | activateClock (c : ClockId)
  | call (call : Call P S A)
  | enter (cycles : Nat)
  | turn
  | leave

/-- A kernel with the frequencies of the clocks that were asked for, the history of each clock and the end of
the `Step` that is under way. -/
structure KernelRecord (P S A W : Type) where
  kernel : Kernel P S A W
  frequencies : List Nat
  log : ClockId → List Tick
  ending : Option Nat

namespace KernelRecord

def initial (kernel : Kernel P S A W) : KernelRecord P S A W := ⟨kernel, [], fun _ => [], none⟩

/-- Clocks that have been activated. -/
def noteActivations (log : ClockId → List Tick) (t t' : Timeline) (c : ClockId) : List Tick :=
  if (t.clocks c).activated = false ∧ (t'.clocks c).activated = true then log c ++ [.activated t.cycle] else log c

/-- Clocks that have run, and may have been activated again. -/
def noteRan (log : ClockId → List Tick) (t t' : Timeline) (c : ClockId) : List Tick :=
  if t.Due c then log c ++ [.ran t.cycle] ++ if (t'.clocks c).activated then [.activated t.cycle] else [] else log c

/-- Clocks for which nothing could be done. -/
def noteIdled (log : ClockId → List Tick) (t : Timeline) (c : ClockId) : List Tick :=
  if t.Due c then log c ++ [.idled t.cycle] else log c

/-- A turn of `Step`, in which no clock runs that was not due before. -/
def noteTurn (log : ClockId → List Tick) (t t' : Timeline) (idle : Bool) (c : ClockId) : List Tick :=
  if t.Due c then (if idle then noteIdled log t c else noteRan log t t' c) else noteActivations log t t' c

variable (comp : Components P S A W) (bound : Nat)

def step (r : KernelRecord P S A W) : KernelEvent P S A → Option (KernelRecord P S A W)
  | .createClock frequency =>
    if r.ending.isSome then none
    else (r.kernel.createClock frequency).map fun (_, k) =>
      { r with kernel := k, frequencies := r.frequencies ++ [frequency] }
  | .activateClock c =>
    if r.ending.isSome then none
    else (r.kernel.activateClock c).map fun k =>
      { r with kernel := k, log := noteActivations r.log r.kernel.timeline k.timeline }
  | .call call =>
    if r.ending.isSome then none
    else (r.kernel.call comp call).map fun k =>
      { r with kernel := k, log := noteActivations r.log r.kernel.timeline k.timeline }
  | .enter cycles =>
    if r.ending.isSome then none
    else (r.kernel.enter comp bound).map fun k =>
      { r with
        kernel := k
        log := noteActivations r.log r.kernel.timeline k.timeline
        ending := some (r.kernel.endOf cycles) }
  | .turn => r.ending.bind fun endcycle =>
      if r.kernel.Continues endcycle then (r.kernel.turn comp bound).map fun k =>
        { r with kernel := k, log := noteTurn r.log r.kernel.timeline k.timeline k.idle }
      else none
  | .leave => r.ending.bind fun endcycle =>
      if r.kernel.Continues endcycle then none
      else some { r with kernel := (r.kernel.leave endcycle).2, ending := none }

/-- The numbers fit into their types, and no clock is active whose period changes. -/
def Guard (r : KernelRecord P S A W) : KernelEvent P S A → Prop
  | .createClock frequency => r.kernel.ProductsFit frequency r.kernel.numClocks 0 1 ∧
      (r.kernel.Rescales frequency → r.kernel.activeClocks = none)
  | .enter cycles => r.kernel.TicksFit ∧ (cycles = infiniteCycles ∨ r.kernel.cycle + cycles < 2 ^ 64)
  | .leave => True
  | _ => r.kernel.TicksFit

instance (r : KernelRecord P S A W) (event : KernelEvent P S A) : Decidable (r.Guard event) := by
  cases event <;> unfold Guard <;> (try unfold Kernel.TicksFit) <;> infer_instance

end KernelRecord

/-- The clocks are scheduled, and a loop over the active clocks runs once for each clock that is due. -/
structure KeepsTime (r : KernelRecord P S A W) : Prop where
  master : r.frequencies ≠ [] → r.kernel.masterFreq = (r.frequencies : Multiset Nat).lcm
  clocks : ∀ f, f ∈ r.frequencies ↔ ∃ c < r.kernel.numClocks, (r.kernel.clocks c).frequency = f
  periods : ∀ c < r.kernel.numClocks, (r.kernel.clocks c).period * (r.kernel.clocks c).frequency = r.kernel.masterFreq
  queue : ∃ items, Queue r.kernel.timeline items
  ticks : ∀ c, Schedule (r.kernel.clocks c).period (r.log c)
    (if (r.kernel.clocks c).activated then some (r.kernel.clocks c).cycle else none)
  multiples : ∀ c t, .ran t ∈ r.log c ∨ .idled t ∈ r.log c → (r.kernel.clocks c).period ∣ t
  ahead : ∀ c, (r.kernel.clocks c).activated = true → r.kernel.cycle ≤ (r.kernel.clocks c).cycle
  visits : r.kernel.TicksFit → ∀ items, Queue r.kernel.timeline items → ∀ bound body,
    (∀ c k k', body c k = some k' → Moves k k') → items.length < bound →
      Kernel.forClocks body bound r.kernel.activeClocks r.kernel =
        (items.filter fun c => r.kernel.timeline.Due c).foldlM (fun k c => body c k) r.kernel

end Mgsim.Sim
