import Mgsim.Drisc.MergedValues
import Mgsim.Lib.Run

namespace Mgsim.Drisc
open Mgsim.Lib

variable {t : Target}

namespace WritebackCore
variable {s s' : WritebackCore t} {env : WritebackEnv} {input : MemoryWritebackLatch} {addr : RegAddr} {offset : Nat}
variable {suspend : Bool}

/-- Every register keeps the load that it is the target of, and the threads that wait for it: they are woken up,
or the register still has them, perhaps behind the thread of the instruction. -/
structure Keeps (tid : Nat) (s s' : WritebackCore t) : Prop where
  load : ∀ addr, KeepsLoad (s.regs addr) (s'.regs addr)
  threads : ∀ addr, (s.regs addr).state = .waiting → ∀ head, (s.regs addr).waiting.head = some head →
    s'.activated = (s.regs addr).waiting :: s.activated ∨
      (s'.regs addr).state = .waiting ∧ (s'.regs addr).waiting.tail = (s.regs addr).waiting.tail ∧
        ((s'.regs addr).waiting.head = some head ∨ (s'.regs addr).waiting.head = some tid ∧ s'.next tid = some head)

theorem Keeps.of_regs {tid : Nat} (same : s'.regs = s.regs) : Keeps tid s s' where
  load addr := by
    rw [same]
    exact fun unfilled _ => ⟨unfilled, rfl⟩
  threads addr state head atHead := by
    rw [same]
    exact Or.inr ⟨state, rfl, Or.inl atHead⟩

/-- A single register is written. -/
theorem Keeps.of_update {tid : Nat} {new : RegValue t} (regs : s'.regs = Function.update s.regs addr new)
    (load : KeepsLoad (s.regs addr) new)
    (threads : (s.regs addr).state = .waiting → ∀ head, (s.regs addr).waiting.head = some head →
      s'.activated = (s.regs addr).waiting :: s.activated ∨
        new.state = .waiting ∧ new.waiting.tail = (s.regs addr).waiting.tail ∧
          (new.waiting.head = some head ∨ new.waiting.head = some tid ∧ s'.next tid = some head)) :
    Keeps tid s s' where
  load other := by
    rw [regs]
    by_cases same : other = addr
    · rw [same, Function.update_self]
      exact load
    · rw [Function.update_of_ne same]
      exact fun unfilled _ => ⟨unfilled, rfl⟩
  threads other state head atHead := by
    rw [regs]
    by_cases same : other = addr
    · rw [same] at state atHead ⊢
      rw [Function.update_self]
      exact threads state head atHead
    · rw [Function.update_of_ne same]
      exact Or.inr ⟨state, rfl, Or.inl atHead⟩

/-- What a write leaves for the rest of the cycle. -/
structure Advanced (s : WritebackCore t) (tid : Nat) (suspend : Bool) (s' : WritebackCore t) (suspend' : Bool) : Prop where
  keeps : Keeps tid s s'
  valid : (∀ addr, (s.regs addr).state ≠ .invalid) → ∀ addr, (s'.regs addr).state ≠ .invalid
  suspend : suspend' = true → suspend = true
  latch : s'.latch = s.latch

/-- What is written by a value that fits. -/
theorem advanced_write {tid : Nat} {new : RegValue t} {woken : Option ThreadQueue} (valid : new.state ≠ .invalid)
    (load : KeepsLoad (s.regs addr) new) (regs : s'.regs = Function.update s.regs addr new)
    (activated : s'.activated = woken.toList ++ s.activated) (latch : s'.latch = s.latch)
    (threads : (s.regs addr).state = .waiting → ∀ head, (s.regs addr).waiting.head = some head →
      woken = some (s.regs addr).waiting ∨
        new.state = .waiting ∧ new.waiting.tail = (s.regs addr).waiting.tail ∧
          (new.waiting.head = some head ∨ new.waiting.head = some tid ∧ s'.next tid = some head)) :
    Advanced s tid suspend s' suspend where
  keeps := .of_update regs load fun state head atHead => (threads state head atHead).imp_left fun same => by
    rw [activated, same]
    rfl
  valid before other := by
    rw [regs]
    exact (Function.forall_update_iff _ fun _ (value : RegValue t) => value.state ≠ .invalid).mpr
      ⟨valid, fun other _ => before other⟩ other
  suspend := id
  latch := latch

theorem writeTo_ok {value : RegValue t} (plain : Plain input.tid suspend value)
    (valid : (s.regs addr).state ≠ .invalid) (fits : Fits input.tid (s.regs addr) value) :
    ∃ written, s.writeTo env input suspend offset addr value = .ok written ∧
      ∀ s' offset' suspend' allow, written = .done s' offset' suspend' allow →
        Advanced s input.tid suspend s' suspend' := by
  obtain ⟨merged, done, result, load⟩ := mergeValue_of_fits plain valid fits
  unfold writeTo
  dsimp only
  by_cases port : env.port = false
  · rw [if_pos port]
    exact ⟨.stall, rfl, fun _ _ _ _ same => nomatch same⟩
  rw [if_neg port, done]
  cases result with
  | busy => exact ⟨.busy, rfl, fun _ _ _ _ same => nomatch same⟩
  | arrived =>
    refine ⟨_, rfl, fun s' offset' suspend' allow same => ?_⟩
    cases same
    exact ⟨.of_regs rfl, id, nofun, rfl⟩
  | link waiting unfilled tail =>
    have kept := load value (Or.inl rfl)
    have accepted := @writeRegister_eq _ _ _ env.activated plain.valid plain.quiet (fun _ => by rw [waiting]; nofun) kept
    rw [if_neg (by simp [waiting])] at accepted
    unfold writePipeline
    dsimp only [Except.bind]
    rw [accepted]
    refine ⟨_, rfl, fun s' offset' suspend' allow same => ?_⟩
    cases same
    refine @advanced_write _ _ _ _ _ _ _ none plain.valid kept rfl rfl rfl fun state head atHead => Or.inr ⟨waiting, ?_, Or.inr ?_⟩
    · exact tail state (by rw [atHead]; nofun)
    · refine ⟨(plain.waiting waiting).1, ?_⟩
      show Function.update s.next input.tid _ input.tid = _
      rw [Function.update_self, atHead]
  | combine waits pending =>
    have kept := load _ (Or.inr rfl)
    have accepted := @writeRegister_eq _ (s.regs addr) { value with state := .waiting, waiting := (s.regs addr).waiting }
      env.activated nofun (fun other => other.elim nofun nofun) (fun _ => nofun) kept
    rw [if_neg (by nofun)] at accepted
    unfold writePipeline
    dsimp only [Except.bind]
    rw [accepted]
    refine ⟨_, rfl, fun s' offset' suspend' allow same => ?_⟩
    cases same
    exact @advanced_write _ _ _ _ _ _ _ none (by nofun) kept rfl rfl rfl fun _ head atHead => Or.inr ⟨rfl, rfl, Or.inl atHead⟩
  | write free full =>
    have kept := load value (Or.inr rfl)
    have accepted := @writeRegister_eq _ _ _ env.activated plain.valid plain.quiet
      (fun waits => by rw [full waits]; nofun) kept
    unfold writePipeline
    dsimp only [Except.bind]
    rw [accepted]
    split
    · rename_i wakes
      cases env.activated with
      | false => exact ⟨.stall, rfl, fun _ _ _ _ same => nomatch same⟩
      | true =>
        refine ⟨_, rfl, fun s' offset' suspend' allow same => ?_⟩
        cases same
        exact @advanced_write _ _ _ _ _ _ _ (some (s.regs addr).waiting) plain.valid kept rfl rfl rfl fun _ _ _ => Or.inl rfl
    · rename_i quiet
      refine ⟨_, rfl, fun s' offset' suspend' allow same => ?_⟩
      cases same
      refine @advanced_write _ _ _ _ _ _ _ none plain.valid kept rfl rfl rfl fun waits head atHead => ?_
      exact absurd ⟨full waits, waits, by rw [atHead]; nofun⟩ quiet

/-- A value that does not fit is not written, but ends the simulation. -/
theorem writeTo_error {value : RegValue t} (plain : Plain input.tid suspend value) (port : env.port = true)
    (misfit : ¬ Fits input.tid (s.regs addr) value) :
    ∃ fault, s.writeTo env input suspend offset addr value = .error fault := by
  unfold writeTo
  dsimp only
  rw [if_neg (by simp [port])]
  rcases fault_of_not_fits plain misfit with ⟨fault, failed⟩ | ⟨merged, done, kind, failed⟩
  · rw [failed]
    exact ⟨fault, rfl⟩
  · obtain ⟨fault, failed⟩ := failed env.activated
    rw [done]
    refine ⟨fault, ?_⟩
    rcases kind with rfl | rfl
    · unfold writePipeline
      dsimp only [Except.bind]
      rw [failed]
      rfl
    · unfold writePipeline
      dsimp only [Except.bind]
      rw [failed]
      rfl

theorem writebackValue_state (rcv : PipeValue) (offset : Nat) : (writebackValue t rcv offset).state = rcv.state := by
  unfold writebackValue
  split
  · rename_i full
    exact full.symm
  · split <;> rfl

theorem plain_writebackValue (handed : HandedOver t input) (value : input.rcv.state ≠ .invalid)
    (inside : offset < input.rcv.size / t.sizeofInteger) :
    Plain input.tid (decide (input.suspend ≠ .none)) (writebackValue t input.rcv offset) where
  valid := by rwa [writebackValue_state]
  waiting state := by
    rw [writebackValue_state] at state
    obtain ⟨size, head, suspend⟩ := handed.waiting state
    have first : offset = 0 := by
      rw [size, Nat.div_self (by cases t <;> decide)] at inside
      omega
    refine ⟨?_, decide_eq_true suspend⟩
    unfold writebackValue
    rw [state]
    dsimp only
    rw [if_pos first]
    exact head
  quiet state := by
    rw [writebackValue_state] at state
    have quiet := handed.quiet state
    unfold writebackValue
    split
    · rfl
    · split
      · exact quiet
      · rfl

/-- What a cycle of the stage asks for: when it comes to writing a register, the value fits. -/
def Spares (s : WritebackCore t) (input : MemoryWritebackLatch) : Prop :=
  s.stall = false → input.rcv.state ≠ .invalid → ∀ rc, input.rc = some rc →
    s.writebackOffset.getD 0 < input.rcv.size / t.sizeofInteger →
      Fits input.tid (s.regs ⟨rc.type, rc.index + s.writebackOffset.getD 0⟩)
        (writebackValue t input.rcv (s.writebackOffset.getD 0))

theorem writeValue_ok (handed : HandedOver t input) (valid : ∀ addr, (s.regs addr).state ≠ .invalid)
    (running : s.stall = false) (spares : s.Spares input) :
    ∃ written, s.writeValue env input = .ok written ∧ ∀ s' offset' suspend' allow, written = .done s' offset' suspend' allow →
      Advanced s input.tid (decide (input.suspend ≠ .none)) s' suspend' := by
  have same : Advanced s input.tid (decide (input.suspend ≠ .none)) s (decide (input.suspend ≠ .none)) :=
    ⟨.of_regs rfl, id, id, rfl⟩
  unfold writeValue
  dsimp only
  by_cases value : input.rcv.state ≠ .invalid
  · rw [if_pos value, if_neg (by simp [handed.whole])]
    split
    · rename_i inside
      cases register : input.rc with
      | none =>
        refine ⟨_, rfl, fun s' offset' suspend' allow done => ?_⟩
        cases done
        exact same
      | some rc => exact writeTo_ok (plain_writebackValue handed value inside) (valid _) (spares running value rc register inside)
    · refine ⟨_, rfl, fun s' offset' suspend' allow done => ?_⟩
      cases done
      exact same
  · rw [if_neg value]
    split
    · rename_i barrier
      refine ⟨_, rfl, fun s' offset' suspend' allow done => ?_⟩
      cases done
      refine ⟨.of_regs (by split <;> rfl), fun valid addr => by split <;> exact valid addr, fun _ => ?_, by split <;> rfl⟩
      rw [barrier]
      rfl
    · refine ⟨_, rfl, fun s' offset' suspend' allow done => ?_⟩
      cases done
      exact same

/-- The stage stalls without an effect, or keeps what belongs to the registers. -/
def Harmless (s : WritebackCore t) (env : WritebackEnv) (input : MemoryWritebackLatch) : Prop :=
  ∃ action s', s.onCycle env input = .ok (action, s') ∧ Keeps input.tid s s' ∧
    (action = .stall → s'.regs = s.regs ∧ s'.next = s.next ∧ s'.activated = s.activated)

/-- What every cycle leaves. -/
structure Left (s : WritebackCore t) (tid : Nat) (action : PipeAction) (s' : WritebackCore t) : Prop where
  keeps : Keeps tid s s'
  stalls : action = .stall → s'.regs = s.regs ∧ s'.next = s.next ∧ s'.activated = s.activated
  valid : (∀ addr, (s.regs addr).state ≠ .invalid) → ∀ addr, (s'.regs addr).state ≠ .invalid
  latch : s'.latch = s.latch ∨ s'.latch = none

theorem Left.of_stall {tid : Nat} (s s' : WritebackCore t) (regs : s'.regs = s.regs) (next : s'.next = s.next) (activated : s'.activated = s.activated)
    (latch : s'.latch = s.latch) (action : PipeAction) : Left s tid action s' where
  keeps := .of_regs regs
  stalls _ := ⟨regs, next, activated⟩
  valid before addr := by
    rw [regs]
    exact before addr
  latch := Or.inl latch

theorem finish_ok {written : WritebackCore t} {suspend' allow : Bool} {offset' : Option Nat} (handed : HandedOver t input)
    (advanced : Advanced s input.tid (decide (input.suspend ≠ .none)) written suspend') :
    ∃ action s', s.finish env input written offset' suspend' allow = .ok (action, s') ∧ Left s input.tid action s' := by
  have delayed (offset : Option Nat) : Left s input.tid .delay { written with writebackOffset := offset } :=
    ⟨⟨advanced.keeps.load, advanced.keeps.threads⟩, nofun, advanced.valid, Or.inl advanced.latch⟩
  have next (success : Bool) : ∃ action s', (.ok (if success then (.continue, { written with
      writebackOffset := none, latch := none }) else (.stall, s)) : Except WritebackFault (PipeAction × WritebackCore t)) =
      .ok (action, s') ∧ Left s input.tid action s' := by
    cases success with
    | true =>
      exact ⟨_, _, rfl, ⟨⟨advanced.keeps.load, advanced.keeps.threads⟩, nofun, advanced.valid, Or.inr rfl⟩⟩
    | false => exact ⟨_, _, rfl, .of_stall s s rfl rfl rfl rfl _⟩
  unfold finish
  dsimp only
  split
  · exact ⟨_, _, rfl, delayed _⟩
  split
  · exact next true
  split
  · rename_i kill
    rw [if_neg]
    · exact next env.killed
    · intro suspend
      have none := advanced.suspend suspend
      rw [handed.kill kill] at none
      cases none
  split
  · exact next env.suspended
  split
  · exact next env.rescheduled
  · exact ⟨_, _, rfl, delayed _⟩

theorem onCycle_ok (handed : HandedOver t input) (valid : ∀ addr, (s.regs addr).state ≠ .invalid) (spares : s.Spares input)
    (env : WritebackEnv) : ∃ action s', s.onCycle env input = .ok (action, s') ∧ Left s input.tid action s' := by
  unfold onCycle
  split
  · exact ⟨_, _, rfl, .of_stall s { s with stall := false } rfl rfl rfl rfl _⟩
  rename_i running
  split
  · exact ⟨_, _, rfl, .of_stall s s rfl rfl rfl rfl _⟩
  obtain ⟨written, done, advanced⟩ := @writeValue_ok _ _ env _ handed valid (by simpa using running) spares
  rw [done]
  cases written with
  | stall => exact ⟨_, _, rfl, .of_stall s s rfl rfl rfl rfl _⟩
  | busy => exact ⟨_, _, rfl, .of_stall s { s with stall := true } rfl rfl rfl rfl _⟩
  | done written offset' suspend' allow => exact finish_ok handed (advanced _ _ _ _ rfl)

/-- A value that does not fit ends the simulation, unless the stage does not come to writing it. -/
theorem onCycle_misfit (handed : HandedOver t input) (misfit : ¬ s.Spares input) (env : WritebackEnv) :
    s.onCycle env input = .ok (.stall, s) ∧ (env.sent = false ∨ env.port = false) ∨
      ∃ fault, s.onCycle env input = .error fault := by
  simp only [Spares, Classical.not_imp, not_forall] at misfit
  obtain ⟨running, value, rc, register, inside, misfit⟩ := misfit
  unfold onCycle
  rw [if_neg (by simp [running])]
  by_cases unsent : input.rrc = true ∧ env.sent = false
  · rw [if_pos unsent]
    exact Or.inl ⟨rfl, Or.inl unsent.2⟩
  rw [if_neg unsent]
  have write : s.writeValue env input = s.writeTo env input (decide (input.suspend ≠ .none)) (s.writebackOffset.getD 0)
      ⟨rc.type, rc.index + s.writebackOffset.getD 0⟩ (writebackValue t input.rcv (s.writebackOffset.getD 0)) := by
    unfold writeValue
    dsimp only
    rw [if_pos value, if_neg (by simp [handed.whole]), if_pos inside, register]
  rw [write]
  by_cases port : env.port = true
  · obtain ⟨fault, failed⟩ := @writeTo_error _ _ _ _ _ (s.writebackOffset.getD 0) _ _
      (plain_writebackValue handed value inside) port misfit
    rw [failed]
    exact Or.inr ⟨fault, rfl⟩
  · have denied : env.port = false := by simpa using port
    unfold writeTo
    dsimp only
    rw [if_pos denied]
    exact Or.inl ⟨rfl, Or.inr denied⟩

/-- A cycle of the stage does no harm, whatever the other components answer, exactly
when the value that it comes to writing fits. -/
theorem harmless_iff (handed : HandedOver t input) (valid : ∀ addr, (s.regs addr).state ≠ .invalid) :
    (∀ env, s.Harmless env input) ↔ s.Spares input := by
  constructor
  · intro harmless
    by_contra misfit
    obtain ⟨action, s', done, -⟩ := harmless ⟨true, true, true, true, true, true, true⟩
    rcases onCycle_misfit handed misfit ⟨true, true, true, true, true, true, true⟩ with
      ⟨-, unsent | denied⟩ | ⟨fault, failed⟩
    · cases unsent
    · cases denied
    · rw [failed] at done
      cases done
  · intro spares env
    obtain ⟨action, s', done, left⟩ := onCycle_ok handed valid spares env
    exact ⟨action, s', done, left.keeps, left.stalls⟩

/-- What holds in every state of a run. -/
structure Sound (s : WritebackCore t) : Prop where
  valid : ∀ addr, (s.regs addr).state ≠ .invalid
  handed : ∀ input ∈ s.latch, HandedOver t input

/-- The memory stage gets what the execute stage promises. -/
def Promised (_ : WritebackCore t) : Event t → Prop
  | .handOver _ input _ _ => Executed t input
  | _ => True

theorem sound_initial (t : Target) : Sound (initial t) where
  valid _ := RegState.noConfusion
  handed input member := absurd member (by simp [initial])

theorem Sound.cycle (sound : Sound s) (latch : s.latch = some input) {action : PipeAction}
    (done : s.onCycle env input = .ok (action, s')) : Sound s' := by
  have handed := sound.handed input latch
  by_cases spares : s.Spares input
  · obtain ⟨_, _, done', left⟩ := onCycle_ok handed sound.valid spares env
    rw [done] at done'
    cases done'
    refine ⟨left.valid sound.valid, fun other member => ?_⟩
    rcases left.latch with same | none
    · exact sound.handed other (same ▸ member)
    · rw [none] at member
      cases member
  · rcases onCycle_misfit handed spares env with ⟨stalled, -⟩ | ⟨fault, failed⟩
    · rw [done] at stalled
      cases stalled
      exact sound
    · rw [done] at failed
      cases failed

theorem Sound.receive {value : Integer t} {fromMemory : Bool} (sound : Sound s)
    (done : s.receive addr value fromMemory = some s') : Sound s' := by
  unfold WritebackCore.receive at done
  split at done
  · cases done
    exact ⟨(Function.forall_update_iff _ fun _ (value : RegValue t) => value.state ≠ .invalid).mpr
      ⟨nofun, fun other _ => sound.valid other⟩, sound.handed⟩
  · cases done

theorem Sound.step {e : Event t} (sound : Sound s) (promised : Promised s e) (done : s.step e = some s') : Sound s' := by
  cases e with
  | handOver lineSize input ioMatch answer =>
    unfold WritebackCore.step at done
    dsimp only at done
    split at done
    · cases done
    · obtain ⟨rcv, memory, rfl⟩ := Option.map_eq_some_iff.mp done
      refine ⟨sound.valid, fun other member => ?_⟩
      cases member
      exact Executed.handedOver promised memory
  | cycle env =>
    unfold WritebackCore.step at done
    dsimp only at done
    split at done
    · cases done
    · rename_i input latch
      split at done
      · rename_i action after cycle
        cases done
        exact sound.cycle latch cycle
      · cases done
  | receive addr value fromMemory => exact sound.receive done
  | clear addr size =>
    cases Option.some.inj done
    refine ⟨fun other => ?_, sound.handed⟩
    show (if _ then _ else _ : RegValue t).state ≠ _
    split
    · nofun
    · exact sound.valid other

/-- In every state of a run the writeback stage does no harm to a load or to waiting threads, and fails in no
assertion, exactly when the value that it comes to writing fits the register. -/
theorem harmless_of_run {events : List (Event t)} (run : Run step Promised (initial t) events s)
    (latch : s.latch = some input) : (∀ env, s.Harmless env input) ↔ s.Spares input := by
  have sound := run.invariant (sound_initial t) fun _ _ _ kept promised done => kept.step promised done
  exact harmless_iff (sound.handed input latch) sound.valid

/-- The other components have everything done that the stage asks for. -/
def granting : WritebackEnv := ⟨true, true, true, true, true, true, true⟩

def register5 : RegAddr := ⟨.integer, 5⟩

/-- The first thread loads a word into a register. -/
def loadsWord : ExecuteMemoryLatch :=
  ⟨0, 0, false, false, .none, 0x1000, 8, false, some register5, ⟨.invalid, 8, 0, .empty, .none⟩, false⟩

/-- The second thread suspends on it, with the load that it has found there. -/
def suspendsOnLoad : ExecuteMemoryLatch :=
  ⟨1, 0, true, false, .missingData, 0, 0, false, some register5,
    ⟨.waiting, 8, 0, ⟨some 1, some 1⟩, ⟨none, 0, 8, 0, false⟩⟩, false⟩

/-- The first thread writes a value to the same register. -/
def writesValue : ExecuteMemoryLatch :=
  ⟨0, 0, false, false, .none, 0, 0, false, some register5, ⟨.full, 8, 7, .empty, .none⟩, false⟩

def writeDuringLoad : List (Event .mtalpha) :=
  [.handOver 64 loadsWord false (.delayed none), .cycle granting, .handOver 64 writesValue false .failed]

def writeDuringSuspendedLoad : List (Event .mtalpha) :=
  [.handOver 64 loadsWord false (.delayed none), .cycle granting, .handOver 64 suspendsOnLoad false .failed,
    .cycle granting, .handOver 64 writesValue false .failed]

theorem promised_writeDuringSuspendedLoad : ∀ e ∈ writeDuringSuspendedLoad, ∀ s, Promised s e := by
  simp only [writeDuringSuspendedLoad, List.mem_cons, List.not_mem_nil, or_false, forall_eq_or_imp, forall_eq]
  exact ⟨fun _ => ⟨by decide, by decide, by decide, by decide⟩, fun _ => trivial,
    fun _ => ⟨by decide, by decide, by decide, by decide⟩, fun _ => trivial,
    fun _ => ⟨by decide, by decide, by decide, by decide⟩⟩

/-- A write to a register that is the target of a load waits for the load. -/
theorem harmless_of_run_busy :
    ∃ s input, Run step Promised (initial .mtalpha) writeDuringLoad s ∧ s.latch = some input ∧
      ∀ env, s.Harmless env input := by
  have promised : ∀ e ∈ writeDuringLoad, ∀ s, Promised s e := by
    intro e member
    refine promised_writeDuringSuspendedLoad e ?_
    simp only [writeDuringLoad, List.mem_cons, List.not_mem_nil, or_false] at member
    rcases member with rfl | rfl | rfl <;> simp [writeDuringSuspendedLoad]
  have run : Run step Promised (initial .mtalpha) writeDuringLoad _ := run_of_execute promised rfl
  refine ⟨_, _, run, rfl, (harmless_of_run run rfl).mpr fun _ _ rc register _ => ?_⟩
  cases register
  exact fun (waits : RegState.pending = .waiting) => nomatch waits

/-- Once another thread waits for the load, the write is an invalid reset. -/
theorem reset_of_suspended_load :
    ∃ s input, Run step Promised (initial .mtalpha) writeDuringSuspendedLoad s ∧ s.latch = some input ∧
      s.onCycle granting input = .error .pendingLoadReset := by
  have run : Run step Promised (initial .mtalpha) writeDuringSuspendedLoad _ :=
    run_of_execute promised_writeDuringSuspendedLoad rfl
  exact ⟨_, _, run, rfl, rfl⟩

end WritebackCore

end Mgsim.Drisc
