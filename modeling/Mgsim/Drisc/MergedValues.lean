import Mgsim.Drisc.Writeback

namespace Mgsim.Drisc
open Mgsim.Mmu

variable {t : Target}

/-- What the execute stage promises of its output: a memory operation has a value to store or
none, and other instructions have a value, none, or one that is still to come. A thread that
suspends carries itself as the first of the threads that wait for one register. -/
structure Executed (t : Target) (input : ExecuteMemoryLatch) : Prop where
  whole : input.rcv.size % t.sizeofInteger = 0
  memory : input.size ≠ 0 → input.rcv.state = .full ∨ input.rcv.state = .invalid
  value : input.size = 0 →
    input.rcv.state = .full ∨ input.rcv.state = .invalid ∨ input.rcv = .makePending input.rcv.size ∨
      input.rcv.state = .waiting ∧ input.rcv.size = t.sizeofInteger ∧ input.rcv.waiting.head = some input.tid ∧
        input.suspend = .missingData
  kill : input.kill = true → input.suspend = .none

/-- What the memory stage hands over. -/
structure HandedOver (t : Target) (input : MemoryWritebackLatch) : Prop where
  whole : input.rcv.size % t.sizeofInteger = 0
  waiting : input.rcv.state = .waiting →
    input.rcv.size = t.sizeofInteger ∧ input.rcv.waiting.head = some input.tid ∧ input.suspend ≠ .none
  quiet : input.rcv.state = .empty ∨ input.rcv.state = .pending → input.rcv.waiting.head = none
  kill : input.kill = true → input.suspend = .none

theorem Executed.handedOver {input : ExecuteMemoryLatch} {lineSize : Nat} {ioMatch : Bool} {answer : MemoryAnswer}
    {rcv : PipeValue} (executed : Executed t input) (done : memoryStage t lineSize input ioMatch answer = some rcv) :
    HandedOver t (input.handOver rcv) := by
  have whole : ∀ rcv' : PipeValue, rcv'.size = input.rcv.size → rcv'.size % t.sizeofInteger = 0 :=
    fun _ size => size ▸ executed.whole
  have valued : ∀ rcv' : PipeValue, rcv'.size = input.rcv.size → rcv'.state = .full ∨ rcv'.state = .invalid →
      HandedOver t (input.handOver rcv') := fun rcv' size state =>
    ⟨whole rcv' size, fun (waiting : rcv'.state = .waiting) => by simp [waiting] at state,
      fun (other : rcv'.state = .empty ∨ rcv'.state = .pending) => by
        rcases state with state | state <;> simp [state] at other, executed.kill⟩
  have unvalued : ∀ rcv' : PipeValue, rcv'.size = input.rcv.size → rcv'.state ≠ .waiting → rcv'.waiting.head = none →
      HandedOver t (input.handOver rcv') := fun rcv' size state quiet =>
    ⟨whole rcv' size, fun waiting => absurd waiting state, fun _ => quiet, executed.kill⟩
  unfold memoryStage at done
  split at done
  · rename_i none
    cases done
    rcases executed.value none with full | invalid | pending | ⟨waiting, size, head, suspend⟩
    · exact valued _ rfl (Or.inl full)
    · exact valued _ rfl (Or.inr invalid)
    · exact unvalued _ rfl (by rw [pending]; nofun) (by rw [pending]; rfl)
    · refine ⟨executed.whole, fun _ => ⟨size, head, ?_⟩, fun other => ?_, executed.kill⟩
      · show input.suspend ≠ .none
        rw [suspend]
        nofun
      · change input.rcv.state = .empty ∨ input.rcv.state = .pending at other
        simp [waiting] at other
  · rename_i some
    split at done
    · cases answer with
      | failed | active => cases done
      | delayed _ | success _ =>
        cases done
        exact valued _ rfl (Or.inr rfl)
    · rename_i load
      have invalid := (executed.memory some).resolve_left load
      split at done
      · cases done
        exact valued _ rfl (Or.inr invalid)
      · dsimp only at done
        split at done
        · cases done
          exact unvalued _ rfl nofun rfl
        · cases answer with
          | failed | active => cases done
          | delayed reg =>
            cases done
            cases ioMatch
            · exact unvalued _ rfl nofun rfl
            · exact unvalued _ rfl nofun rfl
          | success data =>
            cases done
            exact valued _ rfl (Or.inl rfl)

/-- The new value of a register goes with the old one: nobody waits for a load of the register unless
the thread itself does, and for the same load, and nobody waits for a register that is cleared. -/
def Fits (tid : Nat) (old value : RegValue t) : Prop :=
  match value.state with
  | .waiting => old.state ≠ .full →
      value.waiting.tail = (if old.state = .waiting ∧ old.waiting.head ≠ none then old.waiting.tail else some tid) ∧
        (old.memory.size ≠ 0 → value.memory = old.memory)
  | .empty => old.state ≠ .waiting
  | _ => old.state = .waiting → old.memory.size = 0

section Merge
variable {old value : RegValue t} {tid : Nat} {suspend activated : Bool}

/-- What a value that is written has in common with the values that the memory stage hands over. -/
structure Plain (tid : Nat) (suspend : Bool) (value : RegValue t) : Prop where
  valid : value.state ≠ .invalid
  waiting : value.state = .waiting → value.waiting.head = some tid ∧ suspend = true
  quiet : value.state = .empty ∨ value.state = .pending → value.waiting.head = none

/-- The load that a register is the target of stays there. -/
def KeepsLoad (old new : RegValue t) : Prop :=
  old.state ≠ .full → old.memory.size ≠ 0 → new.state ≠ .full ∧ new.memory = old.memory

/-- The register file takes a value that does not touch a load, and wakes up the threads that wait for it. -/
theorem writeRegister_eq (valid : value.state ≠ .invalid)
    (quiet : value.state = .empty ∨ value.state = .pending → value.waiting.head = none)
    (reset : old.state = .waiting → value.state ≠ .empty) (load : KeepsLoad old value) :
    writeRegister old value false activated = .ok
      (if value.state = .full ∧ old.state = .waiting ∧ old.waiting.head ≠ none then
        if activated then some (some old.waiting) else none
      else some none) := by
  unfold writeRegister
  rw [if_neg valid, if_neg fun both => both.2 (quiet both.1)]
  by_cases full : old.state = .full
  · rw [if_pos full, if_neg (by simp [full])]
  · have noReset : ¬(old.state = .waiting ∧ value.state = .empty) := fun both => reset both.1 both.2
    have noLoad : ¬(old.memory.size ≠ 0 ∧ (value.state = .full ∨ value.memory ≠ old.memory) ∧ false = false) :=
      fun ⟨size, changed, _⟩ => changed.elim (load full size).1 fun other => other (load full size).2
    rw [if_neg full, if_neg noReset, if_neg noLoad]
    split <;> rfl

/-- A load that has been started is not reset by the pipeline. -/
theorem writeRegister_load (plain : Plain tid suspend value) (unfilled : old.state ≠ .full)
    (reset : old.state = .waiting → value.state ≠ .empty) (size : old.memory.size ≠ 0)
    (changed : value.state = .full ∨ value.memory ≠ old.memory) :
    writeRegister old value false activated = .error .pendingLoadReset := by
  unfold writeRegister
  rw [if_neg plain.valid, if_neg fun both => both.2 (plain.quiet both.1), if_neg unfilled,
    if_neg fun both => reset both.1 both.2, if_pos ⟨size, changed, rfl⟩]

/-- What the stage goes on to do with a value that fits. -/
inductive MergeResult (tid : Nat) (old value : RegValue t) : Merged t → Prop
  | busy : MergeResult tid old value .busy
  | arrived : MergeResult tid old value .arrived
  | link (waiting : value.state = .waiting) (unfilled : old.state ≠ .full)
      (tail : old.state = .waiting → old.waiting.head ≠ none → value.waiting.tail = old.waiting.tail) :
      MergeResult tid old value (.link value)
  | combine (waits : old.state = .waiting) (pending : value.state = .pending) :
      MergeResult tid old value (.write { value with state := .waiting, waiting := old.waiting })
  | write (free : value.state ≠ .waiting) (full : old.state = .waiting → value.state = .full) :
      MergeResult tid old value (.write value)

theorem mergeValue_of_fits (plain : Plain tid suspend value) (valid : old.state ≠ .invalid) (fits : Fits tid old value) :
    ∃ merged, mergeValue tid suspend old value = .ok merged ∧ MergeResult tid old value merged ∧
      ∀ new, merged = .link new ∨ merged = .write new → KeepsLoad old new := by
  by_cases waiting : value.state = .waiting
  · obtain ⟨head, suspends⟩ := plain.waiting waiting
    simp only [Fits, waiting] at fits
    unfold mergeValue
    rw [if_pos waiting, if_neg (by simp [suspends])]
    by_cases full : old.state = .full
    · rw [if_pos full]
      exact ⟨_, rfl, .arrived, fun new same => same.elim nofun nofun⟩
    · obtain ⟨tail, memory⟩ := fits full
      have kept : ∀ new, Merged.link value = .link new ∨ Merged.link value = .write new → KeepsLoad old new := by
        rintro new (same | same)
        · cases same
          exact fun _ size => ⟨by rw [waiting]; nofun, memory size⟩
        · cases same
      rw [if_neg full, if_neg (by simp [head])]
      by_cases behind : old.state = .waiting ∧ old.waiting.head ≠ none
      · rw [if_pos behind] at tail ⊢
        rw [if_neg (by simp [tail])]
        exact ⟨_, rfl, .link waiting full fun _ _ => tail, kept⟩
      · rw [if_neg behind] at tail ⊢
        rw [if_neg (by simp [tail])]
        exact ⟨_, rfl, .link waiting full fun state some => absurd ⟨state, some⟩ behind, kept⟩
  · unfold mergeValue
    rw [if_neg waiting]
    by_cases combine : value.state = .pending ∧ old.state = .waiting
    · have free : old.memory.size = 0 := by
        simp only [Fits, combine.1] at fits
        exact fits combine.2
      rw [if_pos combine, if_neg (by simp [free])]
      exact ⟨_, rfl, .combine combine.2 combine.1, fun new same _ size => absurd free size⟩
    · rw [if_neg combine]
      by_cases busy : (old.state = .empty ∨ old.state = .pending) ∧ old.memory.size ≠ 0
      · rw [if_pos busy]
        exact ⟨_, rfl, .busy, fun new same => same.elim nofun nofun⟩
      · rw [if_neg busy]
        have state : old.state = .waiting → value.state = .full := by
          intro old
          cases new : value.state with
          | full => rfl
          | invalid => exact absurd new plain.valid
          | empty =>
            simp only [Fits, new] at fits
            exact absurd old fits
          | pending => exact absurd ⟨new, old⟩ combine
          | waiting => exact absurd new waiting
        refine ⟨_, rfl, .write waiting state, fun new same unfilled size => absurd ?_ size⟩
        cases kind : old.state with
        | full => exact absurd kind unfilled
        | invalid => exact absurd kind valid
        | empty => exact not_not.mp fun size => busy ⟨Or.inl kind, size⟩
        | pending => exact not_not.mp fun size => busy ⟨Or.inr kind, size⟩
        | waiting =>
          simp only [Fits, state kind] at fits
          exact fits kind

/-- A value that does not fit ends in one of the assertions or exceptions. -/
theorem fault_of_not_fits (plain : Plain tid suspend value) (misfit : ¬ Fits tid old value) :
    (∃ fault, mergeValue tid suspend old value = .error fault) ∨
      ∃ merged, mergeValue tid suspend old value = .ok merged ∧ (merged = .link value ∨ merged = .write value) ∧
        ∀ activated, ∃ fault, writeRegister old value false activated = .error fault := by
  by_cases waiting : value.state = .waiting
  · obtain ⟨head, suspends⟩ := plain.waiting waiting
    simp only [Fits, waiting, Classical.not_imp, not_and_or] at misfit
    obtain ⟨unfilled, misfit⟩ := misfit
    unfold mergeValue
    rw [if_pos waiting, if_neg (by simp [suspends]), if_neg unfilled, if_neg (by simp [head])]
    have lost : old.memory.size ≠ 0 ∧ value.memory ≠ old.memory →
        ∀ activated, ∃ fault, writeRegister old value false activated = .error fault :=
      fun ⟨size, other⟩ _ =>
        ⟨_, writeRegister_load plain unfilled (fun _ => by rw [waiting]; nofun) size (Or.inr other)⟩
    by_cases behind : old.state = .waiting ∧ old.waiting.head ≠ none
    · rw [if_pos behind] at misfit ⊢
      by_cases tail : value.waiting.tail = old.waiting.tail
      · rw [if_neg (by simp [tail])]
        exact Or.inr ⟨_, rfl, Or.inl rfl, lost (misfit.resolve_left fun other => other tail)⟩
      · exact Or.inl ⟨_, if_pos tail⟩
    · rw [if_neg behind] at misfit ⊢
      by_cases tail : value.waiting.tail = some tid
      · rw [if_neg (by simp [tail])]
        exact Or.inr ⟨_, rfl, Or.inl rfl, lost (misfit.resolve_left fun other => other tail)⟩
      · exact Or.inl ⟨_, if_pos tail⟩
  · have waits : old.state = .waiting := by
      by_contra quiet
      refine misfit ?_
      unfold Fits
      split
      · exact absurd ‹_› waiting
      · exact quiet
      · exact fun old => absurd old quiet
    have notBusy : ¬((old.state = .empty ∨ old.state = .pending) ∧ old.memory.size ≠ 0) := by simp [waits]
    unfold mergeValue
    rw [if_neg waiting]
    cases kind : value.state with
    | invalid => exact absurd kind plain.valid
    | waiting => exact absurd kind waiting
    | pending =>
      simp only [Fits, kind, Classical.not_imp] at misfit
      rw [if_pos ⟨rfl, waits⟩, if_pos misfit.2]
      exact Or.inl ⟨_, rfl⟩
    | empty =>
      rw [if_neg (by simp), if_neg notBusy]
      refine Or.inr ⟨_, rfl, Or.inr rfl, fun activated => ⟨.invalidReset, ?_⟩⟩
      unfold writeRegister
      rw [if_neg plain.valid, if_neg fun both => both.2 (plain.quiet both.1), if_neg (by simp [waits]),
        if_pos ⟨waits, kind⟩]
    | full =>
      simp only [Fits, kind, Classical.not_imp] at misfit
      rw [if_neg (by simp), if_neg notBusy]
      exact Or.inr ⟨_, rfl, Or.inr rfl, fun _ => ⟨_, writeRegister_load plain (by simp [waits])
        (fun _ => by rw [kind]; nofun) misfit.2 (Or.inl kind)⟩⟩

end Merge

end Mgsim.Drisc
