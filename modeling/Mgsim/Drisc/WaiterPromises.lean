import Mgsim.Drisc.WaiterChains

namespace Mgsim.Drisc
open Mgsim.Lib Mgsim.Mmu

/-- What the registers will be written with. The registers of a line whose tag is known wait
for the physical line that this tag names. -/
structure Promises (l : Ledger) (names : Nat → Addr) (content : Nat → List Addr) : Prop where
  named : ∀ reg cid, l.place reg = .line cid → content cid ≠ [] → l.wanted reg = some (names cid)
  coming : ∀ reg, l.place reg = .queued → l.bound reg = l.wanted reg ∧ (l.wanted reg).isSome
  loaded : ∀ writeback ∈ l.written, writeback.bound = writeback.wanted ∧ writeback.wanted.isSome

namespace Promises
variable {l : Ledger} {names names' : Nat → Addr} {content content' : Nat → List Addr} {cid : Nat}

/-- The lines with registers keep their names. -/
theorem rename (promises : Promises l names content)
    (same : ∀ reg line, l.place reg = .line line → content' line ≠ [] → content line ≠ [] ∧ names' line = names line) :
    Promises l names' content' where
  named := by
    intro reg line place known
    obtain ⟨before, name⟩ := same reg line place known
    rw [name]
    exact promises.named reg line place before
  coming := promises.coming
  loaded := promises.loaded

theorem push (promises : Promises l names content) {reg returned : Option RegAddr} {wanted : Option Addr}
    (free : l.Free reg) (own : content' cid ≠ [] → wanted = some (names' cid))
    (same : ∀ reg line, l.place reg = .line line → content' line ≠ [] → content line ≠ [] ∧ names' line = names line) :
    Promises (l.push cid reg returned wanted) names' content' := by
  cases reg with
  | none =>
    have renamed := promises.rename same
    exact ⟨renamed.named, renamed.coming, renamed.loaded⟩
  | some reg =>
    have renamed := promises.rename same
    have idle : l.place reg = .idle := free
    refine ⟨fun other line place known => ?_, fun other place => ?_, renamed.loaded⟩
    · by_cases atReg : other = reg
      · subst atReg
        simp only [Ledger.push, Function.update_self] at place ⊢
        cases place
        exact own known
      · simp only [Ledger.push, Function.update_of_ne atReg] at place ⊢
        exact renamed.named other line place known
    · by_cases atReg : other = reg
      · subst atReg
        simp [Ledger.push] at place
      · simp only [Ledger.push, Function.update_of_ne atReg] at place ⊢
        exact renamed.coming other place

/-- The physical line of the registers of a parked line is found. -/
theorem settle (promises : Promises l names content) {number : Addr} (own : content' cid ≠ [] → number = names' cid)
    (same : ∀ line ≠ cid, content' line ≠ [] → content line ≠ [] ∧ names' line = names line) :
    Promises (l.settle cid number) names' content' where
  named := by
    intro reg line place known
    have before : l.place reg = .line line := place
    simp only [Ledger.settle]
    split
    · rename_i atCid
      cases before.symm.trans atCid
      rw [own known]
    · rename_i elsewhere
      have different : line ≠ cid := fun equal => elsewhere (equal ▸ before)
      obtain ⟨knownBefore, name⟩ := same line different known
      rw [name]
      exact promises.named reg line before knownBefore
  coming := by
    intro reg place
    have queued : l.place reg = .queued := place
    simp only [Ledger.settle, queued, reduceCtorEq, if_false]
    exact promises.coming reg queued
  loaded := promises.loaded

theorem move (promises : Promises l names content) {other : Nat}
    (own : ∀ reg, l.place reg = .line cid → l.wanted reg = some (names' other))
    (same : ∀ line ≠ cid, content' line ≠ [] → content line ≠ [] ∧ names' line = names line) :
    Promises (l.move cid other) names' content' where
  named := by
    intro reg line place known
    simp only [Ledger.move] at place ⊢
    split at place
    · rename_i atCid
      cases place
      exact own reg atCid
    · rename_i elsewhere
      have different : line ≠ cid := fun equal => elsewhere (equal ▸ place)
      obtain ⟨knownBefore, name⟩ := same line different known
      rw [name]
      exact promises.named reg line place knownBefore
  coming := by
    intro reg place
    simp only [Ledger.move] at place ⊢
    split at place
    · cases place
    · exact promises.coming reg place
  loaded := promises.loaded

/-- The registers of a line with all its bytes get the physical line that they wait for. -/
theorem queue (promises : Promises l names content) {create : Bool} (whole : l.cache.whole cid = true)
    (own : ∀ reg, l.place reg = .line cid → l.wanted reg = some (l.cache.lineName cid))
    (same : ∀ line ≠ cid, content' line ≠ [] → content line ≠ [] ∧ names' line = names line) :
    Promises (l.queue cid create) names' content' where
  named := by
    intro reg line place known
    simp only [Ledger.queue] at place ⊢
    split at place
    · cases place
    · rename_i elsewhere
      have different : line ≠ cid := fun equal => elsewhere (equal ▸ place)
      obtain ⟨knownBefore, name⟩ := same line different known
      rw [name]
      exact promises.named reg line place knownBefore
  coming := by
    intro reg place
    simp only [Ledger.queue] at place ⊢
    split at place
    · rename_i atCid
      rw [if_pos atCid, if_pos whole, own reg atCid]
      exact ⟨rfl, rfl⟩
    · rename_i elsewhere
      rw [if_neg elsewhere]
      exact promises.coming reg place
  loaded := promises.loaded

theorem deliver (promises : Promises l names content) {regs : List RegAddr}
    (queued : ∀ reg ∈ regs, l.place reg = .queued) : Promises (l.deliver regs) names content where
  named := by
    intro reg line place known
    simp only [Ledger.deliver] at place ⊢
    split at place
    · cases place
    · exact promises.named reg line place known
  coming := by
    intro reg place
    simp only [Ledger.deliver] at place ⊢
    split at place
    · cases place
    · exact promises.coming reg place
  loaded := by
    intro writeback member
    rcases List.mem_append.mp member with now | before
    · obtain ⟨reg, inRegs, rfl⟩ := List.mem_map.mp now
      exact promises.coming reg (queued reg inRegs)
    · exact promises.loaded writeback before

end Promises

/-- The creation that is under way is the one of the line with the flag, and this line is still loading. -/
structure Creations (l : Ledger) (hooks : Nat → Hook) (shapes : Nat → Shape) : Prop where
  created : l.asked = l.answered + if l.asking.isSome then 1 else 0
  flagged : ∀ cid, (hooks cid).create = true ↔ l.asking = some cid
  live : ∀ cid, l.asking = some cid → (shapes cid).Live

namespace Creations
variable {l l' : Ledger} {hooks hooks' : Nat → Hook} {shapes shapes' : Nat → Shape} {cid : Nat}

theorem congr (creations : Creations l hooks shapes) (asked : l'.asked = l.asked) (answered : l'.answered = l.answered)
    (asking : l'.asking = l.asking) (create : ∀ cid, (hooks' cid).create = (hooks cid).create)
    (live : ∀ cid, l.asking = some cid → (shapes' cid).Live) : Creations l' hooks' shapes' := by
  refine ⟨?_, fun cid => ?_, fun cid => ?_⟩
  · rw [asked, answered, asking]
    exact creations.created
  · rw [create, asking]
    exact creations.flagged cid
  · rw [asking]
    exact live cid

/-- A line that is not loading has no creation. -/
theorem not_create (creations : Creations l hooks shapes) (dead : ¬ (shapes cid).Live) : (hooks cid).create = false := by
  by_contra flag
  rw [Bool.not_eq_false] at flag
  exact dead (creations.live cid ((creations.flagged cid).mp flag))

theorem push (creations : Creations l hooks shapes) {reg returned : Option RegAddr} {wanted : Option Addr} {hook : Hook}
    (free : l.Free reg) (create : hook.create = (hooks cid).create)
    (pushed : hooks' = Function.update hooks cid (hook.push reg)) (own : (shapes' cid).Live)
    (others : ∀ other ≠ cid, shapes' other = shapes other) :
    Creations (l.push cid reg returned wanted) hooks' shapes' := by
  cases reg with
  | some reg =>
    refine creations.congr rfl rfl rfl (fun other => ?_) fun other asking => ?_
    · rw [pushed]
      by_cases same : other = cid
      · subst same
        rw [Function.update_self]
        exact create
      · rw [Function.update_of_ne same]
    · by_cases same : other = cid
      · exact same ▸ own
      · rw [others other same]
        exact creations.live other asking
  | none =>
    have idle : l.asking = none := free
    have created := creations.created
    rw [idle] at created
    refine ⟨?_, fun other => ?_, fun other asking => ?_⟩
    · simpa [Ledger.push] using created
    · have flag := creations.flagged other
      rw [idle] at flag
      rw [pushed]
      by_cases same : other = cid
      · subst same
        simp [Ledger.push, Hook.push]
      · rw [Function.update_of_ne same, flag]
        simp [Ledger.push, Ne.symm same]
    · cases asking
      exact own

/-- The creation of a line is signalled when its bytes are there. -/
theorem queue (creations : Creations l hooks shapes) (cleared : (hooks' cid).create = false)
    (create : ∀ other ≠ cid, (hooks' other).create = (hooks other).create)
    (live : ∀ other ≠ cid, (shapes other).Live → (shapes' other).Live) :
    Creations (l.queue cid (hooks cid).create) hooks' shapes' := by
  have created := creations.created
  by_cases asking : l.asking = some cid
  · have flag := (creations.flagged cid).mpr asking
    refine ⟨?_, fun other => ?_, fun other => ?_⟩
    · rw [asking] at created
      simpa [Ledger.queue, asking, flag] using created
    · by_cases same : other = cid
      · subst same
        simp [Ledger.queue, asking, cleared]
      · rw [create other same, creations.flagged]
        simp [Ledger.queue, asking, Ne.symm same]
    · simp [Ledger.queue, asking]
  · have flag : (hooks cid).create = false := by
      by_contra set
      rw [Bool.not_eq_false] at set
      exact asking ((creations.flagged cid).mp set)
    refine creations.congr rfl ?_ ?_ (fun other => ?_) fun other now => live other ?_ (creations.live other now)
    · simp [Ledger.queue, flag]
    · simp [Ledger.queue, asking]
    · by_cases same : other = cid
      · subst same
        rw [cleared, flag]
      · exact create other same
    · rintro rfl
      exact asking now

end Creations

/-- A line with waiters gets its bytes: its completed read is in the queue, or its
translation is referred to. -/
structure Progress (shapes : Nat → Shape) (content : Nat → List Addr) (completed references : List (BitVec 32)) :
    Prop where
  listed : ∀ cid, (shapes cid).Live → (shapes cid).processing = true → ∃ reference ∈ completed, reference.toNat = cid
  referred : ∀ cid, (shapes cid).Live → content cid = [] → ∃ reference ∈ references, reference.toNat = cid

namespace Progress
variable {shapes shapes' : Nat → Shape} {content content' : Nat → List Addr}
variable {completed completed' references references' : List (BitVec 32)}

theorem mono (progress : Progress shapes content completed references) (kept : references ⊆ references') :
    Progress shapes content completed references' where
  listed := progress.listed
  referred := by
    intro cid live blank
    obtain ⟨reference, member, same⟩ := progress.referred cid live blank
    exact ⟨reference, kept member, same⟩

/-- Only one line is changed, for which both are shown again. -/
theorem change (progress : Progress shapes content completed references) (cid : Nat)
    (others : ∀ other ≠ cid, shapes' other = shapes other ∧ content' other = content other)
    (finished : ∀ reference ∈ completed, reference.toNat ≠ cid → reference ∈ completed')
    (kept : ∀ reference ∈ references, reference.toNat ≠ cid → reference ∈ references')
    (listed : (shapes' cid).Live → (shapes' cid).processing = true → ∃ reference ∈ completed', reference.toNat = cid)
    (referred : (shapes' cid).Live → content' cid = [] → ∃ reference ∈ references', reference.toNat = cid) :
    Progress shapes' content' completed' references' where
  listed := by
    intro other
    by_cases same : other = cid
    · exact same ▸ listed
    · rw [(others other same).1]
      intro live processing
      obtain ⟨reference, member, rfl⟩ := progress.listed other live processing
      exact ⟨reference, finished reference member same, rfl⟩
  referred := by
    intro other
    by_cases same : other = cid
    · exact same ▸ referred
    · rw [(others other same).1, (others other same).2]
      intro live blank
      obtain ⟨reference, member, rfl⟩ := progress.referred other live blank
      exact ⟨reference, kept reference member same, rfl⟩

end Progress

end Mgsim.Drisc
