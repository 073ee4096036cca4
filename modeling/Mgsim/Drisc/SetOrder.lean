import Mgsim.Drisc.References

namespace Mgsim.Drisc
open Mgsim.Lib Mgsim.Mmu

/-- The order in which the sets are kept: their lines by shape and by content, the
completed reads in the queue, and the references of the parked lines. -/
structure SetOrder (assoc : Nat) (map : Addr → Addr × Nat) (shapes : Nat → Shape) (content : Nat → List Addr)
    (completed references : List (BitVec 32)) : Prop where
  identifies : ∀ cid, (shapes cid).state ≠ .empty → ∀ number ∈ content cid,
    map number = ((shapes cid).tag, cid / assoc)
  unique : ∀ cid other, (shapes cid).state ≠ .empty → content cid ≠ [] → (shapes other).state ≠ .empty →
    content other ≠ [] → cid / assoc = other / assoc → (shapes cid).tag = (shapes other).tag → cid = other
  parked : ∀ cid, (shapes cid).state ≠ .empty → content cid = [] →
    (shapes cid).state ≠ .full ∧ (shapes cid).tag = 0 ∧ (shapes cid).processing = false
  foremost : ∀ cid, (shapes cid).state ≠ .empty → content cid ≠ [] → (shapes cid).state ≠ .full →
    (shapes cid).processing = false → ∀ other < cid, other / assoc = cid / assoc → (shapes other).state ≠ .empty →
      (shapes other).tag ≠ (shapes cid).tag
  once : completed.Nodup
  completed : ∀ cid ∈ completed, (shapes cid.toNat).state ≠ .empty ∧ (shapes cid.toNat).state ≠ .full ∧
    (shapes cid.toNat).processing = true
  apart : references.Nodup
  referred : ∀ cid ∈ references, (shapes cid.toNat).state ≠ .empty ∧ content cid.toNat = []

section Order
variable {assoc : Nat} {map : Addr → Addr × Nat} {shapes : Nat → Shape} {content : Nat → List Addr}
variable {completed references completed' references' : List (BitVec 32)}

/-- The line of a completed read is no parked line. -/
theorem SetOrder.content_of_processing (order : SetOrder assoc map shapes content completed references) {cid : Nat}
    (used : (shapes cid).state ≠ .empty) (processing : (shapes cid).processing = true) : content cid ≠ [] := by
  intro blank
  rw [(order.parked cid used blank).2.2] at processing
  cases processing

/-- A line is given a tag that no other line of its set has, or the placeholder
tag where no line behind it awaits bytes under that tag. -/
theorem SetOrder.settle (order : SetOrder assoc map shapes content completed references) {cid : Nat} {tag : Addr}
    {numbers : List Addr} (identifies : ∀ number ∈ numbers, map number = (tag, cid / assoc))
    (blank : numbers = [] → tag = 0)
    (free : numbers ≠ [] → ∀ other ≠ cid, other / assoc = cid / assoc → (shapes other).state ≠ .empty →
      (shapes other).tag ≠ tag)
    (behind : ∀ other, cid < other → other / assoc = cid / assoc → (shapes other).state ≠ .empty →
      content other ≠ [] → (shapes other).state ≠ .full → (shapes other).processing = false → (shapes other).tag ≠ tag)
    (outside : ∀ reference ∈ completed, reference.toNat ≠ cid) (apart : references'.Nodup)
    (referred : ∀ reference ∈ references', (reference.toNat = cid ∧ numbers = []) ∨
      (reference ∈ references ∧ reference.toNat ≠ cid)) :
    SetOrder assoc map (Function.update shapes cid ⟨tag, .loading, false⟩) (Function.update content cid numbers)
      completed references' where
  identifies := by
    intro other used
    by_cases same : other = cid
    · subst same
      simpa using identifies
    · simp only [Function.update_of_ne same] at used ⊢
      exact order.identifies other used
  unique := by
    intro first second
    by_cases atFirst : first = cid
    · by_cases atSecond : second = cid
      · intro _ _ _ _ _ _
        rw [atFirst, atSecond]
      · subst atFirst
        simp only [Function.update_self, Function.update_of_ne atSecond]
        intro _ known used _ sets tags
        exact absurd tags.symm (free known second atSecond sets.symm used)
    · by_cases atSecond : second = cid
      · subst atSecond
        simp only [Function.update_self, Function.update_of_ne atFirst]
        intro used _ _ known sets tags
        exact absurd tags (free known first atFirst sets used)
      · simp only [Function.update_of_ne atFirst, Function.update_of_ne atSecond]
        exact order.unique first second
  parked := by
    intro other used
    by_cases same : other = cid
    · subst same
      simp only [Function.update_self]
      exact fun none => ⟨by simp, blank none, trivial⟩
    · simp only [Function.update_of_ne same] at used ⊢
      exact order.parked other used
  foremost := by
    intro later
    by_cases same : later = cid
    · subst same
      simp only [Function.update_self]
      intro _ known _ _ other before sets used
      rw [Function.update_of_ne before.ne] at used ⊢
      exact free known other before.ne sets used
    · simp only [Function.update_of_ne same]
      intro used known waiting idle other before sets
      by_cases atOther : other = cid
      · subst atOther
        simp only [Function.update_self]
        exact fun _ tags => behind later before sets.symm used known waiting idle tags.symm
      · simp only [Function.update_of_ne atOther]
        exact order.foremost later used known waiting idle other before sets
  once := order.once
  completed := by
    intro reference member
    rw [Function.update_of_ne (outside reference member)]
    exact order.completed reference member
  apart := apart
  referred := by
    intro reference member
    rcases referred reference member with ⟨rfl, none⟩ | ⟨before, other⟩
    · simpa using none
    · rw [Function.update_of_ne other, Function.update_of_ne other]
      exact order.referred reference before

/-- A line keeps its tag, and awaits nothing that it did not await before. -/
theorem SetOrder.change (order : SetOrder assoc map shapes content completed references) {cid : Nat} {shape : Shape}
    {numbers : List Addr} (tag : shape.tag = (shapes cid).tag)
    (used : shape.state ≠ .empty → (shapes cid).state ≠ .empty)
    (identifies : shape.state ≠ .empty → ∀ number ∈ numbers, map number = ((shapes cid).tag, cid / assoc))
    (known : shape.state ≠ .empty → (numbers = [] ↔ content cid = []))
    (parked : shape.state ≠ .empty → numbers = [] → shape.state ≠ .full ∧ shape.processing = false)
    (waits : shape.state ≠ .full → shape.processing = false →
      shape.state = .empty ∨ ((shapes cid).state ≠ .full ∧ (shapes cid).processing = false))
    (once : completed'.Nodup)
    (finished : ∀ reference ∈ completed', (reference.toNat = cid ∧ shape.state ≠ .empty ∧ shape.state ≠ .full ∧
      shape.processing = true) ∨ (reference ∈ completed ∧ reference.toNat ≠ cid))
    (apart : references'.Subperm references)
    (referred : ∀ reference ∈ references', reference.toNat = cid → shape.state ≠ .empty) :
    SetOrder assoc map (Function.update shapes cid shape) (Function.update content cid numbers)
      completed' references' := by
  have tags : ∀ other, ((Function.update shapes cid shape) other).tag = (shapes other).tag := by
    intro other
    by_cases same : other = cid
    · subst same
      rw [Function.update_self, tag]
    · rw [Function.update_of_ne same]
  have usedBefore : ∀ other, ((Function.update shapes cid shape) other).state ≠ .empty →
      (shapes other).state ≠ .empty := by
    intro other
    by_cases same : other = cid
    · subst same
      rw [Function.update_self]
      exact used
    · rw [Function.update_of_ne same]
      exact id
  have knownBefore : ∀ other, ((Function.update shapes cid shape) other).state ≠ .empty →
      ((Function.update content cid numbers) other = [] ↔ content other = []) := by
    intro other
    by_cases same : other = cid
    · subst same
      rw [Function.update_self, Function.update_self]
      exact known
    · rw [Function.update_of_ne same, Function.update_of_ne same]
      exact fun _ => Iff.rfl
  refine ⟨fun other now => ?_, fun first second => ?_, fun other now => ?_, fun later now => ?_, once,
    fun reference member => ?_, ?_, fun reference member => ?_⟩
  · rw [tags]
    by_cases same : other = cid
    · subst same
      rw [Function.update_self] at now ⊢
      exact identifies now
    · rw [Function.update_of_ne same] at now ⊢
      exact order.identifies other now
  · rw [tags, tags]
    intro usedFirst knownFirst usedSecond knownSecond
    exact order.unique first second (usedBefore first usedFirst)
      (fun none => knownFirst ((knownBefore first usedFirst).mpr none)) (usedBefore second usedSecond)
      (fun none => knownSecond ((knownBefore second usedSecond).mpr none))
  · intro none
    have before := order.parked other (usedBefore other now) ((knownBefore other now).mp none)
    rw [tags]
    by_cases same : other = cid
    · subst same
      rw [Function.update_self] at now none ⊢
      exact ⟨(parked now none).1, before.2.1, (parked now none).2⟩
    · rw [Function.update_of_ne same]
      exact before
  · intro knownNow waitsNow idleNow other before sets usedNow
    rw [tags, tags]
    have waited : (shapes later).state ≠ .full ∧ (shapes later).processing = false := by
      by_cases same : later = cid
      · subst same
        rw [Function.update_self] at now waitsNow idleNow
        exact (waits waitsNow idleNow).resolve_left now
      · rw [Function.update_of_ne same] at waitsNow idleNow
        exact ⟨waitsNow, idleNow⟩
    exact order.foremost later (usedBefore later now) (fun none => knownNow ((knownBefore later now).mpr none))
      waited.1 waited.2 other before sets (usedBefore other usedNow)
  · rcases finished reference member with ⟨rfl, inUse, open', processing⟩ | ⟨before, other⟩
    · rw [Function.update_self]
      exact ⟨inUse, open', processing⟩
    · rw [Function.update_of_ne other]
      exact order.completed reference before
  · obtain ⟨between, perm, sub⟩ := apart
    exact perm.nodup_iff.mp (order.apart.sublist sub)
  · have before := order.referred reference (apart.subset member)
    have inUse : ((Function.update shapes cid shape) reference.toNat).state ≠ .empty := by
      by_cases same : reference.toNat = cid
      · rw [same, Function.update_self]
        exact referred reference member same
      · rw [Function.update_of_ne same]
        exact before.1
    exact ⟨inUse, (knownBefore _ inUse).mpr before.2⟩

end Order

end Mgsim.Drisc
