import Mgsim.Drisc.Allocator
import Mgsim.Lib.Chain
import Mathlib.Data.List.Chain

namespace Mgsim.Drisc
open Mgsim.Lib
variable {t : Target}

/-- The threads of a family, the ones that are cleaned up first in front. In a linked
family each of them waits for the one before it, and the links go the same way. -/
structure Block (threads : Nat → Thread t) (family : Family t) (tids : List Nat) : Prop where
  nodup : tids.Nodup
  chain : family.isLinked = true → Chain (fun tid => (threads tid).nextInBlock) tids.head? tids
  first : family.isLinked = true → ∀ tid ∈ tids, ((threads tid).dependencies.prevCleanedUp = true ↔ tids.head? = some tid)
  indices : family.isLinked = true →
    tids.IsChain fun earlier later => (threads later).index = (threads earlier).index + family.step
  unlinked : family.isLinked = false →
    ∀ tid ∈ tids, (threads tid).dependencies.prevCleanedUp = true ∧ (threads tid).nextInBlock = none
  last : family.dependencies.allocationDone = false →
    family.lastAllocated = if family.isLinked then tids.getLast? else none
  unmarked : family.dependencies.allocationDone = false → family.prevCleanedUp = false
  start : family.dependencies.allocationDone = false → family.isLinked = true →
    ∀ tid ∈ tids.getLast?, family.start = (threads tid).index + family.step

/-- The block is that of all threads that the family has in the table. -/
structure Runs (threads : Nat → Thread t) (fid : Nat) (family : Family t) (tids : List Nat) : Prop
    extends Block threads family tids where
  members : ∀ tid, tid ∈ tids ↔ (threads tid).state ≠ .empty ∧ (threads tid).family = fid
  count : tids.length = family.dependencies.numThreadsAllocated
  fits : tids.length ≤ family.physBlockSize

/-- A step that runs no thread of the family keeps what its block depends on. It can
set a family without threads up again. -/
structure Family.Carries (family family' : Family t) : Prop where
  count : family'.dependencies.numThreadsAllocated = family.dependencies.numThreadsAllocated
  shape : family.dependencies.numThreadsAllocated ≠ 0 → family'.isLinked = family.isLinked ∧
    family'.physBlockSize = family.physBlockSize ∧ family'.start = family.start ∧ family'.step = family.step
  last : family'.dependencies.allocationDone = false →
    (family.dependencies.allocationDone = false ∧ family'.lastAllocated = family.lastAllocated ∧
      family'.prevCleanedUp = family.prevCleanedUp) ∨
    (family.dependencies.numThreadsAllocated = 0 ∧ family'.lastAllocated = none ∧ family'.prevCleanedUp = false)
  empty : family'.state = .empty → family.state = .empty ∨ family.dependencies.numThreadsAllocated = 0

namespace Family.Carries
variable {family family' family'' : Family t}

theorem refl (family : Family t) : family.Carries family :=
  ⟨rfl, fun _ => ⟨rfl, rfl, rfl, rfl⟩, fun unfinished => Or.inl ⟨unfinished, rfl, rfl⟩, Or.inl⟩

theorem trans (first : family.Carries family') (second : family'.Carries family'') : family.Carries family'' where
  count := second.count.trans first.count
  shape some := by
    obtain ⟨linked, block, start, step⟩ := first.shape some
    obtain ⟨linked', block', start', step'⟩ := second.shape (first.count ▸ some)
    exact ⟨linked'.trans linked, block'.trans block, start'.trans start, step'.trans step⟩
  last unfinished := by
    rcases second.last unfinished with ⟨middle, last', marked'⟩ | ⟨none, fresh⟩
    · rcases first.last middle with ⟨before, last, marked⟩ | ⟨none, last, marked⟩
      · exact Or.inl ⟨before, last'.trans last, marked'.trans marked⟩
      · exact Or.inr ⟨none, last'.trans last, marked'.trans marked⟩
    · exact Or.inr ⟨first.count ▸ none, fresh⟩
  empty state := by
    rcases second.empty state with before | none
    · exact first.empty before
    · exact Or.inr (first.count ▸ none)

end Family.Carries

section Blocks
variable {threads threads' : Nat → Thread t} {family family' : Family t} {tids : List Nat} {fid : Nat}

/-- The block only depends on the links, marks and indices of its threads. -/
theorem Block.congr (block : Block threads family tids)
    (same : ∀ tid ∈ tids, (threads' tid).nextInBlock = (threads tid).nextInBlock ∧
      (threads' tid).dependencies.prevCleanedUp = (threads tid).dependencies.prevCleanedUp ∧
      (threads' tid).index = (threads tid).index) : Block threads' family tids where
  nodup := block.nodup
  chain linked := (block.chain linked).congr fun tid member => (same tid member).1
  first linked tid member := by
    rw [(same tid member).2.1]
    exact block.first linked tid member
  indices linked := by
    refine (block.indices linked).imp_of_mem_imp fun earlier later before after following => ?_
    rw [(same later after).2.2, (same earlier before).2.2, following]
  unlinked plain tid member := by
    rw [(same tid member).1, (same tid member).2.1]
    exact block.unlinked plain tid member
  last := block.last
  unmarked := block.unmarked
  start unfinished linked tid last := by
    rw [(same tid (List.mem_of_getLast? last)).2.2]
    exact block.start unfinished linked tid last

theorem Block.empty (last : family.dependencies.allocationDone = false →
    family.lastAllocated = none ∧ family.prevCleanedUp = false) : Block threads family [] where
  nodup := List.nodup_nil
  chain _ := .nil
  first _ tid member := absurd member List.not_mem_nil
  indices _ := .nil
  unlinked _ tid member := absurd member List.not_mem_nil
  last unfinished := by
    rw [(last unfinished).1]
    simp
  unmarked unfinished := (last unfinished).2
  start _ _ tid last := by simp at last

theorem Runs.carry (runs : Runs threads fid family tids) (carried : family.Carries family') :
    Runs threads fid family' tids := by
  have count := runs.count.trans carried.count.symm
  by_cases idle : family.dependencies.numThreadsAllocated = 0
  · have nothing : tids = [] := List.length_eq_zero_iff.mp (runs.count.trans idle)
    subst nothing
    refine ⟨Block.empty fun unfinished => ?_, runs.members, count, Nat.zero_le _⟩
    rcases carried.last unfinished with ⟨before, last, marked⟩ | ⟨_, fresh⟩
    · rw [last, marked, runs.last before, runs.unmarked before]
      simp
    · exact fresh
  · obtain ⟨linked, size, start, step⟩ := carried.shape idle
    have kept : family'.dependencies.allocationDone = false → family.dependencies.allocationDone = false ∧
        family'.lastAllocated = family.lastAllocated ∧ family'.prevCleanedUp = family.prevCleanedUp := by
      intro unfinished
      rcases carried.last unfinished with same | ⟨none, _⟩
      · exact same
      · exact absurd none idle
    refine ⟨⟨runs.nodup, ?_, ?_, ?_, ?_, ?_, ?_, ?_⟩, runs.members, count, size ▸ runs.fits⟩
    · exact linked ▸ runs.chain
    · exact linked ▸ runs.first
    · rw [linked, step]
      exact runs.indices
    · exact linked ▸ runs.unlinked
    · intro unfinished
      obtain ⟨before, last, _⟩ := kept unfinished
      rw [last, linked, runs.last before]
    · intro unfinished
      obtain ⟨before, _, marked⟩ := kept unfinished
      rw [marked, runs.unmarked before]
    · intro unfinished
      rw [linked, start, step]
      exact runs.start (kept unfinished).1

/-- The threads change inside of one family only. -/
def Within (fid : Nat) (threads threads' : Nat → Thread t) : Prop :=
  ∀ tid, threads' tid = threads tid ∨
    ((threads tid).state = .empty ∨ (threads tid).family = fid) ∧ (threads' tid).family = fid

theorem Within.trans {threads'' : Nat → Thread t} (first : Within fid threads threads')
    (second : Within fid threads' threads'') : Within fid threads threads'' := by
  intro tid
  rcases second tid with same | ⟨middle, after⟩
  · rw [same]
    exact first tid
  · rcases first tid with same | ⟨before, _⟩
    · exact Or.inr ⟨same ▸ middle, after⟩
    · exact Or.inr ⟨before, after⟩

theorem within_update {tid : Nat} {thread : Thread t}
    (before : (threads tid).state = .empty ∨ (threads tid).family = fid) (after : thread.family = fid) :
    Within fid threads (Function.update threads tid thread) := by
  intro other
  by_cases same : other = tid
  · rw [same, Function.update_self]
    exact Or.inr ⟨before, after⟩
  · rw [Function.update_of_ne same]
    exact Or.inl rfl

/-- Another family does not see the change. -/
theorem Runs.within {other : Nat} (runs : Runs threads other family tids) (inside : Within fid threads threads')
    (different : other ≠ fid) : Runs threads' other family tids := by
  have untouched : ∀ tid ∈ tids, threads' tid = threads tid := by
    intro tid member
    obtain ⟨nonempty, owner⟩ := (runs.members tid).mp member
    rcases inside tid with same | ⟨empty | owned, _⟩
    · exact same
    · exact absurd empty nonempty
    · exact absurd (owner.symm.trans owned) different
  refine ⟨runs.congr fun tid member => by rw [untouched tid member]; exact ⟨rfl, rfl, rfl⟩, fun tid => ?_, runs.count, runs.fits⟩
  rw [runs.members]
  rcases inside tid with same | ⟨before, after⟩
  · rw [same]
  · constructor
    · rintro ⟨nonempty, owner⟩
      rcases before with empty | owned
      · exact absurd empty nonempty
      · exact absurd (owner.symm.trans owned) different
    · rintro ⟨_, owner⟩
      exact absurd (owner.symm.trans after) different

/-- The first thread of a linked block is cleaned up, and the thread behind it is told. -/
theorem Block.advance {tid next : Nat} {told : Thread t} (block : Block threads family (tid :: tids))
    (linked : family.isLinked = true) (behind : tids.head? = some next) (marked : told.dependencies.prevCleanedUp = true)
    (link : told.nextInBlock = (threads next).nextInBlock) (index : told.index = (threads next).index) :
    Block (Function.update threads next told) family tids := by
  obtain ⟨absent, distinct⟩ := List.nodup_cons.mp block.nodup
  have shown : ∀ other, (Function.update threads next told other).nextInBlock = (threads other).nextInBlock ∧
      (Function.update threads next told other).index = (threads other).index := by
    intro other
    by_cases same : other = next
    · rw [same, Function.update_self]
      exact ⟨link, index⟩
    · rw [Function.update_of_ne same]
      exact ⟨rfl, rfl⟩
  have lastSame : tids.getLast? = (tid :: tids).getLast? := by
    obtain ⟨rest, rfl⟩ := List.head?_eq_some_iff.mp behind
    rw [List.getLast?_cons_cons]
  refine ⟨distinct, fun _ => ?_, fun _ other member => ?_, fun _ => ?_, fun plain => ?_, fun unfinished => ?_,
    block.unmarked, fun unfinished _ other last => ?_⟩
  · cases block.chain linked with
    | cons inner =>
      rw [← inner.head_eq]
      exact inner.congr fun other _ => (shown other).1
  · by_cases same : other = next
    · rw [same, Function.update_self, behind]
      simp [marked]
    · have before := block.first linked other (List.mem_cons_of_mem _ member)
      rw [Function.update_of_ne same, before, behind, List.head?_cons]
      refine iff_of_false ?_ ?_
      · rintro found
        cases found
        exact absent member
      · rintro found
        exact same (Option.some.inj found).symm
  · exact (block.indices linked).tail.imp fun earlier later following => by
      rw [(shown later).2, (shown earlier).2, following]
  · rw [linked] at plain
    cases plain
  · rw [lastSame]
    exact block.last unfinished
  · rw [(shown other).2]
    exact block.start unfinished linked other (lastSame ▸ last)

/-- A thread without links is cleaned up. -/
theorem Block.erase (block : Block threads family tids) (plain : family.isLinked = false) (tid : Nat) :
    Block threads family (tids.erase tid) := by
  have impossible : ¬ family.isLinked = true := by simp [plain]
  refine ⟨block.nodup.erase tid, fun linked => absurd linked impossible, fun linked => absurd linked impossible,
    fun linked => absurd linked impossible, fun _ other member => block.unlinked plain other (List.mem_of_mem_erase member),
    fun unfinished => ?_, block.unmarked, fun _ linked => absurd linked impossible⟩
  rw [block.last unfinished, plain]
  rfl

/-- The links after a thread has been put behind the last one. -/
def linkedThreads (threads : Nat → Thread t) (last : Option Nat) (tid : Nat) : Nat → Thread t :=
  match last with
  | none => threads
  | some other => Function.update threads other { threads other with nextInBlock := some tid }

theorem linkedThreads_index (threads : Nat → Thread t) (last : Option Nat) (tid other : Nat) :
    (linkedThreads threads last tid other).index = (threads other).index ∧
      (linkedThreads threads last tid other).dependencies = (threads other).dependencies := by
  unfold linkedThreads
  split
  · exact ⟨rfl, rfl⟩
  · rename_i before
    by_cases same : other = before
    · rw [same, Function.update_self]
      exact ⟨rfl, rfl⟩
    · rw [Function.update_of_ne same]
      exact ⟨rfl, rfl⟩

theorem linkedThreads_life (threads : Nat → Thread t) (last : Option Nat) (tid other : Nat) :
    (linkedThreads threads last tid other).state = (threads other).state ∧
      (linkedThreads threads last tid other).family = (threads other).family ∧
      (linkedThreads threads last tid other).waitingForWrites = (threads other).waitingForWrites := by
  unfold linkedThreads
  split
  · exact ⟨rfl, rfl, rfl⟩
  · rename_i before
    by_cases same : other = before
    · rw [same, Function.update_self]
      exact ⟨rfl, rfl, rfl⟩
    · rw [Function.update_of_ne same]
      exact ⟨rfl, rfl, rfl⟩

theorem linkedThreads_last {last tid : Nat} : (linkedThreads threads (some last) tid last).nextInBlock = some tid := by
  rw [linkedThreads, Function.update_self]

theorem linkedThreads_other {last : Option Nat} {tid other : Nat} (different : last ≠ some other) :
    linkedThreads threads last tid other = threads other := by
  unfold linkedThreads
  split
  · rfl
  · refine Function.update_of_ne ?_ _ _
    rintro rfl
    exact different rfl

theorem head_of_append {tid : Nat} (fresh : tid ∉ tids) (head : (tids ++ [tid]).head? = some tid) : tids = [] := by
  cases tids with
  | nil => rfl
  | cons other rest =>
    cases head
    exact absurd List.mem_cons_self fresh

/-- A thread is put behind the others of its block. -/
theorem Block.snoc {tid : Nat} {old : Thread t} {isNew : Bool} (block : Block threads family tids) (fresh : tid ∉ tids)
    (unfinished : family.dependencies.allocationDone = false)
    (none : family.isLinked = true → (family.dependencies.numThreadsAllocated = 0 ↔ tids = []))
    (single : family.isLinked = false → family.hasShareds = true → family.physBlockSize = 1) :
    Block (linkedThreads (Function.update threads tid (Allocator.newThread family fid old isNew)) family.lastAllocated tid)
      (Allocator.countThread family tid (Allocator.newThread family fid old isNew) isNew) (tids ++ [tid]) := by
  have last := block.last unfinished
  have unmarked := block.unmarked unfinished
  generalize made : Allocator.newThread family fid old isNew = thread
  have nextOf : thread.nextInBlock = Option.none := by rw [← made]; rfl
  have indexOf : thread.index = family.start := by rw [← made]; rfl
  have markOf : thread.dependencies.prevCleanedUp = (!family.hasShareds ||
      decide (family.dependencies.numThreadsAllocated = 0) || decide (family.physBlockSize = 1)) := by
    rw [← made]
    simp [Allocator.newThread, unmarked]
  have distinct : (tids ++ [tid]).Nodup := by
    rw [← List.concat_eq_append]
    exact block.nodup.concat fresh
  have notLast : family.lastAllocated ≠ some tid := by
    rw [last]
    split
    · exact fun found => fresh (List.mem_of_getLast? found)
    · exact fun found => by cases found
  have atOther : ∀ other ∈ tids, Function.update threads tid thread other = threads other := by
    intro other member
    refine Function.update_of_ne ?_ _ _
    rintro rfl
    exact fresh member
  have atNew : linkedThreads (Function.update threads tid thread) family.lastAllocated tid tid = thread := by
    rw [linkedThreads_other notLast, Function.update_self]
  have kept := fun other member => linkedThreads_index (Function.update threads tid thread)
    family.lastAllocated tid other |>.imp (·.trans (congrArg Thread.index (atOther other member)))
      (·.trans (congrArg Thread.dependencies (atOther other member)))
  refine ⟨distinct, fun linked => ?_, fun linked other member => ?_, fun linked => ?_, fun plain other member => ?_,
    fun _ => ?_, fun _ => rfl, fun _ linked other found => ?_⟩
  · rw [show family.isLinked = true from linked] at last
    refine (block.chain linked).snoc block.nodup ?_ ?_ ?_
    · rw [atNew, nextOf]
    · intro other found
      rw [last, show tids.getLast? = some other from found]
      exact linkedThreads_last
    · intro other member inside
      rw [linkedThreads_other (by rw [last]; exact inside), atOther other member]
  · rcases List.mem_append.mp member with before | added
    · rw [(kept other before).2, block.first linked other before, List.head?_append_of_ne_nil _ (List.ne_nil_of_mem before)]
    · obtain ⟨shareds, several⟩ := Family.isLinked_iff.mp linked
      have several : ¬ family.physBlockSize = 1 := Nat.ne_of_gt several
      have shareds : family.hasShareds = true := shareds
      rw [List.mem_singleton.mp added, atNew, markOf, shareds, decide_eq_false several]
      simp only [Bool.not_true, Bool.false_or, Bool.or_false, decide_eq_true_eq, none linked]
      exact ⟨fun empty => by rw [empty]; rfl, fun head => head_of_append fresh head⟩
  · refine (block.indices linked).imp_of_mem_imp (fun earlier later before after following => ?_) |>.append
      (List.isChain_singleton tid) fun earlier atEnd later atHead => ?_
    · rw [(kept later after).1, (kept earlier before).1, following]
      rfl
    · cases atHead
      rw [atNew, indexOf, (kept earlier (List.mem_of_getLast? atEnd)).1]
      exact block.start unfinished linked earlier atEnd
  · rcases List.mem_append.mp member with before | added
    · have noLink : family.lastAllocated ≠ some other := by
        rw [last, if_neg (by rw [show family.isLinked = false from plain]; simp)]
        exact fun found => by cases found
      rw [linkedThreads_other noLink, atOther other before]
      exact block.unlinked plain other before
    · rw [List.mem_singleton.mp added, atNew, markOf]
      refine ⟨?_, nextOf⟩
      cases shareds : family.hasShareds with
      | false => rfl
      | true => simp [single plain shareds]
  · show (if family.isLinked then some tid else family.lastAllocated) = if family.isLinked then (tids ++ [tid]).getLast? else _
    rw [last]
    cases family.isLinked <;> simp
  · rw [List.getLast?_concat] at found
    cases found
    rw [atNew, indexOf]
    rfl

end Blocks
end Mgsim.Drisc
