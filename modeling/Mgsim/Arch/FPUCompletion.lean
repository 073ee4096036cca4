import Mgsim.Lib.Run
import Mgsim.Arch.FPUMoves

namespace Mgsim.Arch
open Mgsim.Lib Mgsim.Drisc

variable {t : Target} {c : FPUConf t}

/-- The operations that the configuration has a unit for, and whose slices do not depend on the byte order. -/
def FPUConf.Supports (c : FPUConf t) (fop : FPUOperation) (size : Nat) : Prop :=
  c.mapping fop ≠ [] ∧ (t.isBigEndian = true ∨ registers t size = 1)

namespace FPU

/-- What has been written of an operation. -/
def writesOf (s : FPU c) (id : Nat) : List (c.SourceId × RegAddr × Integer t) :=
  (s.writes.filter fun w => w.id = id).map fun w => (w.source, w.address, w.value)

/-- The part of a value that belongs into one of its registers. -/
def slice (t : Target) (value : BitVec 64) (size index : Nat) : Integer t :=
  (value >>> (t.sizeofInteger * 8 * if t.isBigEndian then registers t size - 1 - index else index)).setWidth _

/-- What an operation has to write. -/
def expected (c : FPUConf t) (source : c.SourceId) (op : Operation) : List (c.SourceId × RegAddr × Integer t) :=
  (List.range (registers t op.size)).map fun j =>
    (source, ⟨op.rc.type, op.rc.index + j⟩, slice t (c.compute op.op op.size op.rav op.rbv) op.size j)

section Writes
variable {s : FPU c} {res : OpResult c} {unit : c.UnitId} {id : Nat}

theorem writesOf_write : (s.write unit res).writesOf id =
    if res.id = id then s.writesOf id ++ [(res.source, register res)] else s.writesOf id := by
  simp only [writesOf, FPU.write, List.filter_append, List.map_append]
  by_cases same : res.id = id
  · rw [if_pos same, List.filter_cons_of_pos (by simpa using same)]
    rfl
  · rw [if_neg same, List.filter_cons_of_neg (by simpa using same), List.filter_nil, List.map_nil, List.append_nil]

end Writes

/-- A result in a slot is that of an operation, as far as it has been written. -/
structure Started (s : FPU c) (i : c.UnitId) (res : OpResult c) (op : Operation) : Prop where
  place : s.place res.id = .running i
  accepted : s.accepted[res.id]? = some (res.source, op)
  address : res.address = op.rc
  value : res.value = c.compute op.op op.size op.rav op.rbv
  size : res.size = op.size
  index : res.index < registers t res.size
  writes : s.writesOf res.id = (expected c res.source op).take res.index

/-- What becomes of the operations that have been queued. -/
structure Books (s : FPU c) : Prop where
  accepted : ∀ (id : Nat) (source : c.SourceId) (op : Operation), s.accepted[id]? = some (source, op) →
    op.id = id ∧ 0 < registers t op.size ∧ c.Supports op.op op.size
  queued : ∀ source, ∀ op ∈ s.inputs source,
    s.place op.id = .queued source ∧ s.accepted[op.id]? = some (source, op) ∧ s.writesOf op.id = []
  started : ∀ i, ∀ res ∈ s.slots i, ∃ op, Started s i res op
  apart : (∀ source, ((s.inputs source).map Operation.id).Nodup) ∧ ∀ i, (ids (s.slots i)).Nodup
  waiting : ∀ (id : Nat) (source : c.SourceId) (op : Operation) (x : c.SourceId), s.accepted[id]? = some (source, op) →
    s.place id = .queued x → id ∈ (s.inputs x).map Operation.id
  running : ∀ (id : Nat) (source : c.SourceId) (op : Operation) (i : c.UnitId), s.accepted[id]? = some (source, op) →
    s.place id = .running i → id ∈ ids (s.slots i)
  completed : ∀ (id : Nat) (source : c.SourceId) (op : Operation), s.accepted[id]? = some (source, op) →
    s.place id = .completed → s.writesOf id = expected c source op
  unwritten : ∀ w ∈ s.writes, w.id < s.accepted.length

/-- The register that is written is the next one of those that the operation has to write. -/
theorem Started.register {s : FPU c} {i : c.UnitId} {res : OpResult c} {op : Operation} (started : Started s i res op)
    (supported : c.Supports op.op op.size) :
    (expected c res.source op).take (res.index + 1) = s.writesOf res.id ++ [(res.source, register res)] := by
  have index := started.index
  rw [started.size] at index
  have order : (if t.isBigEndian then registers t op.size - 1 - res.index else res.index) =
      registers t op.size - 1 - res.index := by
    rcases supported.2 with big | single
    · rw [if_pos big]
    · split <;> omega
  have item : (expected c res.source op)[res.index]? = some (res.source, FPU.register res) := by
    rw [expected, List.getElem?_map, List.getElem?_range index, Option.map_some, slice, order, FPU.register, started.address,
      started.value, started.size]
  rw [List.take_add_one, item, started.writes]
  rfl

theorem length_expected (source : c.SourceId) (op : Operation) : (expected c source op).length = registers t op.size := by
  rw [expected, List.length_map, List.length_range]

/-- What a result says of its operation does not depend on the rest of the state. -/
theorem Started.frame {s s' : FPU c} {i : c.UnitId} {res res' : OpResult c} {op : Operation} (started : Started s i res op)
    (same : res' = { res with state := res'.state }) (place : s'.place res.id = s.place res.id)
    (accepted : s'.accepted[res.id]? = s.accepted[res.id]?) (writes : s'.writesOf res.id = s.writesOf res.id) :
    Started s' i res' op := by
  rw [same]
  exact ⟨place.trans started.place, accepted.trans started.accepted, started.address, started.value, started.size,
    started.index, writes.trans started.writes⟩

theorem mem_update {slots : c.UnitId → List (OpResult c)} {i j : c.UnitId} {list : List (OpResult c)} {res : OpResult c}
    (member : res ∈ Function.update slots i list j) : j = i ∧ res ∈ list ∨ j ≠ i ∧ res ∈ slots j := by
  by_cases same : j = i
  · subst same
    exact Or.inl ⟨rfl, by rwa [Function.update_self] at member⟩
  · exact Or.inr ⟨same, by rwa [Function.update_of_ne same] at member⟩

theorem ids_update {slots : c.UnitId → List (OpResult c)} {i : c.UnitId} {list : List (OpResult c)}
    (same : ids list = ids (slots i)) (j : c.UnitId) : ids (Function.update slots i list j) = ids (slots j) := by
  by_cases here : j = i
  · subst here
    rwa [Function.update_self]
  · rw [Function.update_of_ne here]

section Books
variable {s : FPU c} {i : c.UnitId} {res : OpResult c} {rest : List (OpResult c)}

theorem Books.not_queued (books : Books s) (slot : res ∈ s.slots i) {x : c.SourceId} {op : Operation} (queued : op ∈ s.inputs x) :
    res.id ≠ op.id := by
  intro same
  obtain ⟨_, started⟩ := books.started i res slot
  have place := (books.queued x op queued).1
  rw [← same, started.place] at place
  cases place

theorem Books.elsewhere (books : Books s) (slot : res ∈ s.slots i) {j : c.UnitId} {other : OpResult c} (slot' : other ∈ s.slots j)
    (different : j ≠ i) : res.id ≠ other.id := by
  intro same
  obtain ⟨_, started⟩ := books.started i res slot
  obtain ⟨_, started'⟩ := books.started j other slot'
  have place := started'.place
  rw [← same, started.place] at place
  cases place
  exact different rfl

theorem Books.younger (books : Books s) (front : s.slots i = res :: rest) {other : OpResult c} (later : other ∈ rest) :
    res.id ≠ other.id := by
  have distinct := books.apart.2 i
  rw [front, ids, List.map_cons, List.nodup_cons] at distinct
  intro same
  exact distinct.1 (List.mem_map.2 ⟨other, later, same.symm⟩)

theorem Books.advance (books : Books s) (front : s.slots i = res :: rest) : Books (s.setSlots i ((res :: rest).map bump)) := by
  have same : ids ((res :: rest).map bump) = ids (s.slots i) := by rw [ids_bump, front]
  refine ⟨books.accepted, books.queued, fun j other member => ?_, ⟨books.apart.1, fun j => ?_⟩, books.waiting,
    fun id source op j known place => ?_, books.completed, books.unwritten⟩
  · rcases mem_update member with ⟨rfl, here⟩ | ⟨_, elsewhere⟩
    · rw [← front] at here
      obtain ⟨old, slot, rfl⟩ := List.mem_map.1 here
      obtain ⟨op, started⟩ := books.started j old slot
      exact ⟨op, started.frame rfl rfl rfl rfl⟩
    · obtain ⟨op, started⟩ := books.started j other elsewhere
      exact ⟨op, started.frame rfl rfl rfl rfl⟩
  · exact (ids_update same j).symm ▸ books.apart.2 j
  · exact (ids_update same j).symm ▸ books.running id source op j known place

/-- The result at the front has been written further. -/
theorem Books.next (books : Books s) (front : s.slots i = res :: rest) (more : res.index + 1 ≠ registers t res.size) :
    Books (((s.mark i res.source).write i res).setSlots i ({ res with index := res.index + 1 } :: rest)) := by
  have slot : res ∈ s.slots i := front ▸ List.mem_cons_self
  obtain ⟨op₀, started₀⟩ := books.started i res slot
  have same : ids ({ res with index := res.index + 1 } :: rest) = ids (s.slots i) := by
    rw [front]
    rfl
  have others : ∀ {id}, res.id ≠ id → ((s.mark i res.source).write i res).writesOf id = s.writesOf id :=
    fun different => writesOf_write.trans (if_neg different)
  refine ⟨books.accepted, fun x op queued => ?_, fun j old member => ?_, ⟨books.apart.1, fun j => ?_⟩, books.waiting,
    fun id source op j known place => ?_, fun id source op known place => ?_, fun w member => ?_⟩
  · obtain ⟨place, known, unwritten⟩ := books.queued x op queued
    exact ⟨place, known, (others (books.not_queued slot queued)).trans unwritten⟩
  · rcases mem_update member with ⟨rfl, here⟩ | ⟨different, elsewhere⟩
    · rcases List.mem_cons.1 here with rfl | later
      · have index := started₀.index
        refine ⟨op₀, started₀.place, started₀.accepted, started₀.address, started₀.value, started₀.size, ?_, ?_⟩
        · show res.index + 1 < registers t res.size
          omega
        · exact (writesOf_write.trans (if_pos rfl)).trans (started₀.register (books.accepted _ _ _ started₀.accepted).2.2).symm
      · obtain ⟨op, started⟩ := books.started j old (front ▸ List.mem_cons_of_mem _ later)
        exact ⟨op, started.frame rfl rfl rfl (others (books.younger front later))⟩
    · obtain ⟨op, started⟩ := books.started j old elsewhere
      exact ⟨op, started.frame rfl rfl rfl (others (books.elsewhere slot elsewhere different))⟩
  · exact (ids_update same j).symm ▸ books.apart.2 j
  · exact (ids_update same j).symm ▸ books.running id source op j known place
  · refine (others ?_).trans (books.completed id source op known place)
    rintro rfl
    exact absurd (started₀.place.symm.trans place) (by simp)
  · rcases List.mem_append.1 member with old | new
    · exact books.unwritten w old
    · rw [List.mem_singleton.1 new]
      exact (List.getElem?_eq_some_iff.1 started₀.accepted).1

/-- The result at the front has been written for the last time. -/
theorem Books.complete (books : Books s) (front : s.slots i = res :: rest) (last : res.index + 1 = registers t res.size) :
    Books (((s.mark i res.source).write i res).complete i res rest) := by
  have slot : res ∈ s.slots i := front ▸ List.mem_cons_self
  obtain ⟨op₀, started₀⟩ := books.started i res slot
  have others : ∀ {id}, res.id ≠ id → ((s.mark i res.source).write i res).writesOf id = s.writesOf id :=
    fun different => writesOf_write.trans (if_neg different)
  have elsewhere : ∀ {id}, res.id ≠ id → (((s.mark i res.source).write i res).complete i res rest).place id = s.place id :=
    fun different => Function.update_of_ne different.symm ..
  have here : (((s.mark i res.source).write i res).complete i res rest).place res.id = .completed :=
    Function.update_self ..
  have slots : (((s.mark i res.source).write i res).complete i res rest).slots = Function.update s.slots i (rest.map bump) := rfl
  refine ⟨books.accepted, fun x op queued => ?_, fun j old member => ?_, ⟨books.apart.1, fun j => ?_⟩,
    fun id source op x known place => ?_, fun id source op j known place => ?_, fun id source op known place => ?_,
    fun w member => ?_⟩
  · obtain ⟨place, known, unwritten⟩ := books.queued x op queued
    have different := books.not_queued slot queued
    exact ⟨(elsewhere different).trans place, known, (others different).trans unwritten⟩
  · rcases mem_update member with ⟨rfl, bumped⟩ | ⟨different, slot'⟩
    · obtain ⟨old, later, rfl⟩ := List.mem_map.1 bumped
      obtain ⟨op, started⟩ := books.started j old (front ▸ List.mem_cons_of_mem _ later)
      have different := books.younger front later
      exact ⟨op, started.frame rfl (elsewhere different) rfl (others different)⟩
    · obtain ⟨op, started⟩ := books.started j old slot'
      have different := books.elsewhere slot slot' different
      exact ⟨op, started.frame rfl (elsewhere different) rfl (others different)⟩
  · by_cases same : j = i
    · subst same
      have distinct := books.apart.2 j
      rw [front, ids, List.map_cons, List.nodup_cons] at distinct
      rw [slots, Function.update_self, ids_bump]
      exact distinct.2
    · rw [slots, Function.update_of_ne same]
      exact books.apart.2 j
  · by_cases same : res.id = id
    · subst same
      rw [here] at place
      cases place
    · exact books.waiting id source op x known ((elsewhere same).symm.trans place)
  · by_cases same : res.id = id
    · subst same
      rw [here] at place
      cases place
    · have before := books.running id source op j known ((elsewhere same).symm.trans place)
      by_cases unit : j = i
      · subst unit
        rw [front, ids, List.map_cons] at before
        rw [slots, Function.update_self, ids_bump]
        exact (List.mem_cons.1 before).resolve_left (Ne.symm same)
      · rw [slots, Function.update_of_ne unit]
        exact before
  · by_cases same : res.id = id
    · subst same
      cases Option.some.inj (started₀.accepted.symm.trans known)
      refine (writesOf_write.trans (if_pos rfl)).trans ?_
      have whole := started₀.register (books.accepted _ _ _ known).2.2
      rw [last, started₀.size, ← length_expected res.source op₀, List.take_length] at whole
      exact whole.symm
    · exact (others same).trans (books.completed id source op known ((elsewhere same).symm.trans place))
  · rcases List.mem_append.1 member with old | new
    · exact books.unwritten w old
    · rw [List.mem_singleton.1 new]
      exact (List.getElem?_eq_some_iff.1 started₀.accepted).1

/-- The operation at the front of a queue goes to a unit. -/
theorem Books.accept (books : Books s) {source : c.SourceId} {op : Operation} {waiting : List Operation}
    (front : s.inputs source = op :: waiting) : Books (s.accept source i op waiting) := by
  have first : op ∈ s.inputs source := front ▸ List.mem_cons_self
  obtain ⟨place₀, known₀, unwritten₀⟩ := books.queued source op first
  have distinct := books.apart.1 source
  rw [front, List.map_cons, List.nodup_cons] at distinct
  have inputs : (s.accept source i op waiting).inputs = Function.update s.inputs source waiting := rfl
  have slots : (s.accept source i op waiting).slots = Function.update s.slots i (s.slots i ++ [calculateResult source op]) := rfl
  have here : (s.accept source i op waiting).place op.id = .running i := Function.update_self ..
  have elsewhere : ∀ {id}, id ≠ op.id → (s.accept source i op waiting).place id = s.place id :=
    fun different => Function.update_of_ne different ..
  have still : ∀ {x other}, other ∈ (s.accept source i op waiting).inputs x → other ∈ s.inputs x ∧ other.id ≠ op.id := by
    intro x other queued
    by_cases same : x = source
    · subst same
      rw [inputs, Function.update_self] at queued
      exact ⟨front ▸ List.mem_cons_of_mem _ queued, fun twice => distinct.1 (List.mem_map.2 ⟨other, queued, twice⟩)⟩
    · rw [inputs, Function.update_of_ne same] at queued
      refine ⟨queued, fun twice => same ?_⟩
      have place := (books.queued x other queued).1
      rw [twice, place₀] at place
      cases place
      rfl
  refine ⟨books.accepted, fun x other queued => ?_, fun j res member => ?_, ⟨fun x => ?_, fun j => ?_⟩,
    fun id source' op' x known place => ?_, fun id source' op' j known place => ?_, fun id source' op' known place => ?_,
    books.unwritten⟩
  · obtain ⟨before, different⟩ := still queued
    obtain ⟨place, known, unwritten⟩ := books.queued x other before
    exact ⟨(elsewhere different).trans place, known, unwritten⟩
  · have old : ∀ {res}, res ∈ s.slots j → ∃ op', Started (s.accept source i op waiting) j res op' := by
      intro res member
      obtain ⟨op', started⟩ := books.started j res member
      exact ⟨op', started.frame rfl (elsewhere (books.not_queued member first)) rfl rfl⟩
    rcases mem_update member with ⟨rfl, all⟩ | ⟨_, other⟩
    · rcases List.mem_append.1 all with before | new
      · exact old before
      · rw [List.mem_singleton.1 new]
        exact ⟨op, here, known₀, rfl, rfl, rfl, (books.accepted _ _ _ known₀).2.1, unwritten₀⟩
    · exact old other
  · by_cases same : x = source
    · subst same
      rw [inputs, Function.update_self]
      exact distinct.2
    · rw [inputs, Function.update_of_ne same]
      exact books.apart.1 x
  · by_cases same : j = i
    · subst same
      rw [slots, Function.update_self, ids, List.map_append, List.nodup_append]
      refine ⟨books.apart.2 j, List.nodup_singleton _, ?_⟩
      rintro id member _ single rfl
      obtain ⟨res, slot, same⟩ := List.mem_map.1 member
      exact books.not_queued slot first (same.trans (List.mem_singleton.1 single))
    · rw [slots, Function.update_of_ne same]
      exact books.apart.2 j
  · by_cases same : id = op.id
    · subst same
      rw [here] at place
      cases place
    · have before := books.waiting id source' op' x known ((elsewhere same).symm.trans place)
      by_cases queue : x = source
      · subst queue
        rw [front, List.map_cons] at before
        rw [inputs, Function.update_self]
        exact (List.mem_cons.1 before).resolve_left same
      · rw [inputs, Function.update_of_ne queue]
        exact before
  · by_cases same : id = op.id
    · subst same
      rw [here] at place
      cases place
      rw [slots, Function.update_self, ids, List.map_append]
      exact List.mem_append_right _ (List.mem_singleton.2 rfl)
    · have before := books.running id source' op' j known ((elsewhere same).symm.trans place)
      by_cases unit : j = i
      · subst unit
        rw [slots, Function.update_self, ids, List.map_append]
        exact List.mem_append_left _ before
      · rw [slots, Function.update_of_ne unit]
        exact before
  · by_cases same : id = op.id
    · subst same
      rw [here] at place
      cases place
    · exact books.completed id source' op' known ((elsewhere same).symm.trans place)

theorem Books.moved {s' : FPU c} (books : Books s) (moved : Moved s s') : Books s' := by
  cases moved with
  | mark unit source free =>
    exact ⟨books.accepted, books.queued, fun j res member => (books.started j res member).imp fun op started =>
      started.frame rfl rfl rfl rfl, books.apart, books.waiting, books.running, books.completed, books.unwritten⟩
  | advance i front early => exact books.advance front
  | next i front free more => exact books.next front more
  | complete i front late free last => exact books.complete front last
  | accept source i front unit room => exact books.accept front

end Books

/-- What holds after every bit of every cycle. -/
structure Kept (s : FPU c) : Prop where
  apart : Apart s
  order : InOrder s
  marks : Marked s
  books : Books s

theorem Kept.moved {s s' : FPU c} (timed : c.Timed) (kept : Kept s) (moved : Moved s s') : Kept s' :=
  ⟨kept.apart.moved timed moved, kept.order.moved moved, kept.marks.moved moved, kept.books.moved moved⟩

open Relation in
theorem Kept.moves {s s' : FPU c} (timed : c.Timed) (kept : Kept s) (moves : ReflTransGen Moved s s') : Kept s' := by
  induction moves with
  | refl => exact kept
  | tail _ moved ih => exact ih.moved timed moved

/-- Nothing depends on whose turn it is, or whether the process is awake. -/
theorem Kept.turn {s : FPU c} (kept : Kept s) (last : Nat) (active : Bool) :
    Kept { s with lastSource := last, active := active } :=
  ⟨⟨kept.apart.decreasing, kept.apart.inside⟩, kept.order, ⟨kept.marks.past, kept.marks.marked, kept.marks.single⟩,
    kept.books.accepted, kept.books.queued, fun j res member => (kept.books.started j res member).imp fun op started =>
      started.frame rfl rfl rfl rfl, kept.books.apart, kept.books.waiting, kept.books.running, kept.books.completed,
    kept.books.unwritten⟩

theorem Kept.doPipeline {s s' : FPU c} {commit ok : Bool} {ready : c.UnitId → Bool} (timed : c.Timed) (kept : Kept s)
    (done : doPipeline commit ready s = some (s', ok)) : Kept s' := by
  obtain ⟨between, last, active, moves, rfl⟩ := doPipeline_moved done
  exact (kept.moves timed moves).turn last active

/-- The next cycle begins. -/
theorem Kept.tick {s : FPU c} (kept : Kept s) {now : Nat} (later : s.now < now) : Kept { s with now := now } := by
  refine ⟨⟨kept.apart.decreasing, kept.apart.inside⟩, kept.order, ⟨fun w member => ?_, fun w member same => ?_,
    kept.marks.single⟩, kept.books.accepted, kept.books.queued, fun j res member => (kept.books.started j res member).imp
      fun op started => started.frame rfl rfl rfl rfl, kept.books.apart, kept.books.waiting, kept.books.running,
    kept.books.completed, kept.books.unwritten⟩
  · exact (kept.marks.past w member).trans later.le
  · have past := kept.marks.past w member
    exact absurd (show w.cycle = now from same) (by omega)

theorem Moved.now {s s' : FPU c} (moved : Moved s s') : s'.now = s.now := by
  cases moved <;> rfl

open Relation in
theorem moves_now {s s' : FPU c} (moves : ReflTransGen Moved s s') : s'.now = s.now := by
  induction moves with
  | refl => rfl
  | tail _ moved ih => exact moved.now.trans ih

theorem doPipeline_now {s s' : FPU c} {commit ok : Bool} {ready : c.UnitId → Bool}
    (done : FPU.doPipeline commit ready s = some (s', ok)) : s'.now = s.now := by
  obtain ⟨between, last, active, moves, rfl⟩ := doPipeline_moved done
  exact (show between.now = s.now from moves_now moves)

/-- The ways in which a cycle goes. -/
theorem cycle_cases {s s' : FPU c} {ready : c.UnitId → Bool} (taken : s.cycle ready = some s') :
    s' = { s with now := s.now + 1 } ∨
      (∃ checked, FPU.doPipeline false ready s = some (checked, false) ∧ s' = { checked with now := s.now + 1 }) ∨
      ∃ checked committed ok, FPU.doPipeline false ready s = some (checked, true) ∧
        FPU.doPipeline true ready checked = some (committed, ok) ∧ s' = { committed with now := s.now + 1 } := by
  unfold cycle at taken
  split at taken
  · split at taken
    · cases taken
    · next checked check =>
      cases taken
      exact Or.inr (Or.inl ⟨checked, check, rfl⟩)
    · next checked check =>
      obtain ⟨⟨committed, ok⟩, commit, rfl⟩ := Option.map_eq_some_iff.1 taken
      exact Or.inr (Or.inr ⟨checked, committed, ok, check, commit, rfl⟩)
  · cases taken
    exact Or.inl rfl

theorem Kept.cycle {s s' : FPU c} {ready : c.UnitId → Bool} (timed : c.Timed) (kept : Kept s)
    (taken : s.cycle ready = some s') : Kept s' := by
  rcases cycle_cases taken with rfl | ⟨checked, check, rfl⟩ | ⟨checked, committed, ok, check, commit, rfl⟩
  · exact kept.tick (Nat.lt_succ_self _)
  · refine (kept.doPipeline timed check).tick ?_
    rw [doPipeline_now check]
    exact Nat.lt_succ_self _
  · refine ((kept.doPipeline timed check).doPipeline timed commit).tick ?_
    rw [doPipeline_now commit, doPipeline_now check]
    exact Nat.lt_succ_self _

theorem Books.push {s : FPU c} (books : Books s) {source : c.SourceId} {op : Operation} (id : op.id = s.accepted.length)
    (wide : 0 < registers t op.size) (supported : c.Supports op.op op.size) : Books (s.push source op) := by
  have inputs : (s.push source op).inputs = Function.update s.inputs source (s.inputs source ++ [op]) := rfl
  have here : (s.push source op).place op.id = .queued source := Function.update_self ..
  have below : ∀ {k x}, s.accepted[k]? = some x → k ≠ op.id :=
    fun known => id ▸ (List.getElem?_eq_some_iff.1 known).1.ne
  have other : ∀ {k x}, s.accepted[k]? = some x → (s.push source op).place k = s.place k :=
    fun known => Function.update_of_ne (below known) ..
  have still : ∀ {k x}, s.accepted[k]? = some x → (s.push source op).accepted[k]? = some x :=
    fun known => (List.getElem?_append_left (List.getElem?_eq_some_iff.1 known).1).trans known
  have new : (s.push source op).accepted[op.id]? = some (source, op) := id ▸ List.getElem?_concat_length
  have fresh : s.writesOf op.id = [] := by
    rw [writesOf, List.map_eq_nil_iff, List.filter_eq_nil_iff]
    intro w member same
    have old := books.unwritten w member
    rw [decide_eq_true_eq] at same
    omega
  have split : ∀ {k x}, (s.push source op).accepted[k]? = some x → s.accepted[k]? = some x ∨ k = op.id ∧ x = (source, op) := by
    intro k x known
    have length := (List.getElem?_eq_some_iff.1 known).1
    rw [show (s.push source op).accepted = s.accepted ++ [(source, op)] from rfl, List.length_append,
      List.length_singleton] at length
    rcases Nat.lt_succ_iff_lt_or_eq.1 length with less | same
    · exact Or.inl ((List.getElem?_append_left less).symm.trans known)
    · rw [same, ← id] at known
      exact Or.inr ⟨same.trans id.symm, Option.some.inj (known.symm.trans new)⟩
  have queue : ∀ {x other}, other ∈ (s.push source op).inputs x → other ∈ s.inputs x ∨ x = source ∧ other = op := by
    intro x other member
    by_cases same : x = source
    · subst same
      rw [inputs, Function.update_self] at member
      exact (List.mem_append.1 member).imp_right fun single => ⟨rfl, List.mem_singleton.1 single⟩
    · rw [inputs, Function.update_of_ne same] at member
      exact Or.inl member
  refine ⟨fun k x asked known => ?_, fun x waiting member => ?_, fun j res member => ?_, ⟨fun x => ?_, books.apart.2⟩,
    fun k x asked y known place => ?_, fun k x asked j known place => ?_, fun k x asked known place => ?_, fun w member => ?_⟩
  · rcases split known with old | ⟨rfl, new⟩
    · exact books.accepted k x asked old
    · cases new
      exact ⟨rfl, wide, supported⟩
  · rcases queue member with old | ⟨rfl, rfl⟩
    · obtain ⟨place, known, unwritten⟩ := books.queued x waiting old
      exact ⟨(other known).trans place, still known, unwritten⟩
    · exact ⟨here, new, fresh⟩
  · obtain ⟨op, started⟩ := books.started j res member
    exact ⟨op, started.frame rfl (other started.accepted) ((still started.accepted).trans started.accepted.symm) rfl⟩
  · by_cases same : x = source
    · subst same
      rw [inputs, Function.update_self, List.map_append, List.nodup_append]
      refine ⟨books.apart.1 x, List.nodup_singleton _, ?_⟩
      rintro k member _ single rfl
      obtain ⟨old, queued, same⟩ := List.mem_map.1 member
      exact below (books.queued x old queued).2.1 (same.trans (List.mem_singleton.1 single))
    · rw [inputs, Function.update_of_ne same]
      exact books.apart.1 x
  · rcases split known with old | ⟨rfl, _⟩
    · have before := books.waiting k x asked y old ((other old).symm.trans place)
      by_cases same : y = source
      · subst same
        rw [inputs, Function.update_self, List.map_append]
        exact List.mem_append_left _ before
      · rw [inputs, Function.update_of_ne same]
        exact before
    · rw [here] at place
      cases place
      rw [inputs, Function.update_self, List.map_append]
      exact List.mem_append_right _ (List.mem_singleton.2 rfl)
  · rcases split known with old | ⟨rfl, _⟩
    · exact books.running k x asked j old ((other old).symm.trans place)
    · rw [here] at place
      cases place
  · rcases split known with old | ⟨rfl, _⟩
    · exact books.completed k x asked old ((other old).symm.trans place)
    · rw [here] at place
      cases place
  · rw [FPU.push, List.length_append]
    exact (books.unwritten w member).trans_le (Nat.le_add_right _ _)

theorem Kept.queueOperation {s s' : FPU c} (kept : Kept s) {source : c.SourceId} {fop : FPUOperation} {size : Nat}
    {rav rbv : BitVec 64} {rc : RegAddr} (supported : c.Supports fop size)
    (taken : s.queueOperation source fop size rav rbv rc = some s') : Kept s' := by
  unfold FPU.queueOperation at taken
  split at taken
  · next legal =>
    cases taken
    have wide : 0 < registers t size := by
      refine Nat.pos_of_ne_zero fun zero => ?_
      have multiple := Nat.div_add_mod size t.sizeofInteger
      rw [legal.2.1, show size / t.sizeofInteger = 0 from zero] at multiple
      rcases legal.1 with rfl | rfl <;> simp at multiple
    exact ⟨⟨kept.apart.decreasing, kept.apart.inside⟩, kept.order, ⟨kept.marks.past, kept.marks.marked, kept.marks.single⟩,
      kept.books.push rfl wide supported⟩
  · cases taken

/-- Only operations that the configuration supports are queued. -/
def Supported (_ : FPU c) : Event c → Prop
  | .queue _ fop size _ _ _ => c.Supports fop size
  | .cycle _ => True

theorem Kept.initial : Kept (FPU.initial c) := by
  constructor
  · exact ⟨fun i => List.Pairwise.nil, fun i res member => absurd member List.not_mem_nil⟩
  · exact fun i => rfl
  · exact ⟨fun w member => absurd member List.not_mem_nil, fun w member => absurd member List.not_mem_nil,
      fun w member => absurd member List.not_mem_nil⟩
  · refine ⟨fun id source op known => absurd known (by simp [FPU.initial]), fun x op member => absurd member List.not_mem_nil,
      fun i res member => absurd member List.not_mem_nil, ⟨fun x => List.nodup_nil, fun i => List.nodup_nil⟩,
      fun id source op x known => absurd known (by simp [FPU.initial]),
      fun id source op i known => absurd known (by simp [FPU.initial]),
      fun id source op known => absurd known (by simp [FPU.initial]), fun w member => absurd member List.not_mem_nil⟩

theorem Kept.step {s s' : FPU c} {event : Event c} (timed : c.Timed) (kept : Kept s) (supported : s.Supported event)
    (taken : s.step event = some s') : Kept s' := by
  cases event with
  | queue source fop size rav rbv rc => exact kept.queueOperation supported taken
  | cycle ready => exact kept.cycle timed taken

end FPU
end Mgsim.Arch
