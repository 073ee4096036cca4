import Mgsim.Lib.Run
import Mgsim.Manager.WriteEntry

namespace Mgsim.Manager
open Mgsim.Lib

/-- The arguments of one call of `write_entry`. -/
structure Call where
  ptsIndex : Word
  dst : Word
  pageSize : Fin 6
  r : BitVec 8
  w : BitVec 8
  x : BitVec 8
  deriving DecidableEq

/-- What a successful call has mapped. -/
structure Mapping where
  index : Word
  dst : Word
  pageSize : Fin 6
  r : Bool
  w : Bool
  x : Bool
  deriving DecidableEq

def Call.mapping (c : Call) : Mapping :=
  ⟨c.ptsIndex, c.dst, c.pageSize, c.r.getLsbD 0, c.w.getLsbD 0, c.x.getLsbD 0⟩

/-- The page of the mapping contains the index: they agree in every section from its level up. -/
def Mapping.Covers (m : Mapping) (index : Word) : Prop :=
  ∀ i : Nat, i < 6 → (m.pageSize : Nat) ≤ i → getIndexSection m.index i = getIndexSection index i

instance (m : Mapping) (index : Word) : Decidable (m.Covers index) :=
  inferInstanceAs (Decidable (∀ i : Nat, i < 6 → (m.pageSize : Nat) ≤ i →
    getIndexSection m.index i = getIndexSection index i))

def Mapping.key (m : Mapping) : Path := pageKey m.index m.pageSize

/-- What the caller of `walkPageTable` learns. -/
inductive Answer
  | notPresent
  | page (address : Word) (r w x : Bool) (level : Nat)
  | error
  deriving DecidableEq

def Walk.answer (walk : Walk) : Answer :=
  if walk.result = 0 then .notPresent
  else if walk.result = 1 then
    .page (getPointer walk.entry) walk.entry.r walk.entry.w walk.entry.x walk.levels
  else .error

def Mapping.answer (m : Mapping) : Answer := .page m.dst m.r m.w m.x (6 - (m.pageSize : Nat))

/-- The walk that a miss makes: over all the sections of an index. -/
def lookup (mem : Mem) (pt0 : Frame) (index : Word) : Answer :=
  (walkPageTable mem pt0 index (vaddrWidth - vaddrLso + contextIdWidth)).answer

/-- The table set together with the calls that have returned success. -/
structure Session where
  set : PtSet
  mapped : List Mapping

def Call.run (c : Call) (s : PtSet) (pt0 : Frame) : Int × PtSet :=
  writeEntry s pt0 c.ptsIndex c.dst c.pageSize c.r c.w c.x

def Session.step (pt0 : Frame) (s : Session) (c : Call) : Option Session :=
  let (result, set) := c.run s.set pt0
  some ⟨set, if result = 1 then c.mapping :: s.mapped else s.mapped⟩

theorem Session.step_of_success {pt0 : Frame} {s : Session} {c : Call} (success : (c.run s.set pt0).1 = 1) :
    s.step pt0 c = some ⟨(c.run s.set pt0).2, c.mapping :: s.mapped⟩ := by
  simp only [Session.step, success, if_true]

/-- The call that `init_pt_set` makes. -/
def initCall (pt0 : Frame) (contextId vBase : Word) : Call :=
  ⟨calculatePtIndex contextId vBase, pointerTo pt0, 0, 1, 1, 0⟩

def Session.init (mem : Mem) (pt0 : Frame) (contextId vBase : Word) : Session :=
  let (result, set) := initPtSet mem pt0 contextId vBase
  ⟨set, if result = 1 then [(initCall pt0 contextId vBase).mapping] else []⟩

/-- The calls on which `write_entry` does what a map does. The destination is
a frame, the page is not part of a larger mapped page, whose entry the loop
would take for a pointer to a table, and `next_table` stays inside the address space. -/
structure Call.Allowed (c : Call) (pt0 : Frame) (s : Session) : Prop where
  aligned : c.dst &&& 4095 = 0
  outside : ∀ m ∈ s.mapped, c.pageSize < m.pageSize → ¬ m.Covers c.ptsIndex
  room : (s.set.nextTable - pt0).toNat + 6 < 2 ^ 52

section Keys

theorem take_sections_prefix {a b : Word} {n k : Nat} (bound : k ≤ n) :
    (sections a n).take k <+: sections b n ↔
      ∀ i < n, n - k ≤ i → getIndexSection a i = getIndexSection b i := by
  induction n generalizing k with
  | zero => simp [sections]
  | succ n ih =>
    cases k with
    | zero => simp; omega
    | succ k =>
      rw [take_sections_succ, sections, List.cons_prefix_cons, ih (by omega)]
      constructor
      · rintro ⟨top, lower⟩ i below above
        by_cases last : i = n
        · rw [last, top]
        · exact lower i (by omega) (by omega)
      · intro all
        exact ⟨all n (by omega) (by omega), fun i below above => all i (by omega) (by omega)⟩

theorem Mapping.covers_iff {m : Mapping} {index : Word} : m.Covers index ↔ m.key <+: sections index 6 := by
  rw [Mapping.key, pageKey, take_sections_prefix (by omega)]
  have level : 6 - (6 - (m.pageSize : Nat)) = m.pageSize := by omega
  rw [level]
  rfl

@[simp] theorem Mapping.key_length (m : Mapping) : m.key.length = 6 - m.pageSize := by
  simp [Mapping.key, pageKey]

theorem Mapping.covers_self (m : Mapping) : m.Covers m.index := fun _ _ _ => rfl

/-- Mappings with an index in common have comparable keys. -/
theorem Mapping.comparable {m m' : Mapping} {index : Word} (first : m.Covers index) (second : m'.Covers index) :
    m.key <+: m'.key ∨ m'.key <+: m.key :=
  List.prefix_or_prefix_of_prefix (covers_iff.mp first) (covers_iff.mp second)

end Keys

/-- The entry holds what the call asked for. -/
structure Pte.Holds (entry : Pte) (m : Mapping) : Prop where
  addr : getPointer entry = m.dst
  r : entry.r = m.r
  w : entry.w = m.w
  x : entry.x = m.x

/-- The tables form a tree in the arena, and the pages in them are the
successful calls, each of them once. -/
structure Session.Good (pt0 : Frame) (s : Session) : Prop where
  arena : Arena s.set.mem pt0 s.set.nextTable
  present : ∀ m ∈ s.mapped, ∃ entry, leafAt s.set.mem pt0 m.key = some entry ∧ entry.Holds m
  known : ∀ k entry, leafAt s.set.mem pt0 k = some entry → ∃ m ∈ s.mapped, k = m.key
  nodup : (s.mapped.map Mapping.key).Nodup

section Walk
variable {pt0 : Frame} {s : Session}

theorem lookup_page {mem : Mem} {nextTable : Frame} {index : Word} {k : Path} {entry : Pte}
    (arena : Arena mem pt0 nextTable) (leaf : leafAt mem pt0 k = some entry) (pre : k <+: sections index 6) :
    lookup mem pt0 index = .page (getPointer entry) entry.r entry.w entry.x k.length := by
  have walk := @walkPageTableFrom_outcome mem index 6 pt0 default 0
  have whole : lookup mem pt0 index =
      (walkPageTableFrom mem index 6 (ptIndexWidth * 6) pt0 default 0).answer := rfl
  rcases walk with ⟨k', v, pre', leaf', same⟩ | ⟨_, none⟩ | ⟨_, deep⟩
  · have equal := (pageMap mem pt0).unique leaf leaf' pre pre'
    subst equal
    rw [leaf] at leaf'
    cases leaf'
    rw [whole, same, Nat.zero_add]
    rfl
  · rw [none k pre] at leaf
    cases leaf
  · obtain ⟨f, reached⟩ := Option.isSome_iff_exists.mp deep
    have short := arena.depth reached
    rw [sections_length] at short
    omega

theorem lookup_notPresent {mem : Mem} {nextTable : Frame} {index : Word} (arena : Arena mem pt0 nextTable)
    (absent : ∀ k, k <+: sections index 6 → leafAt mem pt0 k = none) : lookup mem pt0 index = .notPresent := by
  have walk := @walkPageTableFrom_outcome mem index 6 pt0 default 0
  have whole : lookup mem pt0 index =
      (walkPageTableFrom mem index 6 (ptIndexWidth * 6) pt0 default 0).answer := rfl
  rcases walk with ⟨k, v, pre, leaf, _⟩ | ⟨result, _⟩ | ⟨_, deep⟩
  · rw [absent k pre] at leaf
    cases leaf
  · rw [whole, Walk.answer, if_pos result]
  · obtain ⟨f, reached⟩ := Option.isSome_iff_exists.mp deep
    have short := arena.depth reached
    rw [sections_length] at short
    omega

/-- Walks see nothing of a memory but its page map. -/
theorem lookup_eq_of_leaves {mem mem' : Mem} {next next' : Frame} {index : Word}
    (arena : Arena mem pt0 next) (arena' : Arena mem' pt0 next')
    (same : ∀ k, k <+: sections index 6 → leafAt mem' pt0 k = leafAt mem pt0 k) :
    lookup mem' pt0 index = lookup mem pt0 index := by
  by_cases covered : ∃ k entry, k <+: sections index 6 ∧ leafAt mem pt0 k = some entry
  · obtain ⟨k, entry, pre, leaf⟩ := covered
    rw [lookup_page arena leaf pre, lookup_page arena' ((same k pre).trans leaf) pre]
  · have absent : ∀ k, k <+: sections index 6 → leafAt mem pt0 k = none := by
      intro k pre
      cases leaf : leafAt mem pt0 k with
      | none => rfl
      | some entry => exact absurd ⟨k, entry, pre, leaf⟩ covered
    rw [lookup_notPresent arena absent,
      lookup_notPresent arena' fun k pre => (same k pre).trans (absent k pre)]

theorem Session.Good.lookup_covered (good : s.Good pt0) {m : Mapping} (member : m ∈ s.mapped) {index : Word}
    (covers : m.Covers index) : lookup s.set.mem pt0 index = m.answer := by
  obtain ⟨entry, leaf, holds⟩ := good.present m member
  rw [lookup_page good.arena leaf (Mapping.covers_iff.mp covers), holds.addr, holds.r, holds.w, holds.x,
    Mapping.key_length]
  rfl

theorem Session.Good.lookup_uncovered (good : s.Good pt0) {index : Word}
    (uncovered : ∀ m ∈ s.mapped, ¬ m.Covers index) : lookup s.set.mem pt0 index = .notPresent := by
  refine lookup_notPresent good.arena fun k pre => ?_
  cases leaf : leafAt s.set.mem pt0 k with
  | none => rfl
  | some entry =>
    obtain ⟨m, member, rfl⟩ := good.known k entry leaf
    exact absurd (Mapping.covers_iff.mpr pre) (uncovered m member)

/-- No two mappings have an index in common. -/
theorem Session.Good.unique (good : s.Good pt0) {m m' : Mapping} (member : m ∈ s.mapped)
    (member' : m' ∈ s.mapped) {index : Word} (covers : m.Covers index) (covers' : m'.Covers index) : m' = m := by
  obtain ⟨entry, leaf, _⟩ := good.present m member
  obtain ⟨entry', leaf', _⟩ := good.present m' member'
  have sameKey := (pageMap s.set.mem pt0).unique leaf' leaf (Mapping.covers_iff.mp covers')
    (Mapping.covers_iff.mp covers)
  exact List.inj_on_of_nodup_map good.nodup member' member sameKey

end Walk

section Step
variable {pt0 : Frame} {s : Session} {c : Call}

/-- In a session whose pages are the successful calls, an allowed page lies in no larger page. -/
theorem Call.Allowed.largest (allowed : c.Allowed pt0 s) (good : s.Good pt0) :
    ∀ q v, leafAt s.set.mem pt0 q = some v → q <+: pageKey c.ptsIndex c.pageSize →
      q = pageKey c.ptsIndex c.pageSize := by
  intro q v leaf pre
  obtain ⟨m, member, rfl⟩ := good.known q v leaf
  have length := pre.length_le
  have own : (pageKey c.ptsIndex c.pageSize).length = 6 - c.pageSize := c.mapping.key_length
  rw [Mapping.key_length, own] at length
  by_cases larger : c.pageSize < m.pageSize
  · exact absurd (Mapping.covers_iff.mpr (pre.trans (List.take_prefix _ _))) (allowed.outside m member larger)
  · refine pre.eq_of_length ?_
    rw [Mapping.key_length, own]
    omega

theorem Call.Allowed.outcome (allowed : c.Allowed pt0 s) (good : s.Good pt0) :
    WriteOutcome pt0 c.mapping.key c.dst c.r c.w c.x s.set (c.run s.set pt0) :=
  writeEntry_outcome good.arena (by omega) allowed.room (allowed.largest good)

/-- A mapping that shares an index with the call stands in its way. -/
theorem Session.Good.overlaps (good : s.Good pt0) {m : Mapping} (member : m ∈ s.mapped) {index : Word}
    (covers : m.Covers index) (covers' : c.mapping.Covers index) :
    (pageMap s.set.mem pt0).Overlaps c.mapping.key := by
  obtain ⟨entry, leaf, _⟩ := good.present m member
  exact ⟨m.key, entry, leaf, Mapping.comparable covers covers'⟩

/-- One allowed call keeps the session good. -/
theorem Session.Good.step {s' : Session} (good : s.Good pt0) (allowed : c.Allowed pt0 s)
    (taken : s.step pt0 c = some s') : s'.Good pt0 := by
  have outcome := allowed.outcome good
  simp only [Session.step] at taken
  cases Option.some.inj taken
  generalize c.run s.set pt0 = out at outcome
  cases outcome with
  | refused arena same =>
    exact ⟨arena, fun m member => by rw [same]; exact good.present m member,
      fun k entry leaf => good.known k entry ((same k).symm.trans leaf), good.nodup⟩
  | exhausted arena same _ =>
    exact ⟨arena, fun m member => by rw [same]; exact good.present m member,
      fun k entry leaf => good.known k entry ((same k).symm.trans leaf), good.nodup⟩
  | @stored after entry arena map addr hr hw hx free =>
    have fresh : ∀ m ∈ s.mapped, m.key ≠ c.mapping.key := by
      intro m member same
      obtain ⟨old, leaf, _⟩ := good.present m member
      exact free ⟨m.key, old, leaf, Or.inl (same ▸ List.prefix_refl _)⟩
    have pointer : getPointer entry = c.dst := by
      rw [getPointer, addr, frameOf_shift_aligned allowed.aligned]
    refine ⟨arena, ?_, ?_, ?_⟩
    · intro m member
      rcases List.mem_cons.mp member with rfl | old
      · exact ⟨entry, (map _).trans (if_pos rfl), pointer, hr, hw, hx⟩
      · rw [map, if_neg (fresh m old)]
        exact good.present m old
    · intro k v leaf
      rw [map] at leaf
      split at leaf
      · rename_i own
        exact ⟨c.mapping, List.mem_cons_self, own⟩
      · obtain ⟨m, member, atKey⟩ := good.known k v leaf
        exact ⟨m, List.mem_cons_of_mem _ member, atKey⟩
    · simp only [if_true, List.map_cons, List.nodup_cons]
      refine ⟨fun member => ?_, good.nodup⟩
      obtain ⟨m, old, same⟩ := List.mem_map.mp member
      exact fresh m old same

theorem Session.Good.changes_own_page (good : s.Good pt0) (allowed : c.Allowed pt0 s) {index : Word}
    (elsewhere : ¬ c.mapping.Covers index) :
    lookup (c.run s.set pt0).2.mem pt0 index = lookup s.set.mem pt0 index := by
  have outcome := allowed.outcome good
  generalize c.run s.set pt0 = out at outcome
  cases outcome with
  | refused arena same => exact lookup_eq_of_leaves good.arena arena fun k _ => same k
  | exhausted arena same _ => exact lookup_eq_of_leaves good.arena arena fun k _ => same k
  | stored arena map _ _ _ _ _ =>
    refine lookup_eq_of_leaves good.arena arena fun k pre => (map k).trans (if_neg ?_)
    rintro rfl
    exact elsewhere (Mapping.covers_iff.mpr pre)

theorem Session.Good.refuses_overlap (good : s.Good pt0) (allowed : c.Allowed pt0 s) {m : Mapping}
    (member : m ∈ s.mapped) {shared : Word} (covers : m.Covers shared) (covers' : c.mapping.Covers shared) :
    (c.run s.set pt0).1 = -32 ∧
      ∀ index, lookup (c.run s.set pt0).2.mem pt0 index = lookup s.set.mem pt0 index := by
  have outcome := allowed.outcome good
  have overlaps := good.overlaps member covers covers'
  generalize c.run s.set pt0 = out at outcome
  cases outcome with
  | refused arena same =>
    exact ⟨rfl, fun index => lookup_eq_of_leaves good.arena arena fun k _ => same k⟩
  | exhausted _ _ free => exact absurd overlaps free
  | stored _ _ _ _ _ _ free => exact absurd overlaps free

end Step

section Init
variable {mem : Mem} {pt0 : Frame} {contextId vBase : Word}

/-- The table set of `init_pt_set` when it calls `write_entry`: one empty table. -/
def rootOnly (mem : Mem) (pt0 : Frame) : PtSet := ⟨clearTable mem pt0, pt0 + 1, 511⟩

theorem initPtSet_eq :
    initPtSet mem pt0 contextId vBase = (initCall pt0 contextId vBase).run (rootOnly mem pt0) pt0 := by
  simp only [initPtSet, constructPt]
  rfl

theorem rootOnly_descend {q : Path} {f : Frame} (reached : descend (clearTable mem pt0) pt0 q = some f) :
    q = [] ∧ f = pt0 := by
  cases q with
  | nil => exact ⟨rfl, (Option.some.inj reached).symm⟩
  | cons i rest => simp [descend_cons, clearTable_absent] at reached

theorem rootOnly_used : (pt0 + 1 - pt0).toNat = 1 := by
  have split : pt0 + 1 - pt0 = 1 := by bv_omega
  rw [split]
  rfl

theorem rootOnly_good : Session.Good pt0 ⟨rootOnly mem pt0, []⟩ where
  arena := by
    refine ⟨fun atP atQ => ?_, fun atP => ?_, fun atP => ?_⟩
    · rw [(rootOnly_descend atP).1, (rootOnly_descend atQ).1]
    · rw [(rootOnly_descend atP).2, rootOnly, rootOnly_used, BitVec.sub_self]
      decide
    · rw [(rootOnly_descend atP).1]
      decide
  present := by simp
  known := by
    intro k entry leaf
    cases k with
    | nil => cases leaf
    | cons i rest =>
      rw [rootOnly, leafAt_cons_absent _ (clearTable_absent pt0 i)] at leaf
      cases leaf
  nodup := List.nodup_nil

theorem pointerTo_aligned (frame : Frame) : pointerTo frame &&& 4095 = 0 := by
  apply BitVec.eq_of_toNat_eq
  have bound := frame.isLt
  rw [BitVec.toNat_and]
  refine (Nat.and_two_pow_sub_one_eq_mod _ 12).trans ?_
  simp only [pointerTo, vaddrLso, BitVec.toNat_shiftLeft, BitVec.toNat_setWidth, Nat.shiftLeft_eq]
  change _ = 0
  omega

theorem initCall_allowed : (initCall pt0 contextId vBase).Allowed pt0 ⟨rootOnly mem pt0, []⟩ where
  aligned := pointerTo_aligned pt0
  outside := by simp
  room := by
    rw [rootOnly, rootOnly_used]
    decide

theorem Session.init_eq :
    Session.step pt0 ⟨rootOnly mem pt0, []⟩ (initCall pt0 contextId vBase) =
      some (Session.init mem pt0 contextId vBase) := by
  simp only [Session.step, Session.init, initPtSet_eq]

theorem Session.init_good : (Session.init mem pt0 contextId vBase).Good pt0 :=
  rootOnly_good.step initCall_allowed Session.init_eq

theorem Session.good_of_run {calls : List Call} {s : Session}
    (run : Run (Session.step pt0) (fun s c => c.Allowed pt0 s) (Session.init mem pt0 contextId vBase) calls s) :
    s.Good pt0 :=
  run.invariant Session.init_good fun _ _ _ good allowed taken => good.step allowed taken

/-- From `init_pt_set` on the page table is the map of the successful calls, as
long as no call asks for a part of a larger mapped page. -/
theorem page_table_is_map {calls : List Call} {s : Session}
    (run : Run (Session.step pt0) (fun s c => c.Allowed pt0 s) (Session.init mem pt0 contextId vBase) calls s) :
    (∀ index, ∀ m ∈ s.mapped, m.Covers index →
      lookup s.set.mem pt0 index = m.answer ∧ ∀ m' ∈ s.mapped, m'.Covers index → m' = m) ∧
    (∀ index, (∀ m ∈ s.mapped, ¬ m.Covers index) → lookup s.set.mem pt0 index = .notPresent) ∧
    (∀ c : Call, c.Allowed pt0 s → (c.run s.set pt0).1 = 1 → ∀ index, ¬ c.mapping.Covers index →
      lookup (c.run s.set pt0).2.mem pt0 index = lookup s.set.mem pt0 index) ∧
    (∀ c : Call, c.Allowed pt0 s → (∃ m ∈ s.mapped, ∃ index, m.Covers index ∧ c.mapping.Covers index) →
      (c.run s.set pt0).1 = -32 ∧
        ∀ index, lookup (c.run s.set pt0).2.mem pt0 index = lookup s.set.mem pt0 index) := by
  have good := Session.good_of_run run
  refine ⟨?_, ?_, ?_, ?_⟩
  · intro index m member covers
    exact ⟨good.lookup_covered member covers, fun m' member' covers' => good.unique member member' covers covers'⟩
  · intro index uncovered
    exact good.lookup_uncovered uncovered
  · intro c allowed _ index elsewhere
    exact good.changes_own_page allowed elsewhere
  · rintro c allowed ⟨m, member, shared, covers, covers'⟩
    exact good.refuses_overlap allowed member covers covers'

end Init

section Overlap

/-- A 2 MiB page. -/
def largeCall : Call := ⟨512, 0x200000, 1, 1, 1, 0⟩

/-- A 4 KiB page inside it, at another place of memory. -/
def insideCall : Call := ⟨513, 0x400000, 0, 1, 0, 0⟩

def emptyMem : Mem := fun _ _ => Pte.zero

def sessionLarge : Session :=
  let s := Session.init emptyMem 256 0 0
  ⟨(largeCall.run s.set 256).2, largeCall.mapping :: s.mapped⟩

theorem step_largeCall :
    Session.step 256 (Session.init emptyMem 256 0 0) largeCall = some sessionLarge :=
  Session.step_of_success (by decide +kernel)

theorem page_table_is_map_large :
    lookup sessionLarge.set.mem 256 600 = .page 0x200000 true true false 5 ∧
      ∀ m' ∈ sessionLarge.mapped, m'.Covers 600 → m' = largeCall.mapping :=
  (page_table_is_map (.next .start ⟨by decide, by decide +kernel, by decide +kernel⟩ step_largeCall :
    Run (Session.step 256) (fun s c => c.Allowed 256 s) (Session.init emptyMem 256 0 0) [largeCall]
      sessionLarge)).1 600 largeCall.mapping (by decide +kernel) (by decide +kernel)

/-- `write_entry` goes through the entry of the large page as if it pointed to
a table, and reports success. No walk ever finds the small page. -/
theorem write_inside_large_page :
    execute (Session.step 256) (Session.init emptyMem 256 0 0) [largeCall] = some sessionLarge ∧
      largeCall.mapping ∈ sessionLarge.mapped ∧ largeCall.mapping.Covers 513 ∧ insideCall.mapping.Covers 513 ∧
      (insideCall.run sessionLarge.set 256).1 = 1 ∧
      lookup (insideCall.run sessionLarge.set 256).2.mem 256 513 = largeCall.mapping.answer :=
  ⟨by rw [execute, step_largeCall]; rfl, by decide +kernel, by decide +kernel, by decide +kernel, by decide +kernel⟩

end Overlap

end Mgsim.Manager
