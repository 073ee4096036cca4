import Mathlib.Tactic.Common
import Mgsim.Mmu.Tlb

namespace Mgsim.Mmu
open Mgsim.Lib

/-- The table with other priorities: only accessed bits and the LRU list differ. -/
structure Table.Touched (t t' : Table) : Prop where
  numLines : t'.numLines = t.numLines
  offsetWidth : t'.offsetWidth = t.offsetWidth
  lines : ∀ i, ∃ a, t'.lines i = { t.lines i with accessed := a }
  wf : t.Wf → t'.Wf

theorem Table.Touched.refl (t : Table) : t.Touched t := ⟨rfl, rfl, fun _ => ⟨_, rfl⟩, id⟩

theorem Table.Touched.inUse {t t' : Table} (touched : t.Touched t') {i : Nat} {contextId vAddr : Addr} :
    Table.Line.InUse (t'.lines i) contextId vAddr ↔ Table.Line.InUse (t.lines i) contextId vAddr := by
  obtain ⟨a, same⟩ := touched.lines i
  rw [same]
  exact Iff.rfl

theorem Table.touched_lookup {t t' : Table} {contextId vAddr : Addr} {tag : LineTag} {i : Nat}
    (found : t.lookup contextId vAddr tag = (some i, t')) :
    t.Touched t' ∧ i < t.numLines ∧ (t.lines i).matches (some contextId) (some vAddr) tag = true := by
  unfold Table.lookup at found
  split at found
  · rename_i j atLine
    cases found
    obtain ⟨inside, accepted⟩ := Table.find_eq_some atLine
    exact ⟨⟨Table.setPrioHigh_numLines, Table.setPrioHigh_offsetWidth, Table.setPrioHigh_lines,
      fun wf => wf.setPrioHigh inside⟩, inside, accepted⟩
  · cases found

theorem Table.lookup_none {t t' : Table} {contextId vAddr : Addr} {tag : LineTag}
    (absent : t.lookup contextId vAddr tag = (none, t')) {i : Nat} (inside : i < t.numLines) :
    (t.lines i).matches (some contextId) (some vAddr) tag = false := by
  unfold Table.lookup at absent
  split at absent
  · cases absent
  · rename_i none
    exact Table.find_eq_none none inside

namespace Tlb

structure Wf (tlb : Tlb) : Prop where
  tables : ∀ k < tlb.numTables, (tlb.tables k).Wf

/-- The TLB with other priorities in its tables. -/
structure Touched (tlb tlb' : Tlb) : Prop where
  numTables : tlb'.numTables = tlb.numTables
  tables : ∀ k, (tlb.tables k).Touched (tlb'.tables k)
  rest : tlb' = { tlb with tables := tlb'.tables }

/-- A line inside the TLB that is present or pending for an address of table 0. -/
structure Holds (tlb : Tlb) (ref : LineRef) (contextId vAddr : Addr) : Prop where
  table : ref.table < tlb.numTables
  line : ref.line < (tlb.tables ref.table).numLines
  inUse : Table.Line.InUse (tlb.line ref) contextId (vAddr >>> tlb.shift ref.table)

/-- No address is matched by two lines of the TLB. -/
def Unique (tlb : Tlb) : Prop :=
  ∀ contextId vAddr ref ref', tlb.Holds ref contextId vAddr → tlb.Holds ref' contextId vAddr → ref = ref'

theorem Touched.refl (tlb : Tlb) : tlb.Touched tlb := ⟨rfl, fun _ => .refl _, rfl⟩

theorem Touched.fifoOut {tlb tlb' : Tlb} (touched : tlb.Touched tlb') : tlb'.fifoOut = tlb.fifoOut := by
  rw [touched.rest]

theorem Touched.mgtAddr {tlb tlb' : Tlb} (touched : tlb.Touched tlb') : tlb'.mgtAddr = tlb.mgtAddr := by
  rw [touched.rest]

theorem Touched.shift {tlb tlb' : Tlb} (touched : tlb.Touched tlb') (k : Nat) : tlb'.shift k = tlb.shift k := by
  simp only [Tlb.shift, (touched.tables _).offsetWidth]

theorem Touched.holds {tlb tlb' : Tlb} (touched : tlb.Touched tlb') {ref : LineRef} {contextId vAddr : Addr} :
    tlb'.Holds ref contextId vAddr ↔ tlb.Holds ref contextId vAddr := by
  constructor
  · rintro ⟨table, line, inUse⟩
    rw [touched.numTables] at table
    rw [(touched.tables _).numLines] at line
    rw [touched.shift, Tlb.line, (touched.tables _).inUse] at inUse
    exact ⟨table, line, inUse⟩
  · rintro ⟨table, line, inUse⟩
    refine ⟨touched.numTables ▸ table, (touched.tables _).numLines ▸ line, ?_⟩
    rw [touched.shift, Tlb.line, (touched.tables _).inUse]
    exact inUse

theorem Touched.setTable {base tlb : Tlb} (touched : base.Touched tlb) {k : Nat} {table : Table}
    (step : (tlb.tables k).Touched table) : base.Touched (tlb.setTable k table) := by
  refine ⟨touched.numTables, fun j => ?_, ?_⟩
  · by_cases same : j = k
    · subst same
      have first := touched.tables j
      simp only [Tlb.setTable, Function.update_self]
      refine ⟨step.numLines.trans first.numLines, step.offsetWidth.trans first.offsetWidth, fun i => ?_,
        fun wf => step.wf (first.wf wf)⟩
      obtain ⟨a, before⟩ := first.lines i
      obtain ⟨b, after⟩ := step.lines i
      exact ⟨b, by rw [after, before]⟩
    · simp only [Tlb.setTable, Function.update_of_ne same]
      exact touched.tables j
  · rw [touched.rest]
    rfl

theorem Touched.wf {tlb tlb' : Tlb} (touched : tlb.Touched tlb') (wf : tlb.Wf) : tlb'.Wf :=
  ⟨fun k inside => (touched.tables k).wf (wf.tables k (touched.numTables ▸ inside))⟩

theorem matches_iff_holds {base tlb : Tlb} (touched : base.Touched tlb) {k i : Nat} {contextId vAddr : Addr}
    (inside : k < base.numTables) (line : i < (tlb.tables k).numLines) :
    ((tlb.tables k).lines i).matches (some contextId) (some (vAddr >>> tlb.shift k)) .indexable = true ↔
      base.Holds ⟨k, i⟩ contextId vAddr := by
  rw [Table.matches_indexable, ← touched.holds]
  constructor
  · exact fun inUse => ⟨touched.numTables ▸ inside, line, inUse⟩
  · exact fun holds => holds.inUse

/-- One round of the loop that does not throw. -/
theorem lookupTable_eq_ok {base tlb : Tlb} (touched : base.Touched tlb) {contextId vAddr : Addr} {k : Nat}
    (inside : k < base.numTables) {found : Option LineRef} {out : Tlb × Option LineRef}
    (done : lookupTable contextId vAddr .indexable (tlb, found) k = .ok out) :
    (out = (tlb, found) ∧ ∀ i, ¬ base.Holds ⟨k, i⟩ contextId vAddr) ∨
      (base.Touched out.1 ∧ found = none ∧ ∃ i, out.2 = some ⟨k, i⟩ ∧ base.Holds ⟨k, i⟩ contextId vAddr) := by
  simp only [lookupTable] at done
  split at done
  · rename_i looked
    cases done
    refine Or.inl ⟨rfl, fun i holds => ?_⟩
    have line : i < (tlb.tables k).numLines := by
      rw [(touched.tables k).numLines]
      exact holds.line
    have refused := Table.lookup_none looked line
    rw [(matches_iff_holds touched inside line).mpr holds] at refused
    cases refused
  · rename_i i table looked
    obtain ⟨step, line, accepted⟩ := Table.touched_lookup looked
    split at done
    · cases done
    · rename_i first
      cases done
      exact Or.inr ⟨touched.setTable step, by simpa using first, i, rfl,
        (matches_iff_holds touched inside line).mp accepted⟩

/-- What the loop of `doLookup` over some tables has found when it does not throw. -/
theorem lookupLoop_eq_ok {base : Tlb} {contextId vAddr : Addr} {ks : List Nat}
    (inside : ∀ k ∈ ks, k < base.numTables) {tlb : Tlb} {found : Option LineRef} (touched : base.Touched tlb)
    {out : Tlb × Option LineRef}
    (done : ks.foldlM (lookupTable contextId vAddr .indexable) (tlb, found) = .ok out) :
    base.Touched out.1 ∧ (∀ ref, out.2 = some ref → found = some ref ∨ base.Holds ref contextId vAddr) ∧
      (out.2 = none → found = none ∧ ∀ k ∈ ks, ∀ i, ¬ base.Holds ⟨k, i⟩ contextId vAddr) := by
  induction ks generalizing tlb found with
  | nil =>
    cases done
    exact ⟨touched, fun ref same => Or.inl same, fun none => ⟨none, by simp⟩⟩
  | cons k rest ih =>
    have insideRest : ∀ j ∈ rest, j < base.numTables := fun j member => inside j (List.mem_cons_of_mem _ member)
    rw [List.foldlM_cons] at done
    cases first : lookupTable contextId vAddr .indexable (tlb, found) k with
    | error fault =>
      rw [first] at done
      cases done
    | ok middle =>
      rw [first] at done
      rcases lookupTable_eq_ok touched (inside k List.mem_cons_self) first with
        ⟨rfl, absent⟩ | ⟨step, rfl, i, same, holds⟩
      · obtain ⟨after, held, missing⟩ := ih insideRest touched done
        refine ⟨after, held, fun none => ⟨(missing none).1, fun j member i => ?_⟩⟩
        rcases List.mem_cons.mp member with rfl | later
        · exact absent i
        · exact (missing none).2 j later i
      · obtain ⟨tlb', found'⟩ := middle
        cases same
        obtain ⟨after, held, missing⟩ := ih insideRest step done
        refine ⟨after, fun ref some => ?_, fun none => ?_⟩
        · rcases held ref some with same | holds'
          · cases same
            exact Or.inr holds
          · exact Or.inr holds'
        · cases (missing none).1

/-- The loop does not throw when no address is matched twice. -/
theorem lookupLoop_isOk {base : Tlb} (unique : base.Unique) {contextId vAddr : Addr} {ks : List Nat}
    (nodup : ks.Nodup) (inside : ∀ k ∈ ks, k < base.numTables) {tlb : Tlb} {found : Option LineRef}
    (touched : base.Touched tlb)
    (known : ∀ ref, found = some ref → base.Holds ref contextId vAddr ∧ ref.table ∉ ks) :
    ∃ out, ks.foldlM (lookupTable contextId vAddr .indexable) (tlb, found) = .ok out := by
  induction ks generalizing tlb found with
  | nil => exact ⟨_, rfl⟩
  | cons k rest ih =>
    obtain ⟨fresh, nodup⟩ := List.nodup_cons.mp nodup
    have insideRest : ∀ j ∈ rest, j < base.numTables := fun j member => inside j (List.mem_cons_of_mem _ member)
    rw [List.foldlM_cons]
    cases first : lookupTable contextId vAddr .indexable (tlb, found) k with
    | ok middle =>
      rcases lookupTable_eq_ok touched (inside k List.mem_cons_self) first with
        ⟨rfl, _⟩ | ⟨step, rfl, i, same, holds⟩
      · exact ih nodup insideRest touched fun ref same =>
          ⟨(known ref same).1, fun member => (known ref same).2 (List.mem_cons_of_mem _ member)⟩
      · obtain ⟨tlb', found'⟩ := middle
        cases same
        refine ih nodup insideRest step fun ref same => ?_
        cases same
        exact ⟨holds, fresh⟩
    | error fault =>
      simp only [lookupTable] at first
      split at first
      · cases first
      · rename_i i table looked
        obtain ⟨_, line, accepted⟩ := Table.touched_lookup looked
        have holds := (matches_iff_holds touched (inside k List.mem_cons_self) line).mp accepted
        split at first
        · rename_i earlier
          obtain ⟨ref, same⟩ := Option.isSome_iff_exists.mp earlier
          have twice := unique contextId vAddr ref ⟨k, i⟩ (known ref same).1 holds
          exact absurd (by rw [twice]; exact List.mem_cons_self) (known ref same).2
        · cases first

/-- What `doLookup` has found when it does not throw. -/
theorem doLookup_eq_ok {tlb tlb' : Tlb} {contextId vAddr : Addr} {found : Option LineRef}
    (done : tlb.doLookup contextId vAddr .indexable = .ok (tlb', found)) :
    tlb.Touched tlb' ∧ (∀ ref, found = some ref → tlb.Holds ref contextId vAddr) ∧
      (found = none → ∀ ref, ¬ tlb.Holds ref contextId vAddr) := by
  obtain ⟨touched, held, missing⟩ := lookupLoop_eq_ok (fun k member => List.mem_range.mp member) (.refl tlb) done
  refine ⟨touched, fun ref same => (held ref same).resolve_left (by simp), fun none ref holds => ?_⟩
  exact (missing none).2 ref.table (List.mem_range.mpr holds.table) ref.line holds

/-- Without double matches `doLookup` does not throw. -/
theorem Unique.doLookup_isOk {tlb : Tlb} (unique : tlb.Unique) (contextId vAddr : Addr) :
    ∃ out, tlb.doLookup contextId vAddr .indexable = .ok out :=
  lookupLoop_isOk unique List.nodup_range (fun k member => List.mem_range.mp member) (.refl tlb) (by simp)

end Tlb

/-- Every line of the second table that is in use was in use for the same address before. -/
structure Table.Shrunk (t t' : Table) : Prop where
  numLines : t'.numLines = t.numLines
  offsetWidth : t'.offsetWidth = t.offsetWidth
  inUse : ∀ {i contextId vAddr}, Line.InUse (t'.lines i) contextId vAddr → Line.InUse (t.lines i) contextId vAddr
  wf : t.Wf → t'.Wf

theorem Table.Shrunk.refl (t : Table) : t.Shrunk t := ⟨rfl, rfl, id, id⟩

theorem Table.Shrunk.trans {t t' t'' : Table} (first : t.Shrunk t') (second : t'.Shrunk t'') : t.Shrunk t'' :=
  ⟨second.numLines.trans first.numLines, second.offsetWidth.trans first.offsetWidth,
    fun used => first.inUse (second.inUse used), fun wf => second.wf (first.wf wf)⟩

theorem Table.shrunk_setLine {t : Table} {i : Nat} {line : Line}
    (kept : ∀ contextId vAddr, Line.InUse line contextId vAddr → Line.InUse (t.lines i) contextId vAddr) :
    t.Shrunk (t.setLine i line) := by
  refine ⟨rfl, rfl, fun {j contextId vAddr} used => ?_, Wf.setLine⟩
  by_cases same : j = i
  · subst same
    rw [setLine_self] at used
    exact kept _ _ used
  · rwa [setLine_ne same] at used

theorem Table.shrunk_freeLinesWhere {t t' : Table} {lambda : Line → Bool}
    (done : t.freeLinesWhere lambda = .ok t') : t.Shrunk t' := by
  obtain ⟨_, rfl⟩ := freeLinesWhere_eq_ok done
  refine ⟨rfl, rfl, fun {i contextId vAddr} used => ?_, fun wf => ⟨wf.numLines, wf.order, wf.power⟩⟩
  have kept : ∀ line : Line, Line.InUse (freed lambda line) contextId vAddr → Line.InUse line contextId vAddr := by
    intro line used
    unfold freed at used
    split at used
    · exact ⟨Or.inr (used.1.resolve_left Bool.false_ne_true), used.2⟩
    · exact used
  dsimp only at used
  split at used
  · exact kept _ used
  · exact used

namespace Tlb

/-- Every line of the second TLB that is in use was in use for the same address before. -/
structure Shrunk (tlb tlb' : Tlb) : Prop where
  numTables : tlb'.numTables = tlb.numTables
  tables : ∀ k, (tlb.tables k).Shrunk (tlb'.tables k)

theorem Shrunk.refl (tlb : Tlb) : tlb.Shrunk tlb := ⟨rfl, fun _ => .refl _⟩

theorem Shrunk.trans {tlb tlb' tlb'' : Tlb} (first : tlb.Shrunk tlb') (second : tlb'.Shrunk tlb'') :
    tlb.Shrunk tlb'' :=
  ⟨second.numTables.trans first.numTables, fun k => (first.tables k).trans (second.tables k)⟩

theorem Shrunk.of_eq {tlb tlb' : Tlb} (numTables : tlb'.numTables = tlb.numTables)
    (tables : tlb'.tables = tlb.tables) : tlb.Shrunk tlb' :=
  ⟨numTables, fun k => by rw [tables]; exact .refl _⟩

theorem Touched.shrunk {tlb tlb' : Tlb} (touched : tlb.Touched tlb') : tlb.Shrunk tlb' :=
  ⟨touched.numTables, fun k => ⟨(touched.tables k).numLines, (touched.tables k).offsetWidth,
    fun used => (touched.tables k).inUse.mp used, (touched.tables k).wf⟩⟩

theorem shrunk_setTable {tlb : Tlb} {k : Nat} {table : Table} (step : (tlb.tables k).Shrunk table) :
    tlb.Shrunk (tlb.setTable k table) := by
  refine ⟨rfl, fun j => ?_⟩
  by_cases same : j = k
  · subst same
    simpa only [Tlb.setTable, Function.update_self] using step
  · simpa only [Tlb.setTable, Function.update_of_ne same] using Table.Shrunk.refl _

theorem Shrunk.holds {tlb tlb' : Tlb} (shrunk : tlb.Shrunk tlb') {ref : LineRef} {contextId vAddr : Addr}
    (holds : tlb'.Holds ref contextId vAddr) : tlb.Holds ref contextId vAddr := by
  obtain ⟨table, line, inUse⟩ := holds
  have shift : tlb'.shift ref.table = tlb.shift ref.table := by
    simp only [Tlb.shift, (shrunk.tables _).offsetWidth]
  rw [shift] at inUse
  exact ⟨shrunk.numTables ▸ table, (shrunk.tables _).numLines ▸ line, (shrunk.tables _).inUse inUse⟩

theorem Shrunk.unique {tlb tlb' : Tlb} (shrunk : tlb.Shrunk tlb') (unique : tlb.Unique) : tlb'.Unique :=
  fun contextId vAddr ref ref' holds holds' =>
    unique contextId vAddr ref ref' (shrunk.holds holds) (shrunk.holds holds')

theorem Shrunk.wf {tlb tlb' : Tlb} (shrunk : tlb.Shrunk tlb') (wf : tlb.Wf) : tlb'.Wf :=
  ⟨fun k inside => (shrunk.tables k).wf (wf.tables k (shrunk.numTables ▸ inside))⟩

theorem invalidateLoop_shrunk {lambda : Nat → Table → Except Fault Table}
    (frees : ∀ k t t', lambda k t = .ok t' → t.Shrunk t') {ks : List Nat} {tlb tlb' : Tlb}
    (done : ks.foldlM (fun tlb k => return tlb.setTable k (← lambda k (tlb.tables k))) tlb = .ok tlb') :
    tlb.Shrunk tlb' := by
  induction ks generalizing tlb with
  | nil =>
    cases done
    exact .refl _
  | cons k rest ih =>
    rw [List.foldlM_cons] at done
    cases freed : lambda k (tlb.tables k) with
    | error fault =>
      rw [freed] at done
      cases done
    | ok table =>
      rw [freed] at done
      exact (shrunk_setTable (frees _ _ _ freed)).trans (ih done)

theorem onInvalidateMsg_shrunk {tlb tlb' : Tlb} {msg : MgtMsg} (done : tlb.onInvalidateMsg msg = .ok tlb') :
    tlb.Shrunk tlb' := by
  unfold onInvalidateMsg at done
  dsimp only at done
  split at done
  · exact invalidateLoop_shrunk (fun _ _ _ freed => Table.shrunk_freeLinesWhere freed) done
  · split at done
    · exact invalidateLoop_shrunk (fun _ _ _ freed => Table.shrunk_freeLinesWhere freed) done
    · split at done
      · exact invalidateLoop_shrunk (fun _ _ _ freed => Table.shrunk_freeLinesWhere freed) done
      · cases done

section SetLine
variable {tlb : Tlb} {ref ref' : LineRef} {line line' : Line} {contextId vAddr : Addr}

@[simp] theorem line_setLine_self : (tlb.setLine ref line).line ref = line := by
  simp [Tlb.line, Tlb.setLine, Tlb.setTable]

theorem line_setLine_ne (different : ref' ≠ ref) : (tlb.setLine ref line).line ref' = tlb.line ref' := by
  by_cases sameTable : ref'.table = ref.table
  · have otherLine : ref'.line ≠ ref.line := by
      intro sameLine
      exact different (by cases ref; cases ref'; simp_all)
    simp [Tlb.line, Tlb.setLine, Tlb.setTable, sameTable, Table.setLine_ne otherLine]
  · simp [Tlb.line, Tlb.setLine, Tlb.setTable, sameTable]

@[simp] theorem setLine_shape (k : Nat) :
    ((tlb.setLine ref line).tables k).numLines = (tlb.tables k).numLines ∧
      ((tlb.setLine ref line).tables k).offsetWidth = (tlb.tables k).offsetWidth := by
  by_cases same : k = ref.table
  · subst same
    simp [Tlb.setLine, Tlb.setTable]
  · simp [Tlb.setLine, Tlb.setTable, same]

@[simp] theorem shift_setLine (k : Nat) : (tlb.setLine ref line).shift k = tlb.shift k := by
  simp only [Tlb.shift, (setLine_shape _).2]

theorem holds_setLine_ne (different : ref' ≠ ref) :
    (tlb.setLine ref line).Holds ref' contextId vAddr ↔ tlb.Holds ref' contextId vAddr := by
  have same : (tlb.setLine ref line).line ref' = tlb.line ref' := line_setLine_ne different
  constructor
  · rintro ⟨table, inside, inUse⟩
    rw [(setLine_shape _).1] at inside
    rw [shift_setLine, same] at inUse
    exact ⟨table, inside, inUse⟩
  · rintro ⟨table, inside, inUse⟩
    refine ⟨table, ?_, ?_⟩
    · rw [(setLine_shape _).1]
      exact inside
    · rw [shift_setLine, same]
      exact inUse

theorem Wf.setLine (wf : tlb.Wf) : (tlb.setLine ref line).Wf := by
  refine ⟨fun k inside => ?_⟩
  by_cases same : k = ref.table
  · subst same
    simpa [Tlb.setLine, Tlb.setTable] using (wf.tables _ inside).setLine
  · simpa [Tlb.setLine, Tlb.setTable, same] using wf.tables k inside

theorem shrunk_setLine
    (kept : ∀ contextId vAddr, Table.Line.InUse line contextId vAddr → Table.Line.InUse (tlb.line ref) contextId vAddr) :
    tlb.Shrunk (tlb.setLine ref line) :=
  shrunk_setTable (Table.shrunk_setLine kept)

/-- A stored line keeps the matches unique when nothing else matches its addresses. -/
theorem Unique.setLine (unique : tlb.Unique)
    (alone : ∀ (contextId vAddr : Addr) other, Table.Line.InUse line contextId (vAddr >>> tlb.shift ref.table) →
      tlb.Holds other contextId vAddr → other = ref) : (tlb.setLine ref line).Unique := by
  have own : ∀ {contextId vAddr}, (tlb.setLine ref line).Holds ref contextId vAddr →
      Table.Line.InUse line contextId (vAddr >>> tlb.shift ref.table) := by
    intro contextId vAddr holds
    have inUse := holds.inUse
    rwa [shift_setLine, line_setLine_self] at inUse
  intro contextId vAddr first second atFirst atSecond
  by_cases sameFirst : first = ref
  · subst sameFirst
    by_cases sameSecond : second = first
    · exact sameSecond.symm
    · exact (alone _ _ _ (own atFirst) ((holds_setLine_ne sameSecond).mp atSecond)).symm
  · have oldFirst := (holds_setLine_ne sameFirst).mp atFirst
    by_cases sameSecond : second = ref
    · subst sameSecond
      exact alone _ _ _ (own atSecond) oldFirst
    · exact unique _ _ _ _ oldFirst ((holds_setLine_ne sameSecond).mp atSecond)

theorem setLine_comm (different : ref.table ≠ ref'.table) :
    (tlb.setLine ref line).setLine ref' line' = (tlb.setLine ref' line').setLine ref line := by
  simp only [Tlb.setLine, Tlb.setTable, Function.update_of_ne different.symm, Function.update_of_ne different]
  rw [Function.update_comm different]

end SetLine

/-- The entry that a miss leaves in table 0. -/
def pendingLine (line : Line) (contextId vAddr : Addr) : Line :=
  { line with present := false, locked := true, contextId := contextId, vAddr := vAddr }

/-- What `lookup` on a page can do. `found` is the TLB with the priorities that the search has raised. -/
inductive PageLookup (tlb : Tlb) (contextId vAddr : Addr) (mayUnlock : Bool) : Lookup → Prop
  | waiting {found : Tlb} {ref : LineRef} : tlb.Touched found → tlb.Holds ref contextId vAddr →
      (found.line ref).present = false →
      PageLookup tlb contextId vAddr mayUnlock
        ⟨.delayed, pendingResult, { found with lastLine := some ref }, { found with lastLine := some ref }⟩
  | hit {found : Tlb} {ref : LineRef} : tlb.Touched found → tlb.Holds ref contextId vAddr →
      (found.line ref).present = true →
      PageLookup tlb contextId vAddr mayUnlock
        ⟨.success, ⟨false, (found.line ref).read, (found.line ref).write, (found.line ref).pAddr,
            (found.tables ref.table).offsetWidth⟩, { found with lastLine := none },
          if (found.line ref).locked && mayUnlock then
            { found with lastLine := none }.setLine ref { found.line ref with locked := false }
          else { found with lastLine := none }⟩
  | stalled {found : Tlb} : tlb.Touched found → (∀ ref, ¬ tlb.Holds ref contextId vAddr) →
      PageLookup tlb contextId vAddr mayUnlock ⟨.failed, pendingResult, found, found⟩
  | missed {found : Tlb} {i : Nat} {fifo : Buffer IoMsg} : tlb.Touched found →
      (∀ ref, ¬ tlb.Holds ref contextId vAddr) → i = (found.tables 0).pickDestination →
      (found.line ⟨0, i⟩).locked = false →
      found.sendMgtMsg (found.missMsg contextId vAddr i) = .ok (some fifo) →
      PageLookup tlb contextId vAddr mayUnlock
        ⟨.delayed, pendingResult, { found with lastLine := some ⟨0, i⟩ },
          { found.setLine ⟨0, i⟩ (pendingLine (found.line ⟨0, i⟩) contextId vAddr) with
            lastLine := some ⟨0, i⟩, fifoOut := fifo }⟩

theorem lookupPage_eq_ok {tlb : Tlb} {contextId vAddr : Addr} {mayUnlock : Bool}
    {out : Lookup} (done : tlb.lookupPage contextId vAddr mayUnlock = .ok out) :
    tlb.PageLookup contextId vAddr mayUnlock out := by
  unfold lookupPage at done
  cases run : tlb.doLookup contextId vAddr .indexable with
  | error fault =>
    rw [run] at done
    cases done
  | ok searched =>
  obtain ⟨found, ref⟩ := searched
  obtain ⟨touched, held, missing⟩ := doLookup_eq_ok run
  rw [run] at done
  cases ref with
  | some ref =>
    have holds := held ref rfl
    simp only [bind, Except.bind] at done
    split at done
    · rename_i pending
      cases done
      exact .waiting touched holds pending
    · rename_i present
      cases done
      exact .hit touched holds (by simpa using present)
  | none =>
    have absent := missing rfl
    simp only [bind, Except.bind] at done
    split at done
    · cases done
      exact .stalled touched absent
    · rename_i i table taken
      obtain ⟨victim, unlocked, rfl⟩ := Table.storePending_eq_some taken
      split at done
      · cases done
      · rename_i sent
        split at done
        · cases done
          exact .stalled touched absent
        · rename_i fifo
          cases done
          exact .missed touched absent victim unlocked sent

/-- A lookup is looped back or goes to the tables. -/
theorem lookup_eq_ok {tlb : Tlb} {drisc : Drisc} {contextId : BitVec 16} {vAddr : Addr} {mayUnlock : Bool}
    {out : Lookup} (done : tlb.lookup drisc contextId vAddr mayUnlock = .ok out) :
    out = tlb.loopback vAddr ∨
      ((tlb.enabled = true ∧ vAddr.msb = false ∧ drisc.isMapped vAddr drisc.lineSize = false) ∧
        tlb.lookupPage (contextId.setWidth 64) (vAddr >>> (tlb.tables 0).offsetWidth) mayUnlock = .ok out) := by
  unfold lookup at done
  split at done
  · cases done
    exact Or.inl rfl
  rename_i enabled
  split at done
  · cases done
    exact Or.inl rfl
  rename_i noTls
  split at done
  · split at done
    · cases done
      exact Or.inl rfl
    · cases done
  · rename_i unmapped
    exact Or.inr ⟨⟨by simpa using enabled, by simpa using noTls, by simpa using unmapped⟩, done⟩

/-- What `onStoreMsg` can do with a refill before it calls the data cache. -/
inductive Stored (tlb : Tlb) (msg : MgtMsg) : Completion × Tlb → Prop
  | notPresent {line : Line} : msg.get .present = 0 → (tlb.tables 0).IsPending (msg.get .lineIndex).toNat →
      line = tlb.line ⟨0, (msg.get .lineIndex).toNat⟩ →
      Stored tlb msg (⟨line.dLineRef, none, false⟩, tlb)
  | filled {line : Line} : msg.get .present ≠ 0 → tlb.numTables - 1 - (msg.get .table).toNat = 0 →
      (tlb.tables 0).IsPending (msg.get .lineIndex).toNat →
      line = tlb.line ⟨0, (msg.get .lineIndex).toNat⟩ →
      Stored tlb msg (⟨line.dLineRef, some ⟨0, (msg.get .lineIndex).toNat⟩, true⟩,
        tlb.setLine ⟨0, (msg.get .lineIndex).toNat⟩
          { line with
            present := true, read := (msg.get .read).getLsbD 0, write := (msg.get .write).getLsbD 0,
            pAddr := msg.part1 })
  | moved {line victim : Line} {tableId i : Nat} : msg.get .present ≠ 0 →
      tableId = tlb.numTables - 1 - (msg.get .table).toNat → tableId ≠ 0 → tableId < tlb.numTables →
      (tlb.tables 0).IsPending (msg.get .lineIndex).toNat →
      line = tlb.line ⟨0, (msg.get .lineIndex).toNat⟩ → i = (tlb.tables tableId).pickDestination →
      victim = tlb.line ⟨tableId, i⟩ → victim.locked = false →
      Stored tlb msg (⟨line.dLineRef, some ⟨tableId, i⟩, true⟩,
        (tlb.setLine ⟨tableId, i⟩
          { victim with
            present := true, locked := true, contextId := line.contextId,
            vAddr := line.vAddr >>> tlb.shift tableId, pAddr := msg.part1,
            read := (msg.get .read).getLsbD 0, write := (msg.get .write).getLsbD 0 }).setLine
          ⟨0, (msg.get .lineIndex).toNat⟩ { line with locked := false })

theorem onStoreMsg_eq_ok {tlb : Tlb} {msg : MgtMsg} {out : Completion × Tlb}
    (done : tlb.onStoreMsg msg = .ok (some out)) : tlb.Stored msg out := by
  unfold onStoreMsg at done
  simp only [bind, Except.bind, pure, Except.pure, throw, throwThe, MonadExceptOf.throw] at done
  split at done
  · cases done
  split at done
  · cases done
  rename_i inRange
  split at done
  · rename_i absent
    split at done
    · cases done
    · rename_i answer got
      rcases Table.getPending_eq_ok got with ⟨rfl, pending⟩ | ⟨rfl, _⟩
      · cases done
        exact .notPresent absent pending rfl
      · cases done
  · rename_i present
    split at done
    · rename_i first
      split at done
      · cases done
      · rename_i filled ok
        obtain ⟨ref, table⟩ := filled
        obtain ⟨pending, rfl, rfl⟩ := Table.fillPending_eq_ok ok
        cases done
        exact .filled present first pending rfl
    · rename_i other
      split at done
      · cases done
      · rename_i answer got
        rcases Table.getPending_eq_ok got with ⟨rfl, pending⟩ | ⟨rfl, _⟩
        · simp only at done
          split at done
          · cases done
          · rename_i i table taken
            obtain ⟨victim, unlocked, rfl⟩ := Table.storeNormal_eq_some taken
            split at done
            · cases done
            · rename_i table released
              obtain ⟨_, rfl⟩ := Table.releasePending_eq_ok released
              cases done
              have same : ∀ table, (tlb.setTable (tlb.numTables - 1 - (msg.get .table).toNat) table).tables 0 =
                  tlb.tables 0 := by
                intro table
                simp [Tlb.setTable, Function.update_of_ne (Ne.symm other)]
              have moved := Stored.moved present rfl other (by omega) pending rfl victim rfl unlocked
              simp only [Tlb.setLine, same] at moved
              rw [same]
              exact moved
        · cases done

/-- The second TLB differs only in the lines listed, in lines without lock and
in what the locks do not depend on. -/
structure Changes (tlb tlb' : Tlb) (refs : List LineRef) : Prop where
  numTables : tlb'.numTables = tlb.numTables
  numLines : ∀ k, (tlb'.tables k).numLines = (tlb.tables k).numLines
  wf : tlb.Wf → tlb'.Wf
  locked : ∀ ref ∉ refs, (tlb'.line ref).locked = (tlb.line ref).locked
  kept : ∀ ref ∉ refs, (tlb.line ref).locked = true →
    (tlb'.line ref).present = (tlb.line ref).present ∧ (tlb'.line ref).dLineRef = (tlb.line ref).dLineRef

/-- The line exists in the configuration. -/
def Inside (tlb : Tlb) (ref : LineRef) : Prop :=
  ref.table < tlb.numTables ∧ ref.line < (tlb.tables ref.table).numLines

section Changes
variable {tlb tlb' tlb'' : Tlb} {refs : List LineRef} {ref : LineRef} {line : Line}

theorem Changes.inside (changes : tlb.Changes tlb' refs) : tlb'.Inside ref ↔ tlb.Inside ref := by
  simp only [Inside, changes.numTables, changes.numLines]

theorem Changes.of_eq (numTables : tlb'.numTables = tlb.numTables) (tables : tlb'.tables = tlb.tables) :
    tlb.Changes tlb' refs := by
  have same : ∀ ref, tlb'.line ref = tlb.line ref := fun ref => by rw [line, tables, line]
  refine ⟨numTables, fun k => by rw [tables], (Shrunk.of_eq numTables tables).wf, fun ref _ => by rw [same], ?_⟩
  intro ref _ _
  rw [same]
  exact ⟨rfl, rfl⟩

theorem Changes.trans (first : tlb.Changes tlb' refs) (second : tlb'.Changes tlb'' refs) : tlb.Changes tlb'' refs := by
  refine ⟨second.numTables.trans first.numTables, fun k => (second.numLines k).trans (first.numLines k),
    fun wf => second.wf (first.wf wf), fun ref outside => ?_, fun ref outside locked => ?_⟩
  · rw [second.locked ref outside, first.locked ref outside]
  · obtain ⟨present, reference⟩ := first.kept ref outside locked
    rw [← first.locked ref outside] at locked
    obtain ⟨present', reference'⟩ := second.kept ref outside locked
    exact ⟨present'.trans present, reference'.trans reference⟩

theorem Changes.mono {refs' : List LineRef} (changes : tlb.Changes tlb' refs) (more : ∀ ref ∈ refs, ref ∈ refs') :
    tlb.Changes tlb' refs' :=
  ⟨changes.numTables, changes.numLines, changes.wf, fun ref outside => changes.locked ref fun member => outside (more ref member),
    fun ref outside => changes.kept ref fun member => outside (more ref member)⟩

theorem Touched.changes (touched : tlb.Touched tlb') : tlb.Changes tlb' refs := by
  have lines : ∀ ref, ∃ a, tlb'.line ref = { tlb.line ref with accessed := a } :=
    fun ref => (touched.tables ref.table).lines ref.line
  refine ⟨touched.numTables, fun k => (touched.tables k).numLines, touched.wf, fun ref _ => ?_, fun ref _ _ => ?_⟩
  · obtain ⟨a, same⟩ := lines ref
    rw [same]
  · obtain ⟨a, same⟩ := lines ref
    rw [same]
    exact ⟨rfl, rfl⟩

theorem changes_setLine (member : ref ∈ refs) : tlb.Changes (tlb.setLine ref line) refs := by
  refine ⟨rfl, fun k => (setLine_shape k).1, Wf.setLine, fun other outside => ?_, fun other outside _ => ?_⟩
  · rw [line_setLine_ne (by rintro rfl; exact outside member)]
  · rw [line_setLine_ne (by rintro rfl; exact outside member)]
    exact ⟨rfl, rfl⟩

theorem changes_setTable_freed {k : Nat} {lambda : Line → Bool} {table : Table}
    (done : (tlb.tables k).freeLinesWhere lambda = .ok table) : tlb.Changes (tlb.setTable k table) [] := by
  have wf := (shrunk_setTable (Table.shrunk_freeLinesWhere done)).wf
  obtain ⟨unlocked, rfl⟩ := Table.freeLinesWhere_eq_ok done
  have kept : ∀ j, (Table.freed lambda ((tlb.tables k).lines j)).locked = ((tlb.tables k).lines j).locked := by
    intro j
    unfold Table.freed
    split <;> rfl
  refine ⟨rfl, fun j => ?_, wf, fun ref _ => ?_, fun ref _ locked => ?_⟩
  · by_cases same : j = k
    · subst same
      simp [Tlb.setTable]
    · simp [Tlb.setTable, same]
  · by_cases same : ref.table = k
    · subst same
      simp only [Tlb.line, Tlb.setTable, Function.update_self]
      split
      · exact kept _
      · rfl
    · simp [Tlb.line, Tlb.setTable, same]
  · by_cases same : ref.table = k
    · subst same
      simp only [Tlb.line, Tlb.setTable, Function.update_self]
      split
      · rename_i inside
        have refused : lambda ((tlb.tables ref.table).lines ref.line) = false := by
          by_contra accepted
          rw [Bool.not_eq_false] at accepted
          rw [Tlb.line, unlocked ref.line inside accepted] at locked
          cases locked
        simp [Table.freed, refused]
      · exact ⟨rfl, rfl⟩
    · simp [Tlb.line, Tlb.setTable, same]

theorem invalidateLoop_changes {lambda : Nat → Table → Except Fault Table}
    (frees : ∀ k t t', lambda k t = .ok t' → ∃ accept, t.freeLinesWhere accept = .ok t') {ks : List Nat}
    (done : ks.foldlM (fun tlb k => return tlb.setTable k (← lambda k (tlb.tables k))) tlb = .ok tlb') :
    tlb.Changes tlb' [] := by
  induction ks generalizing tlb with
  | nil =>
    cases done
    exact .of_eq rfl rfl
  | cons k rest ih =>
    rw [List.foldlM_cons] at done
    cases freed : lambda k (tlb.tables k) with
    | error fault =>
      rw [freed] at done
      cases done
    | ok table =>
      rw [freed] at done
      obtain ⟨accept, same⟩ := frees _ _ _ freed
      exact (changes_setTable_freed same).trans (ih done)

theorem onInvalidateMsg_changes {msg : MgtMsg} (done : tlb.onInvalidateMsg msg = .ok tlb') :
    tlb.Changes tlb' [] := by
  unfold onInvalidateMsg at done
  dsimp only at done
  split at done
  · exact invalidateLoop_changes (fun _ _ _ freed => ⟨_, freed⟩) done
  · split at done
    · exact invalidateLoop_changes (fun _ _ _ freed => ⟨_, freed⟩) done
    · split at done
      · exact invalidateLoop_changes (fun _ _ _ freed => ⟨_, freed⟩) done
      · cases done

/-- Without locks the loop of the three `invalidate` does not throw. -/
theorem invalidateLoop_isOk {lambda : Nat → Table → Except Fault Table} (accept : Table → Nat → Line → Bool)
    (frees : ∀ k t, lambda k t = t.freeLinesWhere (accept t k)) {ks : List Nat} (inside : ∀ k ∈ ks, k < tlb.numTables)
    (unlocked : ∀ ref, tlb.Inside ref → (tlb.line ref).locked = false) :
    ∃ tlb', ks.foldlM (fun tlb k => return tlb.setTable k (← lambda k (tlb.tables k))) tlb = .ok tlb' := by
  induction ks generalizing tlb with
  | nil => exact ⟨tlb, rfl⟩
  | cons k rest ih =>
    have member := inside k List.mem_cons_self
    obtain ⟨table, freed⟩ : ∃ table, (tlb.tables k).freeLinesWhere (accept (tlb.tables k) k) = .ok table :=
      Table.freeLinesWhere_isOk fun i bound _ => unlocked ⟨k, i⟩ ⟨member, bound⟩
    have changes := changes_setTable_freed freed
    rw [List.foldlM_cons, frees, freed]
    refine ih (fun j later => inside j (List.mem_cons_of_mem _ later)) fun ref isInside => ?_
    rw [changes.locked ref (by simp)]
    exact unlocked ref (changes.inside.mp isInside)

/-- The manager does not ask for the one combination of filters that has no meaning. -/
def KnownFilter (msg : MgtMsg) : Prop := msg.get .filterVAddr = 0 ∨ msg.get .filterContext = 1

theorem onInvalidateMsg_isOk {msg : MgtMsg} (known : KnownFilter msg)
    (unlocked : ∀ ref, tlb.Inside ref → (tlb.line ref).locked = false) :
    ∃ tlb', tlb.onInvalidateMsg msg = .ok tlb' := by
  have inside : ∀ k ∈ List.range tlb.numTables, k < tlb.numTables := fun k => List.mem_range.mp
  have flag : ∀ bit : BitVec 1, bit = 0 ∨ bit = 1 := by decide
  unfold onInvalidateMsg
  dsimp only
  split
  · exact invalidateLoop_isOk (fun t k line => line.matches _ (some (msg.part1 >>> tlb.shift k)) .indexable)
      (fun _ _ => rfl) inside unlocked
  · rename_i notAddr
    split
    · exact invalidateLoop_isOk (fun _ _ line => line.matches _ none .indexable) (fun _ _ => rfl) inside unlocked
    · rename_i notContext
      split
      · exact invalidateLoop_isOk (fun _ _ _ => true) (fun _ _ => rfl) inside unlocked
      · rename_i notAll
        rcases known with noAddr | context
        · rcases flag (msg.get .filterContext) with noContext | context
          · exact absurd ⟨noAddr, noContext⟩ notAll
          · exact absurd ⟨noAddr, context⟩ notContext
        · rcases flag (msg.get .filterVAddr) with noAddr | addr
          · exact absurd ⟨noAddr, context⟩ notContext
          · exact absurd ⟨addr, context⟩ notAddr

theorem onPropertyMsg_changes {msg : MgtMsg} (done : tlb.onPropertyMsg msg = .ok tlb') :
    tlb.Changes tlb' [] := by
  unfold onPropertyMsg at done
  split at done
  · cases done
    exact .of_eq rfl rfl
  · split at done
    · cases done
      exact .of_eq rfl rfl
    · cases done

theorem setDCacheReference_eq_ok {dRef : BitVec 32} (done : tlb.setDCacheReference dRef = .ok tlb') :
    ∃ ref, tlb.lastLine = some ref ∧ (tlb.line ref).present = false ∧
      tlb' = tlb.setLine ref { tlb.line ref with dLineRef := dRef } := by
  unfold setDCacheReference at done
  split at done
  · cases done
  · rename_i ref last
    split at done
    · cases done
    · rename_i absent
      cases done
      exact ⟨ref, last, by simpa using absent, rfl⟩

theorem getLine_eq_ok {out : TlbResultMessage × Tlb} (done : tlb.getLine ref = .ok out) :
    (tlb.line ref).locked = true ∧ (tlb.line ref).present = true ∧
      out.2 = tlb.setLine ref { tlb.line ref with locked := false } := by
  simp only [getLine] at done
  split at done
  · rename_i both
    rw [Bool.and_eq_true] at both
    cases done
    exact ⟨both.1, both.2, rfl⟩
  · cases done

theorem getLine_isOk (locked : (tlb.line ref).locked = true) (present : (tlb.line ref).present = true) :
    ∃ out, tlb.getLine ref = .ok out := by
  simp only [getLine, locked, present, Bool.and_self, if_true]
  exact ⟨_, rfl⟩

end Changes

/-- What a lookup that may not unlock does to the locks. Only a delayed one
leaves a line behind, which is pending then. -/
inductive LookupEffect (tlb : Tlb) (drisc : Drisc) (contextId : BitVec 16) (vAddr : Addr) : Lookup → Prop
  | settled {out : Lookup} : out.result ≠ .delayed → tlb.Changes out.checked [] → tlb.Changes out.committed [] →
      (out.result = .success → out.committed.lastLine = none) → LookupEffect tlb drisc contextId vAddr out
  | waiting {out : Lookup} {ref : LineRef} : out.result = .delayed → tlb.Changes out.checked [] →
      tlb.Changes out.committed [] → out.committed.lastLine = some ref →
      (tlb.enabled = true ∧ vAddr.msb = false ∧ drisc.isMapped vAddr drisc.lineSize = false) →
      tlb.Holds ref (contextId.setWidth 64) (vAddr >>> (tlb.tables 0).offsetWidth) →
      (tlb.line ref).present = false → LookupEffect tlb drisc contextId vAddr out
  | missed {out : Lookup} {i : Nat} : out.result = .delayed → tlb.Changes out.checked [] →
      tlb.Changes out.committed [⟨0, i⟩] → out.committed.lastLine = some ⟨0, i⟩ →
      (tlb.Wf → 0 < tlb.numTables → tlb.Inside ⟨0, i⟩) → (tlb.line ⟨0, i⟩).locked = false →
      (out.committed.line ⟨0, i⟩).present = false → (out.committed.line ⟨0, i⟩).locked = true →
      LookupEffect tlb drisc contextId vAddr out

theorem lookup_effect {tlb : Tlb} {drisc : Drisc} {contextId : BitVec 16} {vAddr : Addr} {out : Lookup}
    (done : tlb.lookup drisc contextId vAddr false = .ok out) : tlb.LookupEffect drisc contextId vAddr out := by
  rcases lookup_eq_ok done with rfl | ⟨translated, page⟩
  · exact .settled (by simp [loopback]) (.of_eq rfl rfl) (.of_eq rfl rfl) fun _ => rfl
  · cases lookupPage_eq_ok page with
    | @waiting found ref touched holds absent =>
      obtain ⟨a, same⟩ := (touched.tables ref.table).lines ref.line
      have before : (tlb.line ref).present = false := by
        rw [Tlb.line, same] at absent
        exact absent
      exact .waiting rfl (touched.changes.trans (.of_eq rfl rfl)) (touched.changes.trans (.of_eq rfl rfl)) rfl
        translated holds before
    | hit touched _ _ =>
      refine .settled (by simp) (touched.changes.trans (.of_eq rfl rfl)) ?_ ?_
      · simp only [Bool.and_false, Bool.false_eq_true, if_false]
        exact touched.changes.trans (.of_eq rfl rfl)
      · simp
    | stalled touched _ => exact .settled (by simp) touched.changes touched.changes (by simp)
    | @missed found i fifo touched absent victim unlocked _ =>
      obtain ⟨a, same⟩ := (touched.tables 0).lines i
      refine .missed (i := i) rfl (touched.changes.trans (.of_eq rfl rfl)) ?_ rfl ?_ ?_ ?_ ?_
      · exact (touched.changes.trans (changes_setLine List.mem_cons_self)).trans (.of_eq rfl rfl)
      · intro wf nonempty
        refine ⟨nonempty, ?_⟩
        rw [← (touched.tables 0).numLines, victim]
        exact (touched.wf wf).tables 0 (touched.numTables ▸ nonempty) |>.pickDestination_lt
      · rw [Tlb.line, same] at unlocked
        exact unlocked
      · exact congrArg Line.present (@line_setLine_self found ⟨0, i⟩ _)
      · exact congrArg Line.locked (@line_setLine_self found ⟨0, i⟩ _)

end Tlb

end Mgsim.Mmu
