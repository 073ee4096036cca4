import Mgsim.Mmu.TlbUnique
import Mgsim.Lib.Checked

namespace Mgsim.Mmu
open Mgsim.Lib

namespace Tlb

/-- `m_fifo_out.Push` in one phase. -/
def pushOut (phase : Phase) (tlb : Tlb) (msg : IoMsg) : Except Fault (Bool × Tlb) :=
  match tlb.fifoOut.pushIn phase msg 1 with
  | none => .error .assertion
  | some (accepted, fifo) => .ok (accepted, { tlb with fifoOut := fifo })

/-- `sendMgtMsg` in one phase: part 1, and then part 0. -/
def sendMgtMsgIn (phase : Phase) (tlb : Tlb) (msg : MgtMsg) : Except Fault (Bool × Tlb) := do
  let (first, tlb) ← tlb.pushOut phase ⟨tlb.mgtAddr, msg.part1⟩
  if !first then return (false, tlb)
  tlb.pushOut phase ⟨tlb.mgtAddr, msg.part0⟩

/-- The private `lookup` in one phase. The priorities of the lines change in both phases. -/
def lookupPageIn (phase : Phase) (tlb : Tlb) (contextId vAddr : Addr) (mayUnlock : Bool) :
    Except Fault (Result × TlbResultMessage × Tlb) := do
  let (tlb, ref) ← tlb.doLookup contextId vAddr .indexable
  match ref with
  | some ref =>
    let line := tlb.line ref
    if line.present = false then return (.delayed, pendingResult, { tlb with lastLine := some ref })
    else
      let unlocked :=
        if line.locked && mayUnlock && phase = .commit then tlb.setLine ref { line with locked := false } else tlb
      return (.success, ⟨false, line.read, line.write, line.pAddr, (tlb.tables ref.table).offsetWidth⟩,
        { unlocked with lastLine := none })
  | none =>
    match (tlb.tables 0).storePending contextId vAddr with
    | none => return (.failed, pendingResult, tlb)
    | some (tableLineId, table) =>
      let tlb := if phase = .commit then tlb.setTable 0 table else tlb
      let (sent, tlb) ← tlb.sendMgtMsgIn phase (tlb.missMsg contextId vAddr tableLineId)
      if sent then return (.delayed, pendingResult, { tlb with lastLine := some ⟨0, tableLineId⟩ })
      else return (.failed, pendingResult, tlb)

/-- A commit has sent both halves of the miss of this address, and line `i` waits for the answer. -/
structure SentMiss (tlb after : Tlb) (contextId vAddr : Addr) (i : Nat) : Prop where
  fifo : after.fifoOut = { tlb.fifoOut with pushed := tlb.fifoOut.pushed ++
    [⟨tlb.mgtAddr, (tlb.missMsg contextId vAddr i).part1⟩, ⟨tlb.mgtAddr, (tlb.missMsg contextId vAddr i).part0⟩] }
  line : after.line ⟨0, i⟩ = pendingLine (tlb.line ⟨0, i⟩) contextId vAddr

/-- The kernel runs the commit of a lookup that has not failed in its check. A lookup that fails leaves the
queue and the tables alone, and one that does not fail succeeds in the commit as well, with a whole message or none. -/
structure Atomic (tlb : Tlb) (contextId vAddr : Addr) (mayUnlock : Bool) : Prop where
  refused : ∀ res checked, tlb.lookupPageIn .check contextId vAddr mayUnlock = .ok (.failed, res, checked) →
    checked.fifoOut = tlb.fifoOut ∧ checked.tables = tlb.tables
  accepted : ∀ result res checked, tlb.lookupPageIn .check contextId vAddr mayUnlock = .ok (result, res, checked) →
    result ≠ .failed → ∃ res' after, checked.lookupPageIn .commit contextId vAddr mayUnlock = .ok (result, res', after) ∧
      (after.fifoOut = tlb.fifoOut ∨ ∃ i, SentMiss tlb after contextId vAddr i)

/-- No line holds the page, and table 0 has a line to wait with. -/
structure Misses (tlb : Tlb) (contextId vAddr : Addr) : Prop where
  absent : ∀ ref, ¬ tlb.Holds ref contextId vAddr
  free : (tlb.line ⟨0, (tlb.tables 0).pickDestination⟩).locked = false

end Tlb

/-- Tables of the same shape whose lines differ in their accessed bits only. -/
structure Table.Alike (t t' : Table) : Prop where
  numLines : t'.numLines = t.numLines
  offsetWidth : t'.offsetWidth = t.offsetWidth
  lines : ∀ i, ∃ a, t'.lines i = { t.lines i with accessed := a }

section
variable {t t' : Table} {tlb tlb' : Tlb} {contextId vAddr : Addr} {tag : LineTag}

theorem Table.Alike.setPrioHigh (alike : t.Alike t') (i : Nat) : (t.setPrioHigh i).Alike (t'.setPrioHigh i) where
  numLines := by rw [Table.setPrioHigh_numLines, Table.setPrioHigh_numLines, alike.numLines]
  offsetWidth := by rw [Table.setPrioHigh_offsetWidth, Table.setPrioHigh_offsetWidth, alike.offsetWidth]
  lines j := by
    obtain ⟨a, first⟩ := alike.lines j
    obtain ⟨b, before⟩ := Table.setPrioHigh_lines (t := t) (i := i) j
    obtain ⟨c, after⟩ := Table.setPrioHigh_lines (t := t') (i := i) j
    exact ⟨c, by rw [after, first, before]⟩

theorem Table.Alike.findAddr (alike : t.Alike t') : t'.findAddr contextId vAddr tag = t.findAddr contextId vAddr tag := by
  have same : (fun i => (t'.lines i).matches (some contextId) (some vAddr) tag) =
      fun i => (t.lines i).matches (some contextId) (some vAddr) tag := by
    funext i
    obtain ⟨a, line⟩ := alike.lines i
    rw [line]
    rfl
  unfold Table.findAddr Table.find
  rw [alike.numLines, same]

namespace Tlb

structure Alike (tlb tlb' : Tlb) : Prop where
  numTables : tlb'.numTables = tlb.numTables
  tables : ∀ k, (tlb.tables k).Alike (tlb'.tables k)

theorem Touched.alike (touched : tlb.Touched tlb') : tlb.Alike tlb' :=
  ⟨touched.numTables, fun k =>
    ⟨(touched.tables k).numLines, (touched.tables k).offsetWidth, (touched.tables k).lines⟩⟩

theorem Alike.shift (alike : tlb.Alike tlb') (k : Nat) : tlb'.shift k = tlb.shift k := by
  simp only [Tlb.shift, (alike.tables _).offsetWidth]

theorem Alike.setTable {table table' : Table} (alike : tlb.Alike tlb') (k : Nat) (step : table.Alike table') :
    (tlb.setTable k table).Alike (tlb'.setTable k table') := by
  refine ⟨alike.numTables, fun j => ?_⟩
  by_cases same : j = k
  · subst same
    simpa only [Tlb.setTable, Function.update_self] using step
  · simpa only [Tlb.setTable, Function.update_of_ne same] using alike.tables j

/-- Alike TLBs find the same line. -/
theorem Alike.lookupLoop (ks : List Nat) : ∀ {tlb tlb' : Tlb} {found : Option LineRef} {out : Tlb × Option LineRef},
    tlb.Alike tlb' → ks.foldlM (lookupTable contextId vAddr tag) (tlb, found) = .ok out →
    ∃ after, ks.foldlM (lookupTable contextId vAddr tag) (tlb', found) = .ok (after, out.2) := by
  induction ks with
  | nil =>
    intro tlb tlb' found out alike done
    cases done
    exact ⟨tlb', rfl⟩
  | cons k rest ih =>
    intro tlb tlb' found out alike done
    rw [List.foldlM_cons] at done ⊢
    have same := @Table.Alike.findAddr _ _ contextId (vAddr >>> tlb.shift k) tag (alike.tables k)
    cases find : (tlb.tables k).findAddr contextId (vAddr >>> tlb.shift k) tag with
    | none =>
      rw [find] at same
      have first : lookupTable contextId vAddr tag (tlb, found) k = .ok (tlb, found) := by
        simp only [lookupTable, Table.lookup, find]
      have second : lookupTable contextId vAddr tag (tlb', found) k = .ok (tlb', found) := by
        simp only [lookupTable, Table.lookup, alike.shift, same]
      rw [first] at done
      rw [second]
      exact ih alike done
    | some i =>
      rw [find] at same
      cases found with
      | some earlier =>
        have first : lookupTable contextId vAddr tag (tlb, some earlier) k =
            .error (.domainError "vAddr exists in multiple tables!") := by
          simp only [lookupTable, Table.lookup, find, Option.isSome_some, if_true]
        rw [first] at done
        cases done
      | none =>
        have first : lookupTable contextId vAddr tag (tlb, none) k =
            .ok (tlb.setTable k ((tlb.tables k).setPrioHigh i), some ⟨k, i⟩) := by
          simp [lookupTable, Table.lookup, find]
        have second : lookupTable contextId vAddr tag (tlb', none) k =
            .ok (tlb'.setTable k ((tlb'.tables k).setPrioHigh i), some ⟨k, i⟩) := by
          simp [lookupTable, Table.lookup, alike.shift, same]
        rw [first] at done
        rw [second]
        exact ih (alike.setTable k ((alike.tables k).setPrioHigh i)) done

theorem Alike.doLookup {out : Tlb × Option LineRef} (alike : tlb.Alike tlb')
    (done : tlb.doLookup contextId vAddr tag = .ok out) :
    ∃ after, tlb'.doLookup contextId vAddr tag = .ok (after, out.2) := by
  unfold Tlb.doLookup at done ⊢
  rw [alike.numTables]
  exact Alike.lookupLoop _ alike done

/-- A search that finds nothing changes nothing. -/
theorem doLookup_of_absent (absent : ∀ ref, ¬ tlb.Holds ref contextId vAddr) :
    tlb.doLookup contextId vAddr .indexable = .ok (tlb, none) := by
  unfold Tlb.doLookup
  have all : ∀ ks : List Nat, (∀ k ∈ ks, k < tlb.numTables) →
      ks.foldlM (lookupTable contextId vAddr .indexable) (tlb, none) = .ok (tlb, none) := by
    intro ks inside
    induction ks with
    | nil => rfl
    | cons k rest ih =>
      have first : lookupTable contextId vAddr .indexable (tlb, none) k = .ok (tlb, none) := by
        simp only [lookupTable]
        split
        · rfl
        · rename_i i table found
          obtain ⟨_, line, accepted⟩ := Table.touched_lookup found
          exact absurd ((matches_iff_holds (.refl tlb) (inside k List.mem_cons_self) line).mp accepted) (absent _)
      rw [List.foldlM_cons, first]
      exact ih fun j member => inside j (List.mem_cons_of_mem _ member)
  exact all _ fun k member => List.mem_range.mp member

variable {msg : MgtMsg} {i : Nat} {mayUnlock : Bool}

/-- In the check phase one free slot is enough for both halves. -/
theorem sendMgtMsgIn_check (room : tlb.fifoOut.RoomFor 1) : tlb.sendMgtMsgIn .check msg = .ok (true, tlb) := by
  have pushed : ∀ item, tlb.pushOut .check item = .ok (true, tlb) := by
    intro item
    simp only [pushOut, room.pushIn]
    rfl
  simp only [sendMgtMsgIn, pushed, bind, Except.bind, Bool.not_true, Bool.false_eq_true, if_false]

theorem sendMgtMsgIn_of_no_room {phase : Phase} {sent : Bool} {after : Tlb} (full : ¬ tlb.fifoOut.RoomFor 1)
    (done : tlb.sendMgtMsgIn phase msg = .ok (sent, after)) : sent = false ∧ after = tlb := by
  have first : tlb.pushOut phase ⟨tlb.mgtAddr, msg.part1⟩ = .error .assertion ∨
      tlb.pushOut phase ⟨tlb.mgtAddr, msg.part1⟩ = .ok (false, tlb) := by
    unfold pushOut
    rcases Buffer.pushIn_of_no_room full phase ⟨tlb.mgtAddr, msg.part1⟩ with none | refused
    · rw [none]
      exact Or.inl rfl
    · rw [refused]
      exact Or.inr rfl
  unfold sendMgtMsgIn at done
  rcases first with failed | refused
  · rw [failed] at done
    cases done
  · rw [refused] at done
    cases done
    exact ⟨rfl, rfl⟩

/-- The commit phase counts the first half when it pushes the second. -/
theorem sendMgtMsgIn_commit (room : tlb.fifoOut.RoomFor 2) (first : tlb.fifoOut.RoomFor 1) :
    tlb.sendMgtMsgIn .commit msg = .ok (true, { tlb with fifoOut := { tlb.fifoOut with
      pushed := tlb.fifoOut.pushed ++ [⟨tlb.mgtAddr, msg.part1⟩, ⟨tlb.mgtAddr, msg.part0⟩] } }) := by
  have second := (Buffer.roomFor_pushed tlb.fifoOut (⟨tlb.mgtAddr, msg.part1⟩ : IoMsg) 1).mpr room
  simp only [sendMgtMsgIn, pushOut, first.pushIn, if_true, bind, Except.bind, Bool.not_true, Bool.false_eq_true, if_false,
    second.pushIn, List.append_assoc, List.singleton_append]

/-- With room for one half only, the commit stores this half and fails. -/
theorem sendMgtMsgIn_commit_half {sent : Bool} {after : Tlb} (half : tlb.fifoOut.HalfRoom)
    (done : tlb.sendMgtMsgIn .commit msg = .ok (sent, after)) : sent = false := by
  obtain ⟨first, full⟩ := half
  have no := (Buffer.roomFor_pushed tlb.fifoOut (⟨tlb.mgtAddr, msg.part1⟩ : IoMsg) 1).not.mpr full
  simp only [sendMgtMsgIn, pushOut, first.pushIn, if_true, bind, Except.bind, Bool.not_true, Bool.false_eq_true,
    if_false] at done
  rcases Buffer.pushIn_of_no_room no .commit ⟨tlb.mgtAddr, msg.part0⟩ with none | refused
  · rw [none] at done
    cases done
  · rw [refused] at done
    cases done
    rfl

/-- The table change of a miss: only the commit phase stores the pending line. -/
def stored (phase : Phase) (tlb : Tlb) (contextId vAddr : Addr) (i : Nat) : Tlb :=
  if phase = .commit then tlb.setLine ⟨0, i⟩ (pendingLine (tlb.line ⟨0, i⟩) contextId vAddr) else tlb

theorem stored_fields (phase : Phase) (tlb : Tlb) : (stored phase tlb contextId vAddr i).fifoOut = tlb.fifoOut ∧
    (stored phase tlb contextId vAddr i).mgtAddr = tlb.mgtAddr ∧
    (stored phase tlb contextId vAddr i).missMsg contextId vAddr i = tlb.missMsg contextId vAddr i := by
  unfold stored
  split <;> exact ⟨rfl, rfl, rfl⟩

theorem lookupPageIn_of_misses (misses : tlb.Misses contextId vAddr) (line : i = (tlb.tables 0).pickDestination)
    (phase : Phase) : tlb.lookupPageIn phase contextId vAddr mayUnlock =
      (stored phase tlb contextId vAddr i).sendMgtMsgIn phase (tlb.missMsg contextId vAddr i) >>= fun out =>
        if out.1 then .ok (.delayed, pendingResult, { out.2 with lastLine := some ⟨0, i⟩ })
        else .ok (.failed, pendingResult, out.2) := by
  have taken : (tlb.tables 0).storePending contextId vAddr =
      some (i, (tlb.tables 0).setLine i (pendingLine (tlb.line ⟨0, i⟩) contextId vAddr)) := by
    rw [Table.storePending, if_neg (by simpa [Tlb.line] using misses.free), line]
    rfl
  rw [← (stored_fields phase tlb).2.2]
  simp only [lookupPageIn, doLookup_of_absent misses.absent, taken, bind, Except.bind]
  rfl

/-- A lookup that waits for a line finds it, or misses with the line that it takes. -/
theorem lookupPageIn_check_hit {found : Tlb} {ref : LineRef} (run : tlb.doLookup contextId vAddr .indexable =
      .ok (found, some ref)) {result : Result} {res : TlbResultMessage} {checked : Tlb}
    (done : tlb.lookupPageIn .check contextId vAddr mayUnlock = .ok (result, res, checked)) :
    result = (if (tlb.line ref).present = false then .delayed else .success) ∧ checked.fifoOut = tlb.fifoOut ∧
      tlb.Alike checked := by
  obtain ⟨touched, _, _⟩ := doLookup_eq_ok run
  obtain ⟨a, line⟩ := (touched.tables ref.table).lines ref.line
  have present : (found.line ref).present = (tlb.line ref).present := by rw [Tlb.line, line, Tlb.line]
  simp only [lookupPageIn, run, bind, Except.bind, present] at done
  split at done
  · rename_i absent
    cases done
    exact ⟨by rw [if_pos absent], touched.fifoOut, touched.alike.numTables, touched.alike.tables⟩
  · rename_i filled
    cases done
    refine ⟨by rw [if_neg filled], ?_, ?_⟩
    · simp only [Bool.and_false, decide_false, Bool.false_eq_true, if_false, reduceCtorEq]
      exact touched.fifoOut
    · simp only [Bool.and_false, decide_false, Bool.false_eq_true, if_false, reduceCtorEq]
      exact ⟨touched.alike.numTables, touched.alike.tables⟩

theorem lookupPageIn_commit_hit {found : Tlb} {ref : LineRef} (run : tlb.doLookup contextId vAddr .indexable =
      .ok (found, some ref)) : ∃ res after, tlb.lookupPageIn .commit contextId vAddr mayUnlock =
        .ok (if (tlb.line ref).present = false then .delayed else .success, res, after) ∧
          after.fifoOut = tlb.fifoOut := by
  obtain ⟨touched, _, _⟩ := doLookup_eq_ok run
  obtain ⟨a, line⟩ := (touched.tables ref.table).lines ref.line
  have present : (found.line ref).present = (tlb.line ref).present := by rw [Tlb.line, line, Tlb.line]
  simp only [lookupPageIn, run, bind, Except.bind, present]
  split
  · exact ⟨_, _, rfl, touched.fifoOut⟩
  · refine ⟨_, _, rfl, ?_⟩
    split
    · exact touched.fifoOut
    · exact touched.fifoOut

theorem atomic_of_hit {found : Tlb} {ref : LineRef} (run : tlb.doLookup contextId vAddr .indexable =
    .ok (found, some ref)) : tlb.Atomic contextId vAddr mayUnlock where
  refused res checked done := by
    have result := (lookupPageIn_check_hit run done).1
    split at result <;> cases result
  accepted result res checked done _ := by
    obtain ⟨same, fifo, alike⟩ := lookupPageIn_check_hit run done
    obtain ⟨after, again⟩ := alike.doLookup run
    obtain ⟨a, line⟩ := (alike.tables ref.table).lines ref.line
    have present : (checked.line ref).present = (tlb.line ref).present := by rw [Tlb.line, line, Tlb.line]
    obtain ⟨res', committed, succeeded, fifo'⟩ := @lookupPageIn_commit_hit checked contextId vAddr mayUnlock after ref again
    rw [present, ← same] at succeeded
    exact ⟨res', committed, succeeded, Or.inl (fifo'.trans fifo)⟩

/-- A search that finds nothing, in a table whose next line is locked, changes nothing. -/
theorem lookupPageIn_of_stalled (absent : ∀ ref, ¬ tlb.Holds ref contextId vAddr)
    (locked : (tlb.line ⟨0, (tlb.tables 0).pickDestination⟩).locked = true) (phase : Phase) :
    tlb.lookupPageIn phase contextId vAddr mayUnlock = .ok (.failed, pendingResult, tlb) := by
  have refused : (tlb.tables 0).storePending contextId vAddr = none := if_pos locked
  simp only [lookupPageIn, doLookup_of_absent absent, refused, bind, Except.bind]
  rfl

theorem Misses.of_check {checked : Tlb} (misses : tlb.Misses contextId vAddr) (same : checked.tables = tlb.tables)
    (few : checked.numTables = tlb.numTables) : checked.Misses contextId vAddr where
  absent ref holds := by
    obtain ⟨table, line, inUse⟩ := holds
    rw [Tlb.shift, same] at inUse
    rw [same] at line
    refine misses.absent ref ⟨few ▸ table, line, ?_⟩
    rw [Tlb.line, ← same]
    exact inUse
  free := by
    have free := misses.free
    rw [Tlb.line] at free ⊢
    rw [same]
    exact free

/-- With room for both halves the commit of a miss sends them. -/
theorem lookupPageIn_commit_sent (misses : tlb.Misses contextId vAddr) (both : tlb.fifoOut.RoomFor 2)
    (first : tlb.fifoOut.RoomFor 1) : ∃ res after,
      tlb.lookupPageIn .commit contextId vAddr mayUnlock = .ok (.delayed, res, after) ∧
        SentMiss tlb after contextId vAddr (tlb.tables 0).pickDestination := by
  have commit := @lookupPageIn_of_misses tlb contextId vAddr _ mayUnlock misses rfl .commit
  obtain ⟨fifo, mgtAddr, _⟩ := @stored_fields contextId vAddr (tlb.tables 0).pickDestination .commit tlb
  rw [sendMgtMsgIn_commit (by rw [fifo]; exact both) (by rw [fifo]; exact first)] at commit
  refine ⟨_, _, commit, ?_, ?_⟩
  · dsimp only
    rw [fifo, mgtAddr]
  · exact @line_setLine_self tlb ⟨0, (tlb.tables 0).pickDestination⟩ (pendingLine _ contextId vAddr)

/-- A lookup that misses succeeds in both phases, or fails in both, unless the queue has room for one half only. -/
theorem atomic_of_misses (misses : tlb.Misses contextId vAddr) :
    tlb.Atomic contextId vAddr mayUnlock ↔ ¬ tlb.fifoOut.HalfRoom := by
  have check := @lookupPageIn_of_misses tlb contextId vAddr _ mayUnlock misses rfl .check
  have alone : stored .check tlb contextId vAddr (tlb.tables 0).pickDestination = tlb := rfl
  rw [alone] at check
  by_cases room : tlb.fifoOut.RoomFor 1
  · rw [sendMgtMsgIn_check room] at check
    have checked : tlb.lookupPageIn .check contextId vAddr mayUnlock = .ok (.delayed, pendingResult,
      { tlb with lastLine := some ⟨0, (tlb.tables 0).pickDestination⟩ }) := check
    have again : ({ tlb with lastLine := some ⟨0, (tlb.tables 0).pickDestination⟩ } : Tlb).Misses contextId vAddr :=
      misses.of_check rfl rfl
    have commit := @lookupPageIn_of_misses _ contextId vAddr _ mayUnlock again rfl .commit
    constructor
    · intro atomic half
      obtain ⟨res', after, succeeded, _⟩ := atomic.accepted _ _ _ checked nofun
      rw [commit] at succeeded
      obtain ⟨⟨sent, middle⟩, pushed, rest⟩ := bind_ok succeeded
      have refused := sendMgtMsgIn_commit_half (by rw [(stored_fields _ _).1]; exact half) pushed
      subst refused
      cases rest
    · intro whole
      have both : tlb.fifoOut.RoomFor 2 := by
        by_contra one
        exact whole ⟨room, one⟩
      refine ⟨fun res after failed => ?_, fun result res after done _ => ?_⟩
      · rw [checked] at failed
        cases failed
      · rw [checked] at done
        cases done
        obtain ⟨res', after, succeeded, sent⟩ := @lookupPageIn_commit_sent _ contextId vAddr mayUnlock again both room
        exact ⟨res', after, succeeded, Or.inr ⟨(tlb.tables 0).pickDestination, sent.fifo, sent.line⟩⟩
  · refine iff_of_true ⟨fun res after failed => ?_, fun result res after done other => ?_⟩ fun half => room half.1
    · rw [check] at failed
      obtain ⟨⟨sent, middle⟩, pushed, rest⟩ := bind_ok failed
      obtain ⟨rfl, rfl⟩ := sendMgtMsgIn_of_no_room room pushed
      cases rest
      exact ⟨rfl, rfl⟩
    · rw [check] at done
      obtain ⟨⟨sent, middle⟩, pushed, rest⟩ := bind_ok done
      obtain ⟨rfl, rfl⟩ := sendMgtMsgIn_of_no_room room pushed
      cases rest
      exact absurd rfl other

/-- A lookup is atomic exactly when it does not miss with room for one half of its message only. -/
theorem atomic_iff (tlb : Tlb) (contextId vAddr : Addr) (mayUnlock : Bool) :
    tlb.Atomic contextId vAddr mayUnlock ↔ (tlb.Misses contextId vAddr → ¬ tlb.fifoOut.HalfRoom) := by
  by_cases misses : tlb.Misses contextId vAddr
  · rw [atomic_of_misses misses]
    exact ⟨fun whole _ => whole, fun whole => whole misses⟩
  refine iff_of_true ?_ fun yes => absurd yes misses
  cases run : tlb.doLookup contextId vAddr .indexable with
  | error fault =>
    have fails : ∀ phase, tlb.lookupPageIn phase contextId vAddr mayUnlock = .error fault := by
      intro phase
      simp only [lookupPageIn, run]
      rfl
    refine ⟨fun res checked done => ?_, fun result res checked done _ => ?_⟩
    · rw [fails] at done
      cases done
    · rw [fails] at done
      cases done
  | ok out =>
    obtain ⟨found, ref⟩ := out
    cases ref with
    | some ref => exact atomic_of_hit run
    | none =>
      have absent := (doLookup_eq_ok run).2.2 rfl
      have locked : (tlb.line ⟨0, (tlb.tables 0).pickDestination⟩).locked = true := by
        by_contra free
        exact misses ⟨absent, by simpa using free⟩
      refine ⟨fun res checked done => ?_, fun result res checked done other => ?_⟩
      · rw [lookupPageIn_of_stalled absent locked] at done
        cases done
        exact ⟨rfl, rfl⟩
      · rw [lookupPageIn_of_stalled absent locked] at done
        cases done
        exact absurd rfl other

/-- A commit that sends both halves of a message leaves what `sendMgtMsg` does in one step. -/
theorem sendMgtMsg_of_commit {after : Tlb} (several : tlb.fifoOut.maxPushes ≠ 1)
    (done : tlb.sendMgtMsgIn .commit msg = .ok (true, after)) : tlb.sendMgtMsg msg = .ok (some after.fifoOut) := by
  have first : tlb.fifoOut.RoomFor 1 := by
    by_contra full
    cases (sendMgtMsgIn_of_no_room full done).1
  have both : tlb.fifoOut.RoomFor 2 := by
    by_contra one
    cases sendMgtMsgIn_commit_half ⟨first, one⟩ done
  rw [sendMgtMsgIn_commit both first] at done
  cases done
  obtain ⟨few, space⟩ := first
  obtain ⟨two, space'⟩ := both
  rw [if_neg several] at few two
  have pushed : tlb.fifoOut.push ⟨tlb.mgtAddr, msg.part1⟩ 1 =
      some { tlb.fifoOut with pushed := tlb.fifoOut.pushed ++ [⟨tlb.mgtAddr, msg.part1⟩] } := if_pos ⟨few, space⟩
  have pushed' : ({ tlb.fifoOut with pushed := tlb.fifoOut.pushed ++ [⟨tlb.mgtAddr, msg.part1⟩] } : Buffer IoMsg).push
      ⟨tlb.mgtAddr, msg.part0⟩ 1 = some { tlb.fifoOut with
        pushed := tlb.fifoOut.pushed ++ [⟨tlb.mgtAddr, msg.part1⟩] ++ [⟨tlb.mgtAddr, msg.part0⟩] } := by
    refine if_pos ⟨?_, by rw [Buffer.hasSpace_pushed]; exact space'⟩
    simp only [List.length_append, List.length_singleton]
    omega
  simp only [sendMgtMsg, pushed, pushed', List.append_assoc, List.singleton_append]

/-- One cycle in which a lookup misses on a page and `doTransmit` sends one word. -/
def missCycle (tlb : Tlb) (page : Addr) : Option Tlb := do
  let (_, _, checked) ← (tlb.lookupPageIn .check 0 page false).toOption
  let (_, _, after) ← (checked.lookupPageIn .commit 0 page false).toOption
  let fifo := (after.fifoOut.take?.map Prod.snd).getD after.fifoOut
  return { after with fifoOut := fifo.update }

/-- Eight misses in a row leave one slot. The check of the ninth succeeds, and its commit sends one half and fails. -/
theorem ninth_miss_half_sent : ∃ start tlb, create 3 defaultConfig 5 = .ok start ∧
    [1, 2, 3, 4, 5, 6, 7, 8].foldlM missCycle start = some tlb ∧ tlb.fifoOut.data.length = 9 ∧
      ¬ tlb.Atomic 0 9 false := by
  have whole : ((create 3 defaultConfig 5).toOption.bind fun start =>
      ([1, 2, 3, 4, 5, 6, 7, 8].foldlM missCycle start).bind fun tlb =>
        (tlb.lookupPageIn .check 0 9 false).toOption.bind fun checked =>
          (checked.2.2.lookupPageIn .commit 0 9 false).toOption.map fun after =>
            decide (tlb.fifoOut.data.length = 9 ∧ checked.1 = .delayed ∧ after.1 = .failed)) = some true := by
    decide +kernel
  obtain ⟨start, created, whole⟩ := Option.bind_eq_some_iff.mp whole
  obtain ⟨tlb, reached, whole⟩ := Option.bind_eq_some_iff.mp whole
  obtain ⟨⟨result, res, checked⟩, check, whole⟩ := Option.bind_eq_some_iff.mp whole
  obtain ⟨⟨result', res', after⟩, commit, seen⟩ := Option.map_eq_some_iff.mp whole
  obtain ⟨nine, delayed, failed⟩ := of_decide_eq_true seen
  dsimp only at delayed failed
  subst delayed failed
  refine ⟨start, tlb, toOption_eq_some created, reached, nine, fun atomic => ?_⟩
  obtain ⟨_, _, succeeded, _⟩ := atomic.accepted _ _ _ (toOption_eq_some check) nofun
  rw [toOption_eq_some commit] at succeeded
  cases succeeded

end Tlb
end

end Mgsim.Mmu
