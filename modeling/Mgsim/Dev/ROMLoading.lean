import Mgsim.Dev.ActiveROM
import Mgsim.Dev.ELFLoader
import Mgsim.Memory.Blocks
import Mathlib.Data.List.Infix
import Mathlib.Tactic.Common

namespace Mgsim.Dev.ActiveROM
open Mgsim.Lib

variable {w : Nat}

/-- The write that the load process makes at its cursors. -/
def dcaWrite (rom : ActiveROM w) (r : LoadableRange w) (offset : Nat) : BitVec w × List Byte :=
  (voffset r offset, (rom.data.drop (r.romOffset + offset)).take (rom.transferSize r offset))

/-- The cursors after the write, unless it was the last one. -/
def advance (rom : ActiveROM w) (r : LoadableRange w) (j offset : Nat) : Option (Nat × Nat) :=
  if offset + rom.transferSize r offset < r.romSize.toNat then some (j, offset + rom.transferSize r offset)
  else if j + 1 < rom.loadable.length then some (j + 1, 0) else none

/-- The first writes of a load, and the cursors after them. -/
inductive Sends (rom : ActiveROM w) : List (BitVec w × List Byte) → Option (Nat × Nat) → Prop
  | start : Sends rom [] (some (0, 0))
  | next {writes j offset r} : Sends rom writes (some (j, offset)) → rom.loadable[j]? = some r →
      Sends rom (writes ++ [rom.dcaWrite r offset]) (rom.advance r j offset)

variable {rom : ActiveROM w} {s s' : ROMState w} {r : LoadableRange w} {j offset : Nat}
  {writes others : List (BitVec w × List Byte)} {cursor other : Option (Nat × Nat)}

/-- The writes of two loads are the same as far as both have come. -/
theorem Sends.agree (first : Sends rom writes cursor) (second : Sends rom others other)
    (before : writes.length ≤ others.length) : writes <+: others ∧ (writes.length = others.length → cursor = other) := by
  induction second generalizing writes cursor with
  | start =>
    cases first with
    | start => exact ⟨List.prefix_refl _, fun _ => rfl⟩
    | next _ _ => simp at before
  | @next others j offset r second place ih =>
    by_cases shorter : writes.length ≤ others.length
    · refine ⟨(ih first shorter).1.trans (List.prefix_append _ _), fun same => ?_⟩
      rw [List.length_append, List.length_singleton] at same
      omega
    · cases first with
      | start => exact absurd (Nat.zero_le _) shorter
      | @next writes j' offset' r' first place' =>
        rw [List.length_append, List.length_append] at before
        rw [List.length_append, List.length_singleton] at shorter
        have length : writes.length = others.length := by
          simp only [List.length_singleton] at before
          omega
        have sofar := ih first (Nat.le_of_eq length)
        obtain ⟨rfl, rfl⟩ := Prod.mk.inj (Option.some.inj (sofar.2 length))
        cases Option.some.inj (place.symm.trans place')
        rw [sofar.1.eq_of_length length]
        exact ⟨List.prefix_refl _, fun _ => rfl⟩

/-- No load makes more writes than a complete one. -/
theorem Sends.length_le (complete : Sends rom writes none) (sofar : Sends rom others other) :
    others.length ≤ writes.length := by
  induction sofar with
  | start => exact Nat.zero_le _
  | next sofar place ih =>
    have same := (sofar.agree complete ih).2
    rw [List.length_append, List.length_singleton]
    refine Nat.lt_of_le_of_ne ih fun length => ?_
    cases same length

theorem Sends.prefix_of_complete (complete : Sends rom writes none) (sofar : Sends rom others other) : others <+: writes :=
  (sofar.agree complete (complete.length_le sofar)).1

theorem Sends.unique (first : Sends rom writes none) (second : Sends rom others none) : writes = others :=
  (second.prefix_of_complete first).eq_of_length (Nat.le_antisymm (second.length_le first) (first.length_le second))

theorem transferSize_le (rom : ActiveROM w) (r : LoadableRange w) (offset : Nat) :
    rom.transferSize r offset ≤ r.romSize.toNat - offset ∧
      (voffset r offset).toNat % rom.lineSize + rom.transferSize r offset ≤ rom.lineSize := by
  have inside := Nat.mod_lt (voffset r offset).toNat rom.lines
  have rest := Nat.mod_le (r.romSize.toNat - offset) (2 ^ w)
  have line := Nat.mod_le (rom.lineSize - (voffset r offset).toNat % rom.lineSize) (2 ^ w)
  unfold transferSize
  omega

theorem length_bytes (member : r ∈ rom.loadable) : (rom.bytes r).length = r.romSize.toNat := by
  have inside := rom.inside r member
  rw [bytes, List.length_take, List.length_drop]
  omega

/-- What is written of the ranges before the cursors. -/
def content_upTo (rom : ActiveROM w) : Option (Nat × Nat) → List (BitVec w × Byte)
  | none => rom.content
  | some (j, offset) => ((rom.loadable.take j).flatMap fun r => addressed r.vaddr (rom.bytes r)) ++
      (rom.loadable[j]?).toList.flatMap fun r => addressed r.vaddr ((rom.bytes r).take offset)

/-- The cursors point into a range. -/
def Valid (rom : ActiveROM w) (cursor : Option (Nat × Nat)) : Prop :=
  ∀ j offset, cursor = some (j, offset) → ∃ r, rom.loadable[j]? = some r ∧ offset < r.romSize.toNat

theorem valid_first (rom : ActiveROM w) (j : Nat) (inside : j < rom.loadable.length) : rom.Valid (some (j, 0)) := by
  intro j' offset same
  cases same
  exact ⟨rom.loadable[j], List.getElem?_eq_getElem inside, rom.positive _ (List.getElem_mem inside)⟩

theorem valid_advance (place : rom.loadable[j]? = some r) : rom.Valid (rom.advance r j offset) := by
  unfold advance
  split
  · rename_i within
    intro j' offset' same
    cases same
    exact ⟨r, place, within⟩
  · split
    · rename_i more
      exact rom.valid_first _ more
    · intro j' offset' same
      cases same

/-- A write adds its bytes to what is written so far. -/
theorem content_advance (place : rom.loadable[j]? = some r) (inside : offset < r.romSize.toNat) :
    rom.content_upTo (rom.advance r j offset) = rom.content_upTo (some (j, offset)) ++
      addressed (rom.dcaWrite r offset).1 (rom.dcaWrite r offset).2 := by
  have member := List.mem_of_getElem? place
  have length := length_bytes member
  have size := (transferSize_le rom r offset).1
  have data : (rom.data.drop (r.romOffset + offset)).take (rom.transferSize r offset) =
      ((rom.bytes r).drop offset).take (rom.transferSize r offset) := by
    rw [bytes, List.drop_take, List.drop_drop, List.take_take, Nat.min_eq_left size]
  have before : ((rom.bytes r).take offset).length = offset := List.length_take_of_le (by omega)
  have joined : addressed r.vaddr ((rom.bytes r).take (offset + rom.transferSize r offset)) =
      addressed r.vaddr ((rom.bytes r).take offset) ++ addressed (rom.dcaWrite r offset).1 (rom.dcaWrite r offset).2 := by
    rw [List.take_add, addressed_append, before, dcaWrite, data]
    rfl
  have last (beyond : ¬ offset + rom.transferSize r offset < r.romSize.toNat) :
      (rom.bytes r).take (offset + rom.transferSize r offset) = rom.bytes r := List.take_of_length_le (by omega)
  have next : (rom.loadable.take (j + 1)).flatMap (fun r => addressed r.vaddr (rom.bytes r)) =
      (rom.loadable.take j).flatMap (fun r => addressed r.vaddr (rom.bytes r)) ++ addressed r.vaddr (rom.bytes r) := by
    rw [List.take_add_one, place, List.flatMap_append]
    simp
  unfold advance
  split
  · simp only [content_upTo, place, Option.toList_some, List.flatMap_singleton, joined, List.append_assoc]
  · rename_i beyond
    rw [last beyond] at joined
    split
    · rename_i more
      simp only [content_upTo, place, next, joined, List.getElem?_eq_getElem more, Option.toList_some,
        List.flatMap_singleton, List.take_zero, List.append_assoc]
      simp [addressed]
    · rename_i done
      have all : rom.loadable.take (j + 1) = rom.loadable := List.take_of_length_le (by omega)
      rw [all] at next
      simp only [content_upTo, place, content, next, joined, Option.toList_some, List.flatMap_singleton, List.append_assoc]

theorem Sends.pieces (sends : Sends rom writes cursor) :
    Pieces rom.lineSize (rom.content_upTo cursor) writes ∧ rom.Valid cursor := by
  induction sends with
  | start =>
    obtain ⟨r, place⟩ : ∃ r, rom.loadable[0]? = some r :=
      ⟨_, List.getElem?_eq_getElem (List.length_pos_iff.mpr rom.nonempty)⟩
    refine ⟨?_, rom.valid_first 0 (List.length_pos_iff.mpr rom.nonempty)⟩
    simp only [content_upTo, place, Option.toList_some, List.take_zero, List.flatMap_nil, List.flatMap_singleton]
    exact .nil
  | @next writes j offset r sends place ih =>
    obtain ⟨r', place', inside⟩ := ih.2 j offset rfl
    cases Option.some.inj (place.symm.trans place')
    refine ⟨?_, valid_advance place⟩
    rw [content_advance place inside]
    refine ih.1.append (.single ?_)
    have size := (transferSize_le rom r offset).2
    have length := List.length_take_le (rom.transferSize r offset) (rom.data.drop (r.romOffset + offset))
    exact Nat.le_trans (Nat.add_le_add_left length _) size

/-- What is written so far can be completed. -/
theorem Sends.complete (sends : Sends rom writes cursor) : ∃ more, Pieces rom.lineSize rom.content (writes ++ more) := by
  obtain ⟨pieces, valid⟩ := sends.pieces
  cases cursor with
  | none => exact ⟨[], by rwa [List.append_nil]⟩
  | some cursor =>
    obtain ⟨j, offset⟩ := cursor
    obtain ⟨r, place, inside⟩ := valid j offset rfl
    obtain ⟨rest, here⟩ := Pieces.exists_of_block rom.lines (r.vaddr + BitVec.ofNat w offset) ((rom.bytes r).drop offset)
    obtain ⟨others, later⟩ := Pieces.exists_of_blocks rom.lines LoadableRange.vaddr rom.bytes (rom.loadable.drop (j + 1))
    have length := length_bytes (List.mem_of_getElem? place)
    have before : ((rom.bytes r).take offset).length = offset := List.length_take_of_le (by omega)
    have all := (pieces.append here).append later
    refine ⟨rest ++ others, ?_⟩
    rw [← List.append_assoc]
    have whole : rom.content = rom.content_upTo (some (j, offset)) ++
        addressed (r.vaddr + BitVec.ofNat w offset) ((rom.bytes r).drop offset) ++
          (rom.loadable.drop (j + 1)).flatMap fun r => addressed r.vaddr (rom.bytes r) := by
      have split : addressed r.vaddr (rom.bytes r) = addressed r.vaddr ((rom.bytes r).take offset) ++
          addressed (r.vaddr + BitVec.ofNat w offset) ((rom.bytes r).drop offset) := by
        rw [← congrArg (fun n => addressed (r.vaddr + BitVec.ofNat w n) ((rom.bytes r).drop offset)) before,
          ← addressed_append, List.take_append_drop]
      have parts : rom.loadable = rom.loadable.take j ++ r :: rom.loadable.drop (j + 1) := by
        obtain ⟨bound, same⟩ := List.getElem?_eq_some_iff.mp place
        rw [← same, List.getElem_cons_drop, List.take_append_drop]
      rw [content]
      conv_lhs => rw [parts]
      rw [List.flatMap_append, List.flatMap_cons, split]
      simp only [content_upTo, place, Option.toList_some, List.flatMap_singleton, List.append_assoc]
    rw [whole]
    exact all

/-- What every step keeps: complete loads with the same writes, and the writes of the current one. -/
structure Kept (rom : ActiveROM w) (s : ROMState w) (loads : Nat) (writes current : List (BitVec w × List Byte)) :
    Prop where
  log : s.log = (List.replicate loads (request writes ++ [.flush])).flatten ++ request current
  past : 0 < loads → Sends rom writes none
  sending : s.loading = true → s.flushing = false ∧ Sends rom current (some (s.currentRange, s.currentOffset))
  complete : s.flushing = true → Sends rom current none
  idle : s.loading = false → s.flushing = false → current = []
  reset : s.loading = false → s.currentRange = 0 ∧ s.currentOffset = 0

section Steps
variable {loads : Nat} {current : List (BitVec w × List Byte)}

theorem request_append (first second : List (BitVec w × List Byte)) :
    request (first ++ second) = request first ++ request second := List.map_append

/-- A cycle of the load process makes the next write, and the last one sets the flag of the flush. -/
theorem doLoad_cases (place : rom.loadable[s.currentRange]? = some r) (done : rom.doLoad s true = some s') :
    s'.log = s.log ++ request [rom.dcaWrite r s.currentOffset] ∧
      (∃ j offset, rom.advance r s.currentRange s.currentOffset = some (j, offset) ∧ s'.currentRange = j ∧
        s'.currentOffset = offset ∧ s'.loading = s.loading ∧ s'.flushing = s.flushing ∨
      rom.advance r s.currentRange s.currentOffset = none ∧ s' = ⟨0, 0, false, true, s'.log⟩) := by
  unfold doLoad at done
  rw [place] at done
  simp only [Bool.not_true, Bool.false_eq_true, if_false] at done
  unfold advance
  split at done
  · cases done
  split at done
  · rename_i within
    cases done
    rw [if_pos within]
    exact ⟨rfl, _, _, Or.inl ⟨rfl, rfl, rfl, rfl, rfl⟩⟩
  rename_i beyond
  rw [if_neg beyond]
  split at done
  · rename_i more
    cases done
    rw [if_pos more]
    exact ⟨rfl, _, _, Or.inl ⟨rfl, rfl, rfl, rfl, rfl⟩⟩
  · rename_i last
    cases done
    rw [if_neg last]
    exact ⟨rfl, 0, 0, Or.inr ⟨rfl, rfl⟩⟩

theorem Kept.place (kept : Kept rom s loads writes current) (loading : s.loading = true) :
    ∃ r, rom.loadable[s.currentRange]? = some r ∧ s.currentOffset < r.romSize.toNat :=
  (kept.sending loading).2.pieces.2 _ _ rfl

theorem Kept.load (kept : Kept rom s loads writes current) (loading : s.loading = true)
    (done : rom.doLoad s true = some s') : ∃ more, Kept rom s' loads writes (current ++ more) := by
  obtain ⟨idle, sends⟩ := kept.sending loading
  obtain ⟨r, place, _⟩ := kept.place loading
  have next := sends.next place
  obtain ⟨log, j, offset, ⟨ahead, range, at', loading', flushing'⟩ | ⟨ahead, reset⟩⟩ := doLoad_cases place done
  · rw [ahead, ← range, ← at'] at next
    refine ⟨_, ?_, kept.past, fun _ => ⟨flushing'.trans idle, next⟩, fun flushing => ?_, fun stopped => ?_,
      fun stopped => ?_⟩
    · rw [log, kept.log, List.append_assoc, ← request_append]
    · rw [flushing', idle] at flushing
      cases flushing
    · rw [loading', loading] at stopped
      cases stopped
    · rw [loading', loading] at stopped
      cases stopped
  · rw [ahead] at next
    refine ⟨_, ?_, kept.past, fun still => ?_, fun _ => next, fun _ stopped => ?_, fun _ => ?_⟩
    · rw [log, kept.log, List.append_assoc, ← request_append]
    · rw [reset] at still
      cases still
    · rw [reset] at stopped
      cases stopped
    · rw [reset]
      exact ⟨rfl, rfl⟩

theorem Kept.step {event : ROMEvent} (kept : Kept rom s loads writes current) (allowed : rom.MayHappen s event)
    (done : rom.step s event = some s') : ∃ loads' writes' current', Kept rom s' loads' writes' current' := by
  cases event with
  | command =>
    cases Option.some.inj done
    obtain ⟨stopped, still⟩ := allowed
    have nothing := kept.idle stopped still
    obtain ⟨range, offset⟩ := kept.reset stopped
    refine ⟨loads, writes, current, kept.log, kept.past, fun _ => ⟨rfl, ?_⟩, fun flushing => ?_, fun stopped => ?_,
      fun stopped => ?_⟩
    · rw [nothing]
      show Sends rom [] (some (s.currentRange, s.currentOffset))
      rw [range, offset]
      exact .start
    · cases flushing
    · cases stopped
    · cases stopped
  | load accepted =>
    unfold ActiveROM.step at done
    dsimp only at done
    split at done
    · rename_i loading
      cases accepted with
      | true =>
        obtain ⟨more, after⟩ := kept.load loading done
        exact ⟨loads, writes, _, after⟩
      | false =>
        obtain ⟨r, place, _⟩ := kept.place loading
        unfold doLoad at done
        rw [place] at done
        cases Option.some.inj done
        exact ⟨loads, writes, current, kept⟩
    · cases done
  | flush accepted =>
    unfold ActiveROM.step at done
    dsimp only at done
    split at done
    · rename_i flushing
      cases Option.some.inj done
      cases accepted with
      | true =>
        have all := kept.complete flushing
        have stopped : s.loading = false := by
          by_contra loading
          have still := (kept.sending (by simpa using loading)).1
          rw [flushing] at still
          cases still
        refine ⟨loads + 1, current, [], ?_, fun _ => all, fun loading => ?_, fun again => ?_, fun _ _ => rfl,
          fun _ => kept.reset stopped⟩
        · have same : loads ≠ 0 → writes = current := fun some => (kept.past (Nat.pos_of_ne_zero some)).unique all
          show s.log ++ [.flush] = _
          rw [kept.log, List.replicate_succ', List.flatten_append, List.append_assoc]
          by_cases none : loads = 0
          · rw [none]
            simp [request]
          · rw [same none]
            simp [request]
        · rw [show (doFlush s true).loading = s.loading from rfl, stopped] at loading
          cases loading
        · cases again
      | false => exact ⟨loads, writes, current, kept⟩
    · cases done

theorem kept_initial (rom : ActiveROM w) : Kept rom initial 0 [] [] where
  log := rfl
  past none := absurd none (Nat.lt_irrefl 0)
  sending loading := by cases loading
  complete flushing := by cases flushing
  idle _ _ := rfl
  reset _ := ⟨rfl, rfl⟩

theorem Kept.made (kept : Kept rom s loads writes current) : rom.Loads s := by
  obtain ⟨cursor, sends⟩ : ∃ cursor, Sends rom current cursor := by
    cases loading : s.loading with
    | true => exact ⟨_, (kept.sending loading).2⟩
    | false =>
      cases flushing : s.flushing with
      | true => exact ⟨_, kept.complete flushing⟩
      | false =>
        rw [kept.idle loading flushing]
        exact ⟨_, .start⟩
  by_cases none : loads = 0
  · have log := kept.log
    rw [none] at log
    cases flushing : s.flushing with
    | true =>
      exact ⟨0, current, current, log, (kept.complete flushing).pieces.1, List.prefix_refl _, fun _ => rfl,
        kept.idle, kept.reset⟩
    | false =>
      obtain ⟨more, all⟩ := sends.complete
      exact ⟨0, current ++ more, current, log, all, List.prefix_append _ _, fun set => (by rw [flushing] at set; cases set),
        kept.idle, kept.reset⟩
  · have complete := kept.past (Nat.pos_of_ne_zero none)
    exact ⟨loads, writes, current, kept.log, complete.pieces.1, complete.prefix_of_complete sends,
      fun flushing => (kept.complete flushing).unique complete, kept.idle, kept.reset⟩

theorem fits_iff (place : rom.loadable[s.currentRange]? = some r) (inside : s.currentOffset < r.romSize.toNat) :
    rom.Fits s ↔ 0 < rom.transferSize r s.currentOffset ∧ rom.transferSize r s.currentOffset ≤ maxIOOperationSize := by
  have small := r.romSize.isLt
  have left : (r.romSize.toNat - s.currentOffset) % 2 ^ w = r.romSize.toNat - s.currentOffset :=
    Nat.mod_eq_of_lt (by omega)
  unfold Fits transferSize
  rw [left]
  constructor
  · intro fits
    have here := fits r place
    omega
  · intro sized r' place'
    cases Option.some.inj (place.symm.trans place')
    omega

theorem work_advance (place : rom.loadable[s.currentRange]? = some r) (inside : s.currentOffset < r.romSize.toNat)
    (loading : s.loading = true) (sized : 0 < rom.transferSize r s.currentOffset) (done : rom.doLoad s true = some s') :
    rom.work s' < rom.work s := by
  obtain ⟨bound, same⟩ := List.getElem?_eq_some_iff.mp place
  have here : rom.loadable.drop s.currentRange = r :: rom.loadable.drop (s.currentRange + 1) := by
    rw [← same, List.getElem_cons_drop]
  have before : rom.work s = r.romSize.toNat +
      ((rom.loadable.drop (s.currentRange + 1)).map fun r => r.romSize.toNat).sum - s.currentOffset + 2 := by
    rw [work, if_pos loading, here, List.map_cons, List.sum_cons]
  obtain ⟨_, j, offset, ⟨ahead, range, at', loading', _⟩ | ⟨_, reset⟩⟩ := doLoad_cases place done
  · have after : rom.work s' = ((rom.loadable.drop j).map fun r => r.romSize.toNat).sum - offset + 2 := by
      rw [work, if_pos (loading'.trans loading), range, at']
    unfold advance at ahead
    split at ahead
    · rename_i within
      cases ahead
      rw [after, before, here, List.map_cons, List.sum_cons]
      omega
    · split at ahead
      · cases ahead
        rw [after, before]
        omega
      · cases ahead
  · rw [before, reset]
    show 1 < _
    omega

theorem Kept.live (kept : Kept rom s loads writes current) : rom.Live s := by
  constructor
  · intro loading
    obtain ⟨r, place, _⟩ := kept.place loading
    unfold ActiveROM.step
    dsimp only
    rw [if_pos loading]
    unfold doLoad
    rw [place]
    rfl
  · intro loading
    obtain ⟨r, place, inside⟩ := kept.place loading
    have step : rom.step s (.load true) = rom.doLoad s true := if_pos loading
    rw [fits_iff place inside, step]
    constructor
    · rintro ⟨sized, short⟩
      have rest := (transferSize_le rom r s.currentOffset).1
      have inROM := rom.inside r (List.mem_of_getElem? place)
      obtain ⟨s', done⟩ : ∃ s', rom.doLoad s true = some s' := by
        unfold doLoad
        rw [place]
        simp only [Bool.not_true, Bool.false_eq_true, if_false]
        rw [if_neg (by omega)]
        split
        · exact ⟨_, rfl⟩
        · split <;> exact ⟨_, rfl⟩
      exact ⟨s', done, work_advance place inside loading sized done⟩
    · rintro ⟨s', done, less⟩
      have short : rom.transferSize r s.currentOffset ≤ maxIOOperationSize := by
        by_contra long
        unfold doLoad at done
        rw [place] at done
        simp only [Bool.not_true, Bool.false_eq_true, if_false] at done
        rw [if_pos (Or.inl (Nat.lt_of_not_le long))] at done
        cases done
      refine ⟨Nat.pos_of_ne_zero fun empty => ?_, short⟩
      -- a write without data leaves the cursors where they are
      have stays : rom.advance r s.currentRange s.currentOffset = some (s.currentRange, s.currentOffset) := by
        rw [advance, empty, Nat.add_zero, if_pos inside]
      obtain ⟨_, j, offset, ⟨ahead, range, at', loading', _⟩ | ⟨ahead, _⟩⟩ := doLoad_cases place done
      · rw [stays] at ahead
        cases ahead
        have same : rom.work s' = rom.work s := by
          rw [work, work, range, at', loading', if_pos loading, if_pos loading]
        omega
      · rw [stays] at ahead
        cases ahead
  · intro flushing
    have stopped : s.loading = false := by
      by_contra loading
      have still := (kept.sending (by simpa using loading)).1
      rw [flushing] at still
      cases still
    refine ⟨doFlush s true, if_pos flushing, ?_⟩
    have after : (doFlush s true).loading = false := stopped
    have none : (doFlush s true).flushing = false := rfl
    rw [work, work, if_neg (by simp [after]), if_neg (by simp [none]), if_neg (by simp [stopped]), if_pos flushing]
    exact Nat.one_pos

end Steps

/-- In every run whose writes fit, with any sends refused, each load command makes the process copy the ranges, send
one flush and come back to its first cursors. -/
theorem rom_loaded {events : List ROMEvent} (run : Run rom.step rom.MayHappen initial events s) :
    rom.Loads s ∧ rom.Live s := by
  have kept : ∃ loads writes current, Kept rom s loads writes current := by
    refine run.invariant (I := fun s => ∃ loads writes current, Kept rom s loads writes current)
      ⟨0, [], [], kept_initial rom⟩ ?_
    rintro s e s' ⟨loads, writes, current, kept⟩ allowed done
    exact kept.step allowed done
  obtain ⟨loads, writes, current, kept⟩ := kept
  exact ⟨kept.made, kept.live⟩

/-- With lines of at most 64 bytes every write fits. -/
theorem fits_of_lineSize (short : rom.lineSize ≤ maxIOOperationSize) (wide : 6 < w) (s : ROMState w) : rom.Fits s := by
  intro r _
  have power : 2 ^ 7 ≤ 2 ^ w := Nat.pow_le_pow_right (by decide) wide
  have lines := rom.lines
  have inside := Nat.mod_lt (voffset r s.currentOffset).toNat lines
  rw [maxIOOperationSize] at *
  rw [Nat.mod_eq_of_lt (by omega), Nat.mod_eq_of_lt (by omega)]
  omega

/-- A range of three bytes across the end of a line. -/
def overLine : ActiveROM 32 where
  data := [9, 1, 2, 3]
  lineSize := 8
  loadable := [⟨1, 3, 6⟩]
  lines := by decide
  nonempty := by decide
  inside := by decide
  positive := by decide

/-- It takes two writes, with any refused sends, and a second load makes the same writes. -/
theorem rom_loaded_twice : ∃ s : ROMState 32,
    s.log = [.write 6 [1, 2], .write 8 [3], .flush, .write 6 [1, 2], .write 8 [3], .flush] ∧
      (overLine.Loads s ∧ overLine.Live s) := by
  let ready (s : ROMState 32) : ROMEvent → Bool
    | .command => !s.loading && !s.flushing
    | _ => true
  have allowed : ∀ s e, ready s e = true → overLine.MayHappen s e := by
    intro s e checked
    cases e with
    | command => simpa [ready, MayHappen] using checked
    | load accepted => exact fits_of_lineSize (by decide) (by decide) s
    | flush accepted => trivial
  have run : Run overLine.step overLine.MayHappen initial [.command, .load false, .load true, .load true, .flush false,
      .flush true, .command, .load true, .load true, .flush true] ⟨0, 0, false, false, _⟩ := run_of_checked allowed rfl
  exact ⟨_, rfl, rom_loaded run⟩

/-- A line of 128 bytes lets the process copy more into a write than a message has. -/
theorem long_line_overflows : ¬ ∀ (rom : ActiveROM 32) (s : ROMState 32), rom.step initial .command = some s →
    ∃ s', rom.step s (.load true) = some s' := by
  intro claimed
  obtain ⟨s', done⟩ := claimed ⟨List.replicate 100 0, 128, [⟨0, 100, 0⟩], by decide, by decide, by decide, by decide⟩
    _ rfl
  cases done

/-! ### The memory after a load -/

section Memory
open Mgsim.Memory

/-- The call of `Write` that a DCA write ends in. A flush writes nothing. -/
def writeCall (write : BitVec w × List Byte) : WriteCall w :=
  ⟨write.1, fun i => write.2.getD i 0, none, BitVec.ofNat w write.2.length⟩

def call : ROMRequest w → Option (WriteCall w)
  | .write address data => some (writeCall (address, data))
  | .flush => none

/-- The memory after some requests. -/
def served (blocks : BlockMap w) (log : List (ROMRequest w)) : BlockMap w := (log.filterMap call).foldl BlockMap.write blocks

/-- The loop of `PrepareRanges`, with `PreloadROMToRAM` set: one call of `Write` for each range. -/
def preload (rom : ActiveROM w) (blocks : BlockMap w) : BlockMap w :=
  rom.loadable.foldl (fun blocks r => blocks.write ⟨r.vaddr, fun i => rom.data.getD (r.romOffset + i) 0, none, r.romSize⟩)
    blocks

/-- The byte of the last range that has one at an address. -/
def image (rom : ActiveROM w) (a : BitVec w) : Option Byte :=
  rom.loadable.reverse.findSome? fun r => (rom.bytes r)[(a - r.vaddr).toNat]?

/-- A write puts its data at its place, as long as its size is not cut down. -/
theorem patch_writeCall {write : BitVec w × List Byte} (short : write.2.length < 2 ^ w) :
    (writeCall write).patch = block write.1 write.2 := by
  funext a
  simp only [writeCall, WriteCall.patch, WriteCall.selects, Option.all_none, and_true, block, BitVec.toNat_ofNat,
    Nat.mod_eq_of_lt short]
  split
  · rename_i inside
    rw [List.getD_eq_getElem?_getD, List.getElem?_eq_getElem inside, Option.getD_some]
  · rename_i outside
    rw [List.getElem?_eq_none (Nat.le_of_not_lt outside)]

theorem patch_preload (member : r ∈ rom.loadable) :
    (⟨r.vaddr, fun i => rom.data.getD (r.romOffset + i) 0, none, r.romSize⟩ : WriteCall w).patch =
      block r.vaddr (rom.bytes r) := by
  funext a
  have inROM := rom.inside r member
  have length := length_bytes member
  simp only [WriteCall.patch, WriteCall.selects, Option.all_none, and_true, block]
  split
  · rename_i inside
    have place : r.romOffset + (a - r.vaddr).toNat < rom.data.length := by omega
    rw [bytes, List.getElem?_take_of_lt inside, List.getElem?_drop, List.getD_eq_getElem?_getD,
      List.getElem?_eq_getElem place, Option.getD_some]
  · rename_i outside
    rw [List.getElem?_eq_none (by omega)]

theorem byteAt_preload (wide : 12 ≤ w) (rom : ActiveROM w) (blocks : BlockMap w) :
    (rom.preload blocks).byteAt =
      overlay (rom.loadable.map fun r => block r.vaddr (rom.bytes r)) blocks.byteAt := by
  have patches : rom.loadable.map (fun r => block r.vaddr (rom.bytes r)) = (rom.loadable.map fun r =>
      (⟨r.vaddr, fun i => rom.data.getD (r.romOffset + i) 0, none, r.romSize⟩ : WriteCall w)).map WriteCall.patch := by
    rw [List.map_map]
    exact List.map_congr_left fun r member => (patch_preload member).symm
  rw [patches, ← BlockMap.byteAt_writes wide, List.foldl_map]
  rfl

/-- No write of a load has its size cut down. -/
theorem Sends.short (sends : Sends rom writes cursor) : ∀ write ∈ writes, write.2.length < 2 ^ w := by
  induction sends with
  | start =>
    intro write member
    cases member
  | @next writes j offset r sends place ih =>
    intro write member
    rcases List.mem_append.mp member with earlier | last
    · exact ih write earlier
    · rw [List.mem_singleton.mp last]
      refine Nat.lt_of_le_of_lt (List.length_take_le _ _) ?_
      have line := Nat.mod_lt (rom.lineSize) (Nat.two_pow_pos w)
      unfold transferSize
      omega

/-- A complete load leaves the ranges in the memory. -/
theorem overlay_writes (complete : Sends rom writes none) (table : BitVec w → Byte) :
    overlay (writes.map fun write => (writeCall write).patch) table =
      overlay (rom.loadable.map fun r => block r.vaddr (rom.bytes r)) table := by
  have patches : writes.map (fun write => (writeCall write).patch) = writes.map fun write => block write.1 write.2 :=
    List.map_congr_left fun write member => patch_writeCall (complete.short write member)
  have small : ∀ r ∈ rom.loadable, (rom.bytes r).length ≤ 2 ^ w := by
    intro r member
    rw [length_bytes member]
    exact Nat.le_of_lt r.romSize.isLt
  have pieces : (writes.flatMap fun write => addressed write.1 write.2) = rom.content := complete.pieces.1.exact
  rw [patches, ← overlay_blocks fun write member => Nat.le_of_lt (complete.short write member), pieces, content,
    overlay_blocks small]

theorem call_request (writes : List (BitVec w × List Byte)) : (request writes).filterMap call = writes.map writeCall := by
  rw [request, List.filterMap_map, ← List.filterMap_eq_map]
  rfl

/-- After some complete loads the memory is as after one. -/
theorem Kept.served {loads : Nat} {current : List (BitVec w × List Byte)} (wide : 12 ≤ w)
    (kept : Kept rom s loads writes current) (idle : s.loading = false) (flushed : s.flushing = false)
    (loaded : s.log ≠ []) (blocks : BlockMap w) : (ActiveROM.served blocks s.log).byteAt =
      overlay (rom.loadable.map fun r => block r.vaddr (rom.bytes r)) blocks.byteAt := by
  have log := kept.log
  rw [kept.idle idle flushed, show request ([] : List (BitVec w × List Byte)) = [] from rfl, List.append_nil] at log
  have positive : 0 < loads := by
    refine Nat.pos_of_ne_zero fun none => loaded ?_
    rw [log, none]
    rfl
  have calls : s.log.filterMap call = (List.replicate loads (writes.map writeCall)).flatten := by
    rw [log, List.filterMap_flatten, List.map_replicate, List.filterMap_append, call_request]
    rw [show List.filterMap call [(ROMRequest.flush : ROMRequest w)] = [] from rfl, List.append_nil]
  have patches : ((List.replicate loads (writes.map writeCall)).flatten).map WriteCall.patch =
      (List.replicate loads (writes.map fun write => (writeCall write).patch)).flatten := by
    rw [List.map_flatten, List.map_replicate, List.map_map]
    rfl
  rw [ActiveROM.served, calls, BlockMap.byteAt_writes wide, patches, overlay_replicate positive,
    overlay_writes (kept.past positive)]

theorem overlay_image (rom : ActiveROM w) (table : BitVec w → Byte) (a : BitVec w) :
    overlay (rom.loadable.map fun r => block r.vaddr (rom.bytes r)) table a = (rom.image a).getD (table a) := by
  rw [overlay_eq_findSome?, ← List.map_reverse, List.findSome?_map]
  rfl

theorem kept_of_run {events : List ROMEvent} (run : Run rom.step rom.MayHappen initial events s) :
    ∃ loads writes current, Kept rom s loads writes current := by
  refine run.invariant (I := fun s => ∃ loads writes current, Kept rom s loads writes current)
    ⟨0, [], [], kept_initial rom⟩ ?_
  rintro s e s' ⟨loads, writes, current, kept⟩ allowed done
  exact kept.step allowed done

section Program
variable {t : Drisc.Target} {msgPrefix : String} {file now : List Byte} {program : ELF.Program}

/-- A range of a program, as the device has it. -/
def loadableRange (t : Drisc.Target) (r : ELF.Range) : LoadableRange (8 * ELF.addrSize t) :=
  ⟨r.romOffset, BitVec.ofNat _ r.romSize, BitVec.ofNat _ r.vaddr⟩

/-- The byte of the last segment of a program that has one at an address. -/
def programImage (t : Drisc.Target) (program : ELF.Program) (file : List Byte) (a : BitVec (8 * ELF.addrSize t)) :
    Option Byte :=
  program.ranges.reverse.findSome? fun r =>
    if (a - BitVec.ofNat _ r.vaddr).toNat < r.romSize then file[r.romOffset + (a - BitVec.ofNat _ r.vaddr).toNat]?
    else none

/-- A device with the ranges of a program that the loader has accepted. -/
theorem exists_programROM (inside : ELF.StaysInside t msgPrefix file)
    (done : ELF.LoadProgram t msgPrefix file = .ok (program, now)) (loads : program.ranges ≠ []) {lineSize : Nat}
    (lines : 0 < lineSize) : ∃ rom : ActiveROM (8 * ELF.addrSize t), rom.data = now ∧ rom.lineSize = lineSize ∧
      rom.loadable = program.ranges.map (loadableRange t) ∧ ∀ a, rom.image a = programImage t program now a := by
  have fits : ELF.TablesFit t msgPrefix file := ELF.Safe.tables (ELF.Safe.first inside.1)
  obtain ⟨length, sized⟩ := (ELF.loadProgram_within fits).2 _ _ done
  have within := inside.2 _ _ done
  have size (r : ELF.Range) (member : r ∈ program.ranges) : (loadableRange t r).romSize.toNat = r.romSize := by
    rw [loadableRange, BitVec.toNat_ofNat, Nat.mod_eq_of_lt (sized r member).2]
  let rom : ActiveROM (8 * ELF.addrSize t) := {
    data := now
    lineSize := lineSize
    loadable := program.ranges.map (loadableRange t)
    lines := lines
    nonempty := by simpa using loads
    inside := by
      intro r member
      obtain ⟨r, found, rfl⟩ := List.mem_map.mp member
      rw [size r found, length]
      exact (within r found).1
    positive := by
      intro r member
      obtain ⟨r, found, rfl⟩ := List.mem_map.mp member
      rw [size r found]
      exact (sized r found).1 }
  refine ⟨rom, rfl, rfl, rfl, fun a => ?_⟩
  rw [image, programImage, show rom.loadable = program.ranges.map (loadableRange t) from rfl, ← List.map_reverse,
    List.findSome?_map, ← List.head?_filterMap, ← List.head?_filterMap]
  refine congrArg List.head? (List.filterMap_congr fun r member => ?_)
  show ((now.drop r.romOffset).take (loadableRange t r).romSize.toNat)[_]? = _
  rw [size r (List.mem_reverse.mp member), List.getElem?_take, List.getElem?_drop]
  rfl

end Program

end Memory

end Mgsim.Dev.ActiveROM
