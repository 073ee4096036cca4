import Mgsim.Drisc.FetchOrder

namespace Mgsim.Drisc.FetchStage
open Mgsim.Lib

variable {t : Target} {c : FetchConf} {program : Integer t → Byte} {s s' : FetchStage t}

/-- The stage is to send the instruction at an address for its thread, from the line in its buffer. -/
structure Going (c : FetchConf) (program : Integer t → Byte) (s : FetchStage t) (pc : Integer t) : Prop where
  running : (s.threads s.tid).status = .running
  family : (s.threads s.tid).legacy = s.legacy
  buffered : s.buffer = readLine c program (lineAddress c pc)
  long : s.legacy = false → 8 ≤ c.controlBlockSize
  due : Due c (s.threads s.tid) pc

/-- The threads and the active queue. -/
structure Scheduled (c : FetchConf) (program : Integer t → Byte) (s : FetchStage t) : Prop where
  threads : ∀ tid, (s.threads tid).Kept c program
  queue : s.activeThreads.Nodup
  active : ∀ tid, tid ∈ s.activeThreads ↔ (s.threads tid).status = .active

/-- The last instruction of the thread of the stage is not its last one for now. -/
structure Midline (c : FetchConf) (program : Integer t → Byte) (s : FetchStage t) : Prop extends Going c program s s.pc where
  inside : s.pc.toNat % c.lineSize ≠ 0
  goesOn : ∀ e, (s.threads s.tid).sent.getLast? = some e → e.swch = false

structure Kept (c : FetchConf) (program : Integer t → Byte) (s : FetchStage t) : Prop extends Scheduled c program s where
  midline : s.switched = false → Midline c program s

theorem Kept.initial : Kept c program (initial t) where
  threads _ := by
    refine ⟨Nat.zero_mod _, ⟨0, 0, rfl, (add_zero 0).symm⟩, List.forall_mem_nil _, fun stopped => ?_⟩
    rcases stopped with idle | active
    · cases idle
    · cases active
  queue := List.nodup_nil
  active _ := iff_of_false List.not_mem_nil FetchStatus.empty_ne_active
  midline switched := by cases switched

theorem Kept.faithful (kept : Kept c program s) : Faithful c program s := fun tid => by
  obtain ⟨_, m, sent, _⟩ := (kept.threads tid).sent
  exact ⟨⟨m, sent⟩, (kept.threads tid).correct⟩

/-- Another thread changes. -/
theorem Midline.update (midline : Midline c program s) {tid : Nat} (differs : s.tid ≠ tid) (thread : FetchingThread t)
    (queue : List Nat) (switched : Bool) : Midline c program { s with
      threads := Function.update s.threads tid thread, activeThreads := queue, switched := switched } := by
  obtain ⟨⟨running, family, buffered, long, due⟩, inside, goesOn⟩ := midline
  have same : Function.update s.threads tid thread s.tid = s.threads s.tid := Function.update_of_ne differs thread s.threads
  refine ⟨⟨(congrArg FetchingThread.status same).trans running, (congrArg FetchingThread.legacy same).trans family, buffered, long, ?_⟩,
    inside, ?_⟩
  · dsimp only
    rw [same]
    exact due
  · dsimp only
    rw [same]
    exact goesOn

/-- A thread outside the active queue changes, and the stage has nothing more to send for it. -/
theorem Kept.update (kept : Kept c program s) {tid : Nat} {thread : FetchingThread t} (fine : thread.Kept c program)
    (before : (s.threads tid).status ≠ .active) (after : thread.status ≠ .active) {switched : Bool}
    (released : switched = false → s.switched = false ∧ s.tid ≠ tid) :
    Kept c program { s with threads := Function.update s.threads tid thread, switched := switched } where
  threads := (Function.forall_update_iff s.threads (p := fun _ thread => thread.Kept c program)).2
    ⟨fine, fun other _ => kept.threads other⟩
  queue := kept.queue
  active := (Function.forall_update_iff s.threads (p := fun x thread => x ∈ s.activeThreads ↔ thread.status = .active)).2
    ⟨iff_of_false (fun member => before ((kept.active tid).1 member)) after, fun other _ => kept.active other⟩
  midline goes := by
    obtain ⟨going, differs⟩ := released goes
    exact (kept.midline going).update differs thread s.activeThreads switched

theorem Kept.create (kept : Kept c program s) {tid : Nat} {pc : Integer t} {legacy : Bool}
    (created : step c program s (.create tid pc legacy) = some s') : Kept c program s' := by
  rw [step] at created
  split_ifs at created with fresh
  cases created
  refine kept.update (.created fresh.2 legacy) (fresh.1 ▸ FetchStatus.empty_ne_active) FetchStatus.idle_ne_active
    fun going => ⟨going, ?_⟩
  rintro rfl
  cases (kept.midline going).running.symm.trans fresh.1

theorem Kept.activate (kept : Kept c program s) {tid : Nat} (activated : step c program s (.activate tid) = some s') :
    Kept c program s' := by
  rw [step] at activated
  split_ifs at activated with idle
  cases activated
  have outside : tid ∉ s.activeThreads := fun member => FetchStatus.idle_ne_active (idle.symm.trans ((kept.active tid).1 member))
  have fine := kept.threads tid
  refine ⟨⟨(Function.forall_update_iff s.threads (p := fun _ thread => thread.Kept c program)).2 ⟨?_, ?_⟩, ?_,
    (Function.forall_update_iff s.threads (p := fun x thread => x ∈ s.activeThreads ++ [tid] ↔ thread.status = .active)).2
      ⟨?_, fun other differs => ?_⟩⟩, fun going => ?_⟩
  · exact ⟨fine.aligned, fine.sent, fine.correct, fun _ => fine.due (Or.inl idle)⟩
  · exact fun other _ => kept.threads other
  · exact kept.queue.append (List.nodup_singleton tid) (List.disjoint_singleton.2 outside)
  · exact iff_of_true List.mem_concat_self rfl
  · rw [List.mem_append, List.mem_singleton]
    exact (or_iff_left differs).trans (kept.active other)
  · have midline := kept.midline going
    refine midline.update ?_ _ _ s.switched
    rintro rfl
    cases midline.running.symm.trans idle

theorem Kept.leave (kept : Kept c program s) {tid : Nat} (left : step c program s (.leave tid) = some s') :
    Kept c program s' := by
  obtain ⟨thread, leaves, rfl⟩ := Option.map_eq_some_iff.1 left
  obtain ⟨fine, running, passive, last, atEnd, switches⟩ := (kept.threads tid).leave leaves
  refine kept.update fine (fun active => ?_) passive fun going => ⟨going, ?_⟩
  · cases running.symm.trans active
  · rintro rfl
    cases ((kept.midline going).goesOn last atEnd).symm.trans switches

theorem Kept.flush (kept : Kept c program s) {tid index : Nat} {again : Bool}
    (flushed : step c program s (.flush tid index again) = some s') : Kept c program s' := by
  obtain ⟨thread, flushes, rfl⟩ := Option.map_eq_some_iff.1 flushed
  obtain ⟨fine, running, passive⟩ := (kept.threads tid).flush flushes
  have before : (s.threads tid).status ≠ .active := fun active => by cases running.symm.trans active
  unfold clear
  split_ifs with same
  · exact kept.update fine before passive fun going => by cases going
  · exact kept.update fine before passive fun going => ⟨going, same⟩

/-- What is sent from the buffer keeps the invariant. -/
theorem Going.fetch (sizes : c.Sizes t) {pc : Integer t} (scheduled : Scheduled c program s) (going : Going c program s pc)
    (instruction : isControl c s.legacy pc = false) (last : Bool) : Kept c program (fetch c s pc last) := by
  have aligned := going.due.aligned (scheduled.threads s.tid).aligned
  have right := Correct.correct (c := c) program s.legacy pc last
  have due : Due c (s.threads s.tid) (FetchStage.correct c program s.legacy pc last).pc := going.due
  have plain : isControl c (s.threads s.tid).legacy (FetchStage.correct c program s.legacy pc last).pc = false :=
    going.family.symm ▸ instruction
  have sent := (scheduled.threads s.tid).send going.running due plain (going.family.symm ▸ right)
  rw [fetch_eq sizes aligned going.long going.buffered]
  refine ⟨⟨(Function.forall_update_iff s.threads (p := fun _ thread => thread.Kept c program)).2
      ⟨sent, fun other _ => scheduled.threads other⟩, scheduled.queue,
    (Function.forall_update_iff s.threads (p := fun x thread => x ∈ s.activeThreads ↔ thread.status = .active)).2
      ⟨scheduled.active s.tid, fun other _ => scheduled.active other⟩⟩, fun goes => ?_⟩
  · have inside : (pc + 4).toNat % c.lineSize ≠ 0 := by
      simp only [FetchStage.correct, Bool.or_eq_false_iff, decide_eq_false_iff_not] at goes
      exact goes.1.2
    refine ⟨⟨?_, ?_, ?_, going.long, ?_⟩, inside, fun e atEnd => ?_⟩
    · dsimp only
      rw [Function.update_self]
      exact going.running
    · dsimp only
      rw [Function.update_self]
      exact going.family
    · exact going.buffered.trans (congrArg _ (lineAddress_next sizes aligned inside).symm)
    · dsimp only
      rw [Function.update_self]
      exact due.send plain
    · dsimp only at atEnd
      rw [Function.update_self, List.getLast?_concat] at atEnd
      cases atEnd
      exact goes

/-- A control word is followed by an instruction of its line. -/
theorem isControl_next (sizes : c.Sizes t) {legacy : Bool} {a : Integer t} (long : legacy = false → 8 ≤ c.controlBlockSize)
    (control : isControl c legacy a = true) : isControl c legacy (a + 4) = false ∧ (a + 4).toNat % c.lineSize ≠ 0 := by
  rw [isControl, Bool.and_eq_true, Bool.not_eq_true', decide_eq_true_eq] at control
  obtain ⟨family, start⟩ := control
  obtain ⟨k, _, _, eight, line, whole⟩ := blocks_nest sizes (long family)
  have next : (a + 4).toNat % c.controlBlockSize ≠ 0 := by
    have less : 4 < c.controlBlockSize := lt_of_lt_of_le (by decide) (long family)
    rw [BitVec.toNat_add, toNat_four, Nat.mod_mod_of_dvd _ whole, ← Nat.mod_add_mod, start, Nat.zero_add, Nat.mod_eq_of_lt less]
    decide
  refine ⟨?_, fun atEnd => next ?_⟩
  · rw [isControl, decide_eq_false next, Bool.and_false]
  · rw [← Nat.mod_mod_of_dvd _ line, atEnd, Nat.zero_mod]

/-- A thread with its control word skipped goes on at an instruction of the same line. -/
theorem entry_spec (sizes : c.Sizes t) {thread : FetchingThread t} (long : thread.legacy = false → 8 ≤ c.controlBlockSize)
    (aligned : thread.pc.toNat % 4 = 0) (due : Due c thread thread.pc) :
    isControl c thread.legacy (entry c thread) = false ∧ lineAddress c (entry c thread) = lineAddress c thread.pc ∧
      Due c thread (entry c thread) := by
  unfold entry
  split_ifs with start
  · have control : isControl c thread.legacy thread.pc = true := by simp [isControl, start]
    obtain ⟨instruction, inside⟩ := isControl_next sizes long control
    exact ⟨instruction, lineAddress_next sizes aligned inside, due.skip control⟩
  · refine ⟨?_, rfl, due⟩
    cases family : thread.legacy with
    | true => rfl
    | false => exact decide_eq_false fun zero => start ⟨family, zero⟩

theorem Kept.switchIn (kept : Kept c program s) {tid : Nat} {rest : List Nat} (queue : s.activeThreads = tid :: rest) :
    Scheduled c program (switchIn c program s tid rest) := by
  have distinct := List.nodup_cons.1 (queue ▸ kept.queue)
  have fine := kept.threads tid
  refine ⟨(Function.forall_update_iff s.threads (p := fun _ thread => thread.Kept c program)).2
    ⟨⟨fine.aligned, fine.sent, fine.correct, fun stopped => ?_⟩, fun other _ => kept.threads other⟩, distinct.2,
    (Function.forall_update_iff s.threads (p := fun x thread => x ∈ rest ↔ thread.status = .active)).2
      ⟨iff_of_false distinct.1 fun active => ?_, fun other differs => ?_⟩⟩
  · rcases stopped with idle | active
    · cases idle
    · cases active
  · cases active
  · rw [← kept.active other, queue, List.mem_cons]
    exact (or_iff_right differs).symm

/-- A cycle that meets the condition goes well. -/
theorem Kept.cycle (sizes : c.Sizes t) (kept : Kept c program s) (proper : Proper c s .cycle) :
    ∃ s', s.onCycle c program = some s' ∧ Kept c program s' := by
  rw [Proper] at proper
  cases switched : s.switched with
  | false =>
    rw [switched, if_neg Bool.false_ne_true] at proper
    have midline := kept.midline switched
    refine ⟨_, (if_neg (by rw [switched]; exact Bool.false_ne_true)).trans rfl, midline.toGoing.fetch sizes kept.toScheduled ?_ _⟩
    cases family : s.legacy with
    | true => rfl
    | false => exact decide_eq_false (proper family)
  | true =>
    rw [switched, if_pos rfl] at proper
    cases queue : s.activeThreads with
    | nil => exact ⟨s, by simp [onCycle, switched, queue], kept⟩
    | cons tid rest =>
      rw [queue] at proper
      have long := proper tid rfl
      have active : (s.threads tid).status = .active := (kept.active tid).1 (queue ▸ List.mem_cons_self)
      have due := (kept.threads tid).due (Or.inr active)
      obtain ⟨instruction, line, entered⟩ := entry_spec sizes long (due.aligned (kept.threads tid).aligned) due
      have nonzero : ¬ ((s.threads tid).legacy = false ∧ c.controlBlockSize = 0) := by
        rintro ⟨family, zero⟩
        have eight := long family
        omega
      have self : (FetchStage.switchIn c program s tid rest).threads tid =
          { s.threads tid with status := .running, entered := (s.threads tid).sent.length } := Function.update_self _ _ _
      have going : Going c program (FetchStage.switchIn c program s tid rest) (entry c (s.threads tid)) := by
        refine ⟨congrArg FetchingThread.status self, (congrArg FetchingThread.legacy self).trans rfl, rfl, long, ?_⟩
        exact (congrArg (Due c · (entry c (s.threads tid))) self).mpr entered
      refine ⟨_, ?_, going.fetch sizes (kept.switchIn queue) instruction rest.isEmpty⟩
      simp only [onCycle, switched, queue, if_true, if_neg nonzero, line, ne_eq, not_true, if_false]

theorem Kept.step (sizes : c.Sizes t) (kept : Kept c program s) {event : Event t} (proper : Proper c s event)
    (done : step c program s event = some s') : Kept c program s' := by
  cases event with
  | create tid pc legacy => exact kept.create done
  | activate tid => exact kept.activate done
  | cycle =>
    obtain ⟨after, good, fine⟩ := kept.cycle sizes proper
    cases good.symm.trans done
    exact fine
  | leave tid => exact kept.leave done
  | flush tid index again => exact kept.flush done

/-- A control word that has been sent is no word of the straight line. -/
theorem not_faithful_fetch {pc : Integer t} {last : Bool} (control : isControl c (s.threads s.tid).legacy pc = true) :
    ¬ Faithful c program (fetch c s pc last) := fun faithful => by
  obtain ⟨⟨m, sent⟩, _⟩ := faithful s.tid
  obtain ⟨e, self, address⟩ : ∃ e : Sent t, (fetch c s pc last).threads s.tid =
      { s.threads s.tid with sent := (s.threads s.tid).sent ++ [e] } ∧ e.pc = pc :=
    ⟨_, Function.update_self s.tid _ s.threads, rfl⟩
  rw [self, List.map_append] at sent
  have member : pc ∈ straight c (s.threads s.tid).legacy (s.threads s.tid).start m := by
    rw [← sent, ← address]
    exact List.mem_append_right _ List.mem_cons_self
  have instruction := holds_of_mem_passing member
  rw [control] at instruction
  cases instruction

/-- A control block without room for an instruction. -/
theorem block_dvd_four (sizes : c.Sizes t) (nonzero : c.controlBlockSize ≠ 0) (short : ¬ 8 ≤ c.controlBlockSize) :
    c.controlBlockSize ∣ 4 := by
  obtain ⟨k, _, block⟩ := sizes.block.resolve_left nonzero
  have two : k ≤ 2 := by
    by_contra more
    have power : 2 ^ 3 ≤ 2 ^ k := Nat.pow_le_pow_right (by decide) (by omega)
    omega
  rw [block]
  exact Nat.pow_dvd_pow 2 two

theorem Kept.improper (sizes : c.Sizes t) (kept : Kept c program s) (improper : ¬ Proper c s .cycle)
    (done : s.onCycle c program = some s') : ¬ Faithful c program s' := by
  rw [Proper] at improper
  cases switched : s.switched with
  | false =>
    rw [switched, if_neg Bool.false_ne_true] at improper
    simp only [onCycle, switched, Bool.false_eq_true, if_false] at done
    cases done
    obtain ⟨family, zero⟩ := Classical.not_imp.1 improper
    refine not_faithful_fetch ?_
    rw [(kept.midline switched).family, family, isControl, decide_eq_true (not_not.1 zero)]
    rfl
  | true =>
    rw [switched, if_pos rfl] at improper
    cases queue : s.activeThreads with
    | nil =>
      rw [queue] at improper
      exact absurd (fun tid member => by cases member) improper
    | cons tid rest =>
      rw [queue] at improper
      have front : (s.threads tid).legacy = false ∧ ¬ 8 ≤ c.controlBlockSize := by
        by_contra fine
        refine improper fun other member family => ?_
        cases member
        exact not_not.1 fun short => fine ⟨family, short⟩
      obtain ⟨family, short⟩ := front
      simp only [onCycle, switched, queue, if_true] at done
      split_ifs at done with zero line
      cases done
      have four := block_dvd_four sizes (fun none => zero ⟨family, none⟩) short
      have active : (s.threads tid).status = .active := (kept.active tid).1 (queue ▸ List.mem_cons_self)
      have aligned := ((kept.threads tid).due (Or.inr active)).aligned (kept.threads tid).aligned
      have whole : ∀ a : Integer t, a.toNat % 4 = 0 → a.toNat % c.controlBlockSize = 0 := fun a divided =>
        Nat.mod_eq_zero_of_dvd (Nat.dvd_trans four (Nat.dvd_of_mod_eq_zero divided))
      refine not_faithful_fetch ?_
      have self : (FetchStage.switchIn c program s tid rest).threads tid =
          { s.threads tid with status := .running, entered := (s.threads tid).sent.length } := Function.update_self _ _ _
      rw [entry, if_pos ⟨family, whole _ aligned⟩]
      refine (congrArg (fun thread => isControl c (FetchingThread.legacy thread) _) self).trans ?_
      rw [isControl, decide_eq_true (whole _ (toNat_next aligned)), family]
      rfl

/-- When the control blocks are the lines, no thread ever goes on within its line at a control word. -/
theorem Kept.proper (kept : Kept c program s) (long : 8 ≤ c.controlBlockSize) (lines : c.controlBlockSize = c.lineSize) :
    Proper c s .cycle := by
  rw [Proper]
  split_ifs with switched
  · exact fun _ _ _ => long
  · rw [lines]
    exact fun _ => (kept.midline (Bool.eq_false_of_not_eq_true switched)).inside

theorem run_kept (sizes : c.Sizes t) {events : List (Event t)} (run : Run (step c program) (Proper c) (initial t) events s) :
    Kept c program s :=
  run.invariant Kept.initial fun _ _ _ kept proper done => kept.step sizes proper done

/-- As long as no thread goes on within its line at a control word, and the control blocks have room for an instruction, the
threads are fetched as the program has it, and no cycle fails; at no other time is this so. -/
theorem fetches_program {controlBlockSize lineSize : BitVec 64} (made : FetchConf.create controlBlockSize lineSize = .ok c)
    (accepted : LineSizeAccepted t lineSize) {events : List (Event t)}
    (run : Run (step c program) (Proper c) (initial t) events s) :
    Faithful c program s ∧ (Proper c s .cycle → (s.onCycle c program).isSome) ∧
      (∀ event s', step c program s event = some s' → (Faithful c program s' ↔ Proper c s event)) ∧
      (8 ≤ c.controlBlockSize → c.controlBlockSize = c.lineSize → Proper c s .cycle) := by
  have sizes := FetchConf.create_sizes made accepted
  have kept := run_kept sizes run
  refine ⟨kept.faithful, fun proper => ?_, fun event s' done => ⟨fun faithful => ?_, fun proper => ?_⟩, kept.proper⟩
  · obtain ⟨s', good, _⟩ := kept.cycle sizes proper
    rw [good]
    rfl
  · by_contra improper
    cases event with
    | cycle => exact kept.improper sizes improper done faithful
    | create tid pc legacy => exact improper trivial
    | activate tid => exact improper trivial
    | leave tid => exact improper trivial
    | flush tid index again => exact improper trivial
  · exact (kept.step sizes proper done).faithful

/-- A program whose second instruction ends its thread. -/
def ending (a : Integer .mtalpha) : Byte := if a = 0 then 0x20 else 0

theorem fetches_program_ending : ∃ s, Run (step ⟨64, 64⟩ ending) (Proper ⟨64, 64⟩) (initial .mtalpha)
    [.create 0 0 false, .activate 0, .cycle, .cycle] s ∧
    (s.threads 0).sent.map Sent.pc = [4, 8] ∧ Faithful ⟨64, 64⟩ ending s := by
  have made : FetchConf.create 64 64 = .ok ⟨64, 64⟩ := rfl
  have accepted : LineSizeAccepted .mtalpha 64 := ⟨by decide, by decide⟩
  have proper : ∀ events s, Run (step ⟨64, 64⟩ ending) (Proper ⟨64, 64⟩) (initial .mtalpha) events s →
      Proper ⟨64, 64⟩ s .cycle :=
    fun _ _ run => (fetches_program made accepted run).2.2.2 (by decide) rfl
  have prepared : Run (step ⟨64, 64⟩ ending) (Proper ⟨64, 64⟩) (initial .mtalpha) [.create 0 0 false, .activate 0] _ :=
    .next (.next .start trivial rfl) trivial rfl
  have once := Run.next prepared (proper _ _ prepared) (show step ⟨64, 64⟩ ending _ .cycle = some _ from rfl)
  have twice := Run.next once (proper _ _ once) (show step ⟨64, 64⟩ ending _ .cycle = some _ from rfl)
  exact ⟨_, twice, by decide, (fetches_program made accepted twice).1⟩

/-- A thread that goes on into its second control block. -/
theorem sends_control : ¬ ∀ (t : Target) (controlBlockSize lineSize : BitVec 64) (c : FetchConf),
    FetchConf.create controlBlockSize lineSize = .ok c → LineSizeAccepted t lineSize →
    ∀ (program : Integer t → Byte) (events : List (Event t)) (s : FetchStage t),
      Run (step c program) (fun _ _ => True) (initial t) events s → Faithful c program s := by
  intro all
  have run := run_of_execute (fun _ _ _ => trivial) (show execute (step ⟨8, 64⟩ fun _ => 0) (initial .mtalpha)
    [.create 0 0 false, .activate 0, .cycle, .cycle] = some _ from rfl)
  obtain ⟨⟨m, sent⟩, _⟩ := all .mtalpha 8 64 ⟨8, 64⟩ rfl ⟨by decide, by decide⟩ _ _ _ run 0
  have member : (8 : Integer .mtalpha) ∈ straight ⟨8, 64⟩ false 0 m := by
    refine (congrArg (8 ∈ ·) sent).mp ?_
    decide
  exact absurd (holds_of_mem_passing member) (by decide)

end Mgsim.Drisc.FetchStage
