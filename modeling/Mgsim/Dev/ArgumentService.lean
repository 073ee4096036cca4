import Mgsim.Dev.ArgumentDelivery

namespace Mgsim.Dev.ArgumentFetch
open Mgsim.Lib
open Mgsim.Drisc (Target Integer)

variable {t : Target} {c : FetchSizes t} {memory : Nat → Integer t → Byte} {s s' : ArgumentFetch t}

theorem Kept.initial : Kept c memory (initial c) where
  buffer1 := List.length_replicate
  buffer2 := List.length_replicate
  fits := List.forall_mem_nil _
  order := rfl
  idle _ := ⟨rfl, rfl, rfl, rfl, rfl⟩
  front _ _ queue := by cases queue
  commands _ := rfl

theorem Kept.processRequests (kept : Kept c memory s) (accepted : Bool) (waiting : s.ready ≠ []) :
    ∃ s', step c memory s (.processRequests accepted) = some s' ∧ Kept c memory s' ∧ (accepted = true → s'.work < s.work) := by
  obtain ⟨first, others, ready⟩ := List.exists_cons_of_ne_nil waiting
  cases accepted with
  | false =>
    refine ⟨s, ?_, kept, fun taken => by cases taken⟩
    rw [step, doProcessRequests, ready]
    rfl
  | true =>
    have done : step c memory s (.processRequests true) =
        some { s with ready := others, served := s.served ++ [first] } := by
      rw [step, doProcessRequests, ready]
      rfl
    refine ⟨_, done, ⟨kept.buffer1, kept.buffer2, kept.fits, ?_, fun empty => ?_, fun req rest queue => ?_, kept.commands⟩,
      fun _ => ?_⟩
    · have order := kept.order
      rw [ready, ← List.singleton_append, ← List.append_assoc s.served] at order
      exact order
    · obtain ⟨reading, offset, pending, reads, inactive⟩ := kept.idle empty
      exact ⟨reading, offset, pending, reads, inactive⟩
    · obtain ⟨sent1, sent2, fetching⟩ := kept.front req rest queue
      exact ⟨sent1, sent2, fetching.congr rfl rfl rfl rfl rfl rfl rfl rfl⟩
    · unfold work frontWork
      dsimp only
      rw [ready, List.length_cons]
      omega

/-- A request that is queued gets to the front at once when the device is idle. -/
theorem Kept.queue (kept : Kept c memory s) (fits : Fits c s.inputLatch) (enabled : s.queueEnabled = true) :
    Kept c memory (s.doQueue c) := by
  by_cases space : hasSpace c.incomingSize s.incoming = true
  swap
  · rw [doQueue, if_neg space]
    exact kept
  · rw [doQueue, if_pos space]
    refine ⟨kept.buffer1, kept.buffer2, fun req member => ?_, ?_, fun empty => ?_, fun req rest queue => ?_, fun calm => ?_⟩
    · rcases List.mem_append.1 member with old | new
      · exact kept.fits req old
      · cases List.mem_singleton.1 new
        exact fits
    · dsimp only
      rw [List.map_append, List.map_append, ← List.append_assoc, kept.order]
    · cases List.append_ne_nil_of_right_ne_nil _ (List.cons_ne_nil _ _) empty
    · dsimp only at queue ⊢
      cases front : s.incoming with
      | nil =>
        obtain ⟨reading, offset, pending, reads, inactive⟩ := kept.idle front
        refine ⟨0, 0, .start reading offset pending reads ?_⟩
        dsimp only
        rw [if_pos rfl, inactive]
      | cons first others =>
        rw [front, List.cons_append] at queue
        cases queue
        obtain ⟨sent1, sent2, fetching⟩ := kept.front req others front
        refine ⟨sent1, sent2, fetching.congr rfl rfl rfl rfl ?_ rfl rfl ?_⟩
        · rfl
        · dsimp only
          rw [front, List.length_append, List.length_append, List.length_singleton]
          omega
    · dsimp only at calm ⊢
      rw [kept.commands calm, enabled]
      simp

theorem work_queue (kept : Kept c memory s) (enabled : s.queueEnabled = true)
    (space : hasSpace c.incomingSize s.incoming = true) : (s.doQueue c).work < s.work := by
  rw [doQueue, if_pos space]
  cases front : s.incoming with
  | nil =>
    obtain ⟨reading, offset, _, _, _⟩ := kept.idle front
    rw [work_of_idle front, work_of_front rfl, frontWork_start (by exact reading) (by exact offset)]
    simp only [enabled, if_true, Bool.false_eq_true, if_false, List.map_nil, List.sum_nil]
    omega
  | cons req rest =>
    rw [work_of_front front, work_of_front (List.cons_append ..)]
    simp only [enabled, if_true, Bool.false_eq_true, if_false, List.map_append, List.sum_append, List.map_cons, List.map_nil,
      List.sum_cons, List.sum_nil, frontWork]
    omega

/-- The registers have nothing to do with what is on its way. -/
theorem Kept.registers (kept : Kept c memory s) {latch : IncomingRequest t} {enabled disturbed : Bool}
    {issued : List (IncomingRequest t)} (commands : disturbed = false → issued = s.queued ++ if enabled then [latch] else []) :
    Kept c memory { s with inputLatch := latch, queueEnabled := enabled, issued := issued, disturbed := disturbed } := by
  refine ⟨kept.buffer1, kept.buffer2, kept.fits, kept.order, fun empty => ?_, fun req rest queue => ?_, commands⟩
  · obtain ⟨reading, offset, pending, reads, inactive⟩ := kept.idle empty
    exact ⟨reading, offset, pending, reads, inactive⟩
  · obtain ⟨sent1, sent2, fetching⟩ := kept.front req rest queue
    exact ⟨sent1, sent2, fetching.congr rfl rfl rfl rfl rfl rfl rfl rfl⟩

theorem Kept.write (kept : Kept c memory s) {address : Integer t} {data : List Byte}
    (written : s.onWriteRequestReceived c address data = .ok s') : Kept c memory s' := by
  unfold onWriteRequestReceived at written
  dsimp only at written
  split_ifs at written with bad place command
  · cases written
    refine kept.registers fun calm => ?_
    obtain ⟨calm, idle⟩ := Bool.or_eq_false_iff.1 calm
    rw [kept.commands calm, idle]
    simp
  · cases written
    refine kept.registers fun calm => ?_
    obtain ⟨calm, same⟩ := Bool.or_eq_false_iff.1 calm
    rw [kept.commands calm]
    cases enabled : s.queueEnabled with
    | false => rfl
    | true =>
      rw [enabled, Bool.true_and, decide_eq_false_iff_not, not_not] at same
      rw [same]

theorem Kept.step (lines : 0 < c.lineSize.toNat) (kept : Kept c memory s) {event : Event t} (proper : Proper c s event)
    (done : step c memory s event = some s') : Kept c memory s' := by
  obtain ⟨may, fits⟩ := proper
  cases event with
  | write address data =>
    rw [ArgumentFetch.step] at done
    cases written : s.onWriteRequestReceived c address data with
    | error fault =>
      rw [written] at done
      cases done
    | ok after =>
      rw [written] at done
      cases done
      exact kept.write written
  | queue =>
    cases done
    exact kept.queue (fits rfl) may
  | argumentFetch accepted =>
    obtain ⟨after, taken, fine, _⟩ := kept.argumentFetch lines accepted may
    cases taken.symm.trans done
    exact fine
  | answer i =>
    obtain ⟨after, taken, fine, _⟩ := kept.answer may
    cases taken.symm.trans done
    exact fine
  | processRequests accepted =>
    obtain ⟨after, taken, fine, _⟩ := kept.processRequests accepted may
    cases taken.symm.trans done
    exact fine

theorem Kept.live (lines : 0 < c.lineSize.toNat) (kept : Kept c memory s) : Live c memory s where
  ready some := by
    obtain ⟨req, rest, front⟩ := List.exists_cons_of_ne_nil some
    obtain ⟨sent1, sent2, fetching⟩ := kept.front req rest front
    by_contra stuck
    obtain ⟨none, idle⟩ := not_or.1 stuck
    have reads := not_not.1 none
    cases fetching.phase with
    | reading1 _ _ one => omega
    | reading2 _ _ _ one => omega
    | finalize _ count =>
      rw [if_pos reads] at count
      omega
  queues enabled space := ⟨_, rfl, work_queue kept enabled space⟩
  fetches accepted active := by
    obtain ⟨after, taken, _, less⟩ := kept.argumentFetch lines accepted active
    exact ⟨after, taken, less⟩
  answers i small := by
    obtain ⟨after, taken, _, less⟩ := kept.answer small
    exact ⟨after, taken, less⟩
  serves accepted some := by
    obtain ⟨after, taken, _, less⟩ := kept.processRequests accepted some
    exact ⟨after, taken, less⟩
  finished none := by
    cases front : s.incoming with
    | nil =>
      rw [work_of_idle front] at none
      have ready : s.ready = [] := List.eq_nil_of_length_eq_zero (by omega)
      have order := kept.order
      rw [front, ready, List.map_nil, List.append_nil, List.append_nil] at order
      refine ⟨order, Bool.eq_false_of_not_eq_true fun enabled => ?_⟩
      rw [if_pos enabled] at none
      omega
    | cons req rest =>
      rw [work_of_front front] at none
      obtain ⟨sent1, sent2, fetching⟩ := kept.front req rest front
      have some : 0 < s.frontWork req := by
        unfold frontWork
        split <;> omega
      omega

/-- As long as only fitting requests are queued, the service gets each request once and with its arguments. -/
theorem arguments_fetched {lineSize maxArg1Size maxArg2Size : BitVec 64} {incomingSize readySize : Option Nat}
    (made : FetchSizes.create t lineSize maxArg1Size maxArg2Size incomingSize readySize = .ok c) {events : List (Event t)}
    (run : Run (step c memory) (Proper c) (initial c) events s) : Fetched c memory s ∧ Live c memory s := by
  have lines : 0 < c.lineSize.toNat := by
    unfold FetchSizes.create at made
    split_ifs at made with zero
    cases made
    exact Nat.pos_of_ne_zero fun none => zero (BitVec.eq_of_toNat_eq none)
  have kept := run.invariant (I := Kept c memory) Kept.initial fun _ _ _ kept proper done => Kept.step lines kept proper done
  exact ⟨kept.fetched, kept.live lines⟩

/-- A device with lines of 64 bytes and arguments of at most 16. -/
def small : FetchSizes .mtalpha := ⟨64, 16, 16, none, none⟩

/-- A memory in which all bytes are set. -/
def ones (_ : Nat) (_ : Integer .mtalpha) : Byte := 1

/-- The command for 8 bytes at 0x100 and 16 bytes at an address. -/
def command (base2 : List Byte) : List (Event .mtalpha) :=
  [.write 24 [8, 0, 0, 0], .write 28 [16, 0, 0, 0], .write 32 [0, 1, 0, 0], .write 40 base2, .write 0 [0, 0, 0, 0]]

theorem arguments_fetched_once : ∃ s, Run (step small ones) (Proper small) (initial small) (command [0, 2, 0, 0] ++ [.queue] ++
    [.argumentFetch true] ++ [.argumentFetch true] ++ [.answer 1] ++ [.answer 0] ++ [.argumentFetch true] ++
      [.processRequests true]) s ∧
    s.served.map (fun req => (req.data1, req.data2)) = [(.replicate 8 1, .replicate 16 1)] ∧ Fetched small ones s := by
  have made : FetchSizes.create .mtalpha 64 16 16 none none = .ok small := rfl
  have harmless : ∀ e ∈ command [0, 2, 0, 0], ∀ s, Proper small s e := by simp [command, Proper, MayHappen]
  have given := run_of_execute harmless (show execute (step small ones) (initial small) (command [0, 2, 0, 0]) = some _ from rfl)
  have fits : Fits small ⟨0, 0, 0, 0, 0x100, 8, 0x200, 16, 0, 0, 0, 0, 8, 16⟩ := by
    refine ⟨rfl, rfl, Or.inr (by decide), Or.inr (by decide), fun a first _ _ _ last => ?_⟩
    change 512 ≤ a at first
    change a < 264 at last
    omega
  have queued := Run.next given ⟨by decide, fun _ => fits⟩ (show step small ones _ .queue = some _ from rfl)
  have first := Run.next queued ⟨by decide, fun same => by cases same⟩
    (show step small ones _ (.argumentFetch true) = some _ from rfl)
  have second := Run.next first ⟨by decide, fun same => by cases same⟩
    (show step small ones _ (.argumentFetch true) = some _ from rfl)
  have answer := Run.next second ⟨by decide, fun same => by cases same⟩ (show step small ones _ (.answer 1) = some _ from rfl)
  have answers := Run.next answer ⟨by decide, fun same => by cases same⟩ (show step small ones _ (.answer 0) = some _ from rfl)
  have last := Run.next answers ⟨by decide, fun same => by cases same⟩
    (show step small ones _ (.argumentFetch true) = some _ from rfl)
  have served := Run.next last ⟨by decide, fun same => by cases same⟩
    (show step small ones _ (.processRequests true) = some _ from rfl)
  exact ⟨_, served, by decide, (arguments_fetched made served).1⟩

/-- Two arguments that start at the same address: the answer for the second one is cut at the end of the first. -/
theorem second_argument_cut : ¬ ∀ (t : Target) (lineSize maxArg1Size maxArg2Size : BitVec 64)
    (incomingSize readySize : Option Nat) (c : FetchSizes t),
    FetchSizes.create t lineSize maxArg1Size maxArg2Size incomingSize readySize = .ok c →
    ∀ (memory : Nat → Integer t → Byte) (events : List (Event t)) (s : ArgumentFetch t),
      Run (step c memory) MayHappen (initial c) events s → Fetched c memory s := by
  intro all
  have checks : ∀ (s : ArgumentFetch .mtalpha) e, decide (MayHappen s e) = true → MayHappen s e := fun _ _ accepted => of_decide_eq_true accepted
  have run := run_of_checked checks (show execute (checked (fun s e => decide (MayHappen s e)) (step small ones)) (initial small)
    (command [0, 1, 0, 0] ++ [.queue, .argumentFetch true, .argumentFetch true, .answer 0, .answer 0, .argumentFetch true,
      .processRequests true]) = some _ from rfl)
  have served := (all .mtalpha 64 16 16 none none small rfl ones _ _ run).served
  exact absurd served (by decide)

end Mgsim.Dev.ArgumentFetch
