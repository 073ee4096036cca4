import Mgsim.Lib.Run
import Mgsim.Mmu.TlbSpec

namespace Mgsim.Mmu
open Mgsim.Lib

/-- What the rest of the system does to a TLB. A lookup whose process fails
later in the cycle leaves only the effect of its check phase. -/
inductive TlbEvent
  | lookup (drisc : Drisc) (contextId : BitVec 16) (vAddr : Addr) (mayUnlock commits : Bool)
  | setDCacheReference (dRef : BitVec 32)
  | getLine (ref : LineRef)
  | store (msg : MgtMsg)
  | invalidate (msg : MgtMsg)
  | property (msg : MgtMsg)
  | transmit
  | endCycle

namespace Tlb

/-- One event; `none` when the source throws or asserts. -/
def step (tlb : Tlb) : TlbEvent → Option Tlb
  | .lookup drisc contextId vAddr mayUnlock commits =>
    match tlb.lookup drisc contextId vAddr mayUnlock with
    | .ok out => some (if commits then out.committed else out.checked)
    | .error _ => none
  | .setDCacheReference dRef =>
    match tlb.setDCacheReference dRef with
    | .ok tlb => some tlb
    | .error _ => none
  | .getLine ref =>
    match tlb.getLine ref with
    | .ok out => some out.2
    | .error _ => none
  | .store msg =>
    match tlb.onStoreMsg msg with
    | .ok (some out) => some out.2
    | .ok none => some tlb
    | .error _ => none
  | .invalidate msg =>
    match tlb.onInvalidateMsg msg with
    | .ok tlb => some tlb
    | .error _ => none
  | .property msg =>
    match tlb.onPropertyMsg msg with
    | .ok tlb => some tlb
    | .error _ => none
  | .transmit => tlb.fifoOut.take?.map fun taken => { tlb with fifoOut := taken.2 }
  | .endCycle => some { tlb with fifoOut := tlb.fifoOut.update }

/-- A refill into a table of larger pages finds no line inside its page but the
pending line that it answers and the line that it replaces. -/
def AloneInPage (tlb : Tlb) (msg : MgtMsg) : Prop :=
  let tableId := tlb.numTables - 1 - (msg.get .table).toNat
  let line := tlb.line ⟨0, (msg.get .lineIndex).toNat⟩
  msg.get .present ≠ 0 → tableId ≠ 0 → ∀ ref vAddr, tlb.Holds ref line.contextId vAddr →
    vAddr >>> tlb.shift tableId = line.vAddr >>> tlb.shift tableId →
      ref = ⟨0, (msg.get .lineIndex).toNat⟩ ∨ ref = ⟨tableId, (tlb.tables tableId).pickDestination⟩

def Allowed (tlb : Tlb) : TlbEvent → Prop
  | .store msg => tlb.AloneInPage msg
  | _ => True

section Create

theorem createTables_eq_ok {config : Nat → TableConfig} {n : Nat} {tables : Nat → Table}
    (done : createTables config n = .ok tables) :
    ∀ k < n, (tables k).Wf ∧ ∀ i, (tables k).lines i = Line.initial := by
  induction n generalizing tables with
  | zero => intro k inside; omega
  | succ n ih =>
    simp only [createTables, bind, Except.bind, pure, Except.pure] at done
    split at done
    · cases done
    rename_i before earlier
    split at done
    · cases done
    rename_i table created
    obtain ⟨rfl, wf⟩ := Table.create_eq_ok created
    split at done
    · cases done
    cases done
    intro k inside
    by_cases last : k = n
    · subst last
      simpa only [Function.update_self] using ⟨wf, fun _ => rfl⟩
    · rw [Function.update_of_ne last]
      exact ih earlier k (by omega)

theorem create_eq_ok {numberOfTables : Nat} {config : Nat → TableConfig} {ioDevId : BitVec 32} {tlb : Tlb}
    (done : create numberOfTables config ioDevId = .ok tlb) :
    tlb.Wf ∧ 0 < tlb.numTables ∧ tlb.enabled = false ∧ tlb.fifoOut.contents = [] ∧ tlb.lastLine = none ∧
      ∀ k < tlb.numTables, ∀ i, (tlb.tables k).lines i = Line.initial := by
  simp only [create, bind, Except.bind, pure, Except.pure] at done
  split at done
  · cases done
  rename_i some
  split at done
  · cases done
  rename_i tables created
  cases done
  have each := createTables_eq_ok created
  exact ⟨⟨fun k inside => (each k inside).1⟩, Nat.pos_of_ne_zero some, rfl, rfl, rfl,
    fun k inside => (each k inside).2⟩

theorem unique_of_initial {tlb : Tlb} (initial : ∀ k < tlb.numTables, ∀ i, (tlb.tables k).lines i = Line.initial) :
    tlb.Unique := by
  intro contextId vAddr ref ref' holds
  have used := holds.inUse.1
  rw [Tlb.line, initial ref.table holds.table] at used
  simp [Line.initial] at used

end Create

section Step
variable {tlb : Tlb}

/-- What every event keeps. -/
structure Sound (tlb : Tlb) : Prop where
  wf : tlb.Wf
  nonempty : 0 < tlb.numTables
  unique : tlb.Unique

theorem Shrunk.sound {tlb' : Tlb} (shrunk : tlb.Shrunk tlb') (sound : tlb.Sound) : tlb'.Sound :=
  ⟨shrunk.wf sound.wf, shrunk.numTables ▸ sound.nonempty, shrunk.unique sound.unique⟩

theorem Sound.of_eq {tlb' : Tlb} (sound : tlb.Sound) (numTables : tlb'.numTables = tlb.numTables)
    (tables : tlb'.tables = tlb.tables) : tlb'.Sound :=
  (Shrunk.of_eq numTables tables).sound sound

theorem Sound.setLine {ref : LineRef} {line : Line} (sound : tlb.Sound)
    (kept : ∀ contextId vAddr, Table.Line.InUse line contextId vAddr →
      Table.Line.InUse (tlb.line ref) contextId vAddr) : (tlb.setLine ref line).Sound :=
  (shrunk_setLine kept).sound sound

theorem shift_zero (tlb : Tlb) : tlb.shift 0 = 0 := Nat.sub_self _

/-- A miss for an address that nothing matches takes a line for this address only. -/
theorem Sound.park (sound : tlb.Sound) {contextId vAddr : Addr} {i : Nat}
    (absent : ∀ ref, ¬ tlb.Holds ref contextId vAddr) :
    (tlb.setLine ⟨0, i⟩ (pendingLine (tlb.line ⟨0, i⟩) contextId vAddr)).Sound := by
  refine ⟨sound.wf.setLine, sound.nonempty, sound.unique.setLine ?_⟩
  intro context address other used holds
  obtain ⟨_, sameContext, samePage⟩ := used
  rw [shift_zero, BitVec.ushiftRight_zero] at samePage
  simp only [pendingLine] at sameContext samePage
  subst sameContext
  subst samePage
  exact absurd holds (absent other)

theorem Sound.lookupPage (sound : tlb.Sound) {contextId vAddr : Addr} {mayUnlock : Bool} {out : Lookup}
    (done : tlb.lookupPage contextId vAddr mayUnlock = .ok out) : out.checked.Sound ∧ out.committed.Sound := by
  cases lookupPage_eq_ok done with
  | waiting touched _ _ =>
    have kept := touched.shrunk.sound sound
    exact ⟨kept.of_eq rfl rfl, kept.of_eq rfl rfl⟩
  | @hit found ref touched _ present =>
    have kept : Sound { found with lastLine := none } := (touched.shrunk.sound sound).of_eq rfl rfl
    refine ⟨kept, ?_⟩
    dsimp only
    split
    · exact kept.setLine fun _ _ used => ⟨Or.inl present, used.2⟩
    · exact kept
  | stalled touched _ => exact ⟨touched.shrunk.sound sound, touched.shrunk.sound sound⟩
  | @missed found i fifo touched absent _ _ _ =>
    have kept := touched.shrunk.sound sound
    have parked := kept.park (i := i) fun ref holds => absent ref (touched.holds.mp holds)
    exact ⟨kept.of_eq rfl rfl, parked.of_eq rfl rfl⟩

theorem Sound.lookup (sound : tlb.Sound) {drisc : Drisc} {contextId : BitVec 16} {vAddr : Addr} {mayUnlock : Bool}
    {out : Lookup} (done : tlb.lookup drisc contextId vAddr mayUnlock = .ok out) :
    out.checked.Sound ∧ out.committed.Sound := by
  rcases lookup_eq_ok done with rfl | ⟨_, page⟩
  · exact ⟨sound.of_eq rfl rfl, sound.of_eq rfl rfl⟩
  · exact sound.lookupPage page

theorem setDCacheReference_shrunk {tlb' : Tlb} {dRef : BitVec 32}
    (done : tlb.setDCacheReference dRef = .ok tlb') : tlb.Shrunk tlb' := by
  obtain ⟨ref, _, _, rfl⟩ := setDCacheReference_eq_ok done
  exact shrunk_setLine fun _ _ used => used

theorem getLine_shrunk {ref : LineRef} {out : TlbResultMessage × Tlb} (done : tlb.getLine ref = .ok out) :
    tlb.Shrunk out.2 := by
  obtain ⟨_, present, same⟩ := getLine_eq_ok done
  rw [same]
  exact shrunk_setLine fun _ _ used => ⟨Or.inl present, used.2⟩

theorem onPropertyMsg_shrunk {tlb' : Tlb} {msg : MgtMsg} (done : tlb.onPropertyMsg msg = .ok tlb') :
    tlb.Shrunk tlb' := by
  unfold onPropertyMsg at done
  split at done
  · cases done
    exact .of_eq rfl rfl
  · split at done
    · cases done
      exact .of_eq rfl rfl
    · cases done

/-- A refill keeps the matches unique when its page holds no other line. -/
theorem Sound.store (sound : tlb.Sound) {msg : MgtMsg} (alone : tlb.AloneInPage msg) {out : Completion × Tlb}
    (stored : tlb.Stored msg out) : out.2.Sound := by
  cases stored with
  | notPresent _ _ _ => exact sound
  | filled _ _ pending atLine =>
    subst atLine
    have locked : (tlb.line ⟨0, (msg.get .lineIndex).toNat⟩).locked = true := pending.2.2
    exact sound.setLine fun _ _ used => ⟨Or.inr locked, used.2⟩
  | @moved line victim tableId i present atTable other inside pending atLine destination atVictim unlocked =>
    subst atTable
    rw [setLine_comm other]
    -- without the answered line nothing is left inside the page
    have locked : (tlb.line ⟨0, (msg.get .lineIndex).toNat⟩).locked = true := pending.2.2
    have kept : (tlb.setLine ⟨0, (msg.get .lineIndex).toNat⟩ { line with locked := false }).Sound := by
      subst atLine
      exact sound.setLine fun _ _ used => ⟨Or.inr locked, used.2⟩
    refine ⟨kept.wf.setLine, kept.nonempty, kept.unique.setLine ?_⟩
    intro context address ref used holds
    obtain ⟨_, sameContext, samePage⟩ := used
    rw [shift_setLine] at samePage
    simp only at sameContext samePage
    by_cases own : ref = ⟨0, (msg.get .lineIndex).toNat⟩
    · subst own
      have gone := holds.inUse.1
      rw [line_setLine_self, atLine] at gone
      rcases gone with present | locked
      · rw [show (tlb.line ⟨0, (msg.get .lineIndex).toNat⟩).present = false from pending.2.1] at present
        cases present
      · cases locked
    · have before := (holds_setLine_ne own).mp holds
      subst sameContext atLine
      rcases alone present other ref address before samePage.symm with same | same
      · exact absurd same own
      · rw [same, destination]

theorem Sound.step (sound : tlb.Sound) {event : TlbEvent} {tlb' : Tlb} (allowed : tlb.Allowed event)
    (taken : tlb.step event = some tlb') : tlb'.Sound := by
  cases event with
  | lookup drisc contextId vAddr mayUnlock commits =>
    simp only [Tlb.step] at taken
    split at taken
    · rename_i out done
      obtain ⟨checked, committed⟩ := sound.lookup done
      cases Option.some.inj taken
      split
      · exact committed
      · exact checked
    · cases taken
  | setDCacheReference dRef =>
    simp only [Tlb.step] at taken
    split at taken
    · rename_i done
      cases Option.some.inj taken
      exact (setDCacheReference_shrunk done).sound sound
    · cases taken
  | getLine ref =>
    simp only [Tlb.step] at taken
    split at taken
    · rename_i out done
      cases Option.some.inj taken
      exact (getLine_shrunk done).sound sound
    · cases taken
  | store msg =>
    simp only [Tlb.step] at taken
    split at taken
    · rename_i out done
      cases Option.some.inj taken
      exact sound.store allowed (onStoreMsg_eq_ok done)
    · cases Option.some.inj taken
      exact sound
    · cases taken
  | invalidate msg =>
    simp only [Tlb.step] at taken
    split at taken
    · rename_i done
      cases Option.some.inj taken
      exact (onInvalidateMsg_shrunk done).sound sound
    · cases taken
  | property msg =>
    simp only [Tlb.step] at taken
    split at taken
    · rename_i done
      cases Option.some.inj taken
      exact (onPropertyMsg_shrunk done).sound sound
    · cases taken
  | transmit =>
    simp only [Tlb.step] at taken
    obtain ⟨_, _, rfl⟩ := Option.map_eq_some_iff.mp taken
    exact sound.of_eq rfl rfl
  | endCycle =>
    cases Option.some.inj taken
    exact sound.of_eq rfl rfl

end Step

/-- In every run whose large-page refills find their page empty, at most one
line matches an address, and the search for it does not throw. -/
theorem one_line_for_every_address {numberOfTables : Nat} {config : Nat → TableConfig} {ioDevId : BitVec 32}
    {start tlb : Tlb} {events : List TlbEvent} (created : create numberOfTables config ioDevId = .ok start)
    (run : Run Tlb.step Tlb.Allowed start events tlb) :
    tlb.Unique ∧ ∀ contextId vAddr, ∃ found, tlb.doLookup contextId vAddr .indexable = .ok found := by
  obtain ⟨wf, nonempty, _, _, _, initial⟩ := create_eq_ok created
  have sound : tlb.Sound := run.invariant (I := Tlb.Sound) ⟨wf, nonempty, unique_of_initial initial⟩
    fun _ _ _ sound allowed taken => sound.step allowed taken
  exact ⟨sound.unique, fun contextId vAddr => sound.unique.doLookup_isOk contextId vAddr⟩

section TwoMisses

/-- The tables of `config.ini`. -/
def defaultConfig : Nat → TableConfig
  | 0 => ⟨12, 32, .lru⟩
  | 1 => ⟨21, 16, .lru⟩
  | _ => ⟨30, 8, .lru⟩

def unmapped : Drisc := ⟨64, fun _ _ => false⟩

def enableMsg : MgtMsg :=
  (((⟨0, 0⟩ : MgtMsg).put .type MgtMsgType.set.value).put .property SetType.setStateOnTlb.value).put .val1 1

/-- The refill of a readable page, for a line of table 0. -/
def refillMsg (lineIndex : BitVec 24) (table : BitVec 8) (pAddr : Addr) : MgtMsg :=
  ((((((⟨0, 0⟩ : MgtMsg).put .type MgtMsgType.refill.value).putAddr pAddr).put .lineIndex lineIndex).put .present 1).put
    .table table).put .read 1

/-- Two misses for pages of one 2 MiB page, and the refill for the first. -/
def twoMisses : List TlbEvent :=
  [.property enableMsg, .lookup unmapped 0 0x200000000 false true, .lookup unmapped 0 0x200001000 false true,
    .store (refillMsg 0 1 0x300000)]

/-- The second access inside the large page would have found two lines. -/
theorem two_misses_in_one_page :
    ((create 3 defaultConfig 5).toOption.bind fun start => (execute Tlb.step start twoMisses).map fun tlb =>
      (tlb.doLookup 0 0x200001 .indexable).map Prod.snd) =
        some (.error (.domainError "vAddr exists in multiple tables!")) := by
  decide +kernel

/-- No line but this one is in use. -/
def quietBut (tlb : Tlb) (ref : LineRef) : Bool :=
  (List.range tlb.numTables).all fun k => (List.range (tlb.tables k).numLines).all fun i =>
    decide ((⟨k, i⟩ : LineRef) = ref) || !((tlb.line ⟨k, i⟩).present || (tlb.line ⟨k, i⟩).locked)

theorem aloneInPage_of_quietBut {tlb : Tlb} {msg : MgtMsg}
    (quiet : tlb.quietBut ⟨0, (msg.get .lineIndex).toNat⟩ = true) : tlb.AloneInPage msg := by
  intro _ _ ref vAddr holds _
  have table := List.all_eq_true.mp quiet ref.table (List.mem_range.mpr holds.table)
  have atLine := List.all_eq_true.mp table ref.line (List.mem_range.mpr holds.line)
  rcases Bool.or_eq_true_iff.mp atLine with same | idle
  · exact Or.inl (of_decide_eq_true same)
  · have used := holds.inUse.1
    rcases used with present | locked
    · simp [present] at idle
    · simp [locked] at idle

def oneMiss : List TlbEvent := [.property enableMsg, .lookup unmapped 0 0x200000000 false true]

theorem one_line_for_every_address_large :
    ∃ start tlb, create 3 defaultConfig 5 = .ok start ∧
      execute Tlb.step start (oneMiss ++ [.store (refillMsg 0 1 0x300000)]) = some tlb ∧ tlb.Unique := by
  have quiet : ((create 3 defaultConfig 5).toOption.bind fun start =>
      (execute Tlb.step start oneMiss).map fun tlb => tlb.quietBut ⟨0, 0⟩) = some true := by decide +kernel
  have whole : ((create 3 defaultConfig 5).toOption.bind fun start =>
      (execute Tlb.step start (oneMiss ++ [.store (refillMsg 0 1 0x300000)])).map fun _ => ()) = some () := by
    decide +kernel
  have index : ((refillMsg 0 1 0x300000).get .lineIndex).toNat = 0 := by decide
  cases created : create 3 defaultConfig 5 with
  | error fault =>
    rw [created] at quiet
    cases quiet
  | ok start =>
    rw [created] at quiet whole
    obtain ⟨middle, before, quiet⟩ := Option.map_eq_some_iff.mp quiet
    obtain ⟨tlb, done, _⟩ := Option.map_eq_some_iff.mp whole
    have last := done
    rw [execute_append, before, Option.bind_some] at last
    obtain ⟨after, taken, same⟩ := Option.bind_eq_some_iff.mp last
    cases Option.some.inj same
    have parked : Run Tlb.step Tlb.Allowed start oneMiss middle :=
      run_of_execute (by simp [oneMiss, Tlb.Allowed]) before
    have alone : middle.Allowed (.store (refillMsg 0 1 0x300000)) :=
      aloneInPage_of_quietBut (by rw [index]; exact quiet)
    exact ⟨start, tlb, rfl, done, (one_line_for_every_address created (.next parked alone taken)).1⟩

end TwoMisses

end Tlb

end Mgsim.Mmu
