import Mgsim.Dev.UART
import Mgsim.Lib.Run

namespace Mgsim.Dev
open Mgsim.Lib

namespace UART

/-- The process that puts bytes into the input FIFO. -/
def feeder (u : UART) : Activity := if u.loopback then .transmit else .receive

/-- The read interrupt is on while there are bytes to read. -/
def Signalled (u : UART) : Prop :=
  u.readInterruptEnable = true → u.fifoIn.data ≠ [] → u.readInterrupt.isSet = true

/-- The receive side between two cycles. -/
structure Settled (u : UART) : Prop where
  onePush : u.fifoIn.maxPushes = 1
  pushed : u.fifoIn.pushed = []
  popped : u.fifoIn.popped = false
  fresh : u.readInterrupt.updated = false
  same : u.readInterrupt.new = u.readInterrupt.isSet
  disabled : u.readInterruptEnable = false → u.readInterrupt.isSet = false

end UART

namespace UARTState
open UART

/-- A cycle that loses an interrupt: a byte comes in after the read of the last
byte, or before the write that enables the interrupt. -/
def Loses (s : UARTState) (cycle : Cycle) : Prop :=
  (cycle.access = some (.read 0) ∧ s.uart.readInterruptEnable = true ∧ s.uart.fifoIn.data.length = 1 ∧
    s.uart.feeder ∈ cycle.after ∧ s.uart.fifoIn.hasSpace 1 = true) ∨
  ∃ data, cycle.access = some (.write 1 data) ∧ data.getLsbD 0 = true ∧ s.uart.readInterruptEnable = false ∧
    s.uart.fifoIn.data = [] ∧ s.uart.feeder ∈ cycle.before ∧ s.uart.fifoIn.hasSpace 1 = true

/-- Every accepted byte has been returned by one read or is still in the FIFO, in order. -/
def Conserved (s : UARTState) : Prop := s.accepted = s.returned ++ s.uart.fifoIn.contents

/-- What activities do on the receive side: nothing, or one byte comes in. -/
inductive Hears (s s' : UARTState) (activities : List Activity) : Prop
  | quiet : s'.uart.fifoIn = s.uart.fifoIn → s'.uart.readInterrupt = s.uart.readInterrupt →
      s'.accepted = s.accepted → s.uart.feeder ∉ activities ∨ ¬ s.uart.fifoIn.HasRoom → Hears s s' activities
  | fed {byte} : s.uart.fifoIn.push byte 1 = some s'.uart.fifoIn →
      s'.uart.readInterrupt = (if s.uart.readInterruptEnable then s.uart.readInterrupt.put true else s.uart.readInterrupt) →
      s'.accepted = s.accepted ++ [byte] → s.uart.feeder ∈ activities → Hears s s' activities

/-- What no activity changes. -/
structure Steady (s s' : UARTState) : Prop where
  returned : s'.returned = s.returned
  enable : s'.uart.readInterruptEnable = s.uart.readInterruptEnable
  loopback : s'.uart.loopback = s.uart.loopback
  enabled : s'.uart.enabled = s.uart.enabled

end UARTState

section Activities
open UART UARTState
variable {s s' : UARTState} {activity : Activity} {activities : List Activity}

theorem UARTState.Hears.of_eq {uart : UART} (done : s.uart.perform activity = some uart) (taken : s.perform activity = some s')
    (fifo : uart.fifoIn = s.uart.fifoIn) (interrupt : uart.readInterrupt = s.uart.readInterrupt)
    (refused : s.uart.feeder ≠ activity ∨ ¬ s.uart.fifoIn.HasRoom) : Hears s s' [activity] := by
  rw [UARTState.perform, done] at taken
  cases taken
  refine .quiet fifo interrupt ?_ (refused.imp (fun other => by simpa using other) id)
  change s.accepted ++ uart.fifoIn.pushed.drop _ = _
  rw [fifo, List.drop_length, List.append_nil]

theorem UARTState.Hears.of_push {uart : UART} {byte : Byte} (done : s.uart.perform activity = some uart)
    (taken : s.perform activity = some s') (push : s.uart.fifoIn.push byte 1 = some uart.fifoIn)
    (interrupt : uart.readInterrupt =
      if s.uart.readInterruptEnable then s.uart.readInterrupt.put true else s.uart.readInterrupt)
    (feeds : s.uart.feeder = activity) : Hears s s' [activity] := by
  rw [UARTState.perform, done] at taken
  cases taken
  refine .fed push interrupt ?_ (List.mem_singleton.mpr feeds)
  change s.accepted ++ uart.fifoIn.pushed.drop _ = _
  rw [Buffer.pushed_push push, List.drop_left]

theorem perform_spec (taken : s.perform activity = some s') : Steady s s' ∧ Hears s s' [activity] := by
  obtain ⟨uart, done, rfl⟩ := Option.map_eq_some_iff.mp taken
  cases activity with
  | send =>
    have other : s.uart.feeder ≠ .send := by unfold feeder; split <;> decide
    have result := done
    simp only [UART.perform, doSend] at result
    split at result
    · split at result
      all_goals
        cases result
        exact ⟨⟨rfl, rfl, rfl, rfl⟩, .of_eq done taken rfl rfl (Or.inl other)⟩
    · cases result
  | transmit =>
    have result := done
    simp only [UART.perform, doTransmit] at result
    split at result
    · cases result
    · rename_i byte fifoOut front
      split at result
      · rename_i loop
        have feeds : s.uart.feeder = .transmit := if_pos loop
        split at result
        · rename_i full
          cases result
          exact ⟨⟨rfl, rfl, rfl, rfl⟩, .of_eq done taken rfl rfl (Or.inr (Buffer.not_hasRoom_of_push full))⟩
        · rename_i fifoIn push
          cases result
          exact ⟨⟨rfl, rfl, rfl, rfl⟩, .of_push done taken push rfl feeds⟩
      · rename_i line
        have other : s.uart.feeder ≠ .transmit := by rw [feeder, if_neg line]; decide
        split at result
        all_goals
          cases result
          exact ⟨⟨rfl, rfl, rfl, rfl⟩, .of_eq done taken rfl rfl (Or.inl other)⟩
  | receive =>
    have result := done
    simp only [UART.perform, doReceive] at result
    split at result
    · split at result
      · cases result
      · split at result
        · rename_i loop
          have other : s.uart.feeder ≠ .receive := by rw [feeder, if_pos loop]; decide
          cases result
          exact ⟨⟨rfl, rfl, rfl, rfl⟩, .of_eq done taken rfl rfl (Or.inl other)⟩
        · rename_i line
          have feeds : s.uart.feeder = .receive := if_neg line
          split at result
          · rename_i full
            cases result
            exact ⟨⟨rfl, rfl, rfl, rfl⟩, .of_eq done taken rfl rfl (Or.inr (Buffer.not_hasRoom_of_push full))⟩
          · rename_i fifoIn push
            cases result
            exact ⟨⟨rfl, rfl, rfl, rfl⟩, .of_push done taken push rfl feeds⟩
    · cases result
  | streamReadable byte =>
    have other : s.uart.feeder ≠ .streamReadable byte := by unfold feeder; split <;> simp
    have result := done
    simp only [UART.perform, onStreamReadable] at result
    split at result
    · cases result
      refine ⟨⟨rfl, ?_, ?_, ?_⟩, .of_eq done taken ?_ ?_ (Or.inl other)⟩
      all_goals
        split <;> rfl
    · cases result
  | streamWritable =>
    have other : s.uart.feeder ≠ .streamWritable := by unfold feeder; split <;> decide
    have result := done
    simp only [UART.perform, onStreamWritable] at result
    split at result
    · cases result
      refine ⟨⟨rfl, ?_, ?_, ?_⟩, .of_eq done taken ?_ ?_ (Or.inl other)⟩
      all_goals
        split <;> rfl
    · cases result

/-- A FIFO that takes one byte in a cycle is full after it. -/
theorem not_hasRoom_of_pushed {fifo fifo' : Buffer Byte} {byte : Byte} (one : fifo.maxPushes = 1)
    (push : fifo.push byte 1 = some fifo') : ¬ fifo'.HasRoom ∧ fifo'.maxPushes = 1 := by
  have pushed := Buffer.pushed_push push
  have same := (Buffer.Gains.of_push push).maxPushes
  refine ⟨fun room => ?_, same.trans one⟩
  have short := room.1
  rw [pushed, same, one, List.length_append, List.length_singleton] at short
  omega

theorem performAll_spec (one : s.uart.fifoIn.maxPushes = 1) (taken : s.performAll activities = some s') :
    Steady s s' ∧ Hears s s' activities := by
  induction activities generalizing s with
  | nil =>
    cases taken
    exact ⟨⟨rfl, rfl, rfl, rfl⟩, .quiet rfl rfl rfl (Or.inl List.not_mem_nil)⟩
  | cons activity rest ih =>
    obtain ⟨middle, first, later⟩ := Option.bind_eq_some_iff.mp taken
    obtain ⟨steady, heard⟩ := perform_spec first
    have feeder : middle.uart.feeder = s.uart.feeder := by rw [UART.feeder, UART.feeder, steady.loopback]
    cases heard with
    | quiet fifo interrupt accepted refused =>
      obtain ⟨steady', heard'⟩ := ih (fifo ▸ one) later
      refine ⟨⟨steady'.returned.trans steady.returned, steady'.enable.trans steady.enable,
        steady'.loopback.trans steady.loopback, steady'.enabled.trans steady.enabled⟩, ?_⟩
      cases heard' with
      | quiet fifo' interrupt' accepted' refused' =>
        refine .quiet (fifo'.trans fifo) (interrupt'.trans interrupt) (accepted'.trans accepted) ?_
        rw [feeder, fifo] at refused'
        rcases refused with other | full
        · refine refused'.imp (fun absent member => ?_) id
          rcases List.mem_cons.mp member with same | more
          · exact other (List.mem_singleton.mpr same)
          · exact absent more
        · exact Or.inr full
      | fed push interrupt' accepted' member =>
        rw [fifo] at push
        rw [interrupt, steady.enable] at interrupt'
        rw [accepted] at accepted'
        exact .fed push interrupt' accepted' (List.mem_cons_of_mem _ (feeder ▸ member))
    | fed push interrupt accepted member =>
      obtain ⟨full, one'⟩ := not_hasRoom_of_pushed one push
      obtain ⟨steady', heard'⟩ := ih one' later
      refine ⟨⟨steady'.returned.trans steady.returned, steady'.enable.trans steady.enable,
        steady'.loopback.trans steady.loopback, steady'.enabled.trans steady.enabled⟩, ?_⟩
      cases heard' with
      | quiet fifo' interrupt' accepted' _ =>
        refine .fed (by rw [fifo']; exact push) (interrupt'.trans interrupt) (accepted'.trans accepted) ?_
        exact List.mem_cons.mpr (Or.inl (List.mem_singleton.mp member))
      | fed push' => exact absurd (Buffer.hasRoom_of_push push') full

/-- What a register access does on the receive side: nothing, the read of a
byte, or the write that enables the interrupt. -/
inductive Accessed (s s' : UARTState) (access : Option Access) : Prop
  | neutral : s'.uart.fifoIn = s.uart.fifoIn → s'.uart.readInterrupt = s.uart.readInterrupt →
      s'.uart.readInterruptEnable = s.uart.readInterruptEnable → s'.returned = s.returned →
      (access = some (.read 0) → s.uart.fifoIn.data = []) →
      (∀ data, access = some (.write 1 data) → data.getLsbD 0 = false) → Accessed s s' access
  | read {byte} : access = some (.read 0) → s.uart.fifoIn.data ≠ [] →
      s.uart.fifoIn.take? = some (byte, s'.uart.fifoIn) →
      s'.uart.readInterrupt =
        (if s.uart.fifoIn.data.length = 1 then s.uart.readInterrupt.put false else s.uart.readInterrupt) →
      s'.uart.readInterruptEnable = s.uart.readInterruptEnable → s'.uart.loopback = s.uart.loopback →
      s'.returned = s.returned ++ [byte] → Accessed s s' access
  | enable {data} : access = some (.write 1 data) → data.getLsbD 0 = true → s'.uart.fifoIn = s.uart.fifoIn →
      s'.uart.readInterrupt =
        (if s.uart.fifoIn.data ≠ [] then s.uart.readInterrupt.put true else s.uart.readInterrupt) →
      s'.uart.readInterruptEnable = true → s'.uart.loopback = s.uart.loopback → s'.returned = s.returned →
      Accessed s s' access

theorem read_other {u uart : UART} {byte : Byte} {addr : Nat} (rx : addr ≠ 0)
    (result : u.onReadRequestReceived addr = some (uart, byte)) : uart.fifoIn = u.fifoIn ∧
      uart.readInterrupt = u.readInterrupt ∧ uart.readInterruptEnable = u.readInterruptEnable := by
  unfold onReadRequestReceived at result
  split at result
  case h_1 => exact absurd rfl rx
  case h_3 =>
    unfold readIIR at result
    split at result
    · cases result
      exact ⟨rfl, rfl, rfl⟩
    · split at result
      all_goals
        cases result
        exact ⟨rfl, rfl, rfl⟩
  all_goals
    cases result
  all_goals exact ⟨rfl, rfl, rfl⟩

theorem access_read_spec {addr : Nat} (taken : s.access (some (.read addr)) = some s') :
    s'.accepted = s.accepted ∧ Accessed s s' (some (.read addr)) := by
  obtain ⟨⟨uart, byte⟩, result, rfl⟩ := Option.map_eq_some_iff.mp taken
  refine ⟨rfl, ?_⟩
  by_cases rx : addr = 0
  · subst rx
    rw [onReadRequestReceived, readRX] at result
    by_cases empty : s.uart.fifoIn.data = []
    · rw [if_pos empty] at result
      cases result
      refine .neutral rfl rfl rfl ?_ (fun _ => empty) nofun
      simp [empty]
    · rw [if_neg empty] at result
      obtain ⟨⟨front, fifoIn⟩, front?, same⟩ := Option.map_eq_some_iff.mp result
      cases same
      refine .read rfl empty front? rfl rfl rfl ?_
      simp [empty]
  · obtain ⟨fifo, interrupt, enable⟩ := read_other rx result
    refine .neutral fifo interrupt enable (if_neg fun both => rx both.1) (fun same => ?_) nofun
    cases same
    exact absurd rfl rx

theorem access_write_spec {addr : Nat} {data : Byte} (taken : s.access (some (.write addr data)) = some s')
    (active : addr = 10 → data = 0 → s.uart.enabled = false) :
    s'.accepted = s.accepted ∧ Accessed s s' (some (.write addr data)) := by
  obtain ⟨uart, result, rfl⟩ := Option.map_eq_some_iff.mp taken
  refine ⟨rfl, ?_⟩
  by_cases ier : addr = 1
  · subst ier
    cases result
    cases bit0 : data.getLsbD 0 with
    | false =>
      have unused : ∀ other, some (Access.write 1 data) = some (.write 1 other) → other.getLsbD 0 = false := by
        intro other same
        cases same
        exact bit0
      refine .neutral ?_ ?_ ?_ rfl nofun unused
      all_goals
        simp only [writeIER, bit0, Bool.false_eq_true, if_false]
        split <;> rfl
    | true =>
      refine .enable rfl bit0 ?_ ?_ ?_ ?_ rfl
      all_goals
        simp only [writeIER, bit0, if_true]
        split <;> rfl
  · have unused : ∀ other, some (Access.write addr data) = some (.write 1 other) → other.getLsbD 0 = false := by
      intro other same
      cases same
      exact absurd rfl ier
    unfold onWriteRequestReceived at result
    split at result
    case h_2 => exact absurd rfl ier
    case h_11 =>
      split at result
      · rename_i both
        rw [active rfl both.1] at both
        cases both.2
      · split at result
        all_goals
          cases result
          exact .neutral rfl rfl rfl rfl nofun unused
    all_goals
      cases result
    all_goals exact .neutral rfl rfl rfl rfl nofun unused

end Activities

section Cycles
open UART UARTState
variable {s s₁ s₂ s₃ s' : UARTState} {cycle : Cycle}

/-- The end of a cycle, in terms of the state before the update. -/
def Ends (s s₃ : UARTState) (cycle : Cycle) : Prop :=
  (s₃.uart.readInterruptEnable = false → s₃.uart.readInterrupt.new = false) ∧
  ((s₃.uart.readInterruptEnable = true → s₃.uart.fifoIn.contents ≠ [] → s₃.uart.readInterrupt.new = true) ↔
    ¬ s.Loses cycle)

theorem hasRoom_iff (settled : s.uart.Settled) : s.uart.fifoIn.HasRoom ↔ s.uart.fifoIn.hasSpace 1 = true := by
  rw [Buffer.HasRoom, settled.onePush, settled.pushed]
  exact and_iff_right (by decide)

theorem contents_of_settled (settled : s.uart.Settled) : s.uart.fifoIn.contents = s.uart.fifoIn.data := by
  rw [Buffer.contents, if_neg (by simp [settled.popped]), settled.pushed, List.append_nil]

/-- What a byte that comes in does to the interrupt, from the state between two cycles. -/
theorem fed_interrupt (settled : s.uart.Settled) {flag : Flag}
    (interrupt : flag = if s.uart.readInterruptEnable then s.uart.readInterrupt.put true else s.uart.readInterrupt) :
    (s.uart.readInterruptEnable = true → flag.updated = true ∧ flag.new = true) ∧
    (s.uart.readInterruptEnable = false → flag = s.uart.readInterrupt ∧ flag.new = false) := by
  subst interrupt
  constructor
  · intro on
    rw [if_pos on, Flag.put_fresh settled.fresh]
    exact ⟨rfl, rfl⟩
  · intro off
    rw [if_neg (by simp [off])]
    exact ⟨rfl, settled.same.trans (settled.disabled off)⟩

/-- A cycle without a register access that matters. -/
theorem ends_neutral (settled : s.uart.Settled) (signalled : s.uart.Signalled)
    (heard₁ : Hears s s₁ cycle.before) (steady₁ : Steady s s₁) (fifo : s₂.uart.fifoIn = s₁.uart.fifoIn)
    (interrupt : s₂.uart.readInterrupt = s₁.uart.readInterrupt)
    (enable : s₂.uart.readInterruptEnable = s₁.uart.readInterruptEnable)
    (safe : ¬ s.Loses cycle) (heard₃ : Hears s₂ s₃ cycle.after) (steady₃ : Steady s₂ s₃) : Ends s s₃ cycle := by
  have enable₃ := steady₃.enable.trans (enable.trans steady₁.enable)
  have quiet (flag : s₃.uart.readInterrupt = s.uart.readInterrupt) (same : s₃.uart.fifoIn = s.uart.fifoIn) :
      Ends s s₃ cycle := by
    refine ⟨fun off => ?_, iff_of_true (fun on some => ?_) safe⟩
    · rw [flag, settled.same]
      exact settled.disabled (enable₃ ▸ off)
    · rw [same, contents_of_settled settled] at some
      rw [flag, settled.same]
      exact signalled (enable₃ ▸ on) some
  have fed (flag : s₃.uart.readInterrupt =
      if s.uart.readInterruptEnable then s.uart.readInterrupt.put true else s.uart.readInterrupt) :
      Ends s s₃ cycle := by
    obtain ⟨enabled, disabled⟩ := fed_interrupt settled flag
    exact ⟨fun off => (disabled (enable₃ ▸ off)).2, iff_of_true (fun on _ => (enabled (enable₃ ▸ on)).2) safe⟩
  cases heard₁ with
  | quiet fifo₁ interrupt₁ =>
    cases heard₃ with
    | quiet fifo₃ interrupt₃ =>
      exact quiet (interrupt₃.trans (interrupt.trans interrupt₁)) (fifo₃.trans (fifo.trans fifo₁))
    | fed push interrupt₃ =>
      rw [interrupt, interrupt₁, enable, steady₁.enable] at interrupt₃
      exact fed interrupt₃
  | fed push interrupt₁ =>
    have full := (not_hasRoom_of_pushed settled.onePush push).1
    cases heard₃ with
    | quiet fifo₃ interrupt₃ => exact fed (interrupt₃.trans (interrupt.trans interrupt₁))
    | fed push' =>
      rw [fifo] at push'
      exact absurd (Buffer.hasRoom_of_push push') full

/-- A cycle in which the RX register is read. -/
theorem ends_read {byte : Byte} (settled : s.uart.Settled) (signalled : s.uart.Signalled) (active : s.Active cycle)
    (heard₁ : Hears s s₁ cycle.before) (steady₁ : Steady s s₁) (access : cycle.access = some (.read 0))
    (front : s₁.uart.fifoIn.take? = some (byte, s₂.uart.fifoIn))
    (interrupt : s₂.uart.readInterrupt =
      if s₁.uart.fifoIn.data.length = 1 then s₁.uart.readInterrupt.put false else s₁.uart.readInterrupt)
    (enable : s₂.uart.readInterruptEnable = s₁.uart.readInterruptEnable)
    (loopback : s₂.uart.loopback = s₁.uart.loopback)
    (heard₃ : Hears s₂ s₃ cycle.after) (steady₃ : Steady s₂ s₃) : Ends s s₃ cycle := by
  have enable₃ := steady₃.enable.trans (enable.trans steady₁.enable)
  have feeder : s₂.uart.feeder = s.uart.feeder := by
    rw [UART.feeder, UART.feeder, loopback, steady₁.loopback]
  have room := Buffer.hasRoom_of_take? front
  cases heard₁ with
  | quiet fifo₁ interrupt₁ =>
    rw [fifo₁] at front room interrupt
    rw [interrupt₁] at interrupt
    have contents := (Buffer.take?_eq_some front).1
    rw [contents_of_settled settled] at contents
    cases heard₃ with
    | quiet fifo₃ interrupt₃ _ refused =>
      have safe : ¬ s.Loses cycle := by
        rintro (⟨_, _, _, member, space⟩ | ⟨_, write, _⟩)
        · rw [feeder, room, hasRoom_iff settled] at refused
          exact refused.elim (fun absent => absent member) fun full => full space
        · cases access.symm.trans write
      rw [← interrupt₃] at interrupt
      by_cases last : s.uart.fifoIn.data.length = 1
      · rw [if_pos last, Flag.put_fresh settled.fresh] at interrupt
        refine ⟨fun _ => by rw [interrupt], iff_of_true (fun _ some => ?_) safe⟩
        rw [contents, List.length_cons] at last
        rw [fifo₃] at some
        exact absurd (List.eq_nil_of_length_eq_zero (Nat.succ.inj last)) some
      · rw [if_neg last] at interrupt
        refine ⟨fun off => ?_, iff_of_true (fun on _ => ?_) safe⟩
        · rw [interrupt, settled.same]
          exact settled.disabled (enable₃ ▸ off)
        · rw [interrupt, settled.same]
          exact signalled (enable₃ ▸ on) (by rw [contents]; exact List.cons_ne_nil _ _)
    | fed push interrupt₃ _ member =>
      rw [enable, steady₁.enable] at interrupt₃
      by_cases last : s.uart.fifoIn.data.length = 1
      · -- The read has cleared the flag, and the new byte cannot set it any more.
        rw [if_pos last, Flag.put_fresh settled.fresh] at interrupt
        have cleared : s₃.uart.readInterrupt.new = false := by
          rw [interrupt₃, interrupt, Flag.put_updated rfl]
          split <;> rfl
        have some : s₃.uart.fifoIn.contents ≠ [] := by
          rw [Buffer.contents_push push]
          exact List.append_ne_nil_of_right_ne_nil _ (List.cons_ne_nil _ _)
        have space := (hasRoom_iff settled).mp (room.mp (Buffer.hasRoom_of_push push))
        refine ⟨fun _ => cleared, fun signal loses => ?_, fun safe on _ => ?_⟩
        · rcases loses with ⟨_, on, _⟩ | ⟨_, write, _⟩
          · rw [signal (enable₃.trans on) some] at cleared
            cases cleared
          · cases access.symm.trans write
        · exact absurd (Or.inl ⟨access, enable₃ ▸ on, last, feeder ▸ member, space⟩) safe
      · rw [if_neg last] at interrupt
        rw [interrupt] at interrupt₃
        obtain ⟨enabled, disabled⟩ := fed_interrupt settled interrupt₃
        have safe : ¬ s.Loses cycle := by
          rintro (⟨_, _, one, _⟩ | ⟨_, write, _⟩)
          · exact last one
          · cases access.symm.trans write
        exact ⟨fun off => (disabled (enable₃ ▸ off)).2, iff_of_true (fun on _ => (enabled (enable₃ ▸ on)).2) safe⟩
  | fed push interrupt₁ _ member =>
    have full := (not_hasRoom_of_pushed settled.onePush push).1
    cases heard₃ with
    | fed push' => exact absurd (room.mp (Buffer.hasRoom_of_push push')) full
    | quiet _ interrupt₃ =>
      have safe : ¬ s.Loses cycle := by
        rintro (⟨_, _, _, again, _⟩ | ⟨_, write, _⟩)
        · have once := active.2 s.uart.feeder (by unfold UART.feeder; split <;> simp)
          have first := List.count_pos_iff.mpr member
          have second := List.count_pos_iff.mpr again
          rw [List.count_append] at once
          omega
        · cases access.symm.trans write
      obtain ⟨enabled, disabled⟩ := fed_interrupt settled interrupt₁
      rw [← interrupt₃] at interrupt
      refine ⟨fun off => ?_, iff_of_true (fun on _ => ?_) safe⟩
      · obtain ⟨same, cleared⟩ := disabled (enable₃ ▸ off)
        rw [interrupt]
        split
        · rw [same, Flag.put_fresh settled.fresh]
        · exact cleared
      · obtain ⟨updated, set⟩ := enabled (enable₃ ▸ on)
        rw [interrupt, Flag.put_updated updated, ite_self]
        exact set

/-- A cycle in which the interrupt is enabled. -/
theorem ends_enable {data : Byte} (settled : s.uart.Settled) (heard₁ : Hears s s₁ cycle.before) (access : cycle.access = some (.write 1 data))
    (bit0 : data.getLsbD 0 = true) (fifo : s₂.uart.fifoIn = s₁.uart.fifoIn)
    (interrupt : s₂.uart.readInterrupt =
      if s₁.uart.fifoIn.data ≠ [] then s₁.uart.readInterrupt.put true else s₁.uart.readInterrupt)
    (enable : s₂.uart.readInterruptEnable = true)
    (heard₃ : Hears s₂ s₃ cycle.after) (steady₃ : Steady s₂ s₃) : Ends s s₃ cycle := by
  have enable₃ := steady₃.enable.trans enable
  have on : ¬ s₃.uart.readInterruptEnable = false := by simp [enable₃]
  cases heard₁ with
  | quiet fifo₁ interrupt₁ _ refused =>
    have safe : ¬ s.Loses cycle := by
      rintro (⟨read, _⟩ | ⟨_, _, _, _, _, member, space⟩)
      · cases access.symm.trans read
      · rcases refused with absent | full
        · exact absent member
        · exact full ((hasRoom_iff settled).mpr space)
    refine ⟨fun off => absurd off on, iff_of_true (fun _ some => ?_) safe⟩
    rw [fifo₁, interrupt₁] at interrupt
    by_cases empty : s.uart.fifoIn.data = []
    · rw [if_neg (not_not.mpr empty)] at interrupt
      cases heard₃ with
      | quiet fifo₃ =>
        rw [fifo₃, fifo, fifo₁, contents_of_settled settled] at some
        exact absurd empty some
      | fed push interrupt₃ =>
        rw [if_pos enable, interrupt, Flag.put_fresh settled.fresh] at interrupt₃
        rw [interrupt₃]
    · rw [if_pos empty, Flag.put_fresh settled.fresh] at interrupt
      cases heard₃ with
      | quiet _ interrupt₃ => rw [interrupt₃, interrupt]
      | fed push interrupt₃ =>
        rw [if_pos enable, interrupt, Flag.put_updated rfl] at interrupt₃
        rw [interrupt₃]
  | fed push interrupt₁ _ member =>
    have full := (not_hasRoom_of_pushed settled.onePush push).1
    have room := (hasRoom_iff settled).mp (Buffer.hasRoom_of_push push)
    have same := Buffer.data_push push
    obtain ⟨enabled, disabled⟩ := fed_interrupt settled interrupt₁
    cases heard₃ with
    | fed push' =>
      rw [fifo] at push'
      exact absurd (Buffer.hasRoom_of_push push') full
    | quiet fifo₃ interrupt₃ =>
      rw [← interrupt₃, same] at interrupt
      refine ⟨fun off => absurd off on, ?_⟩
      cases state : s.uart.readInterruptEnable with
      | true =>
        have safe : ¬ s.Loses cycle := by
          rintro (⟨read, _⟩ | ⟨_, _, _, off, _⟩)
          · cases access.symm.trans read
          · cases state.symm.trans off
        obtain ⟨updated, set⟩ := enabled state
        rw [Flag.put_updated updated, ite_self] at interrupt
        exact iff_of_true (fun _ _ => interrupt ▸ set) safe
      | false =>
        obtain ⟨unchanged, unset⟩ := disabled state
        by_cases empty : s.uart.fifoIn.data = []
        · -- The byte does not set the flag, and the write does not see the byte.
          rw [if_neg (not_not.mpr empty)] at interrupt
          have some : s₃.uart.fifoIn.contents ≠ [] := by
            rw [fifo₃, fifo, Buffer.contents_push push]
            exact List.append_ne_nil_of_right_ne_nil _ (List.cons_ne_nil _ _)
          refine iff_of_false (fun signal => ?_) (not_not.mpr (Or.inr ⟨data, access, bit0, state, empty, member, room⟩))
          rw [interrupt, unset] at signal
          cases signal enable₃ some
        · have safe : ¬ s.Loses cycle := by
            rintro (⟨read, _⟩ | ⟨_, _, _, _, none, _⟩)
            · cases access.symm.trans read
            · exact empty none
          rw [if_pos empty, unchanged, Flag.put_fresh settled.fresh] at interrupt
          exact iff_of_true (fun _ _ => by rw [interrupt]) safe

theorem heard_maxPushes {s s' : UARTState} {activities : List Activity} (heard : Hears s s' activities) :
    s'.uart.fifoIn.maxPushes = s.uart.fifoIn.maxPushes := by
  cases heard with
  | quiet fifo => rw [fifo]
  | fed push => exact (Buffer.Gains.of_push push).maxPushes

theorem heard_conserved {s s' : UARTState} {activities : List Activity} (conserved : s.Conserved)
    (steady : Steady s s') (heard : Hears s s' activities) : s'.Conserved := by
  rw [Conserved, steady.returned]
  cases heard with
  | quiet fifo _ accepted => rw [accepted, fifo, conserved]
  | fed push _ accepted => rw [accepted, Buffer.contents_push push, conserved, List.append_assoc]

theorem accessed_maxPushes {access : Option Access} (accessed : Accessed s s' access) :
    s'.uart.fifoIn.maxPushes = s.uart.fifoIn.maxPushes := by
  cases accessed with
  | neutral fifo => rw [fifo]
  | read _ _ front => exact (Buffer.take?_shape front).2.2.1
  | enable _ _ fifo => rw [fifo]

theorem accessed_conserved {access : Option Access} (conserved : s.Conserved) (accepted : s'.accepted = s.accepted)
    (accessed : Accessed s s' access) : s'.Conserved := by
  rw [Conserved, accepted, conserved]
  cases accessed with
  | neutral fifo _ _ returned => rw [returned, fifo]
  | read _ _ front _ _ _ returned => rw [returned, (Buffer.take?_eq_some front).1, List.append_assoc, List.singleton_append]
  | enable _ _ fifo _ _ _ returned => rw [returned, fifo]

theorem access_spec {access : Option Access} (taken : s.access access = some s')
    (active : ∀ data, access = some (.write 10 data) → data = 0 → s.uart.enabled = false) :
    s'.accepted = s.accepted ∧ Accessed s s' access := by
  rcases access with _ | (addr | ⟨addr, data⟩)
  · cases taken
    exact ⟨rfl, .neutral rfl rfl rfl rfl nofun nofun⟩
  · exact access_read_spec taken
  · exact access_write_spec taken fun same zero => active data (by rw [same]) zero

/-- A cycle keeps all bytes, and the interrupt unless it loses one. -/
theorem step_spec (settled : s.uart.Settled) (signalled : s.uart.Signalled) (conserved : s.Conserved)
    (active : s.Active cycle) (taken : s.step cycle = some s') :
    s'.uart.Settled ∧ s'.Conserved ∧ (s'.uart.Signalled ↔ ¬ s.Loses cycle) := by
  obtain ⟨s₁, first, taken⟩ := Option.bind_eq_some_iff.mp taken
  obtain ⟨s₂, second, taken⟩ := Option.bind_eq_some_iff.mp taken
  obtain ⟨s₃, third, rfl⟩ := Option.map_eq_some_iff.mp taken
  obtain ⟨steady₁, heard₁⟩ := performAll_spec settled.onePush first
  have onePush₁ := (heard_maxPushes heard₁).trans settled.onePush
  obtain ⟨accepted, accessed⟩ := access_spec second fun data write zero => steady₁.enabled.trans (active.1 data write zero)
  have onePush₂ := (accessed_maxPushes accessed).trans onePush₁
  obtain ⟨steady₃, heard₃⟩ := performAll_spec onePush₂ third
  have onePush₃ := (heard_maxPushes heard₃).trans onePush₂
  have kept := heard_conserved (accessed_conserved (heard_conserved conserved steady₁ heard₁) accepted accessed) steady₃ heard₃
  have data₁ : s₁.uart.fifoIn.data = s.uart.fifoIn.data := by
    cases heard₁ with
    | quiet fifo => rw [fifo]
    | fed push => exact Buffer.data_push push
  have ends : Ends s s₃ cycle := by
    cases accessed with
    | neutral fifo interrupt enable _ notRead notEnable =>
      have safe : ¬ s.Loses cycle := by
        rintro (⟨read, _, one, _⟩ | ⟨data, write, bit0, _⟩)
        · rw [← data₁, notRead read] at one
          cases one
        · rw [notEnable data write] at bit0
          cases bit0
      exact ends_neutral settled signalled heard₁ steady₁ fifo interrupt enable safe heard₃ steady₃
    | read access _ front interrupt enable loopback _ =>
      exact ends_read settled signalled active heard₁ steady₁ access front interrupt enable loopback heard₃ steady₃
    | enable access bit0 fifo interrupt enable =>
      exact ends_enable settled heard₁ access bit0 fifo interrupt enable heard₃ steady₃
  refine ⟨⟨onePush₃, rfl, rfl, rfl, rfl, ends.1⟩, ?_, ?_⟩
  · rw [Conserved] at kept ⊢
    rw [← Buffer.contents_update] at kept
    exact kept
  · rw [← ends.2, UART.Signalled]
    exact Iff.of_eq (by rw [← Buffer.data_update]; rfl)

end Cycles

section Runs
open UART UARTState
variable {inputFIFOSize outputFIFOSize : Option Nat} {cycles : List Cycle} {s : UARTState}

/-- In every state of a run the interrupt is on for bytes to read and every byte
is returned once in order, exactly when no cycle of the run loses an interrupt. -/
theorem read_interrupts_iff
    (run : Run UARTState.step UARTState.Active (UARTState.create inputFIFOSize outputFIFOSize) cycles s) :
    (∀ first rest s₁, cycles = first ++ rest →
      Run UARTState.step UARTState.Active (UARTState.create inputFIFOSize outputFIFOSize) first s₁ →
      s₁.uart.Signalled ∧ s₁.accepted = s₁.returned ++ s₁.uart.fifoIn.data) ↔
    Run UARTState.step (fun s cycle => s.Active cycle ∧ ¬ s.Loses cycle)
      (UARTState.create inputFIFOSize outputFIFOSize) cycles s := by
  have atStart : (UARTState.create inputFIFOSize outputFIFOSize).uart.Settled ∧
      (UARTState.create inputFIFOSize outputFIFOSize).Conserved ∧
      (UARTState.create inputFIFOSize outputFIFOSize).uart.Signalled :=
    ⟨⟨rfl, rfl, rfl, rfl, rfl, fun _ => rfl⟩, rfl, nofun⟩
  have careful {cycles : List Cycle} {s : UARTState}
      (run : Run UARTState.step (fun s cycle => s.Active cycle ∧ ¬ s.Loses cycle)
        (UARTState.create inputFIFOSize outputFIFOSize) cycles s) :
      s.uart.Settled ∧ s.Conserved ∧ s.uart.Signalled :=
    run.invariant (I := fun s => s.uart.Settled ∧ s.Conserved ∧ s.uart.Signalled) atStart
      fun s cycle s' ⟨settled, conserved, signalled⟩ allowed taken => by
        obtain ⟨settled', conserved', signal⟩ := step_spec settled signalled conserved allowed.1 taken
        exact ⟨settled', conserved', signal.mpr allowed.2⟩
  constructor
  · intro holds
    induction run with
    | start => exact .start
    | @next cycles s cycle s' earlier active taken ih =>
      have before := ih fun first rest s₁ split reached =>
        holds first (rest ++ [cycle]) s₁ (by rw [split, List.append_assoc]) reached
      obtain ⟨settled, conserved, signalled⟩ := careful before
      have signal := (step_spec settled signalled conserved active taken).2.2
      have after := (holds (cycles ++ [cycle]) [] s' (List.append_nil _).symm (.next earlier active taken)).1
      exact .next before ⟨active, signal.mp after⟩ taken
  · intro safe first rest s₁ split reached
    rw [split] at safe
    obtain ⟨s₂, before⟩ := safe.earlier
    cases reached.unique before
    obtain ⟨settled, conserved, signalled⟩ := careful before
    rw [Conserved, contents_of_settled settled] at conserved
    exact ⟨signalled, conserved⟩

/-- A cycle with one register access. -/
def accessCycle (access : Access) : Cycle := ⟨[], some access, []⟩

/-- A cycle without a register access. -/
def quietCycle (activity : Activity) : Cycle := ⟨[activity], none, []⟩

/-- The UART is activated, its read interrupt is enabled, and a byte comes in. -/
def oneByte : List Cycle :=
  [accessCycle (.write 10 1), accessCycle (.write 1 1), quietCycle (.streamReadable 65), quietCycle .receive]

theorem oneByte_active (cycle : Cycle) (member : cycle ∈ oneByte) (s : UARTState) : s.Active cycle := by
  simp only [oneByte, List.mem_cons, List.not_mem_nil, or_false] at member
  rcases member with rfl | rfl | rfl | rfl
  all_goals exact ⟨by simp [accessCycle, quietCycle], by decide⟩

theorem oneByte_safe (cycle : Cycle) (member : cycle ∈ oneByte) (s : UARTState) : ¬ s.Loses cycle := by
  simp only [oneByte, List.mem_cons, List.not_mem_nil, or_false] at member
  rcases member with rfl | rfl | rfl | rfl
  all_goals simp [UARTState.Loses, accessCycle, quietCycle]

/-- The interrupt is on for the byte. -/
theorem read_interrupts_oneByte : ∃ s, Run UARTState.step UARTState.Active (.create none none) oneByte s ∧
    s.uart.fifoIn.data = [65] ∧ s.uart.readInterrupt.isSet = true := by
  have careful : Run UARTState.step (fun s cycle => s.Active cycle ∧ ¬ s.Loses cycle) (.create none none) oneByte _ :=
    run_of_execute (fun cycle member s => ⟨oneByte_active cycle member s, oneByte_safe cycle member s⟩) rfl
  have run := careful.weaken fun _ _ both => both.1
  have signalled := ((read_interrupts_iff run).mpr careful oneByte [] _ rfl run).1
  exact ⟨_, run, rfl, signalled rfl (List.cons_ne_nil _ _)⟩

/-- The next byte comes in after the read of the first one, in the same cycle. -/
def lostByte : List Cycle := oneByte ++ [quietCycle (.streamReadable 66), ⟨[], some (.read 0), [.receive]⟩]

theorem read_interrupt_lost : ∃ s, Run UARTState.step UARTState.Active (.create none none) lostByte s ∧
    s.uart.enabled = true ∧ s.uart.readInterruptEnable = true ∧ s.uart.fifoIn.data = [66] ∧
    s.uart.readInterrupt.isSet = false ∧ ¬ s.uart.Signalled := by
  refine ⟨_, run_of_execute (fun cycle member s => ?_) rfl, rfl, rfl, rfl, rfl, fun signalled => ?_⟩
  · rcases List.mem_append.mp member with early | late
    · exact oneByte_active cycle early s
    · simp only [List.mem_cons, List.not_mem_nil, or_false] at late
      rcases late with rfl | rfl
      all_goals exact ⟨by simp [quietCycle], by decide⟩
  · cases signalled rfl (List.cons_ne_nil _ _)

end Runs

end Mgsim.Dev
