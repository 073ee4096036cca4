import Mathlib.Data.List.Induction
import Mathlib.Tactic.Common

namespace Mgsim.Ic

/-- `CyclicArbitratedPort`. A process is known by its index in `m_processes`. -/
structure Port where
  lastSelected : Nat
  selected : Option Nat
  deriving DecidableEq

/-- The distance between the process that was last selected and another one. -/
def distance (processes last i : Nat) : Nat := (i + processes - last) % processes

/-- The loop of `Arbitrate` over the requests. -/
def nearest (processes last : Nat) (requests : List Nat) : Nat × Option Nat :=
  requests.foldl
    (fun best i =>
      if distance processes last i ≠ 0 ∧ distance processes last i < best.1 then (distance processes last i, some i)
      else best)
    (processes, none)

/-- `Arbitrate` with the requests that have come in. -/
def Port.arbitrate (processes : Nat) (port : Port) (requests : List Nat) : Port :=
  match requests with
  | [] => { port with selected := none }
  | [i] => ⟨i, some i⟩
  | requests =>
    let best := nearest processes port.lastSelected requests
    ⟨(port.lastSelected + best.1) % processes, best.2⟩

/-- The request that comes next in turn. -/
structure Next (processes last : Nat) (requests : List Nat) (i : Nat) : Prop where
  member : i ∈ requests
  turn : requests.length ≠ 1 → distance processes last i ≠ 0
  first : ∀ j ∈ requests, requests.length ≠ 1 → distance processes last j ≠ 0 →
    distance processes last i ≤ distance processes last j

variable {processes last last' i j : Nat} {requests : List Nat}

theorem distance_lt (inside : last < processes) : distance processes last i < processes :=
  Nat.mod_lt _ (Nat.zero_lt_of_lt inside)

theorem distance_eq (inside : last < processes) (other : i < processes) :
    distance processes last i = if last ≤ i then i - last else i + processes - last := by
  unfold distance
  split
  · rename_i order
    rw [show i + processes - last = i - last + processes by omega, Nat.add_mod_right, Nat.mod_eq_of_lt (by omega)]
  · exact Nat.mod_eq_of_lt (by omega)

theorem distance_eq_zero (inside : last < processes) (other : i < processes) : distance processes last i = 0 ↔ i = last := by
  rw [distance_eq inside other]
  split <;> omega

theorem add_distance (inside : last < processes) (other : i < processes) :
    (last + distance processes last i) % processes = i := by
  rw [distance_eq inside other]
  split
  · rw [show last + (i - last) = i by omega, Nat.mod_eq_of_lt other]
  · rw [show last + (i + processes - last) = i + processes by omega, Nat.add_mod_right, Nat.mod_eq_of_lt other]

/-- What the loop has found. -/
theorem nearest_spec (inside : last < processes) (requests : List Nat) :
    (nearest processes last requests = (processes, none) ∧ ∀ j ∈ requests, distance processes last j = 0) ∨
      ∃ i ∈ requests, nearest processes last requests = (distance processes last i, some i) ∧
        distance processes last i ≠ 0 ∧
          ∀ j ∈ requests, distance processes last j ≠ 0 → distance processes last i ≤ distance processes last j := by
  induction requests using List.reverseRecOn with
  | nil => exact Or.inl ⟨rfl, nofun⟩
  | append_singleton rest z ih =>
    have unfolded : nearest processes last (rest ++ [z]) =
        if distance processes last z ≠ 0 ∧ distance processes last z < (nearest processes last rest).1 then
          (distance processes last z, some z) else nearest processes last rest := by
      unfold nearest
      rw [List.foldl_append]
      rfl
    rw [unfolded]
    rcases ih with ⟨none, zero⟩ | ⟨i, member, found, nonzero, least⟩
    · rw [none]
      by_cases atLast : distance processes last z = 0
      · refine Or.inl ⟨if_neg fun both => both.1 atLast, fun j member => ?_⟩
        rcases List.mem_append.mp member with earlier | new
        · exact zero j earlier
        · rw [List.mem_singleton.mp new, atLast]
      · refine Or.inr ⟨z, by simp, if_pos ⟨atLast, distance_lt inside⟩, atLast, fun j member positive => ?_⟩
        rcases List.mem_append.mp member with earlier | new
        · exact absurd (zero j earlier) positive
        · exact Nat.le_of_eq (by rw [List.mem_singleton.mp new])
    · rw [found]
      refine Or.inr ?_
      by_cases closer : distance processes last z ≠ 0 ∧ distance processes last z < distance processes last i
      · refine ⟨z, by simp, if_pos closer, closer.1, fun j member positive => ?_⟩
        rcases List.mem_append.mp member with earlier | new
        · exact Nat.le_trans (Nat.le_of_lt closer.2) (least j earlier positive)
        · exact Nat.le_of_eq (by rw [List.mem_singleton.mp new])
      · refine ⟨i, List.mem_append_left _ member, if_neg closer, nonzero, fun j member positive => ?_⟩
        rcases List.mem_append.mp member with earlier | new
        · exact least j earlier positive
        · rw [List.mem_singleton.mp new] at positive ⊢
          exact Nat.not_lt.mp fun less => closer ⟨positive, less⟩

/-- `Arbitrate` selects the request that is next in turn, and remembers it. -/
theorem Port.arbitrate_spec {port : Port} (inside : port.lastSelected < processes) (some : requests ≠ [])
    (known : ∀ i ∈ requests, i < processes) (distinct : requests.Nodup) :
    ∃ i, port.arbitrate processes requests = ⟨i, Option.some i⟩ ∧ Next processes port.lastSelected requests i := by
  match requests with
  | [] => exact absurd rfl some
  | [i] => exact ⟨i, rfl, List.mem_singleton_self i, fun two => absurd rfl two, fun _ _ two => absurd rfl two⟩
  | a :: b :: rest =>
    rcases nearest_spec inside (a :: b :: rest) with ⟨_, zero⟩ | ⟨i, member, found, nonzero, least⟩
    · have first := (distance_eq_zero inside (known a (by simp))).mp (zero a (by simp))
      have second := (distance_eq_zero inside (known b (by simp))).mp (zero b (by simp))
      have apart := (List.nodup_cons.mp distinct).1
      rw [first, second] at apart
      exact absurd List.mem_cons_self apart
    · refine ⟨i, ?_, member, fun _ => nonzero, fun j request _ => least j request⟩
      show Port.mk ((port.lastSelected + (nearest processes port.lastSelected (a :: b :: rest)).1) % processes)
        (nearest processes port.lastSelected (a :: b :: rest)).2 = _
      rw [found]
      dsimp only
      rw [add_distance inside (known i member)]

/-- Somebody who waits comes closer to the turn, as long as others are selected. -/
theorem Next.closer (next : Next processes last requests i) (inside : last < processes) (known : ∀ j ∈ requests, j < processes)
    (waits : j ∈ requests) (other : j ≠ i) (notLast : j ≠ last) : distance processes i j < distance processes last j := by
  have two : requests.length ≠ 1 := by
    intro one
    obtain ⟨only, rfl⟩ := List.length_eq_one_iff.mp one
    exact other ((List.mem_singleton.mp waits).trans (List.mem_singleton.mp next.member).symm)
  have known' := known i next.member
  have knownJ := known j waits
  have turn : i ≠ last := fun same => next.turn two ((distance_eq_zero inside known').mpr same)
  have first := next.first j waits two fun zero => notLast ((distance_eq_zero inside knownJ).mp zero)
  rw [distance_eq inside known', distance_eq inside knownJ] at first
  rw [distance_eq inside knownJ]
  rw [distance_eq known' knownJ]
  split_ifs at first ⊢ <;> omega

/-- Arbiters with the same requests that select different ones go on to do so. -/
theorem Next.injective {i' k k' : Nat} (next : Next processes i requests k) (next' : Next processes i' requests k')
    (known : ∀ j ∈ requests, j < processes) (first : i ∈ requests) (second : i' ∈ requests) (apart : i ≠ i') : k ≠ k' := by
  rintro rfl
  have two : requests.length ≠ 1 := by
    intro one
    obtain ⟨only, rfl⟩ := List.length_eq_one_iff.mp one
    exact apart ((List.mem_singleton.mp first).trans (List.mem_singleton.mp second).symm)
  have knownI := known i first
  have knownI' := known i' second
  have knownK := known k next.member
  have away := next.turn two
  have away' := next'.turn two
  have order := next.first i' second two fun zero => apart ((distance_eq_zero knownI knownI').mp zero).symm
  have order' := next'.first i first two fun zero => apart ((distance_eq_zero knownI' knownI).mp zero)
  rw [distance_eq knownI knownK] at away order
  rw [distance_eq knownI' knownK] at away' order'
  rw [distance_eq knownI knownI'] at order
  rw [distance_eq knownI' knownI] at order'
  split_ifs at away away' order order' <;> omega

end Mgsim.Ic
