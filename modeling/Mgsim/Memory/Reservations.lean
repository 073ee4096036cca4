import Mgsim.Memory.VirtualMemory
import Mgsim.Lib.Run
import Mathlib.Order.CompletePartialOrder
import Mathlib.Order.Interval.Set.Disjoint

namespace Mgsim.Memory
open Mgsim.Lib
variable {w : Nat}

/-- The addresses of a range, as numbers. -/
def bytes (address size : BitVec w) : Set Nat := Set.Ico address.toNat (address.toNat + size.toNat)

namespace VirtualMemory

/-- The number after the last address of a range. -/
def stop (p : BitVec w × Range w) : Nat := p.1.toNat + p.2.size.toNat

def sizes (entries : List (BitVec w × Range w)) : Nat := (entries.map fun p => p.2.size.toNat).sum

/-- The range would overlap with a reserved one. -/
def Overlaps (vm : VirtualMemory w) (address size : BitVec w) : Prop :=
  ∃ p ∈ vm.ranges.entries, ¬ Disjoint (bytes address size) (bytes p.1 p.2.size)

/-- The bookkeeping of the reserved ranges. -/
structure Sound (vm : VirtualMemory w) : Prop where
  disjoint : vm.ranges.entries.Pairwise fun p q => Disjoint (bytes p.1 p.2.size) (bytes q.1 q.2.size)
  total : vm.totalReserved.toNat = sizes vm.ranges.entries
  number : vm.numberOfRanges.toNat = vm.ranges.entries.length
  releases : ∀ pid, (vm.unreserveAll pid).ranges.entries = vm.ranges.entries.filter fun p => p.2.owner ≠ pid
  refused : ∀ c, (vm.call c).1 ≠ none → (vm.call c).2 = vm
  checks : ∀ address size access, size ≠ 0 → (vm.checkPermissions address size access = true ↔
    ∃ p ∈ vm.ranges.entries, bytes address size ⊆ bytes p.1 p.2.size ∧ p.2.permissions &&& access = access)

/-- The ranges lie one behind the other below the top of the address space. -/
structure Kept (vm : VirtualMemory w) : Prop where
  apart : vm.ranges.entries.Pairwise fun p q => stop p ≤ q.1.toNat
  fits : ∀ p ∈ vm.ranges.entries, 0 < p.2.size.toNat ∧ stop p ≤ 2 ^ w
  total : vm.totalReserved.toNat = sizes vm.ranges.entries
  number : vm.numberOfRanges.toNat = vm.ranges.entries.length

theorem sizes_append (first second : List (BitVec w × Range w)) : sizes (first ++ second) = sizes first + sizes second := by
  simp [sizes]

theorem sizes_cons (p : BitVec w × Range w) (rest : List (BitVec w × Range w)) :
    sizes (p :: rest) = p.2.size.toNat + sizes rest := by
  simp [sizes]

section
variable {vm : VirtualMemory w} {address size pid : BitVec w} {p : BitVec w × Range w}

/-- An entry is removed from the middle of the ranges. -/
theorem Kept.remove {before after : List (BitVec w × Range w)} (kept : vm.Kept)
    (split : vm.ranges.entries = before ++ p :: after) :
    (vm.remove p).Kept ∧ (vm.remove p).ranges.entries = before ++ after := by
  have entries : (vm.remove p).ranges.entries = before ++ after := SortedMap.erase_entries split
  have apart := kept.apart
  have fits := kept.fits
  have total := kept.total
  have number := kept.number
  rw [split] at apart fits total number
  rw [sizes_append, sizes_cons] at total
  rw [List.length_append, List.length_cons] at number
  have small := vm.totalReserved.isLt
  have fewer : (before ++ after).Sublist (before ++ p :: after) := (List.sublist_cons_self p after).append_left before
  refine ⟨⟨?_, ?_, ?_, ?_⟩, entries⟩
  · rw [entries]
    exact apart.sublist fewer
  · rw [entries]
    exact fun q member => fits q (fewer.subset member)
  · rw [entries, sizes_append]
    change (vm.totalReserved - p.2.size.setWidth 64).toNat = _
    rw [BitVec.toNat_sub, BitVec.toNat_setWidth, Nat.mod_eq_of_lt (by omega : p.2.size.toNat < 2 ^ 64)]
    omega
  · rw [entries, List.length_append]
    change (vm.numberOfRanges - 1).toNat = _
    rw [BitVec.toNat_sub]
    have bound := vm.numberOfRanges.isLt
    have one : (1 : BitVec 64).toNat = 1 := rfl
    omega

/-- The loop of `UnreserveAll` keeps the ranges of the other owners. -/
theorem unreserveLoop_entries (rest : List (BitVec w × Range w)) : ∀ (vm : VirtualMemory w) (done : List (BitVec w × Range w)),
    vm.ranges.entries = done ++ rest →
    (rest.foldl (fun vm p => if p.2.owner = pid then vm.remove p else vm) vm).ranges.entries =
      done ++ rest.filter fun p => p.2.owner ≠ pid := by
  induction rest with
  | nil =>
    intro vm done split
    exact split
  | cons p rest ih =>
    intro vm done split
    rw [List.foldl_cons]
    by_cases owned : p.2.owner = pid
    · rw [if_pos owned, List.filter_cons_of_neg (by simp [owned])]
      exact ih _ _ (SortedMap.erase_entries split)
    · rw [if_neg owned, List.filter_cons_of_pos (by simp [owned]), List.append_cons]
      refine ih _ _ ?_
      rw [split, List.append_cons]

theorem unreserveLoop_kept (rest : List (BitVec w × Range w)) : ∀ (vm : VirtualMemory w) (done : List (BitVec w × Range w)),
    vm.Kept → vm.ranges.entries = done ++ rest →
    (rest.foldl (fun vm p => if p.2.owner = pid then vm.remove p else vm) vm).Kept := by
  induction rest with
  | nil =>
    intro vm done kept _
    exact kept
  | cons p rest ih =>
    intro vm done kept split
    rw [List.foldl_cons]
    by_cases owned : p.2.owner = pid
    · rw [if_pos owned]
      obtain ⟨kept', split'⟩ := kept.remove split
      exact ih _ _ kept' split'
    · rw [if_neg owned]
      exact ih _ (done ++ [p]) kept (by rw [split, List.append_cons])

/-- A reserve that overlaps with a reserved range is found to do so: it overlaps with the range at
its own address, with the next one from below the top, or with the one before it, which ends below the top. -/
def Detected (vm : VirtualMemory w) (address size : BitVec w) : Prop :=
  (∃ p ∈ vm.ranges.lowerBound address, p.1 = address ∨
    address.toNat + size.toNat < 2 ^ w ∧ p.1.toNat < address.toNat + size.toNat) ∨
  ∃ q ∈ vm.ranges.previous address, address.toNat < stop q ∧ stop q < 2 ^ w

/-- A reserve ends at the top of the address space or below it, and an overlap does not hide behind
the top. The reserved ranges are less than 2⁶⁴ bytes. -/
def StaysBelowTop (vm : VirtualMemory w) : Call w → Prop
  | .reserve address size _ _ => size ≠ 0 →
    (vm.Overlaps address size → vm.Detected address size) ∧
    (¬ vm.Overlaps address size → address.toNat + size.toNat ≤ 2 ^ w ∧
      sizes vm.ranges.entries + size.toNat < 2 ^ 64)
  | _ => True

theorem positive_of_ne (nonzero : size ≠ 0) : 0 < size.toNat :=
  Nat.pos_of_ne_zero fun zero => nonzero (BitVec.eq_of_toNat_eq (by simpa using zero))

theorem Detected.refused (detected : vm.Detected address size) :
    vm.overlapsNext address size = true ∨ vm.overlapsPrevious address size = true := by
  rcases detected with ⟨p, found, reason⟩ | ⟨q, found, above, below⟩
  · refine Or.inl ((Option.any_eq_true _ _).mpr ⟨p, found, ?_⟩)
    have least := SortedMap.le_of_lowerBound found
    by_cases same : p.1 = address
    · simp [same]
    · obtain ⟨inside, overlap⟩ := reason.resolve_left same
      have after : address < p.1 := lt_of_le_of_ne least fun equal => same equal.symm
      have past : p.1 < address + size := by
        rw [BitVec.lt_def, BitVec.toNat_add, Nat.mod_eq_of_lt inside]
        exact overlap
      simp [after, past]
  · refine Or.inr ((Option.any_eq_true _ _).mpr ⟨q, found, ?_⟩)
    have past : address < q.1 + q.2.size := by
      rw [BitVec.lt_def, BitVec.toNat_add]
      exact (Nat.mod_eq_of_lt below).symm ▸ above
    simpa using past

/-- Where nothing overlaps, the new range fits between its neighbours. -/
theorem Kept.between (kept : vm.Kept) (nonzero : size ≠ 0) (free : ¬ vm.Overlaps address size) :
    (∀ q ∈ vm.ranges.below address, stop q ≤ address.toNat) ∧
      ∀ p ∈ vm.ranges.atLeast address, address.toNat + size.toNat ≤ p.1.toNat := by
  have positive := positive_of_ne nonzero
  have apart : ∀ p ∈ vm.ranges.entries, min (address.toNat + size.toNat) (stop p) ≤ max address.toNat p.1.toNat := by
    intro p member
    refine Set.Ico_disjoint_Ico.mp ?_
    by_contra overlap
    exact free ⟨p, member, overlap⟩
  refine ⟨fun q member => ?_, fun p member => ?_⟩
  · have less := BitVec.lt_def.mp (SortedMap.lt_of_mem_below member)
    have bound := apart q (SortedMap.mem_of_mem_below member)
    omega
  · have least := BitVec.le_def.mp (SortedMap.le_of_mem_atLeast member)
    have bound := apart p (SortedMap.mem_of_mem_atLeast member)
    have wide := (kept.fits p (SortedMap.mem_of_mem_atLeast member)).1
    rw [stop] at bound
    omega

theorem Kept.reserve {perm : BitVec 32} (kept : vm.Kept) (below : vm.StaysBelowTop (.reserve address size pid perm)) :
    (vm.reserve address size pid perm).2.Kept := by
  unfold VirtualMemory.reserve
  split
  · rename_i nonzero
    obtain ⟨detected, inside⟩ := below nonzero
    split
    · exact kept
    rename_i noNext
    split
    · exact kept
    rename_i noPrevious
    have free : ¬ vm.Overlaps address size := by
      intro overlap
      rcases (detected overlap).refused with next | previous
      · exact noNext next
      · exact noPrevious previous
    obtain ⟨top, few⟩ := inside free
    obtain ⟨before, after⟩ := kept.between nonzero free
    have positive := positive_of_ne nonzero
    have absent : ∀ p ∈ vm.ranges.lowerBound address, p.1 ≠ address := by
      intro p found same
      have bound := after p (List.mem_of_head? found)
      rw [same] at bound
      omega
    have split := vm.ranges.below_append_atLeast address
    have apart := kept.apart
    have fits := kept.fits
    have total := kept.total
    have number := kept.number
    rw [← split] at apart fits total number few
    rw [sizes_append] at total few
    rw [List.length_append] at number
    have entries := SortedMap.insert_entries (⟨size, pid, perm⟩ : Range w) absent
    obtain ⟨first, second, cross⟩ := List.pairwise_append.mp apart
    have many : ∀ l : List (BitVec w × Range w), (∀ p ∈ l, 0 < p.2.size.toNat) → l.length ≤ sizes l := by
      intro l wide
      induction l with
      | nil => exact Nat.zero_le _
      | cons p rest ih =>
        have here := wide p List.mem_cons_self
        have there := ih fun q member => wide q (List.mem_cons_of_mem _ member)
        rw [sizes_cons, List.length_cons]
        omega
    refine ⟨?_, ?_, ?_, ?_⟩
    · rw [entries]
      refine List.pairwise_append.mpr ⟨first, List.pairwise_cons.mpr ⟨after, second⟩, fun p early q late => ?_⟩
      rcases List.mem_cons.mp late with rfl | late
      · exact before p early
      · exact cross p early q late
    · rw [entries]
      intro p member
      rcases List.mem_append.mp member with early | late
      · exact fits p (List.mem_append_left _ early)
      · rcases List.mem_cons.mp late with rfl | late
        · exact ⟨positive, top⟩
        · exact fits p (List.mem_append_right _ late)
    · rw [entries, sizes_append, sizes_cons]
      change (vm.totalReserved + size.setWidth 64).toNat = sizes (vm.ranges.below address) +
        (size.toNat + sizes (vm.ranges.atLeast address))
      rw [BitVec.toNat_add, BitVec.toNat_setWidth, Nat.mod_eq_of_lt (by omega : size.toNat < 2 ^ 64)]
      omega
    · rw [entries, List.length_append, List.length_cons]
      change (vm.numberOfRanges + 1).toNat = _
      have earlier := many _ fun p member => (fits p (List.mem_append_left _ member)).1
      have later := many _ fun p member => (fits p (List.mem_append_right _ member)).1
      rw [BitVec.toNat_add, show (1 : BitVec 64).toNat = 1 from rfl]
      omega
  · exact kept

theorem Kept.unreserve (kept : vm.Kept) : (vm.unreserve address size).2.Kept := by
  unfold VirtualMemory.unreserve
  split
  · exact kept
  · rename_i p found
    split
    · exact kept
    · obtain ⟨rest, split⟩ := List.head?_eq_some_iff.mp (SortedMap.find_eq_some found).1
      refine (@Kept.remove w vm p (vm.ranges.below address) rest kept ?_).1
      rw [← split, SortedMap.below_append_atLeast]

theorem mem_of_nearest (found : vm.nearest address = some p) : p ∈ vm.ranges.entries := by
  unfold nearest at found
  split at found
  · exact SortedMap.mem_of_lowerBound found
  · rename_i previous before
    split at found
    · cases found
      exact SortedMap.mem_of_previous before
    · exact SortedMap.mem_of_lowerBound found

/-- The range in which an address lies is the nearest one. -/
theorem Kept.nearest (kept : vm.Kept) (member : p ∈ vm.ranges.entries) (starts : p.1.toNat ≤ address.toNat)
    (ends : address.toNat < stop p) : vm.nearest address = some p := by
  have apart := kept.apart
  rw [← vm.ranges.below_append_atLeast address] at apart
  obtain ⟨first, _, cross⟩ := List.pairwise_append.mp apart
  unfold VirtualMemory.nearest
  rcases @SortedMap.mem_below_or_atLeast _ _ _ vm.ranges address p member with before | after
  · have last : vm.ranges.previous address = some p := by
      obtain ⟨q, found⟩ : ∃ q, vm.ranges.previous address = some q :=
        ⟨_, List.getLast?_eq_some_getLast (List.ne_nil_of_mem before)⟩
      rcases SortedMap.le_previous found before with rfl | less
      · exact found
      · obtain ⟨front, split⟩ := List.getLast?_eq_some_iff.mp found
        rw [split] at first before
        rcases List.mem_append.mp before with early | same
        · have bound := (List.pairwise_append.mp first).2.2 p early q List.mem_cons_self
          have inside := BitVec.lt_def.mp (SortedMap.lt_of_mem_below (List.mem_of_getLast? found))
          omega
        · rw [List.mem_singleton.mp same] at less
          exact absurd less (lt_irrefl _)
    have above : (vm.ranges.lowerBound address).all (fun p => p.1 > address) = true := by
      refine Option.all_eq_true _ _ |>.mpr fun next found => ?_
      have bound := cross p before next (List.mem_of_head? found)
      have past : address < next.1 := by
        rw [BitVec.lt_def]
        omega
      simpa using past
    rw [last]
    exact if_pos above
  · have least := SortedMap.le_of_mem_atLeast after
    have same : p.1 = address := le_antisymm (BitVec.le_def.mpr starts) least
    obtain ⟨next, rest, split⟩ := List.exists_cons_of_ne_nil (List.ne_nil_of_mem after)
    have found : vm.ranges.lowerBound address = some next := by rw [SortedMap.lowerBound, split, List.head?_cons]
    have here : vm.ranges.lowerBound address = some p := by
      rcases SortedMap.lowerBound_le found after with rfl | less
      · exact found
      · rw [same] at less
        exact absurd (SortedMap.le_of_lowerBound found) (not_le.mpr less)
    split
    · exact here
    · rw [if_neg, here]
      rw [here]
      simp [same]

/-- The interval of a check lies in a range exactly when the comparisons of the code say so. -/
theorem inside_iff (positive : 0 < size.toNat) (fits : stop p ≤ 2 ^ w) :
    (address ≥ p.1 ∧ p.2.size ≥ size ∧ address ≤ p.1 + (p.2.size - size)) ↔
      bytes address size ⊆ bytes p.1 p.2.size := by
  rw [bytes, bytes, Set.Ico_subset_Ico_iff (by omega), ge_iff_le, ge_iff_le, BitVec.le_def, BitVec.le_def]
  rw [stop] at fits
  constructor
  · rintro ⟨starts, large, ends⟩
    rw [BitVec.le_def, BitVec.toNat_add, BitVec.toNat_sub_of_le large, Nat.mod_eq_of_lt (by omega)] at ends
    omega
  · rintro ⟨starts, ends⟩
    have large : size ≤ p.2.size := by
      rw [BitVec.le_def]
      omega
    refine ⟨starts, BitVec.le_def.mp large, ?_⟩
    rw [BitVec.le_def, BitVec.toNat_add, BitVec.toNat_sub_of_le large, Nat.mod_eq_of_lt (by omega)]
    omega

/-- The range that `GetReservationRange` finds is the one around the interval. -/
theorem Kept.getReservationRange_iff (kept : vm.Kept) (nonzero : size ≠ 0) :
    vm.getReservationRange address size = some p ↔
      p ∈ vm.ranges.entries ∧ bytes address size ⊆ bytes p.1 p.2.size := by
  have positive := positive_of_ne nonzero
  unfold getReservationRange
  rw [Option.filter_eq_some_iff, decide_eq_true_iff]
  constructor
  · rintro ⟨found, inside⟩
    have member := mem_of_nearest found
    exact ⟨member, (inside_iff positive (kept.fits p member).2).mp inside⟩
  · rintro ⟨member, inside⟩
    refine ⟨?_, (inside_iff positive (kept.fits p member).2).mpr inside⟩
    rw [bytes, bytes, Set.Ico_subset_Ico_iff (by omega)] at inside
    refine kept.nearest member inside.1 ?_
    rw [stop]
    omega

theorem refused_unchanged (c : Call w) (thrown : (vm.call c).1 ≠ none) : (vm.call c).2 = vm := by
  cases c with
  | reserve address size pid perm =>
    simp only [call, VirtualMemory.reserve] at thrown ⊢
    split at thrown <;> rename_i nonzero
    · rw [if_pos nonzero]
      split at thrown <;> rename_i next
      · rw [if_pos next]
      · split at thrown <;> rename_i previous
        · rw [if_neg next, if_pos previous]
        · exact absurd rfl thrown
    · exact absurd rfl thrown
  | unreserve address size =>
    simp only [call, VirtualMemory.unreserve] at thrown ⊢
    cases found : vm.ranges.find address with
    | none => rfl
    | some p =>
      simp only [found] at thrown ⊢
      split at thrown <;> rename_i wrong
      · rw [if_pos wrong]
      · exact absurd rfl thrown
  | unreserveAll pid => exact absurd rfl thrown

theorem Kept.sound (kept : vm.Kept) : vm.Sound where
  disjoint := by
    refine kept.apart.imp fun {p q} before => Set.Ico_disjoint_Ico.mpr ?_
    rw [stop] at before
    omega
  total := kept.total
  number := kept.number
  releases _ := unreserveLoop_entries vm.ranges.entries vm [] rfl
  refused := refused_unchanged
  checks address size access nonzero := by
    unfold checkPermissions
    rw [Option.any_eq_true]
    constructor
    · rintro ⟨p, found, granted⟩
      obtain ⟨member, inside⟩ := (kept.getReservationRange_iff nonzero).mp found
      exact ⟨p, member, inside, by simpa using granted⟩
    · rintro ⟨p, member, inside, granted⟩
      exact ⟨p, (kept.getReservationRange_iff nonzero).mpr ⟨member, inside⟩, by simpa using granted⟩

theorem Kept.call {c : Call w} (kept : vm.Kept) (below : vm.StaysBelowTop c) : (vm.call c).2.Kept := by
  cases c with
  | reserve address size pid perm => exact kept.reserve below
  | unreserve address size => exact kept.unreserve
  | unreserveAll pid => exact unreserveLoop_kept vm.ranges.entries vm [] kept rfl

end

theorem initial_kept : (initial : VirtualMemory w).Kept where
  apart := .nil
  fits := by simp [initial, SortedMap.empty]
  total := by simp [initial, SortedMap.empty, sizes]
  number := by simp [initial, SortedMap.empty]

/-- The bookkeeping is right after every sequence of calls whose ranges stay below the top. -/
theorem reservations_sound {calls : List (Call w)} {vm : VirtualMemory w}
    (run : Run step StaysBelowTop initial calls vm) : vm.Sound := by
  refine Kept.sound (run.invariant initial_kept ?_)
  intro vm c after kept below taken
  cases Option.some.inj taken
  exact kept.call below

theorem initial_belowTop {address size pid : BitVec w} {perm : BitVec 32} (inside : address.toNat + size.toNat ≤ 2 ^ w)
    (few : size.toNat < 2 ^ 64) : StaysBelowTop initial (.reserve address size pid perm) := by
  refine fun _ => ⟨?_, fun _ => ⟨inside, ?_⟩⟩
  · rintro ⟨p, member, _⟩
    cases member
  · simpa [initial, SortedMap.empty, sizes] using few

/-- The last page of the address space is reserved and released. -/
theorem reservations_sound_lastPage : ∃ vm : VirtualMemory 64,
    Run step StaysBelowTop initial [.reserve 0xFFFFFFFFFFFFF000 0x1000 1 6, .unreserveAll 1] vm ∧ vm.Sound := by
  have first : Run step StaysBelowTop (initial : VirtualMemory 64) [.reserve 0xFFFFFFFFFFFFF000 0x1000 1 6] _ :=
    .next .start (initial_belowTop (by decide) (by decide)) rfl
  have second : Run step StaysBelowTop (initial : VirtualMemory 64)
      [.reserve 0xFFFFFFFFFFFFF000 0x1000 1 6, .unreserveAll 1] _ :=
    .next first (show StaysBelowTop _ (.unreserveAll 1) from trivial) rfl
  exact ⟨_, second, reservations_sound second⟩

/-- The calls for the last thread of the last core, and for a page that a program maps inside its TLS. -/
def mapLastThread (pidBits tidBits : Nat) (pid tid address size : BitVec 64) : List (Call 64) :=
  let base := getTLSAddress 64 pidBits tidBits pid tid
  let half := getTLSSize 64 pidBits tidBits / 2
  [.reserve (base + half) half 0 30, .reserve address size 0 30]

/-- The upper half of the last TLS ends at the top, so that its end is 0, and a page in it is reserved again. -/
theorem lastThread_overlaps : ∃ vm : VirtualMemory 64,
    Run step (fun _ _ => True) initial (mapLastThread 1 8 1 255 0xFFFFFFFFFFFFF000 0x1000) vm ∧ ¬ vm.Sound := by
  have done : ((execute step initial (mapLastThread 1 8 1 255 0xFFFFFFFFFFFFF000 0x1000)).map fun vm =>
      vm.ranges.entries) = some [(0xFFE0000000000000, ⟨0x20000000000000, 0, 30⟩),
        (0xFFFFFFFFFFFFF000, ⟨0x1000, 0, 30⟩)] := by
    decide +kernel
  obtain ⟨vm, run, entries⟩ := Option.map_eq_some_iff.mp done
  refine ⟨vm, run_of_execute (fun _ _ _ => trivial) run, fun sound => ?_⟩
  have disjoint := sound.disjoint
  rw [entries, List.pairwise_pair, bytes, bytes, Set.Ico_disjoint_Ico] at disjoint
  revert disjoint
  decide

end VirtualMemory
end Mgsim.Memory
