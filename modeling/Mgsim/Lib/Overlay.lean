import Mathlib.Data.List.Destutter
import Mathlib.Algebra.Ring.Nat

namespace Mgsim.Lib

section Patches
universe u v
variable {κ : Type u} {β : Type v}

/-- A table with patches on top, of which the last one at a key counts. -/
def overlay (patches : List (κ → Option β)) (table : κ → β) : κ → β :=
  fun k => ((patches.filterMap fun patch => patch k).getLast?).getD (table k)

variable {patches before after : List (κ → Option β)} {patch : κ → Option β} {table : κ → β} {k : κ}

@[simp] theorem overlay_nil (table : κ → β) : overlay [] table = table := rfl

theorem overlay_untouched (untouched : ∀ patch ∈ patches, patch k = none) : overlay patches table k = table k := by
  have none : (patches.filterMap fun patch => patch k) = [] :=
    List.filterMap_eq_nil_iff.mpr untouched
  rw [overlay, none]
  rfl

/-- A patch on top of all others. -/
theorem overlay_append_one : overlay (patches ++ [patch]) table k = (patch k).getD (overlay patches table k) := by
  simp only [overlay, List.filterMap_append]
  cases value : patch k with
  | none => simp [value]
  | some b => simp [value]

@[simp] theorem overlay_singleton : overlay [patch] table k = (patch k).getD (table k) :=
  @overlay_append_one _ _ [] patch table k

theorem overlay_snoc : overlay (patches ++ [patch]) table = overlay [patch] (overlay patches table) := by
  funext k
  rw [overlay_append_one, overlay_singleton]

/-- Patches on top of a table that has patches already. -/
theorem overlay_append : overlay (before ++ after) table = overlay after (overlay before table) := by
  funext k
  simp only [overlay, List.filterMap_append, List.getLast?_append]
  cases (after.filterMap fun patch => patch k).getLast? <;> rfl

/-- The last patch at a key counts. -/
theorem overlay_eq_findSome? :
    overlay patches table k = (patches.reverse.findSome? fun patch => patch k).getD (table k) := by
  rw [overlay, List.getLast?_filterMap]

/-- The same patches once more change nothing. -/
theorem overlay_idem : overlay patches (overlay patches table) = overlay patches table := by
  funext k
  cases last : (patches.filterMap fun patch => patch k).getLast? with
  | none => simp only [overlay, last, Option.getD_none]
  | some b => simp only [overlay, last, Option.getD_some]

theorem overlay_replicate {n : Nat} (some : 0 < n) :
    overlay (List.replicate n patches).flatten table = overlay patches table := by
  induction n with
  | zero => cases some
  | succ n ih =>
    rw [List.replicate_succ', List.flatten_append, List.flatten_singleton, overlay_append]
    by_cases first : n = 0
    · rw [first]
      rfl
    · rw [ih (Nat.pos_of_ne_zero first), overlay_idem]

/-- Where a patch lies under patches that do not touch its keys, it can be put into the table. -/
theorem overlay_settle (first : ∀ k b, patch k = some b → ∀ other ∈ before, other k = none) :
    overlay (before ++ after) (overlay [patch] table) = overlay (before ++ patch :: after) table := by
  funext k
  simp only [overlay, List.filterMap_append, List.filterMap_cons, List.filterMap_nil]
  cases value : patch k with
  | none => simp
  | some b =>
    have none : (before.filterMap fun other => other k) = [] :=
      List.filterMap_eq_nil_iff.mpr (first k b value)
    rw [none]
    cases rest : after.filterMap fun other => other k with
    | nil => simp
    | cons c tail => simp [List.getLast?_cons]

/-- What is under a patch does not matter at its keys. -/
theorem overlay_settle_again :
    overlay (before ++ patch :: after) (overlay [patch] table) = overlay (before ++ patch :: after) table := by
  funext k
  simp only [overlay, List.filterMap_append, List.filterMap_cons, List.filterMap_nil]
  cases value : patch k with
  | none => simp
  | some b =>
    cases rest : after.filterMap fun other => other k with
    | nil => simp
    | cons c tail => simp [List.getLast?_cons]

/-- Where one of some items writes a key, the last one that does so counts. -/
theorem overlay_last {ι : Type u} (table : κ → β) (f : ι → κ → Option β) (k : κ) {items : List ι} {w : ι} (member : w ∈ items)
    (writes : (f w k).isSome) : ∃ front v back, items = front ++ v :: back ∧ (v = w ∨ w ∈ front) ∧
      f v k = some (overlay (items.map f) table k) := by
  induction items using List.reverseRecOn with
  | nil => cases member
  | append_singleton rest z ih =>
    rw [List.map_append, List.map_singleton, overlay_append_one]
    cases value : f z k with
    | some b =>
      refine ⟨rest, z, [], rfl, ?_, value⟩
      exact (List.mem_append.mp member).symm.imp_left fun last => (List.mem_singleton.mp last).symm
    | none =>
      have earlier : w ∈ rest := by
        refine (List.mem_append.mp member).resolve_right fun last => ?_
        rw [List.mem_singleton.mp last, value] at writes
        cases writes
      obtain ⟨front, v, back, split, order, shown⟩ := ih earlier
      exact ⟨front, v, back ++ [z], by rw [split, List.append_assoc, List.cons_append], order, shown⟩

section Destutter
variable {α : Type u} [DecidableEq α]

/-- An item that is repeated at once counts once. -/
theorem destutter_repeat (before after : List α) (x : α) :
    (before ++ x :: x :: after).destutter (· ≠ ·) = (before ++ x :: after).destutter (· ≠ ·) := by
  cases before with
  | nil => simp [List.destutter_cons']
  | cons first rest =>
    simp only [List.cons_append, List.destutter_cons']
    induction rest generalizing first with
    | nil =>
      by_cases same : first = x
      · subst same
        simp
      · simp [List.destutter'_cons_pos, same]
    | cons second rest ih =>
      by_cases same : first = second
      · subst same
        simpa using ih first
      · simpa [List.destutter'_cons_pos, same] using ih second

/-- A new item at the end counts. -/
theorem destutter_append_fresh {items : List α} {x : α} (fresh : x ∉ items) :
    (items ++ [x]).destutter (· ≠ ·) = items.destutter (· ≠ ·) ++ [x] := by
  cases items with
  | nil => rfl
  | cons first rest =>
    simp only [List.cons_append, List.destutter_cons']
    induction rest generalizing first with
    | nil =>
      have other : first ≠ x := fun same => fresh (by simp [same])
      simp [List.destutter'_cons_pos, other]
    | cons second rest ih =>
      rw [List.mem_cons, not_or] at fresh
      by_cases same : first = second
      · subst same
        simpa using ih first fresh.2
      · simpa [List.destutter'_cons_pos, same] using ih second fresh.2

end Destutter

end Patches

section Placement
universe u
variable {w : Nat} {β : Type u}

/-- The items of a block of data, each with its address. -/
def addressed (base : BitVec w) (data : List β) : List (BitVec w × β) :=
  data.mapIdx fun i item => (base + BitVec.ofNat w i, item)

theorem addressed_append (base : BitVec w) (first second : List β) :
    addressed base (first ++ second) = addressed base first ++ addressed (base + BitVec.ofNat w first.length) second := by
  rw [addressed, List.mapIdx_append]
  refine congrArg₂ _ rfl (List.mapIdx_eq_mapIdx_iff.mpr fun i _ => ?_)
  rw [Nat.add_comm i, BitVec.ofNat_add, BitVec.add_assoc]

/-- An item and a block of data as patches on a memory. -/
def placed (item : BitVec w × β) : BitVec w → Option β := fun a => if a = item.1 then some item.2 else none

def block (base : BitVec w) (data : List β) : BitVec w → Option β := fun a => data[(a - base).toNat]?

theorem toNat_sub_eq_iff {base a : BitVec w} {n : Nat} (bound : n < 2 ^ w) :
    (a - base).toNat = n ↔ a = base + BitVec.ofNat w n := by
  constructor
  · rintro rfl
    rw [BitVec.ofNat_toNat, BitVec.setWidth_eq, BitVec.add_comm, BitVec.sub_add_cancel]
  · rintro rfl
    rw [BitVec.add_comm, BitVec.add_sub_cancel, BitVec.toNat_ofNat, Nat.mod_eq_of_lt bound]

/-- A block that does not wrap around to its start is written item by item. -/
theorem overlay_addressed {table : BitVec w → β} {base : BitVec w} {data : List β} (short : data.length ≤ 2 ^ w) :
    overlay ((addressed base data).map placed) table = overlay [block base data] table := by
  funext a
  rw [overlay_singleton]
  induction data using List.reverseRecOn with
  | nil => rfl
  | append_singleton front item ih =>
    rw [List.length_append, List.length_singleton] at short
    have last : addressed (base + BitVec.ofNat w front.length) [item] = [(base + BitVec.ofNat w front.length, item)] := by
      simp [addressed]
    rw [addressed_append, last, List.map_append, List.map_singleton, overlay_append_one, ih (by omega), placed, block,
      block]
    dsimp only
    split
    · rename_i here
      rw [(toNat_sub_eq_iff (by omega)).mpr here, List.getElem?_concat_length]
      rfl
    · rename_i other
      have elsewhere : (a - base).toNat ≠ front.length := fun same => other ((toNat_sub_eq_iff (by omega)).mp same)
      rw [Option.getD_none]
      by_cases inside : (a - base).toNat < front.length
      · rw [List.getElem?_append_left inside]
      · have beyond : (front ++ [item]).length ≤ (a - base).toNat := by
          rw [List.length_append, List.length_singleton]
          omega
        rw [List.getElem?_eq_none (by omega), List.getElem?_eq_none beyond]

/-- The same for blocks one after another, where later ones may lie on earlier ones. -/
theorem overlay_blocks {ι : Type*} {table : BitVec w → β} {base : ι → BitVec w} {data : ι → List β} {blocks : List ι}
    (short : ∀ i ∈ blocks, (data i).length ≤ 2 ^ w) :
    overlay ((blocks.flatMap fun i => addressed (base i) (data i)).map placed) table =
      overlay (blocks.map fun i => block (base i) (data i)) table := by
  induction blocks generalizing table with
  | nil => rfl
  | cons i rest ih =>
    have others : ∀ j ∈ rest, (data j).length ≤ 2 ^ w := fun j member => short j (List.mem_cons_of_mem _ member)
    rw [List.flatMap_cons, List.map_append, overlay_append, overlay_addressed (short i List.mem_cons_self), ih others,
      ← overlay_append]
    rfl

/-- Blocks of data that each lie within a line, and that come together to these items. -/
structure Pieces (line : Nat) (items : List (BitVec w × β)) (pieces : List (BitVec w × List β)) : Prop where
  within : ∀ piece ∈ pieces, piece.1.toNat % line + piece.2.length ≤ line
  exact : (pieces.flatMap fun piece => addressed piece.1 piece.2) = items

namespace Pieces
variable {line : Nat} {items more : List (BitVec w × β)} {pieces others : List (BitVec w × List β)}
  {base : BitVec w} {data : List β}

theorem nil : Pieces line ([] : List (BitVec w × β)) [] := ⟨by simp, rfl⟩

theorem single (inside : base.toNat % line + data.length ≤ line) : Pieces line (addressed base data) [(base, data)] where
  within piece member := by
    cases List.mem_singleton.mp member
    exact inside
  exact := by simp

theorem append (first : Pieces line items pieces) (second : Pieces line more others) :
    Pieces line (items ++ more) (pieces ++ others) where
  within piece member := (List.mem_append.mp member).elim (first.within piece) (second.within piece)
  exact := by rw [List.flatMap_append, first.exact, second.exact]

/-- Every block of data can be cut into pieces, at worst one by one. -/
theorem exists_of_block (lines : 0 < line) (base : BitVec w) (data : List β) :
    ∃ pieces, Pieces line (addressed base data) pieces := by
  induction data generalizing base with
  | nil => exact ⟨[], nil⟩
  | cons item rest ih =>
    obtain ⟨others, cut⟩ := ih (base + BitVec.ofNat w 1)
    have first : Pieces line (addressed base [item]) [(base, [item])] := single (Nat.mod_lt _ lines)
    refine ⟨[(base, [item])] ++ others, ?_⟩
    rw [← List.singleton_append, addressed_append]
    exact first.append cut

theorem exists_of_blocks {ι : Type*} (lines : 0 < line) (base : ι → BitVec w) (data : ι → List β) (blocks : List ι) :
    ∃ pieces, Pieces line (blocks.flatMap fun i => addressed (base i) (data i)) pieces := by
  induction blocks with
  | nil => exact ⟨[], nil⟩
  | cons block rest ih =>
    obtain ⟨others, cut⟩ := ih
    obtain ⟨pieces, here⟩ := exists_of_block lines (base block) (data block)
    exact ⟨pieces ++ others, here.append cut⟩

end Pieces

end Placement

end Mgsim.Lib
