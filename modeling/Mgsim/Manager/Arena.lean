import Mgsim.Lib.PrefixMap
import Mgsim.Manager.PageTable

namespace Mgsim.Manager
open Mgsim.Lib

/-- A position below the root table: one entry number for each level. -/
abbrev Path := List (Fin 512)

/-- The table reached from the table in `table` by following pointer entries. -/
def descend (mem : Mem) : Frame → Path → Option Frame
  | table, [] => some table
  | table, i :: rest =>
    let entry := mem table i
    if entry.p && entry.t then descend mem (frameOf (getPointer entry)) rest else none

/-- The page entry that stands exactly at the end of a path. -/
def leafAt (mem : Mem) : Frame → Path → Option Pte
  | _, [] => none
  | table, i :: rest =>
    let entry := mem table i
    if !entry.p then none
    else if entry.t then leafAt mem (frameOf (getPointer entry)) rest
    else if rest.isEmpty then some entry else none

theorem descend_cons (mem : Mem) (table : Frame) (i : Fin 512) (rest : Path) : descend mem table (i :: rest) =
    if (mem table i).p && (mem table i).t then descend mem (frameOf (getPointer (mem table i))) rest else none := rfl

theorem leafAt_cons (mem : Mem) (table : Frame) (i : Fin 512) (rest : Path) : leafAt mem table (i :: rest) =
    if !(mem table i).p then none
    else if (mem table i).t then leafAt mem (frameOf (getPointer (mem table i))) rest
    else if rest.isEmpty then some (mem table i) else none := rfl

theorem frameOf_getPointer (entry : Pte) : frameOf (getPointer entry) = entry.addr := by
  apply BitVec.eq_of_toNat_eq
  have bound := entry.addr.isLt
  simp only [frameOf, getPointer, vaddrLso, BitVec.toNat_setWidth, BitVec.toNat_ushiftRight,
    BitVec.toNat_shiftLeft, Nat.shiftRight_eq_div_pow, Nat.shiftLeft_eq]
  omega

@[simp] theorem setPointer_pointerTo_addr (entry : Pte) (frame : Frame) :
    (setPointer entry (pointerTo frame)).addr = frame := by
  apply BitVec.eq_of_toNat_eq
  have bound := frame.isLt
  simp only [setPointer, pointerTo, vaddrLso, BitVec.toNat_setWidth, BitVec.toNat_ushiftRight,
    BitVec.toNat_shiftLeft, Nat.shiftRight_eq_div_pow, Nat.shiftLeft_eq]
  omega

theorem leafAt_cons_pointer {mem : Mem} {table : Frame} {i : Fin 512} (rest : Path)
    (present : (mem table i).p = true) (pointer : (mem table i).t = true) :
    leafAt mem table (i :: rest) = leafAt mem (frameOf (getPointer (mem table i))) rest := by
  simp only [leafAt_cons, present, pointer, Bool.not_true, Bool.false_eq_true, if_false, if_true]

theorem leafAt_cons_page {mem : Mem} {table : Frame} {i : Fin 512} (rest : Path)
    (present : (mem table i).p = true) (page : (mem table i).t = false) :
    leafAt mem table (i :: rest) = if rest = [] then some (mem table i) else none := by
  simp only [leafAt_cons, present, page, Bool.not_true, Bool.false_eq_true, if_false, List.isEmpty_iff]

theorem leafAt_cons_absent {mem : Mem} {table : Frame} {i : Fin 512} (rest : Path)
    (absent : (mem table i).p = false) : leafAt mem table (i :: rest) = none := by
  simp only [leafAt_cons, absent, Bool.not_false, if_true]

theorem leafAt_separated {mem : Mem} {table : Frame} {k k' : Path} {v v' : Pte}
    (first : leafAt mem table k = some v) (second : leafAt mem table k' = some v')
    (pre : k <+: k') : k = k' := by
  induction k generalizing table k' with
  | nil => cases first
  | cons i rest ih =>
    obtain ⟨tail, rfl⟩ := pre
    rw [List.cons_append] at second ⊢
    cases present : (mem table i).p with
    | false => simp [leafAt_cons_absent _ present] at first
    | true =>
      cases pointer : (mem table i).t with
      | true =>
        rw [leafAt_cons_pointer _ present pointer] at first second
        exact congrArg _ (ih first second (List.prefix_append _ _))
      | false =>
        rw [leafAt_cons_page _ present pointer] at first second
        have short : rest = [] := by by_contra more; simp [more] at first
        have shortTail : rest ++ tail = [] := by by_contra more; simp [more] at second
        rw [shortTail, short]

/-- The map that the tables below `pt0` stand for. -/
def pageMap (mem : Mem) (pt0 : Frame) : PrefixMap (Fin 512) Pte where
  get := leafAt mem pt0
  separated := leafAt_separated

theorem descend_append {mem : Mem} {table : Frame} (p q : Path) :
    descend mem table (p ++ q) = (descend mem table p).bind fun t => descend mem t q := by
  induction p generalizing table with
  | nil => rfl
  | cons i rest ih =>
    simp only [List.cons_append, descend_cons]
    split
    · exact ih
    · rfl

theorem descend_cons_pointer {mem : Mem} {table : Frame} {i : Fin 512} (rest : Path)
    (present : (mem table i).p = true) (pointer : (mem table i).t = true) :
    descend mem table (i :: rest) = descend mem (frameOf (getPointer (mem table i))) rest := by
  simp only [descend_cons, present, pointer, Bool.and_self, if_true]

theorem leafAt_append {mem : Mem} {table middle : Frame} {p : Path} (q : Path)
    (reached : descend mem table p = some middle) : leafAt mem table (p ++ q) = leafAt mem middle q := by
  induction p generalizing table with
  | nil => cases Option.some.inj reached; rfl
  | cons i rest ih =>
    have entered := reached
    rw [descend_cons] at entered
    split at entered
    · rename_i pointer
      rw [Bool.and_eq_true] at pointer
      rw [List.cons_append, leafAt_cons_pointer _ pointer.1 pointer.2]
      exact ih entered
    · cases entered

theorem descend_snoc {mem : Mem} {table middle : Frame} {p : Path} {i : Fin 512}
    (reached : descend mem table p = some middle) (entry : Pte) (atEntry : mem middle i = entry) :
    descend mem table (p ++ [i]) = if entry.p && entry.t then some (frameOf (getPointer entry)) else none := by
  rw [descend_append, reached]
  simp only [Option.bind_some, descend, atEntry]

/-- The tables hang together as a tree in the arena that `next_table` has
been taking frames from: every path leads to a table of its own, none of them
is at or behind `next_table`, and none lies below level 0. -/
structure Arena (mem : Mem) (pt0 nextTable : Frame) : Prop where
  injective : ∀ {p q f}, descend mem pt0 p = some f → descend mem pt0 q = some f → p = q
  below : ∀ {p f}, descend mem pt0 p = some f → (f - pt0).toNat < (nextTable - pt0).toNat
  depth : ∀ {p f}, descend mem pt0 p = some f → p.length ≤ 5

theorem Arena.fresh {mem : Mem} {pt0 nextTable f : Frame} {p : Path} (arena : Arena mem pt0 nextTable)
    (reached : descend mem pt0 p = some f) : f ≠ nextTable := by
  rintro rfl
  exact Nat.lt_irrefl _ (arena.below reached)

section Agreement
variable {mem mem' : Mem} {pt0 : Frame}

/-- Two memories that agree along a path have the same table at its end. -/
theorem descend_eq_of_agree {base rest : Path} {table : Frame} (reached : descend mem pt0 base = some table)
    (agree : ∀ p q i f, base ++ rest = p ++ i :: q → descend mem pt0 p = some f → mem' f i = mem f i) :
    descend mem' table rest = descend mem table rest := by
  induction rest generalizing base table with
  | nil => rfl
  | cons i tail ih =>
    have same := agree base tail i table rfl reached
    simp only [descend_cons, same]
    split
    · rename_i pointer
      have next := descend_snoc (i := i) reached _ rfl
      rw [if_pos pointer] at next
      exact ih next fun p q j f split at' => agree p q j f (by simpa using split) at'
    · rfl

theorem leafAt_eq_of_agree {base rest : Path} {table : Frame} (reached : descend mem pt0 base = some table)
    (agree : ∀ p q i f, base ++ rest = p ++ i :: q → descend mem pt0 p = some f → mem' f i = mem f i) :
    leafAt mem' table rest = leafAt mem table rest := by
  induction rest generalizing base table with
  | nil => rfl
  | cons i tail ih =>
    have same := agree base tail i table rfl reached
    cases present : (mem table i).p with
    | false => rw [leafAt_cons_absent _ present, leafAt_cons_absent _ (by rw [same, present])]
    | true =>
      cases pointer : (mem table i).t with
      | true =>
        rw [leafAt_cons_pointer _ present pointer,
          leafAt_cons_pointer _ (by rw [same, present]) (by rw [same, pointer]), same]
        have next := descend_snoc (i := i) reached _ rfl
        rw [if_pos (by rw [present, pointer]; rfl)] at next
        exact ih next fun p q j f split at' => agree p q j f (by simpa using split) at'
      | false =>
        rw [leafAt_cons_page _ present pointer,
          leafAt_cons_page _ (by rw [same, present]) (by rw [same, pointer]), same]

end Agreement

section SetEntry
variable {mem : Mem} {pt0 nextTable table : Frame} {path : Path} {i : Fin 512} {entry : Pte}

theorem setEntry_self : setEntry mem table i entry table i = entry := by
  simp [setEntry]

theorem setEntry_ne {f : Frame} {j : Fin 512} (different : ¬ (f = table ∧ j = i)) :
    setEntry mem table i entry f j = mem f j := by
  by_cases sameTable : f = table
  · subst sameTable
    have other : j ≠ i := fun same => different ⟨rfl, same⟩
    simp [setEntry, other]
  · simp [setEntry, sameTable]

/-- A store to one entry is not seen on a path that does not lead through it. -/
theorem setEntry_agree (arena : Arena mem pt0 nextTable) (reached : descend mem pt0 path = some table)
    {rest : Path} (aside : ¬ path ++ [i] <+: rest) :
    ∀ p q j f, [] ++ rest = p ++ j :: q → descend mem pt0 p = some f →
      setEntry mem table i entry f j = mem f j := by
  intro p q j f split at'
  refine setEntry_ne fun ⟨sameTable, sameEntry⟩ => aside ?_
  subst sameTable
  subst sameEntry
  have samePath := arena.injective reached at'
  exact ⟨q, by simpa [samePath] using split.symm⟩

theorem leafAt_setEntry_of_aside (arena : Arena mem pt0 nextTable)
    (reached : descend mem pt0 path = some table) {rest : Path} (aside : ¬ path ++ [i] <+: rest) :
    leafAt (setEntry mem table i entry) pt0 rest = leafAt mem pt0 rest :=
  @leafAt_eq_of_agree _ _ _ [] _ _ rfl (setEntry_agree arena reached aside)

theorem descend_setEntry_of_aside (arena : Arena mem pt0 nextTable)
    (reached : descend mem pt0 path = some table) {rest : Path} (aside : ¬ path ++ [i] <+: rest) :
    descend (setEntry mem table i entry) pt0 rest = descend mem pt0 rest :=
  @descend_eq_of_agree _ _ _ [] _ _ rfl (setEntry_agree arena reached aside)

/-- Behind a stored entry the old table is still in place. -/
theorem descend_setEntry_base (arena : Arena mem pt0 nextTable) (reached : descend mem pt0 path = some table) :
    descend (setEntry mem table i entry) pt0 path = some table := by
  rw [descend_setEntry_of_aside arena reached, reached]
  intro longer
  have tooLong := longer.length_le
  rw [List.length_append, List.length_singleton] at tooLong
  omega

end SetEntry

section ConstructPt
variable {mem : Mem} {pt0 nextTable : Frame}

/-- The memory after `construct_pt` on an unused table. -/
def clearTable (mem : Mem) (frame : Frame) : Mem :=
  Function.update mem frame fun _ => Pte.zero

theorem clearTable_agree (arena : Arena mem pt0 nextTable) {rest : Path} :
    ∀ p q j f, [] ++ rest = p ++ j :: q → descend mem pt0 p = some f →
      clearTable mem nextTable f j = mem f j := by
  intro p q j f _ at'
  simp [clearTable, arena.fresh at']

theorem leafAt_clearTable (arena : Arena mem pt0 nextTable) (rest : Path) :
    leafAt (clearTable mem nextTable) pt0 rest = leafAt mem pt0 rest :=
  @leafAt_eq_of_agree _ _ _ [] _ _ rfl (clearTable_agree arena)

theorem descend_clearTable (arena : Arena mem pt0 nextTable) (rest : Path) :
    descend (clearTable mem nextTable) pt0 rest = descend mem pt0 rest :=
  @descend_eq_of_agree _ _ _ [] _ _ rfl (clearTable_agree arena)

theorem clearTable_absent (frame : Frame) (i : Fin 512) : (clearTable mem frame frame i).p = false := by
  simp [clearTable, Pte.zero]

theorem nextTable_succ (room : (nextTable - pt0).toNat + 1 < 2 ^ 52) :
    (nextTable + 1 - pt0).toNat = (nextTable - pt0).toNat + 1 := by
  have split : nextTable + 1 - pt0 = nextTable - pt0 + 1 := by bv_omega
  rw [split, BitVec.toNat_add]
  exact Nat.mod_eq_of_lt room

theorem Arena.clearTable (arena : Arena mem pt0 nextTable) (room : (nextTable - pt0).toNat + 1 < 2 ^ 52) :
    Arena (clearTable mem nextTable) pt0 (nextTable + 1) where
  injective := by
    intro p q f atP atQ
    rw [descend_clearTable arena] at atP atQ
    exact arena.injective atP atQ
  below := by
    intro p f reached
    rw [descend_clearTable arena] at reached
    have old := arena.below reached
    rw [nextTable_succ room]
    omega
  depth := by
    intro p f reached
    rw [descend_clearTable arena] at reached
    exact arena.depth reached

end ConstructPt

section Store
variable {mem : Mem} {pt0 nextTable table : Frame} {path : Path} {i : Fin 512} {entry : Pte}

/-- A page entry stored into an absent one adds exactly its own path to the map. -/
theorem leafAt_storePage (arena : Arena mem pt0 nextTable) (reached : descend mem pt0 path = some table)
    (absent : (mem table i).p = false) (present : entry.p = true) (page : entry.t = false) (q : Path) :
    leafAt (setEntry mem table i entry) pt0 q = if q = path ++ [i] then some entry else leafAt mem pt0 q := by
  by_cases through : path ++ [i] <+: q
  · obtain ⟨rest, rfl⟩ := through
    rw [List.append_assoc, List.singleton_append, leafAt_append _ (descend_setEntry_base arena reached),
      leafAt_append _ reached, leafAt_cons_absent _ absent,
      leafAt_cons_page _ (by rw [setEntry_self, present]) (by rw [setEntry_self, page]), setEntry_self]
    simp [List.append_cancel_left_eq]
  · rw [leafAt_setEntry_of_aside arena reached through, if_neg]
    rintro rfl
    exact through (List.prefix_refl _)

theorem descend_storePage (arena : Arena mem pt0 nextTable) (reached : descend mem pt0 path = some table)
    (absent : (mem table i).p = false) (page : entry.t = false) (q : Path) :
    descend (setEntry mem table i entry) pt0 q = descend mem pt0 q := by
  by_cases through : path ++ [i] <+: q
  · obtain ⟨rest, rfl⟩ := through
    rw [List.append_assoc, descend_append, descend_append, descend_setEntry_base arena reached, reached]
    simp [descend_cons, setEntry_self, page, absent]
  · exact descend_setEntry_of_aside arena reached through

theorem Arena.storePage (arena : Arena mem pt0 nextTable) (reached : descend mem pt0 path = some table)
    (absent : (mem table i).p = false) (page : entry.t = false) :
    Arena (setEntry mem table i entry) pt0 nextTable where
  injective := by
    intro p q f atP atQ
    rw [descend_storePage arena reached absent page] at atP atQ
    exact arena.injective atP atQ
  below := by
    intro p f atP
    rw [descend_storePage arena reached absent page] at atP
    exact arena.below atP
  depth := by
    intro p f atP
    rw [descend_storePage arena reached absent page] at atP
    exact arena.depth atP

variable {frame : Frame}

/-- A pointer to a cleared table, stored into an absent entry, adds no page. -/
theorem leafAt_storePointer (arena : Arena mem pt0 nextTable) (reached : descend mem pt0 path = some table)
    (absent : (mem table i).p = false) (entry : Pte) (present : entry.p = true) (pointer : entry.t = true)
    (target : entry.addr = frame) (other : frame ≠ table) (cleared : ∀ j, (mem frame j).p = false) (q : Path) :
    leafAt (setEntry mem table i entry) pt0 q = leafAt mem pt0 q := by
  by_cases through : path ++ [i] <+: q
  · obtain ⟨rest, rfl⟩ := through
    rw [List.append_assoc, List.singleton_append, leafAt_append _ (descend_setEntry_base arena reached),
      leafAt_append _ reached, leafAt_cons_absent _ absent,
      leafAt_cons_pointer _ (by rw [setEntry_self, present]) (by rw [setEntry_self, pointer]), setEntry_self,
      frameOf_getPointer, target]
    cases rest with
    | nil => rfl
    | cons j tail =>
      exact leafAt_cons_absent _ (by rw [setEntry_ne fun same => other same.1, cleared])
  · exact leafAt_setEntry_of_aside arena reached through

theorem descend_storePointer (arena : Arena mem pt0 nextTable) (reached : descend mem pt0 path = some table)
    (absent : (mem table i).p = false) (entry : Pte) (present : entry.p = true) (pointer : entry.t = true)
    (target : entry.addr = frame) (other : frame ≠ table) (cleared : ∀ j, (mem frame j).p = false) (q : Path) :
    descend (setEntry mem table i entry) pt0 q =
      if q = path ++ [i] then some frame else descend mem pt0 q := by
  by_cases through : path ++ [i] <+: q
  · obtain ⟨rest, rfl⟩ := through
    rw [List.append_assoc, descend_append, descend_append, descend_setEntry_base arena reached, reached]
    simp only [Option.bind_some, List.singleton_append]
    rw [descend_cons_pointer _ (by rw [setEntry_self, present]) (by rw [setEntry_self, pointer]), setEntry_self,
      frameOf_getPointer, target]
    cases rest with
    | nil => exact (if_pos rfl).symm
    | cons j tail =>
      have still : (setEntry mem table i entry frame j).p = false := by
        rw [setEntry_ne fun same => other same.1, cleared]
      simp [descend_cons, still, absent]
  · rw [descend_setEntry_of_aside arena reached through, if_neg]
    rintro rfl
    exact through (List.prefix_refl _)

theorem Arena.storePointer (arena : Arena mem pt0 nextTable) (reached : descend mem pt0 path = some table)
    (absent : (mem table i).p = false) (entry : Pte) (present : entry.p = true) (pointer : entry.t = true)
    (target : entry.addr = frame) (other : frame ≠ table) (cleared : ∀ j, (mem frame j).p = false)
    (unused : ∀ q, descend mem pt0 q ≠ some frame) (taken : (frame - pt0).toNat < (nextTable - pt0).toNat)
    (shallow : path.length ≤ 4) : Arena (setEntry mem table i entry) pt0 nextTable := by
  have after := descend_storePointer arena reached absent entry present pointer target other cleared
  refine ⟨?_, ?_, ?_⟩
  · intro p q f atP atQ
    rw [after] at atP atQ
    split at atP <;> split at atQ
    · simp_all
    · cases Option.some.inj atP
      exact absurd atQ (unused _)
    · cases Option.some.inj atQ
      exact absurd atP (unused _)
    · exact arena.injective atP atQ
  · intro p f atP
    rw [after] at atP
    split at atP
    · cases Option.some.inj atP
      exact taken
    · exact arena.below atP
  · intro p f atP
    rw [after] at atP
    split at atP
    · rename_i same
      rw [same, List.length_append, List.length_singleton]
      omega
    · exact arena.depth atP

end Store

end Mgsim.Manager
