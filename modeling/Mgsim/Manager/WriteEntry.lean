import Mgsim.Manager.Arena

namespace Mgsim.Manager
open Mgsim.Lib

/-- The lowest `n` sections of an index, highest first. -/
def sections (index : Word) : Nat → Path
  | 0 => []
  | n + 1 => getIndexSection index n :: sections index n

@[simp] theorem sections_length (index : Word) (n : Nat) : (sections index n).length = n := by
  induction n with
  | zero => rfl
  | succ n ih => simp only [sections, List.length_cons, ih]

/-- The path of the entry that a page of this size has for an index. -/
def pageKey (index : Word) (pageSize : Nat) : Path :=
  (sections index 6).take (6 - pageSize)

theorem take_sections_succ (index : Word) (n k : Nat) :
    (sections index (n + 1)).take (k + 1) = getIndexSection index n :: (sections index n).take k := rfl

theorem frameOf_shift_aligned {dst : Word} (aligned : dst &&& 4095 = 0) :
    (frameOf dst).setWidth 64 <<< vaddrLso = dst := by
  have low : dst.toNat % 4096 = 0 := by
    have bits := congrArg BitVec.toNat aligned
    rw [BitVec.toNat_and] at bits
    exact (Nat.and_two_pow_sub_one_eq_mod dst.toNat 12).symm.trans bits
  apply BitVec.eq_of_toNat_eq
  have bound := dst.isLt
  simp only [frameOf, vaddrLso, BitVec.toNat_setWidth, BitVec.toNat_ushiftRight, BitVec.toNat_shiftLeft,
    Nat.shiftRight_eq_div_pow, Nat.shiftLeft_eq]
  omega

/-- Everything that a call of `write_entry` can have done: a new page at its
own path and nowhere else, or no change of the map. An overlap is refused. -/
inductive WriteOutcome (pt0 : Frame) (key : Path) (dst : Word) (r w x : BitVec 8) (s : PtSet) :
    Int × PtSet → Prop
  | stored {s' : PtSet} {entry : Pte} : Arena s'.mem pt0 s'.nextTable →
      (∀ q, leafAt s'.mem pt0 q = if q = key then some entry else leafAt s.mem pt0 q) →
      entry.addr = frameOf dst → entry.r = r.getLsbD 0 → entry.w = w.getLsbD 0 → entry.x = x.getLsbD 0 →
      ¬ (pageMap s.mem pt0).Overlaps key → WriteOutcome pt0 key dst r w x s (1, s')
  | refused {s' : PtSet} : Arena s'.mem pt0 s'.nextTable →
      (∀ q, leafAt s'.mem pt0 q = leafAt s.mem pt0 q) → WriteOutcome pt0 key dst r w x s (-32, s')
  | exhausted {s' : PtSet} : Arena s'.mem pt0 s'.nextTable →
      (∀ q, leafAt s'.mem pt0 q = leafAt s.mem pt0 q) →
      ¬ (pageMap s.mem pt0).Overlaps key → WriteOutcome pt0 key dst r w x s (0, s')

/-- An outcome seen from an earlier state with the same map. -/
theorem WriteOutcome.of_same_map {pt0 : Frame} {key : Path} {dst : Word} {r w x : BitVec 8} {s before : PtSet}
    {out : Int × PtSet} (outcome : WriteOutcome pt0 key dst r w x s out)
    (same : ∀ q, leafAt s.mem pt0 q = leafAt before.mem pt0 q) : WriteOutcome pt0 key dst r w x before out := by
  have overlaps : (pageMap s.mem pt0).Overlaps key ↔ (pageMap before.mem pt0).Overlaps key := by
    simp only [PrefixMap.Overlaps, pageMap, same]
  cases outcome with
  | stored arena map addr hr hw hx free =>
    exact .stored arena (fun q => by rw [map, same]) addr hr hw hx (overlaps.not.mp free)
  | refused arena map => exact .refused arena fun q => (map q).trans (same q)
  | exhausted arena map free => exact .exhausted arena (fun q => (map q).trans (same q)) (overlaps.not.mp free)

/-- Below an absent entry there is no page, and above it only what covers the key. -/
theorem not_overlaps_of_absent {mem : Mem} {pt0 table : Frame} {path rest : Path} {i : Fin 512}
    (reached : descend mem pt0 path = some table) (absent : (mem table i).p = false)
    (largest : ∀ q v, leafAt mem pt0 q = some v → q <+: path ++ i :: rest → q = path ++ i :: rest) :
    ¬ (pageMap mem pt0).Overlaps (path ++ i :: rest) := by
  have below : ∀ tail, leafAt mem pt0 (path ++ i :: tail) = none := by
    intro tail
    rw [leafAt_append _ reached, leafAt_cons_absent _ absent]
  rintro ⟨q, v, atQ, shorter | ⟨tail, rfl⟩⟩
  · rw [largest q v atQ shorter] at atQ
    exact absurd atQ (by simp [pageMap, below])
  · rw [List.append_assoc, List.cons_append] at atQ
    exact absurd atQ (by simp [pageMap, below])

section Loop
variable {pt0 : Frame} {ptsIndex dst : Word} {r w x : BitVec 8}

/-- The leaf case of the loop. -/
theorem writeEntryFrom_leaf {min : Nat} {s : PtSet} {table : Frame} {path : Path}
    (arena : Arena s.mem pt0 s.nextTable) (reached : descend s.mem pt0 path = some table)
    (room : (s.nextTable - pt0).toNat + 1 < 2 ^ 52)
    (largest : ∀ q v, leafAt s.mem pt0 q = some v → q <+: path ++ [getIndexSection ptsIndex min] →
      q = path ++ [getIndexSection ptsIndex min]) :
    WriteOutcome pt0 (path ++ [getIndexSection ptsIndex min]) dst r w x s
      (writeEntryFrom ptsIndex dst min r w x 0 s table) := by
  simp only [writeEntryFrom]
  split
  · exact .refused arena fun _ => rfl
  · rename_i absent
    rw [Bool.not_eq_true] at absent
    have cleared := arena.clearTable room
    have still : descend (clearTable s.mem s.nextTable) pt0 path = some table := by
      rw [descend_clearTable arena, reached]
    have same : clearTable s.mem s.nextTable table = s.mem table := by
      simp [clearTable, arena.fresh reached]
    have absent' : (clearTable s.mem s.nextTable table (getIndexSection ptsIndex min)).p = false := by
      rw [same, absent]
    have map : ∀ q, leafAt (setEntry (clearTable s.mem s.nextTable) table (getIndexSection ptsIndex min)
        (pageEntry (clearTable s.mem s.nextTable table (getIndexSection ptsIndex min)) dst r w x)) pt0 q =
        if q = path ++ [getIndexSection ptsIndex min] then
          some (pageEntry (clearTable s.mem s.nextTable table (getIndexSection ptsIndex min)) dst r w x)
        else leafAt s.mem pt0 q := by
      intro q
      rw [← leafAt_clearTable arena]
      exact leafAt_storePage cleared still absent' rfl rfl q
    exact .stored (cleared.storePage still absent' rfl) map rfl rfl rfl rfl
      (not_overlaps_of_absent reached absent largest)

/-- The loop from any table that the way to the page has reached. The page
is not inside a larger one, and the arena has room for the tables on the way. -/
theorem writeEntryFrom_outcome {min remaining : Nat} {s : PtSet} {table : Frame} {path : Path}
    (arena : Arena s.mem pt0 s.nextTable) (reached : descend s.mem pt0 path = some table)
    (level : path.length + remaining ≤ 5) (room : (s.nextTable - pt0).toNat + (remaining + 1) < 2 ^ 52)
    (largest : ∀ q v, leafAt s.mem pt0 q = some v →
      q <+: path ++ (sections ptsIndex (min + remaining + 1)).take (remaining + 1) →
      q = path ++ (sections ptsIndex (min + remaining + 1)).take (remaining + 1)) :
    WriteOutcome pt0 (path ++ (sections ptsIndex (min + remaining + 1)).take (remaining + 1)) dst r w x s
      (writeEntryFrom ptsIndex dst min r w x remaining s table) := by
  induction remaining generalizing s table path with
  | zero => exact writeEntryFrom_leaf arena reached room largest
  | succ remaining ih =>
    rw [take_sections_succ] at largest ⊢
    have assoc : ∀ tail, path ++ getIndexSection ptsIndex (min + (remaining + 1)) :: tail =
        (path ++ [getIndexSection ptsIndex (min + (remaining + 1))]) ++ tail := by simp
    simp only [writeEntryFrom]
    split
    · rename_i present
      -- an entry on the way that is no pointer would be a page around this one
      have pointer : (s.mem table (getIndexSection ptsIndex (min + remaining + 1))).t = true := by
        by_contra page
        rw [Bool.not_eq_true] at page
        have leaf : leafAt s.mem pt0 (path ++ [getIndexSection ptsIndex (min + (remaining + 1))]) =
            some (s.mem table (getIndexSection ptsIndex (min + remaining + 1))) := by
          rw [leafAt_append _ reached]
          exact (leafAt_cons_page _ present page).trans (if_pos rfl)
        have whole := congrArg List.length (largest _ _ leaf ⟨_, (assoc _).symm⟩)
        simp only [List.length_append, List.length_cons, List.length_nil, List.length_take, sections_length] at whole
        omega
      have next := descend_snoc (i := getIndexSection ptsIndex (min + remaining + 1)) reached _ rfl
      rw [if_pos (by rw [present, pointer]; rfl)] at next
      rw [assoc] at largest ⊢
      exact ih arena next (by rw [List.length_append, List.length_singleton]; omega) (by omega) largest
    · rename_i absent
      rw [Bool.not_eq_true] at absent
      split
      · exact .exhausted arena (fun _ => rfl) (not_overlaps_of_absent reached absent largest)
      · have cleared := arena.clearTable (by omega : (s.nextTable - pt0).toNat + 1 < 2 ^ 52)
        have still : descend (clearTable s.mem s.nextTable) pt0 path = some table := by
          rw [descend_clearTable arena, reached]
        have other := (arena.fresh reached).symm
        have same : clearTable s.mem s.nextTable table = s.mem table := by
          simp [clearTable, arena.fresh reached]
        have absent' :
            (clearTable s.mem s.nextTable table (getIndexSection ptsIndex (min + remaining + 1))).p = false := by
          rw [same, absent]
        have unused : ∀ q, descend (clearTable s.mem s.nextTable) pt0 q ≠ some s.nextTable := by
          intro q at'
          rw [descend_clearTable arena] at at'
          exact arena.fresh at' rfl
        have empty : ∀ j, (clearTable s.mem s.nextTable s.nextTable j).p = false := clearTable_absent s.nextTable
        have grown : (s.nextTable + 1 - pt0).toNat = (s.nextTable - pt0).toNat + 1 := nextTable_succ (by omega)
        have linked := cleared.storePointer still absent'
          (setPointer { clearTable s.mem s.nextTable table
            (getIndexSection ptsIndex (min + remaining + 1)) with p := true, t := true } (pointerTo s.nextTable))
          rfl rfl (setPointer_pointerTo_addr _ _) other empty unused (by omega) (by omega)
        have sameMap := fun q => (leafAt_storePointer cleared still absent'
          (setPointer { clearTable s.mem s.nextTable table
            (getIndexSection ptsIndex (min + remaining + 1)) with p := true, t := true } (pointerTo s.nextTable))
          rfl rfl (setPointer_pointerTo_addr _ _) other empty q).trans (leafAt_clearTable arena q)
        have next := descend_storePointer cleared still absent'
          (setPointer { clearTable s.mem s.nextTable table
            (getIndexSection ptsIndex (min + remaining + 1)) with p := true, t := true } (pointerTo s.nextTable))
          rfl rfl (setPointer_pointerTo_addr _ _) other empty
          (path ++ [getIndexSection ptsIndex (min + remaining + 1)])
        rw [if_pos rfl] at next
        rw [assoc] at largest ⊢
        refine (ih linked next (by rw [List.length_append, List.length_singleton]; omega) ?_ ?_).of_same_map sameMap
        · change (s.nextTable + 1 - pt0).toNat + _ < _
          omega
        · intro q v at' shorter
          exact largest q v ((sameMap q).symm.trans at') shorter

/-- `write_entry` on a page of one of the six levels. -/
theorem writeEntry_outcome {s : PtSet} {pageSize : Nat} (arena : Arena s.mem pt0 s.nextTable)
    (level : pageSize ≤ 5) (room : (s.nextTable - pt0).toNat + 6 < 2 ^ 52)
    (largest : ∀ q v, leafAt s.mem pt0 q = some v → q <+: pageKey ptsIndex pageSize →
      q = pageKey ptsIndex pageSize) :
    WriteOutcome pt0 (pageKey ptsIndex pageSize) dst r w x s (writeEntry s pt0 ptsIndex dst pageSize r w x) := by
  have top : pageSize + (5 - pageSize) + 1 = 6 := by omega
  have width : 5 - pageSize + 1 = 6 - pageSize := by omega
  have run := @writeEntryFrom_outcome pt0 ptsIndex dst r w x pageSize (5 - pageSize) s pt0 [] arena rfl (by simp)
    (by omega)
  rw [top, width, List.nil_append] at run
  have inside : pageSize < ptsIndexWidth / ptIndexWidth := Nat.lt_of_le_of_lt level (by decide)
  simp only [writeEntry, if_pos inside]
  exact run largest

end Loop

section WalkSpec
variable {mem : Mem} {pt0 : Frame}

theorem getIndexSection_shift (addr : Word) (n : Nat) :
    getIndexSection (addr >>> (ptIndexWidth * n)) 0 = getIndexSection addr n := by
  simp [getIndexSection]

/-- The three ways in which the walk over `n` sections ends. -/
theorem walkPageTableFrom_outcome (addr : Word) (n : Nat) (table : Frame) (entry : Pte) (levels : Nat) :
    (∃ k v, k <+: sections addr n ∧ leafAt mem table k = some v ∧
      walkPageTableFrom mem addr n (ptIndexWidth * n) table entry levels = ⟨1, v, levels + k.length⟩) ∨
    ((walkPageTableFrom mem addr n (ptIndexWidth * n) table entry levels).result = 0 ∧
      ∀ k, k <+: sections addr n → leafAt mem table k = none) ∨
    ((walkPageTableFrom mem addr n (ptIndexWidth * n) table entry levels).result = -16 ∧
      (descend mem table (sections addr n)).isSome) := by
  induction n generalizing table entry levels with
  | zero => exact Or.inr (Or.inr ⟨rfl, rfl⟩)
  | succ n ih =>
    have width : ptIndexWidth * (n + 1) - ptIndexWidth = ptIndexWidth * n := by
      rw [Nat.mul_succ, Nat.add_sub_cancel]
    simp only [walkPageTableFrom, sections, width, getIndexSection_shift]
    cases present : (mem table (getIndexSection addr n)).p with
    | false =>
      refine Or.inr (Or.inl ⟨rfl, ?_⟩)
      rintro (_ | ⟨i, tail⟩) pre
      · rfl
      · rw [List.cons_prefix_cons] at pre
        rw [pre.1, leafAt_cons_absent _ present]
    | true =>
      cases pointer : (mem table (getIndexSection addr n)).t with
      | false =>
        exact Or.inl ⟨[getIndexSection addr n], _, by simp,
          (leafAt_cons_page _ present pointer).trans (if_pos rfl), rfl⟩
      | true =>
        rcases ih (frameOf (getPointer (mem table (getIndexSection addr n))))
          (mem table (getIndexSection addr n)) (levels + 1) with
          ⟨k, v, pre, leaf, walk⟩ | ⟨walk, none⟩ | ⟨walk, deep⟩
        · refine Or.inl ⟨getIndexSection addr n :: k, v, List.cons_prefix_cons.mpr ⟨rfl, pre⟩, ?_, ?_⟩
          · rw [leafAt_cons_pointer _ present pointer, leaf]
          · simpa [Nat.add_assoc, Nat.add_comm 1] using walk
        · refine Or.inr (Or.inl ⟨by simpa using walk, ?_⟩)
          rintro (_ | ⟨i, tail⟩) pre
          · rfl
          · rw [List.cons_prefix_cons] at pre
            rw [pre.1, leafAt_cons_pointer _ present pointer]
            exact none tail pre.2
        · refine Or.inr (Or.inr ⟨by simpa using walk, ?_⟩)
          rw [descend_cons_pointer _ present pointer]
          exact deep

end WalkSpec

end Mgsim.Manager
