import Mgsim.Lib.Run
import Mgsim.Manager.WriteEntry

namespace Mgsim.Manager
open Mgsim.Lib

/-- The arguments of one call of `write_entry`, of any page size. -/
structure EntryCall where
  ptsIndex : Word
  dst : Word
  pageSize : Nat
  r : BitVec 8
  w : BitVec 8
  x : BitVec 8
  deriving DecidableEq

/-- The branch of `write_entry` that puts a new table on the way. -/
def linkTable (s : PtSet) (table : Frame) (ptIndex : Fin 512) : Frame × PtSet :=
  let (next, s) := constructPt s
  let s := { s with free := s.free - 1 }
  let entry := { s.mem table ptIndex with p := true, t := true }
  (next, { s with mem := setEntry s.mem table ptIndex (setPointer entry (pointerTo next)) })

/-- The tables that the loop of `write_entry` constructs, in their order. -/
def constructsFrom (ptsIndex : Word) (min : Nat) : Nat → PtSet → Frame → List Frame
  | 0, s, table => if (s.mem table (getIndexSection ptsIndex min)).p then [] else [(constructPt s).1]
  | remaining + 1, s, table =>
    let ptIndex := getIndexSection ptsIndex (min + remaining + 1)
    let entry := s.mem table ptIndex
    if entry.p then constructsFrom ptsIndex min remaining s (frameOf (getPointer entry))
    else if s.free = 0 then []
    else
      let (next, s) := linkTable s table ptIndex
      next :: constructsFrom ptsIndex min remaining s next

namespace EntryCall

def run (c : EntryCall) (s : PtSet) (pt0 : Frame) : Int × PtSet :=
  writeEntry s pt0 c.ptsIndex c.dst c.pageSize c.r c.w c.x

def constructs (c : EntryCall) (s : PtSet) (pt0 : Frame) : List Frame :=
  let max := ptsIndexWidth / ptIndexWidth
  if c.pageSize < max then constructsFrom c.ptsIndex c.pageSize (max - 1 - c.pageSize) s pt0 else []

def key (c : EntryCall) : Path := pageKey c.ptsIndex c.pageSize

end EntryCall

/-- The tables that the way to an entry still lacks. -/
def missingTables (mem : Mem) : Frame → Path → Nat
  | table, i :: j :: rest =>
    if (mem table i).p then missingTables mem (frameOf (getPointer (mem table i))) (j :: rest)
    else (j :: rest).length
  | _, _ => 0

/-- The way to an entry is complete, and the entry is present. -/
def entryPresent (mem : Mem) : Frame → Path → Bool
  | _, [] => false
  | table, [i] => (mem table i).p
  | table, i :: j :: rest => (mem table i).p && entryPresent mem (frameOf (getPointer (mem table i))) (j :: rest)

/-- The loop of `write_entry` up to the table of its last entry, if it gets
there; with the tables that it constructs on the way. -/
def approach : Path → PtSet → Frame → Option Frame × PtSet × List Frame
  | i :: j :: rest, s, table =>
    if (s.mem table i).p then approach (j :: rest) s (frameOf (getPointer (s.mem table i)))
    else if s.free = 0 then (none, s, [])
    else
      let linked := linkTable s table i
      let further := approach (j :: rest) linked.2 linked.1
      (further.1, further.2.1, linked.1 :: further.2.2)
  | _, s, table => (some table, s, [])

section Approach
variable {ptsIndex dst : Word} {min : Nat} {r w x : BitVec 8}

/-- What `write_entry` does at the table of its last entry. -/
def storeEntry (ptsIndex dst : Word) (min : Nat) (r w x : BitVec 8) : Option Frame × PtSet × List Frame → Int × PtSet
  | (none, s, _) => (0, s)
  | (some leaf, s, _) => writeEntryFrom ptsIndex dst min r w x 0 s leaf

/-- The tables on the way, and the one that the last entry takes. -/
def constructed (ptsIndex : Word) (min : Nat) : Option Frame × PtSet × List Frame → List Frame
  | (none, _, built) => built
  | (some leaf, s, built) => built ++ constructsFrom ptsIndex min 0 s leaf

theorem storeEntry_cons (next : Frame) (out : Option Frame × PtSet × List Frame) :
    storeEntry ptsIndex dst min r w x (out.1, out.2.1, next :: out.2.2) = storeEntry ptsIndex dst min r w x out := by
  rcases out with ⟨_ | leaf, s, built⟩ <;> rfl

theorem constructed_cons (next : Frame) (out : Option Frame × PtSet × List Frame) :
    constructed ptsIndex min (out.1, out.2.1, next :: out.2.2) = next :: constructed ptsIndex min out := by
  rcases out with ⟨_ | leaf, s, built⟩ <;> rfl

/-- The way to the last entry, from a level above it. -/
theorem take_sections_two (n k : Nat) : (sections ptsIndex (n + 2)).take (k + 2) =
    getIndexSection ptsIndex (n + 1) :: getIndexSection ptsIndex n :: (sections ptsIndex n).take k := rfl

/-- `write_entry` goes up to the last table and then stores the entry. -/
theorem writeEntryFrom_eq (remaining : Nat) (s : PtSet) (table : Frame) :
    writeEntryFrom ptsIndex dst min r w x remaining s table = storeEntry ptsIndex dst min r w x
      (approach ((sections ptsIndex (min + remaining + 1)).take (remaining + 1)) s table) := by
  induction remaining generalizing s table with
  | zero => rfl
  | succ remaining ih =>
    have further := @take_sections_two ptsIndex (min + remaining) remaining
    rw [← Nat.add_assoc, further, approach]
    simp only [writeEntryFrom]
    split
    · exact ih _ _
    · split
      · rfl
      · rw [storeEntry_cons]
        exact ih _ _

theorem constructsFrom_eq (remaining : Nat) (s : PtSet) (table : Frame) :
    constructsFrom ptsIndex min remaining s table = constructed ptsIndex min
      (approach ((sections ptsIndex (min + remaining + 1)).take (remaining + 1)) s table) := by
  induction remaining generalizing s table with
  | zero => rfl
  | succ remaining ih =>
    have further := @take_sections_two ptsIndex (min + remaining) remaining
    rw [← Nat.add_assoc, further, approach]
    simp only [constructsFrom]
    split
    · exact ih _ _
    · split
      · rfl
      · rw [constructed_cons]
        exact congrArg _ (ih _ _)

end Approach

/-- The frames that follow each other from one frame on. -/
def framesFrom (frame : Frame) (count : Nat) : List Frame := (List.range count).map fun i => frame + BitVec.ofNat 52 i

theorem framesFrom_succ (frame : Frame) (count : Nat) :
    framesFrom frame (count + 1) = frame :: framesFrom (frame + 1) count := by
  simp only [framesFrom, List.range_succ_eq_map, List.map_cons, List.map_map]
  congr 1
  · simp
  · refine List.map_congr_left fun i _ => ?_
    simp only [Function.comp, Nat.succ_eq_add_one, BitVec.ofNat_add]
    rw [BitVec.add_assoc, BitVec.add_comm 1]
    rfl

theorem framesFrom_append (frame : Frame) (first second : Nat) :
    framesFrom frame (first + second) = framesFrom frame first ++ framesFrom (frame + BitVec.ofNat 52 first) second := by
  simp only [framesFrom, List.range_add, List.map_append, List.map_map]
  congr 1
  refine List.map_congr_left fun i _ => ?_
  simp only [Function.comp, BitVec.ofNat_add, BitVec.add_assoc]

@[simp] theorem framesFrom_length (frame : Frame) (count : Nat) : (framesFrom frame count).length = count := by
  simp [framesFrom]

/-- The table set with some more tables on the ways to its pages: each is the
next one of the reserve, is linked once, and is taken from the free ones. -/
structure Grown (pt0 : Frame) (s s' : PtSet) (built : List Frame) : Prop where
  arena : Arena s'.mem pt0 s'.nextTable
  map : ∀ q, leafAt s'.mem pt0 q = leafAt s.mem pt0 q
  kept : ∀ p f, descend s.mem pt0 p = some f → descend s'.mem pt0 p = some f
  reached : ∀ f ∈ built, ∃ p, p ≠ [] ∧ descend s'.mem pt0 p = some f
  frames : built = framesFrom s.nextTable built.length
  next : s'.nextTable = s.nextTable + BitVec.ofNat 52 built.length
  count : s'.free.toNat + built.length = s.free.toNat

section Grown
variable {pt0 table : Frame} {s s' s'' : PtSet} {built built' : List Frame} {path way : Path} {i : Fin 512}

theorem Grown.refl (arena : Arena s.mem pt0 s.nextTable) : Grown pt0 s s [] where
  arena := arena
  map _ := rfl
  kept _ _ reached := reached
  reached f member := absurd member List.not_mem_nil
  frames := rfl
  next := by simp
  count := rfl

theorem Grown.trans (first : Grown pt0 s s' built) (second : Grown pt0 s' s'' built') :
    Grown pt0 s s'' (built ++ built') where
  arena := second.arena
  map q := (second.map q).trans (first.map q)
  kept p f reached := second.kept p f (first.kept p f reached)
  reached f member := by
    rcases List.mem_append.mp member with old | new
    · obtain ⟨p, nonempty, reached⟩ := first.reached f old
      exact ⟨p, nonempty, second.kept p f reached⟩
    · exact second.reached f new
  frames := by
    rw [List.length_append, framesFrom_append, ← first.frames, ← first.next, ← second.frames]
  next := by
    rw [second.next, first.next, List.length_append, BitVec.ofNat_add, BitVec.add_assoc]
  count := by
    have one := first.count
    have two := second.count
    rw [List.length_append]
    omega

/-- The new table is empty, and the way leads into it. -/
structure Links (pt0 : Frame) (path : Path) (s : PtSet) (linked : Frame × PtSet) : Prop where
  grown : Grown pt0 s linked.2 [linked.1]
  reached : descend linked.2.mem pt0 path = some linked.1
  empty : ∀ j, (linked.2.mem linked.1 j).p = false

theorem linkTable_links (arena : Arena s.mem pt0 s.nextTable) (reached : descend s.mem pt0 path = some table)
    (absent : (s.mem table i).p = false) (some : s.free ≠ 0)
    (room : (s.nextTable - pt0).toNat + s.free.toNat < 2 ^ 52) (shallow : path.length ≤ 4) :
    Links pt0 (path ++ [i]) s (linkTable s table i) := by
  have positive : 0 < s.free.toNat := by
    have nonzero : s.free.toNat ≠ 0 := fun zero => some (BitVec.eq_of_toNat_eq zero)
    omega
  have below : (s.nextTable - pt0).toNat + 1 < 2 ^ 52 := by omega
  have cleared := arena.clearTable below
  have still : descend (clearTable s.mem s.nextTable) pt0 path = .some table := by
    rw [descend_clearTable arena, reached]
  have other := (arena.fresh reached).symm
  have same : clearTable s.mem s.nextTable table = s.mem table := by
    simp [clearTable, arena.fresh reached]
  have absent' : (clearTable s.mem s.nextTable table i).p = false := by rw [same, absent]
  have unused : ∀ q, descend (clearTable s.mem s.nextTable) pt0 q ≠ .some s.nextTable := by
    intro q at'
    rw [descend_clearTable arena] at at'
    exact arena.fresh at' rfl
  have empty : ∀ j, (clearTable s.mem s.nextTable s.nextTable j).p = false := clearTable_absent s.nextTable
  have grown : (s.nextTable + 1 - pt0).toNat = (s.nextTable - pt0).toNat + 1 := nextTable_succ below
  have after := descend_storePointer cleared still absent'
    (setPointer { clearTable s.mem s.nextTable table i with p := true, t := true } (pointerTo s.nextTable))
    rfl rfl (setPointer_pointerTo_addr _ _) other empty
  have link : descend (linkTable s table i).2.mem pt0 (path ++ [i]) = .some s.nextTable :=
    (after _).trans (if_pos rfl)
  refine ⟨⟨?_, ?_, ?_, ?_, ?_, ?_, ?_⟩, link, ?_⟩
  · exact cleared.storePointer still absent' _ rfl rfl (setPointer_pointerTo_addr _ _) other empty unused (by omega)
      shallow
  · intro q
    exact (leafAt_storePointer cleared still absent' _ rfl rfl (setPointer_pointerTo_addr _ _) other empty q).trans
      (leafAt_clearTable arena q)
  · intro p f at'
    refine (after p).trans ?_
    by_cases own : p = path ++ [i]
    · subst own
      rw [descend_snoc reached _ rfl, absent] at at'
      cases at'
    · rw [if_neg own, descend_clearTable arena, at']
  · intro f member
    rw [List.mem_singleton.mp member]
    exact ⟨path ++ [i], by simp, link⟩
  · simp [framesFrom, linkTable, constructPt]
  · simp [linkTable, constructPt]
  · have taken : (s.free - 1).toNat = s.free.toNat - 1 := by
      have bound := s.free.isLt
      have one : (1 : Word).toNat = 1 := rfl
      rw [BitVec.toNat_sub, one]
      omega
    change (s.free - 1).toNat + 1 = s.free.toNat
    omega
  · intro j
    exact (congrArg Pte.p (setEntry_ne fun both => other both.1)).trans (empty j)

end Grown

/-- Below a table without entries everything is missing. -/
theorem missing_of_empty {mem : Mem} {table : Frame} (empty : ∀ j, (mem table j).p = false) (way : Path) :
    missingTables mem table way = way.length - 1 ∧ entryPresent mem table way = false := by
  match way with
  | [] => exact ⟨rfl, rfl⟩
  | [i] => exact ⟨rfl, empty i⟩
  | i :: j :: rest =>
    simp only [missingTables, entryPresent, empty i, Bool.false_eq_true, if_false, Bool.false_and, List.length_cons]
    exact ⟨rfl, trivial⟩

/-- How `write_entry` comes to the table of its last entry: it has constructed
what was missing, or all that was free. -/
inductive Approached (pt0 : Frame) (path way : Path) (s : PtSet) (table : Frame) :
    Option Frame × PtSet × List Frame → Prop
  | stuck {s' built} : Grown pt0 s s' built → s.free.toNat < missingTables s.mem table way →
      Approached pt0 path way s table (none, s', built)
  | arrives {s' built leaf} : Grown pt0 s s' built → missingTables s.mem table way = built.length →
      descend s'.mem pt0 (path ++ way.dropLast) = some leaf →
      (∀ i, way.getLast? = some i → (s'.mem leaf i).p = entryPresent s.mem table way) →
      Approached pt0 path way s table (some leaf, s', built)

theorem approach_approached {pt0 table : Frame} {path way : Path} {s : PtSet} (arena : Arena s.mem pt0 s.nextTable)
    (reached : descend s.mem pt0 path = some table) (room : (s.nextTable - pt0).toNat + s.free.toNat < 2 ^ 52)
    (short : path.length + way.length ≤ 6)
    (largest : ∀ q v, leafAt s.mem pt0 q = some v → q <+: path ++ way → q = path ++ way) :
    Approached pt0 path way s table (approach way s table) := by
  induction way generalizing s table path with
  | nil => exact .arrives (.refl arena) rfl (by simpa using reached) (by simp)
  | cons i tail ih =>
    cases tail with
    | nil =>
      refine .arrives (.refl arena) rfl (by simpa using reached) fun last same => ?_
      cases Option.some.inj same
      rfl
    | cons j rest =>
      have assoc : path ++ i :: j :: rest = (path ++ [i]) ++ j :: rest := by simp
      have shorter : (path ++ [i]).length + (j :: rest).length ≤ 6 := by
        simp only [List.length_append, List.length_cons, List.length_nil] at short ⊢
        omega
      simp only [approach]
      split
      · rename_i present
        -- an entry on the way that is no pointer would be a page around this one
        have pointer : (s.mem table i).t = true := by
          by_contra page
          rw [Bool.not_eq_true] at page
          have leaf : leafAt s.mem pt0 (path ++ [i]) = some (s.mem table i) := by
            rw [leafAt_append _ reached]
            exact (leafAt_cons_page _ present page).trans (if_pos rfl)
          have whole := congrArg List.length (largest _ _ leaf ⟨_, assoc.symm⟩)
          simp at whole
        have next := descend_snoc (i := i) reached _ rfl
        rw [if_pos (by rw [present, pointer]; rfl)] at next
        have further := ih arena next room shorter fun q v at' pre => by
          rw [← assoc] at pre ⊢
          exact largest q v at' pre
        generalize approach (j :: rest) s (frameOf (getPointer (s.mem table i))) = out at further
        cases further with
        | stuck grown few => exact .stuck grown (by simpa only [missingTables, present, if_true] using few)
        | arrives grown missing leaf last =>
          refine .arrives grown (by simpa only [missingTables, present, if_true] using missing) ?_ fun k same => ?_
          · simpa using leaf
          · simp only [entryPresent, present, Bool.true_and]
            exact last k (by simpa using same)
      · rename_i absent
        rw [Bool.not_eq_true] at absent
        have lacks : missingTables s.mem table (i :: j :: rest) = rest.length + 1 := by
          simp [missingTables, absent]
        split
        · rename_i none
          refine .stuck (.refl arena) ?_
          rw [lacks, none]
          exact Nat.succ_pos _
        · rename_i some
          have shallow : path.length ≤ 4 := by
            simp only [List.length_cons] at short
            omega
          have links := linkTable_links arena reached absent some room shallow
          have count := links.grown.count
          rw [List.length_singleton] at count
          have nextTable : ((linkTable s table i).2.nextTable - pt0).toNat = (s.nextTable - pt0).toNat + 1 :=
            nextTable_succ (by omega)
          have further := ih links.grown.arena links.reached
            (by rw [nextTable]; omega) shorter fun q v at' pre => by
              rw [← assoc] at pre ⊢
              exact largest q v ((links.grown.map q).symm.trans at') pre
          obtain ⟨emptyMissing, emptyPresent⟩ := missing_of_empty links.empty (j :: rest)
          generalize approach (j :: rest) (linkTable s table i).2 (linkTable s table i).1 = out at further
          cases further with
          | stuck grown few =>
            refine .stuck (links.grown.trans grown) ?_
            rw [emptyMissing] at few
            rw [lacks]
            rw [List.length_cons, Nat.add_sub_cancel] at few
            omega
          | arrives grown missing leaf last =>
            refine .arrives (links.grown.trans grown) ?_ ?_ fun k same => ?_
            · rw [emptyMissing, List.length_cons, Nat.add_sub_cancel] at missing
              rw [lacks, missing]
              rfl
            · simpa using leaf
            · rw [last k (by simpa using same), emptyPresent]
              simp [entryPresent, absent]

section Call
variable {pt0 : Frame} {c : EntryCall} {s : PtSet}

theorem take_sections_last (index : Word) (min k : Nat) :
    ((sections index (min + k + 1)).take (k + 1)).getLast? = some (getIndexSection index min) := by
  induction k with
  | zero => simp [sections]
  | succ k ih =>
    have further := @take_sections_two index (min + k) k
    rw [← Nat.add_assoc, further, List.getLast?_cons_cons]
    exact ih

/-- What one call does, and the tables that it constructs. -/
inductive Wrote (pt0 : Frame) (c : EntryCall) (s : PtSet) : Int × PtSet → List Frame → Prop
  | short {s' built} : Grown pt0 s s' built → s.free.toNat < missingTables s.mem pt0 c.key →
      Wrote pt0 c s (0, s') built
  | refused {s' built} : Grown pt0 s s' built → missingTables s.mem pt0 c.key ≤ s.free.toNat →
      entryPresent s.mem pt0 c.key = true → Wrote pt0 c s (-32, s') built
  | stored {s' built leaf i entry path} : Grown pt0 s s' built → missingTables s.mem pt0 c.key = built.length →
      entryPresent s.mem pt0 c.key = false → descend s'.mem pt0 path = some leaf → (s'.mem leaf i).p = false →
      entry.t = false →
      Wrote pt0 c s (1, ⟨setEntry (clearTable s'.mem s'.nextTable) leaf i entry, s'.nextTable + 1, s'.free - 1⟩)
        (built ++ [s'.nextTable])

/-- `write_entry` on a page of one of the six levels. -/
theorem EntryCall.wrote (arena : Arena s.mem pt0 s.nextTable)
    (room : (s.nextTable - pt0).toNat + s.free.toNat < 2 ^ 52) (level : c.pageSize < 6)
    (largest : ∀ q v, leafAt s.mem pt0 q = some v → q <+: c.key → q = c.key) :
    Wrote pt0 c s (c.run s pt0) (c.constructs s pt0) := by
  have width : ptsIndexWidth / ptIndexWidth = 6 := by decide
  have top : c.pageSize + (6 - 1 - c.pageSize) + 1 = 6 := by omega
  have count : 6 - 1 - c.pageSize + 1 = 6 - c.pageSize := by omega
  have last := take_sections_last c.ptsIndex c.pageSize (6 - 1 - c.pageSize)
  have runs := @writeEntryFrom_eq c.ptsIndex c.dst c.pageSize c.r c.w c.x (6 - 1 - c.pageSize) s pt0
  have builds := @constructsFrom_eq c.ptsIndex c.pageSize (6 - 1 - c.pageSize) s pt0
  rw [top, count] at last runs builds
  have length : c.key.length ≤ 6 := by
    rw [EntryCall.key, pageKey, List.length_take]
    exact Nat.le_trans (Nat.min_le_left _ _) (Nat.sub_le _ _)
  have approached := @approach_approached pt0 pt0 [] c.key s arena rfl room (by simp [length]) largest
  simp only [EntryCall.run, EntryCall.constructs, writeEntry, width, level, if_true, runs, builds]
  change Wrote pt0 c s (storeEntry _ _ _ _ _ _ (approach c.key s pt0)) (constructed _ _ (approach c.key s pt0))
  generalize approach c.key s pt0 = out at approached
  cases approached with
  | stuck grown few => exact .short grown few
  | @arrives s' built leaf grown missing leafAt atLast =>
    have seen := atLast _ last
    simp only [storeEntry, constructed, writeEntryFrom, constructsFrom, seen]
    cases present : entryPresent s.mem pt0 c.key with
    | true =>
      have enough := grown.count
      simp only [if_true, List.append_nil]
      exact .refused grown (by omega) present
    | false =>
      simp only [Bool.false_eq_true, if_false]
      exact .stored grown missing present leafAt (by rw [seen, present]) rfl

end Call

/-- The table set, with all tables that `construct_pt` has been called for below the root. -/
structure Reserve where
  set : PtSet
  built : List Frame

namespace Reserve

/-- A root table, and `free` tables reserved behind it. -/
def start (mem : Mem) (pt0 : Frame) (free : Word) : Reserve := ⟨⟨clearTable mem pt0, pt0 + 1, free⟩, []⟩

def step (pt0 : Frame) (a : Reserve) (c : EntryCall) : Reserve :=
  ⟨(c.run a.set pt0).2, a.built ++ c.constructs a.set pt0⟩

def replay (mem : Mem) (pt0 : Frame) (free : Word) (calls : List EntryCall) : Reserve :=
  calls.foldl (step pt0) (start mem pt0 free)

/-- The arena is safe: the count of the free tables has never wrapped, the
tables are in the reserve and different from each other, each of them is one
intermediate table, and a call without the tables it needs changes no page. -/
structure Sound (pt0 : Frame) (free : Word) (a : Reserve) : Prop where
  count : a.set.free.toNat + a.built.length = free.toNat
  inside : ∀ f ∈ a.built, (f - (pt0 + 1)).toNat < free.toNat
  once : a.built.Nodup
  linked : ∀ f, f ∈ a.built ↔ ∃ p, p ≠ [] ∧ descend a.set.mem pt0 p = some f
  alone : ∀ p q f, descend a.set.mem pt0 p = some f → descend a.set.mem pt0 q = some f → p = q
  fails : ∀ c : EntryCall, a.set.free.toNat < missingTables a.set.mem pt0 c.key →
    (c.run a.set pt0).1 = 0 ∧ ∀ q, leafAt (c.run a.set pt0).2.mem pt0 q = leafAt a.set.mem pt0 q

/-- The call does not come to an absent entry of its page. -/
def Spares (pt0 : Frame) (a : Reserve) (c : EntryCall) : Prop :=
  6 ≤ c.pageSize ∨ entryPresent a.set.mem pt0 c.key = true ∨
    a.set.free.toNat < missingTables a.set.mem pt0 c.key

instance (pt0 : Frame) (a : Reserve) (c : EntryCall) : Decidable (Spares pt0 a c) :=
  inferInstanceAs (Decidable (6 ≤ c.pageSize ∨ entryPresent a.set.mem pt0 c.key = true ∨
    a.set.free.toNat < missingTables a.set.mem pt0 c.key))

/-- The tables constructed so far are the first ones of the reserve. -/
structure Tracked (pt0 : Frame) (free : Word) (a : Reserve) : Prop where
  arena : Arena a.set.mem pt0 a.set.nextTable
  frames : a.built = framesFrom (pt0 + 1) a.built.length
  next : a.set.nextTable = pt0 + 1 + BitVec.ofNat 52 a.built.length
  count : a.set.free.toNat + a.built.length = free.toNat

/-- A reserve from which no page entry has been stored. -/
structure Unmapped (pt0 : Frame) (free : Word) (a : Reserve) : Prop extends Tracked pt0 free a where
  reached : ∀ f ∈ a.built, ∃ p, p ≠ [] ∧ descend a.set.mem pt0 p = some f
  empty : ∀ q, leafAt a.set.mem pt0 q = none

section Tracked
variable {pt0 : Frame} {free : Word} {a : Reserve} {s' : PtSet} {built : List Frame}

theorem mem_framesFrom {frame f : Frame} {count : Nat} (bound : count < 2 ^ 52) :
    f ∈ framesFrom frame count ↔ (f - frame).toNat < count := by
  simp only [framesFrom, List.mem_map, List.mem_range]
  constructor
  · rintro ⟨i, lower, rfl⟩
    have distance : frame + BitVec.ofNat 52 i - frame = BitVec.ofNat 52 i := by
      rw [BitVec.add_comm, BitVec.add_sub_cancel]
    rw [distance, BitVec.toNat_ofNat, Nat.mod_eq_of_lt (by omega)]
    exact lower
  · intro lower
    refine ⟨(f - frame).toNat, lower, ?_⟩
    rw [BitVec.ofNat_toNat, BitVec.setWidth_eq, BitVec.add_comm, BitVec.sub_add_cancel]

theorem framesFrom_nodup {frame : Frame} {count : Nat} (bound : count < 2 ^ 52) : (framesFrom frame count).Nodup := by
  refine List.Nodup.map_on (fun i atI j atJ same => ?_) List.nodup_range
  have equal : (BitVec.ofNat 52 i).toNat = (BitVec.ofNat 52 j).toNat := congrArg BitVec.toNat (by bv_omega)
  rw [List.mem_range] at atI atJ
  rwa [BitVec.toNat_ofNat, BitVec.toNat_ofNat, Nat.mod_eq_of_lt (by omega), Nat.mod_eq_of_lt (by omega)] at equal

theorem Tracked.used (tracked : Tracked pt0 free a) (room : free.toNat + 1 < 2 ^ 52) :
    (a.set.nextTable - pt0).toNat = a.built.length + 1 := by
  have count := tracked.count
  have distance : a.set.nextTable - pt0 = BitVec.ofNat 52 (a.built.length + 1) := by
    rw [tracked.next, BitVec.ofNat_add]
    bv_omega
  rw [distance, BitVec.toNat_ofNat, Nat.mod_eq_of_lt (by omega)]

theorem Tracked.room (tracked : Tracked pt0 free a) (room : free.toNat + 1 < 2 ^ 52) :
    (a.set.nextTable - pt0).toNat + a.set.free.toNat < 2 ^ 52 := by
  have count := tracked.count
  rw [tracked.used room]
  omega

theorem Tracked.grow (tracked : Tracked pt0 free a) (grown : Grown pt0 a.set s' built) :
    Tracked pt0 free ⟨s', a.built ++ built⟩ where
  arena := grown.arena
  frames := by
    rw [List.length_append, framesFrom_append, ← tracked.frames, ← tracked.next, ← grown.frames]
  next := by
    rw [grown.next, tracked.next, List.length_append, BitVec.ofNat_add, BitVec.add_assoc]
  count := by
    have before := tracked.count
    have taken := grown.count
    change s'.free.toNat + (a.built ++ built).length = free.toNat
    rw [List.length_append]
    omega

theorem Tracked.mem_built (tracked : Tracked pt0 free a) (room : free.toNat + 1 < 2 ^ 52) (f : Frame) :
    f ∈ a.built ↔ (f - (pt0 + 1)).toNat < a.built.length := by
  have count := tracked.count
  conv => lhs; rw [tracked.frames]
  exact mem_framesFrom (by omega)

/-- The count of the free tables has never wrapped, and the tables are in the
reserve and different from each other. -/
structure Counted (free : Word) (pt0 : Frame) (a : Reserve) : Prop where
  count : a.set.free.toNat + a.built.length = free.toNat
  inside : ∀ f ∈ a.built, (f - (pt0 + 1)).toNat < free.toNat
  once : a.built.Nodup

theorem Tracked.counted (tracked : Tracked pt0 free a) (room : free.toNat + 1 < 2 ^ 52) : Counted free pt0 a := by
  have count := tracked.count
  refine ⟨count, fun f member => ?_, ?_⟩
  · have lower := (tracked.mem_built room f).mp member
    omega
  · rw [tracked.frames]
    exact framesFrom_nodup (by omega)

end Tracked

section Unmapped
variable {pt0 : Frame} {free : Word} {a : Reserve} {mem : Mem}

theorem Unmapped.largest (unmapped : Unmapped pt0 free a) (key : Path) :
    ∀ q v, leafAt a.set.mem pt0 q = some v → q <+: key → q = key := by
  intro q v at'
  rw [unmapped.empty] at at'
  cases at'

theorem Unmapped.wrote (unmapped : Unmapped pt0 free a) (room : free.toNat + 1 < 2 ^ 52) {c : EntryCall}
    (level : c.pageSize < 6) : Wrote pt0 c a.set (c.run a.set pt0) (c.constructs a.set pt0) :=
  c.wrote unmapped.arena (unmapped.toTracked.room room) level (unmapped.largest c.key)

theorem key_of_large {c : EntryCall} (large : 6 ≤ c.pageSize) : c.key = [] := by
  have none : 6 - c.pageSize = 0 := by omega
  rw [EntryCall.key, pageKey, none, List.take_zero]

theorem Unmapped.sound (unmapped : Unmapped pt0 free a) (room : free.toNat + 1 < 2 ^ 52) : Sound pt0 free a := by
  have counted := unmapped.toTracked.counted room
  refine ⟨counted.count, counted.inside, counted.once, fun f => ⟨unmapped.reached f, ?_⟩,
    fun p q f => unmapped.arena.injective, ?_⟩
  · rintro ⟨p, nonempty, reached⟩
    have below := unmapped.arena.below reached
    have notRoot : f ≠ pt0 := by
      rintro rfl
      exact nonempty (unmapped.arena.injective reached rfl)
    rw [unmapped.toTracked.used room] at below
    rw [unmapped.toTracked.mem_built room]
    have behind : f - (pt0 + 1) = f - pt0 - 1 := by bv_omega
    have positive : f - pt0 ≠ 0 := by
      intro zero
      exact notRoot (by bv_omega)
    rw [behind]
    bv_omega
  · intro c lacks
    have level : c.pageSize < 6 := by
      by_contra large
      rw [key_of_large (by omega)] at lacks
      exact Nat.not_lt_zero _ lacks
    have wrote := unmapped.wrote room level
    generalize c.run a.set pt0 = out at wrote
    generalize c.constructs a.set pt0 = built at wrote
    cases wrote with
    | short grown _ => exact ⟨rfl, grown.map⟩
    | refused _ enough _ => omega
    | stored grown missing =>
      have taken := grown.count
      omega

theorem start_unmapped : Unmapped pt0 free (start mem pt0 free) := by
  have onlyRoot : ∀ q f, descend (clearTable mem pt0) pt0 q = some f → q = [] ∧ f = pt0 := by
    intro q f reached
    cases q with
    | nil => exact ⟨rfl, (Option.some.inj reached).symm⟩
    | cons i rest => simp [descend_cons, clearTable_absent] at reached
  have arena : Arena (clearTable mem pt0) pt0 (pt0 + 1) := by
    refine ⟨fun atP atQ => ?_, fun atP => ?_, fun atP => ?_⟩
    · rw [(onlyRoot _ _ atP).1, (onlyRoot _ _ atQ).1]
    · have one : pt0 + 1 - pt0 = 1 := by bv_omega
      rw [(onlyRoot _ _ atP).2, BitVec.sub_self, one]
      decide
    · rw [(onlyRoot _ _ atP).1]
      decide
  refine ⟨⟨arena, rfl, by simp [start], rfl⟩, fun f member => absurd member List.not_mem_nil, fun q => ?_⟩
  cases q with
  | nil => rfl
  | cons i rest => exact leafAt_cons_absent _ (clearTable_absent pt0 i)

theorem Unmapped.grow {s' : PtSet} {built : List Frame} (unmapped : Unmapped pt0 free a)
    (grown : Grown pt0 a.set s' built) : Unmapped pt0 free ⟨s', a.built ++ built⟩ where
  toTracked := unmapped.toTracked.grow grown
  reached f member := by
    rcases List.mem_append.mp member with old | new
    · obtain ⟨p, nonempty, reached⟩ := unmapped.reached f old
      exact ⟨p, nonempty, grown.kept p f reached⟩
    · exact grown.reached f new
  empty q := (grown.map q).trans (unmapped.empty q)

/-- A call that stores no entry only adds tables on its way. -/
theorem Unmapped.step (unmapped : Unmapped pt0 free a) (room : free.toNat + 1 < 2 ^ 52) {c : EntryCall}
    (spares : Spares pt0 a c) : Unmapped pt0 free (Reserve.step pt0 a c) := by
  by_cases level : c.pageSize < 6
  · have wrote := unmapped.wrote room level
    unfold Reserve.step
    generalize c.run a.set pt0 = out at wrote
    generalize c.constructs a.set pt0 = built at wrote
    cases wrote with
    | short grown _ => exact unmapped.grow grown
    | refused grown _ _ => exact unmapped.grow grown
    | stored grown missing absent =>
      have taken := grown.count
      rcases spares with large | present | few
      · omega
      · rw [absent] at present
        cases present
      · omega
  · have width : ptsIndexWidth / ptIndexWidth = 6 := by decide
    simp only [Reserve.step, EntryCall.run, EntryCall.constructs, writeEntry, width, level, if_false]
    exact unmapped.grow (.refl unmapped.arena)

/-- A stored page entry takes one more table, which no way leads to. -/
theorem Unmapped.not_sound (unmapped : Unmapped pt0 free a) (room : free.toNat + 1 < 2 ^ 52) {c : EntryCall}
    (stores : ¬ Spares pt0 a c) : ¬ Sound pt0 free (Reserve.step pt0 a c) := by
  simp only [Spares, not_or, Nat.not_le, Nat.not_lt, Bool.not_eq_true] at stores
  obtain ⟨level, absent, enough⟩ := stores
  have wrote := unmapped.wrote room level
  unfold Reserve.step
  intro sound
  generalize c.run a.set pt0 = out at wrote sound
  generalize c.constructs a.set pt0 = built at wrote sound
  cases wrote with
  | short _ few => omega
  | refused _ _ present =>
    rw [absent] at present
    cases present
  | @stored s' built leaf i entry path grown missing _ reached atLeaf page =>
    obtain ⟨p, _, leads⟩ := (sound.linked s'.nextTable).mp (by simp)
    -- the tables are the same as before the entry was stored, and the last one is not among them
    have same : ∀ q, descend (clearTable s'.mem s'.nextTable) pt0 q = descend s'.mem pt0 q :=
      descend_clearTable grown.arena
    have cleared : Arena (clearTable s'.mem s'.nextTable) pt0 s'.nextTable :=
      ⟨fun atP atQ => grown.arena.injective ((same _).symm.trans atP) ((same _).symm.trans atQ),
        fun atP => grown.arena.below ((same _).symm.trans atP), fun atP => grown.arena.depth ((same _).symm.trans atP)⟩
    have still : descend (clearTable s'.mem s'.nextTable) pt0 path = some leaf := (same path).trans reached
    have atLeaf' : (clearTable s'.mem s'.nextTable leaf i).p = false := by
      rw [clearTable, Function.update_of_ne (grown.arena.fresh reached)]
      exact atLeaf
    rw [descend_storePage cleared still atLeaf' page, same] at leads
    exact grown.arena.fresh leads rfl

end Unmapped

section Runs
variable {mem : Mem} {pt0 : Frame} {free : Word}

/-- A run of calls keeps the arena safe in all its states exactly when none of
the calls comes to an absent entry of its page: the entry takes a table of its own. -/
theorem sound_iff_spares (mem : Mem) (pt0 : Frame) (free : Word) (room : free.toNat + 1 < 2 ^ 52)
    (calls : List EntryCall) : (∀ done, done <+: calls → Sound pt0 free (replay mem pt0 free done)) ↔
      ∀ done c, done ++ [c] <+: calls → Spares pt0 (replay mem pt0 free done) c :=
  @safe_iff_spared _ _ _ _ _ (fun _ _ => True) _ _ _ start_unmapped (fun _ unmapped => unmapped.sound room)
    (fun _ _ unmapped _ spares => unmapped.step room spares)
    (fun _ _ unmapped _ stores => unmapped.not_sound room stores) fun _ _ _ => trivial

/-- One reserved page entry, in a table of its own, from an empty root. -/
theorem sound_iff_spares_one :
    (∀ done, done <+: [⟨0, 0, 0, 1, 1, 0⟩] → Sound 256 2 (replay (fun _ _ => Pte.zero) 256 2 done)) ↔
      ∀ done c, done ++ [c] <+: [⟨0, 0, 0, 1, 1, 0⟩] → Spares 256 (replay (fun _ _ => Pte.zero) 256 2 done) c :=
  sound_iff_spares _ _ _ (by decide) _

/-- Six tables are reserved. The first page takes five on its way and one for
its entry, and the second, in the same last table, one that is not there. -/
theorem free_wraps : (replay (fun _ _ => Pte.zero) 256 6 [⟨0, 0x1000, 0, 1, 1, 0⟩]).set.free = 0 ∧
    (replay (fun _ _ => Pte.zero) 256 6 [⟨0, 0x1000, 0, 1, 1, 0⟩, ⟨1, 0x2000, 0, 1, 1, 0⟩]).set.free = -1 ∧
      ¬ Sound 256 6 (replay (fun _ _ => Pte.zero) 256 6 [⟨0, 0x1000, 0, 1, 1, 0⟩, ⟨1, 0x2000, 0, 1, 1, 0⟩]) := by
  have wrapped : (replay (fun _ _ => Pte.zero) 256 6
      [⟨0, 0x1000, 0, 1, 1, 0⟩, ⟨1, 0x2000, 0, 1, 1, 0⟩]).set.free = -1 := by decide +kernel
  refine ⟨by decide +kernel, wrapped, fun sound => ?_⟩
  have count := sound.count
  rw [wrapped] at count
  have most : (-1 : Word).toNat = 2 ^ 64 - 1 := by decide
  have few : (6 : Word).toNat = 6 := by decide
  omega

/-- The page is no part of a larger one that is mapped. -/
def Outer (pt0 : Frame) (a : Reserve) (c : EntryCall) : Prop :=
  ∀ q v, leafAt a.set.mem pt0 q = some v → q <+: c.key → q = c.key

/-- The way to the entry takes the last free table, and the entry one more. -/
def Overdraws (pt0 : Frame) (a : Reserve) (c : EntryCall) : Prop :=
  c.pageSize < 6 ∧ entryPresent a.set.mem pt0 c.key = false ∧
    missingTables a.set.mem pt0 c.key = a.set.free.toNat

theorem Tracked.step {a : Reserve} {c : EntryCall} (tracked : Tracked pt0 free a) (room : free.toNat + 1 < 2 ^ 52)
    (outer : Outer pt0 a c) (covered : ¬ Overdraws pt0 a c) : Tracked pt0 free (Reserve.step pt0 a c) := by
  by_cases level : c.pageSize < 6
  · have wrote := c.wrote tracked.arena (tracked.room room) level outer
    unfold Reserve.step
    generalize c.run a.set pt0 = out at wrote
    generalize c.constructs a.set pt0 = built at wrote
    cases wrote with
    | short grown _ => exact tracked.grow grown
    | refused grown _ _ => exact tracked.grow grown
    | @stored s' built leaf i entry path grown missing absent reached atLeaf page =>
      have after := tracked.grow grown
      have taken := grown.count
      have some : 0 < s'.free.toNat := by
        by_contra none
        exact covered ⟨level, absent, by omega⟩
      have used : (s'.nextTable - pt0).toNat = (a.built ++ built).length + 1 := after.used room
      have count : s'.free.toNat + (a.built ++ built).length = free.toNat := after.count
      have below : (s'.nextTable - pt0).toNat + 1 < 2 ^ 52 := by
        rw [used]
        omega
      have lessOne : (s'.free - 1).toNat + 1 = s'.free.toNat := by
        have bound := s'.free.isLt
        have one : (1 : Word).toNat = 1 := rfl
        rw [BitVec.toNat_sub, one]
        omega
      rw [← List.append_assoc]
      refine ⟨?_, ?_, ?_, ?_⟩
      · refine (grown.arena.clearTable below).storePage ((descend_clearTable grown.arena path).trans reached) ?_ page
        rw [clearTable, Function.update_of_ne (grown.arena.fresh reached)]
        exact atLeaf
      · rw [List.length_append, framesFrom_append, ← after.frames, ← after.next]
        simp [framesFrom]
      · rw [List.length_append, BitVec.ofNat_add, ← BitVec.add_assoc, ← after.next]
        rfl
      · rw [List.length_append, List.length_singleton]
        change (s'.free - 1).toNat + _ = _
        omega
  · have width : ptsIndexWidth / ptIndexWidth = 6 := by decide
    simp only [Reserve.step, EntryCall.run, EntryCall.constructs, writeEntry, width, level, if_false]
    exact tracked.grow (.refl tracked.arena)

/-- The call that overdraws the reserve lets the count wrap. -/
theorem Tracked.not_counted {a : Reserve} {c : EntryCall} (tracked : Tracked pt0 free a)
    (room : free.toNat + 1 < 2 ^ 52) (outer : Outer pt0 a c) (overdraws : Overdraws pt0 a c) :
    ¬ Counted free pt0 (Reserve.step pt0 a c) := by
  obtain ⟨level, absent, all⟩ := overdraws
  have wrote := c.wrote tracked.arena (tracked.room room) level outer
  unfold Reserve.step
  intro counted
  generalize c.run a.set pt0 = out at wrote counted
  generalize c.constructs a.set pt0 = built at wrote counted
  cases wrote with
  | short _ few => omega
  | refused _ _ present =>
    rw [absent] at present
    cases present
  | @stored s' built leaf i entry path grown missing _ _ _ _ =>
    have taken := grown.count
    have count := counted.count
    have zero : (0 : Word).toNat = 0 := rfl
    have none : s'.free = 0 := BitVec.eq_of_toNat_eq (by rw [zero]; omega)
    have most : (0 - 1 : Word).toNat = 2 ^ 64 - 1 := by decide
    rw [none, most] at count
    omega

/-- Where no page is part of a larger one, the count of the free tables is
right in every state exactly when no call overdraws the reserve. -/
theorem counted_iff (mem : Mem) (pt0 : Frame) (free : Word) (room : free.toNat + 1 < 2 ^ 52) (calls : List EntryCall)
    (outer : ∀ done c, done ++ [c] <+: calls → Outer pt0 (replay mem pt0 free done) c) :
    (∀ done, done <+: calls → Counted free pt0 (replay mem pt0 free done)) ↔
      ∀ done c, done ++ [c] <+: calls → ¬ Overdraws pt0 (replay mem pt0 free done) c :=
  safe_iff_spared start_unmapped.toTracked (fun _ tracked => tracked.counted room)
    (fun _ _ tracked outer covered => tracked.step room outer covered)
    (fun _ _ tracked outer overdraws => tracked.not_counted room outer (not_not.mp overdraws)) outer

end Runs


end Reserve

end Mgsim.Manager
