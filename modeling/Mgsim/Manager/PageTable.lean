import Mathlib.Data.BitVec
import Mathlib.Logic.Function.Basic

namespace Mgsim.Manager

/-! The widths of `defines.h`. -/

def contextIdWidth : Nat := 18
def vaddrWidth : Nat := 48
def vaddrLso : Nat := 12
def ptIndexWidth : Nat := 9
def initialReserveLvlOffset : Nat := 1
def ptsIndexWidth : Nat := vaddrWidth + contextIdWidth - vaddrLso
def ptIndexMask : BitVec 64 := 511
def tableOffset : Nat := 4

/-- An address or pointer of the simulated machine. -/
abbrev Word := BitVec 64

/-- The number of a 4 KiB frame: the 52 address bits of a page table entry. -/
abbrev Frame := BitVec 52

/-- `pte_t`, the union read through its page view. The table view has the
same `p`, `t` and `addr` bits and leaves the others unnamed. -/
structure Pte where
  p : Bool
  t : Bool
  r : Bool
  w : Bool
  x : Bool
  res : BitVec 7
  addr : Frame
  deriving DecidableEq

/-- What `memset` leaves in an entry. -/
def Pte.zero : Pte := ⟨false, false, false, false, false, 0, 0⟩

instance : Inhabited Pte := ⟨Pte.zero⟩

/-- `pt_t`: the entries of one table. -/
abbrev Pt := Fin 512 → Pte

/-- Physical memory as the page table code sees it: every frame can be read
through a `pt_t` pointer, also one that holds no table. -/
abbrev Mem := Frame → Pt

def getPointer (entry : Pte) : Word := entry.addr.setWidth 64 <<< vaddrLso

def setPointer (entry : Pte) (pointer : Word) : Pte :=
  { entry with addr := (pointer >>> vaddrLso).setWidth 52 }

/-- The frame that an aligned `pt_t` pointer points to. -/
def frameOf (pointer : Word) : Frame := (pointer >>> vaddrLso).setWidth 52

/-- The pointer to the table in a frame. -/
def pointerTo (frame : Frame) : Word := frame.setWidth 64 <<< vaddrLso

/-- The memory and the two variables that `init_pt_set` and `write_entry`
hand on: the next unused table and the number of tables left. -/
structure PtSet where
  mem : Mem
  nextTable : Frame
  free : Word

/-- Store to one entry of the table in a frame. -/
def setEntry (mem : Mem) (table : Frame) (index : Fin 512) (entry : Pte) : Mem :=
  Function.update mem table (Function.update (mem table) index entry)

def getIndexSection (index : Word) (section' : Nat) : Fin 512 :=
  ⟨((index >>> (ptIndexWidth * section')) &&& ptIndexMask).toNat, by
    rw [BitVec.toNat_and]
    exact lt_of_le_of_lt Nat.and_le_right (by decide)⟩

def calculatePtIndex (contextId completeVAddr : Word) : Word :=
  completeVAddr >>> vaddrLso ||| contextId <<< (vaddrWidth - vaddrLso)

/-- `construct_pt`: clears the next table and returns it. -/
def constructPt (s : PtSet) : Frame × PtSet :=
  (s.nextTable,
    { s with mem := Function.update s.mem s.nextTable fun _ => Pte.zero, nextTable := s.nextTable + 1 })

/-- The fields of a new page entry; `r`, `w` and `x` are stored into one-bit fields. -/
def pageEntry (old : Pte) (dst : Word) (r w x : BitVec 8) : Pte :=
  setPointer { old with p := true, t := false, r := r.getLsbD 0, w := w.getLsbD 0, x := x.getLsbD 0 } dst

/-- The loop of `write_entry` with `remaining` levels left above level `min`. -/
def writeEntryFrom (ptsIndex dst : Word) (min : Nat) (r w x : BitVec 8) :
    Nat → PtSet → Frame → Int × PtSet
  | 0, s, table =>
    let ptIndex := getIndexSection ptsIndex min
    if (s.mem table ptIndex).p then (-32, s)
    else
      -- the leaf case takes a table as well and does not ask whether one is left
      let s := (constructPt s).2
      let s := { s with free := s.free - 1 }
      (1, { s with mem := setEntry s.mem table ptIndex (pageEntry (s.mem table ptIndex) dst r w x) })
  | remaining + 1, s, table =>
    let ptIndex := getIndexSection ptsIndex (min + remaining + 1)
    let entry := s.mem table ptIndex
    if entry.p then
      writeEntryFrom ptsIndex dst min r w x remaining s (frameOf (getPointer entry))
    else if s.free = 0 then (0, s)
    else
      let (next, s) := constructPt s
      let s := { s with free := s.free - 1 }
      let entry := { s.mem table ptIndex with p := true, t := true }
      let s := { s with mem := setEntry s.mem table ptIndex (setPointer entry (pointerTo next)) }
      writeEntryFrom ptsIndex dst min r w x remaining s next

/-- `write_entry`; a `page_size` above the top level leaves the loop at once. -/
def writeEntry (s : PtSet) (pt0 : Frame) (ptsIndex dst : Word) (pageSize : Nat) (r w x : BitVec 8) :
    Int × PtSet :=
  let max := ptsIndexWidth / ptIndexWidth
  if pageSize < max then writeEntryFrom ptsIndex dst pageSize r w x (max - 1 - pageSize) s pt0
  else (1, s)

/-- `sizeof(pt_t)`: 512 entries of 8 bytes. -/
def sizeofPt : Nat := 4096

/-- `quickLog2`: the number of right shifts before nothing is left. -/
def quickLog2 (powerOfTwo : Nat) : Nat := powerOfTwo.log2

/-- `init_pt_set` on the memory `mem`: the result of its `write_entry`, and the new table set.
Its comment reserves a 2 MiB page, its call passes page size 0. -/
def initPtSet (mem : Mem) (pt0 : Frame) (contextId vBase : Word) : Int × PtSet :=
  let free : Word := 1 <<< (vaddrLso + initialReserveLvlOffset * ptIndexWidth - quickLog2 sizeofPt)
  let s := (constructPt ⟨mem, pt0, free⟩).2
  let s := { s with free := s.free - 1 }
  writeEntry s pt0 (calculatePtIndex contextId vBase) (pointerTo pt0) 0 1 1 0

/-- What `walkPageTable` returns and stores through its pointer arguments. -/
structure Walk where
  result : Int
  entry : Pte
  levels : Nat
  deriving DecidableEq

/-- The loop of `walkPageTable` with `remaining` whole sections left in `len`. -/
def walkPageTableFrom (mem : Mem) (addr : Word) : Nat → Nat → Frame → Pte → Nat → Walk
  | 0, _, _, entry, levels => ⟨-16, entry, levels⟩
  | remaining + 1, len, t, _, levels =>
    let offset := getIndexSection (addr >>> (len - ptIndexWidth)) 0
    let entry := mem t offset
    if !entry.p then ⟨0, entry, levels + 1⟩
    else if !entry.t then ⟨1, entry, levels + 1⟩
    else walkPageTableFrom mem addr remaining (len - ptIndexWidth) (frameOf (getPointer entry)) entry (levels + 1)

/-- `walkPageTable`; `len` is the number of address bits still to be used. -/
def walkPageTable (mem : Mem) (pt0 : Frame) (addr : Word) (len : Nat) : Walk :=
  walkPageTableFrom mem addr (len / ptIndexWidth) len pt0 default 0

end Mgsim.Manager
