import Mgsim.Dev.RPC
import Mgsim.Drisc.Register
import Mgsim.Lib.Numeral

namespace Mgsim.Dev
open Mgsim.Lib Mgsim.Drisc

/-- A computation on the bytes of a file, which may throw an exception with a message, or has no defined outcome
because it has touched a byte outside of the file. -/
abbrev LoaderM := StateT (List Byte) (Except (Option String))

namespace ELF

section Access
variable {α : Type}

def outside : LoaderM α := fun _ => .error none

/-- The part of the file must be there. -/
def touch (pos size : Nat) : LoaderM Unit := do
  if pos + size ≤ (← get).length then return () else outside

/-- A field in the byte order of the host, the least significant byte first. -/
def fieldOf (file : List Byte) (pos size : Nat) : Nat := ofBytes ((file.drop pos).take size)

def field (pos size : Nat) : LoaderM Nat := do
  touch pos size
  return fieldOf (← get) pos size

/-- `betoh` or `letoh` on a field in its place. -/
def swapped (t : Target) (pos size : Nat) (file : List Byte) : List Byte :=
  if t.isBigEndian then file.take pos ++ ((file.drop pos).take size).reverse ++ file.drop (pos + size) else file

def elftoh (t : Target) (pos size : Nat) : LoaderM Unit := do
  touch pos size
  modify (swapped t pos size)

/-- All fields of a record. -/
def unmarshall (t : Target) (pos : Nat) : List (Nat × Nat) → LoaderM Unit
  | [] => return ()
  | (offset, size) :: fields => do
    elftoh t (pos + offset) size
    unmarshall t pos fields

def Verify (msgPrefix : String) (condition : Bool) (message : String) : LoaderM Unit :=
  if condition then return () else throw (some (msgPrefix ++ ": " ++ message))

/-- The characters up to the null character, which must lie in the file. -/
def cString (pos : Nat) : LoaderM (List Byte) := do
  let text := (← get).drop pos
  if text.contains 0 then return text.takeWhile (· ≠ 0) else outside

/-- A loop with a counter of 16 bits, the bound of which is read again before each round. -/
def forHalf {σ : Type} (bound : LoaderM Nat) (body : Nat → σ → LoaderM σ) : (left i : Nat) → σ → LoaderM σ
  | 0, _, s => return s
  | left + 1, i, s => do
    if i < (← bound) then
      let s ← body i s
      forHalf bound body left (i + 1) s
    else return s

end Access

section Layout
variable (t : Target)

/-- The offsets and sizes of the fields in a file for this target. The addresses have the size of its integers. -/
def addrSize : Nat := t.sizeofInteger

def e_entry : Nat := 24
def e_phoff : Nat := 24 + addrSize t
def e_shoff : Nat := 24 + 2 * addrSize t
def e_phentsize : Nat := 30 + 3 * addrSize t
def e_phnum : Nat := 32 + 3 * addrSize t
def e_shentsize : Nat := 34 + 3 * addrSize t
def e_shnum : Nat := 36 + 3 * addrSize t

def sizeofEhdr : Nat := 40 + 3 * addrSize t

def ehdrFields : List (Nat × Nat) :=
  [(16, 2), (18, 2), (20, 4), (e_entry, addrSize t), (e_phoff t, addrSize t), (e_shoff t, addrSize t),
    (24 + 3 * addrSize t, 4), (28 + 3 * addrSize t, 2), (e_phentsize t, 2), (e_phnum t, 2), (e_shentsize t, 2),
    (e_shnum t, 2), (38 + 3 * addrSize t, 2)]

def sh_type : Nat := 4
def sh_offset : Nat := 8 + 2 * addrSize t
def sh_size : Nat := 8 + 3 * addrSize t
def sh_link : Nat := 8 + 4 * addrSize t
def sh_entsize : Nat := 16 + 5 * addrSize t

def sizeofShdr : Nat := 16 + 6 * addrSize t

def shdrFields : List (Nat × Nat) :=
  [(0, 4), (sh_type, 4), (8 + addrSize t, addrSize t), (sh_offset t, addrSize t), (sh_link t, 4),
    (12 + 4 * addrSize t, 4), (8, addrSize t), (sh_size t, addrSize t), (16 + 4 * addrSize t, addrSize t),
    (sh_entsize t, addrSize t)]

def st_name : Nat := 0
def st_value : Nat := if addrSize t = 8 then 8 else 4
def st_size : Nat := st_value t + addrSize t

def sizeofSym : Nat := 8 + 2 * addrSize t

def symFields : List (Nat × Nat) := [(st_name, 4), (st_value t, addrSize t), (st_size t, addrSize t)]

def p_type : Nat := 0
def p_flags : Nat := if addrSize t = 8 then 4 else 24
def p_offset : Nat := addrSize t
def p_vaddr : Nat := 2 * addrSize t
def p_filesz : Nat := 4 * addrSize t
def p_memsz : Nat := 5 * addrSize t
def p_align : Nat := if addrSize t = 8 then 48 else 28

def sizeofPhdr : Nat := if addrSize t = 8 then 56 else 32

def phdrFields : List (Nat × Nat) :=
  [(p_type, 4), (p_flags t, 4), (p_offset t, addrSize t), (p_vaddr t, addrSize t), (3 * addrSize t, addrSize t),
    (p_filesz t, addrSize t), (p_memsz t, addrSize t), (p_align t, addrSize t)]

/-- `MACHINE_NORMAL` and `MACHINE_LEGACY`. -/
def machineNormal : Nat :=
  match t with
  | .mtalpha => 0xafef
  | .mtsparc => 0xaff0
  | .mips32 | .mips32el => 8
  | .or1k => 92

def machineLegacy : Nat :=
  match t with
  | .mtalpha => 0x9026
  | .mtsparc => 2
  | .mips32 | .mips32el => 8
  | .or1k => 92

end Layout

/-- A sum of offsets and sizes as the loader computes it. -/
def sum (t : Target) (offset size : Nat) : Nat := (offset + size) % 2 ^ (8 * addrSize t)

/-- A range that is to be loaded, with its permissions. -/
structure Range where
  romOffset : Nat
  romSize : Nat
  vaddr : Nat
  vsize : Nat
  perm : Nat
  deriving DecidableEq

/-- The entry point, the kind of the machine, and what is put into the symbol table, the list of ranges and the
memory. -/
structure Program where
  symbols : List (Nat × List Byte × Nat)
  ranges : List Range
  reserved : List (Nat × Nat × Nat)
  entry : Nat
  legacy : Bool
  deriving DecidableEq

/-- The symbol table and its names: where they begin, the number of symbols and the size of the names. -/
structure Symbols where
  table : Nat
  count : Nat
  names : Nat
  size : Nat
  deriving DecidableEq

section Load
variable (t : Target) (msgPrefix : String)

def checkHeader : LoaderM Unit := do
  let size := (← get).length
  Verify msgPrefix (sizeofEhdr t ≤ size) "ELF file too short or truncated"
  unmarshall t 0 (ehdrFields t)
  Verify msgPrefix ((← field 0 4) = 0x464c457f) "invalid ELF file signature"
  Verify msgPrefix ((← field 6 1) = 1) "ELF version mismatch"
  Verify msgPrefix ((← field 4 1) = if addrSize t = 8 then 2 else 1) "file is not of proper bitsize"
  Verify msgPrefix ((← field 5 1) = if t.isBigEndian then 2 else 1) "file is not of proper endianness"
  let machine ← field 18 2
  Verify msgPrefix (machine = machineNormal t || machine = machineLegacy t) "target architecture is not supported"
  Verify msgPrefix ((← field 16 2) = 2) "file is not an executable file"
  let phoff ← field (e_phoff t) (addrSize t)
  let phnum ← field (e_phnum t) 2
  Verify msgPrefix (phoff ≠ 0 && phnum ≠ 0) "file has no program header"
  let phentsize ← field (e_phentsize t) 2
  Verify msgPrefix (phentsize = sizeofPhdr t) "file has an invalid program header"
  Verify msgPrefix (sum t phoff (phnum * phentsize) ≤ size) "file has an invalid program header"
  let shentsize ← field (e_shentsize t) 2
  Verify msgPrefix (shentsize = sizeofShdr t) "file has an invalid section header"
  let shoff ← field (e_shoff t) (addrSize t)
  let shnum ← field (e_shnum t) 2
  Verify msgPrefix (sum t shoff (shnum * shentsize) ≤ size) "file has an invalid section header"

def loadSections (shdr : Nat) : LoaderM Unit :=
  forHalf (field (e_shnum t) 2) (fun i _ => unmarshall t (shdr + i * sizeofShdr t) (shdrFields t)) 65536 0 ()

/-- The first section that is a symbol table. -/
def findSymbols (shdr : Nat) : LoaderM (Option Symbols) :=
  forHalf (field (e_shnum t) 2) (fun i found => do
    match found with
    | some symbols => return some symbols
    | none =>
      let sh := shdr + i * sizeofShdr t
      if (← field (sh + sh_type) 4) = 2 then
        let size := (← get).length
        Verify msgPrefix ((← field (sh + sh_entsize t) (addrSize t)) = sizeofSym t) "file has an invalid symtable"
        let offset ← field (sh + sh_offset t) (addrSize t)
        let length ← field (sh + sh_size t) (addrSize t)
        Verify msgPrefix (sum t offset length ≤ size) "file has an invalid symtable"
        let link ← field (sh + sh_link t) 4
        Verify msgPrefix (link ≠ 0) "symtable has no string table"
        Verify msgPrefix (link < (← field (e_shnum t) 2)) "symtable has an invalid string table"
        let strsh := shdr + link * sizeofShdr t
        Verify msgPrefix ((← field (strsh + sh_type) 4) = 3) "file has an invalid string table"
        let names ← field (strsh + sh_offset t) (addrSize t)
        let namesSize ← field (strsh + sh_size t) (addrSize t)
        Verify msgPrefix (sum t names namesSize ≤ size) "file has an invalid string table"
        return some ⟨offset, length / sizeofSym t, names, namesSize⟩
      else return none) 65536 0 none

/-- A symbol with a value and a name that is not empty is added. -/
def addSymbol (name addr size : Nat) : LoaderM (List (Nat × List Byte × Nat)) := do
  if addr ≠ 0 then
    let text ← cString name
    return if 0 < text.length then [(addr, text, size)] else []
  else return []

/-- The symbols from the given one on. -/
def loadSymbols (symbols : Symbols) : (left i : Nat) → LoaderM (List (Nat × List Byte × Nat))
  | 0, _ => return []
  | left + 1, i => do
    let sym := symbols.table + i * sizeofSym t
    unmarshall t sym (symFields t)
    let name ← field (sym + st_name) 4
    Verify msgPrefix (name < symbols.size) "file specifies an invalid symbol"
    let addr ← field (sym + st_value t) (addrSize t)
    let size ← field (sym + st_size t) (addrSize t)
    let added ← addSymbol (symbols.names + name) addr size
    return added ++ (← loadSymbols symbols left (i + 1))

def loadHeaders (phdr : Nat) : LoaderM Unit :=
  forHalf (field (e_phnum t) 2) (fun i _ => unmarshall t (phdr + i * sizeofPhdr t) (phdrFields t)) 65536 0 ()

def permissions (flags : Nat) : Nat :=
  (if flags.testBit 2 then 4 + 8 else 0) + (if flags.testBit 1 then 2 + 16 else 0) + if flags.testBit 0 then 1 else 0

/-- A segment is loaded, or only reserved. -/
def loadSegment (ph : Nat) (found : List Range × List (Nat × Nat × Nat)) :
    LoaderM (List Range × List (Nat × Nat × Nat)) := do
  let memsz ← field (ph + p_memsz t) (addrSize t)
  if (← field (ph + p_type) 4) = 1 && 0 < memsz then
    let filesz ← field (ph + p_filesz t) (addrSize t)
    Verify msgPrefix (filesz ≤ memsz) "file has an invalid segment"
    let perm := permissions (← field (ph + p_flags t) 4)
    let vaddr ← field (ph + p_vaddr t) (addrSize t)
    if 0 < filesz then
      let offset ← field (ph + p_offset t) (addrSize t)
      Verify msgPrefix (sum t offset filesz ≤ (← get).length) "file has an invalid segment"
      return (found.1 ++ [⟨offset, filesz, vaddr, memsz, perm⟩], found.2)
    else return (found.1, found.2 ++ [(vaddr, memsz, perm)])
  else return found

def loadSegments (phdr : Nat) : LoaderM (List Range × List (Nat × Nat × Nat)) :=
  forHalf (field (e_phnum t) 2) (fun i found => loadSegment t msgPrefix (phdr + i * sizeofPhdr t) found) 65536 0
    ([], [])

/-- The loader up to its search for symbols. -/
def symbolPhase : LoaderM (Option Symbols) := do
  checkHeader t msgPrefix
  let shdr ← field (e_shoff t) (addrSize t)
  loadSections t shdr
  findSymbols t msgPrefix shdr

/-- The loader up to the program headers. -/
def headerPhase : LoaderM (List (Nat × List Byte × Nat)) := do
  match ← symbolPhase t msgPrefix with
  | none => return []
  | some symbols => loadSymbols t msgPrefix symbols (symbols.count - 1) 1

/-- The loader up to the segments, with the place of the program headers. -/
def segmentPhase : LoaderM (List (Nat × List Byte × Nat) × Nat) := do
  let added ← headerPhase t msgPrefix
  let phdr ← field (e_phoff t) (addrSize t)
  loadHeaders t phdr
  return (added, phdr)

def LoadProgram : LoaderM Program := do
  let (added, phdr) ← segmentPhase t msgPrefix
  let (ranges, reserved) ← loadSegments t msgPrefix phdr
  let entry ← field e_entry (addrSize t)
  let machine ← field 18 2
  return ⟨added, ranges, reserved, entry, machine = machineLegacy t⟩

end Load

/-! ### What must lie in the file -/

section Fits
variable (t : Target)

/-- The bytes after a record has been unmarshalled, and after the first records of a table have been. -/
def swapRecord (pos : Nat) (fields : List (Nat × Nat)) (file : List Byte) : List Byte :=
  fields.foldl (fun file entry => swapped t (pos + entry.1) entry.2 file) file

def swapTable (pos size : Nat) (fields : List (Nat × Nat)) : Nat → List Byte → List Byte
  | 0, file => file
  | k + 1, file => swapRecord t (pos + k * size) fields (swapTable pos size fields k file)

/-- All fields of a record lie in the file. -/
def RecordFits (pos : Nat) (fields : List (Nat × Nat)) (file : List Byte) : Prop :=
  ∀ entry ∈ fields, pos + entry.1 + entry.2 ≤ file.length

/-- Each record of a table that a loop gets to lies in the file. The loop reads the number of the records again before
each record, as the records behind it have not been unmarshalled yet. -/
def TableFits (pos size : Nat) (fields : List (Nat × Nat)) (number : Nat) (file : List Byte) : Prop :=
  ∀ k, (∀ j ≤ k, j < fieldOf (swapTable t pos size fields j file) number 2) → RecordFits (pos + k * size) fields file

def SectionsFit (file : List Byte) : Prop :=
  TableFits t (fieldOf file (e_shoff t) (addrSize t)) (sizeofShdr t) (shdrFields t) (e_shnum t) file

/-- The bytes when the symbols from the second one on have been unmarshalled up to the given one, and its fields. -/
def symbolsDone (symbols : Symbols) (k : Nat) (file : List Byte) : List Byte :=
  swapTable t (symbols.table + sizeofSym t) (sizeofSym t) (symFields t) k file

def symbolName (symbols : Symbols) (k : Nat) (file : List Byte) : Nat :=
  fieldOf (symbolsDone t symbols (k + 1) file) (symbols.table + (1 + k) * sizeofSym t + st_name) 4

def symbolValue (symbols : Symbols) (k : Nat) (file : List Byte) : Nat :=
  fieldOf (symbolsDone t symbols (k + 1) file) (symbols.table + (1 + k) * sizeofSym t + st_value t) (addrSize t)

/-- Each symbol that the loader gets to lies in the file, and its name ends in the file if it has a value. -/
def SymbolsFit (symbols : Symbols) (file : List Byte) : Prop :=
  ∀ k < symbols.count - 1, (∀ j < k, symbolName t symbols j file < symbols.size) →
    RecordFits (symbols.table + (1 + k) * sizeofSym t) (symFields t) file ∧
      (symbolName t symbols k file < symbols.size → symbolValue t symbols k file ≠ 0 →
        0 ∈ (symbolsDone t symbols (k + 1) file).drop (symbols.names + symbolName t symbols k file))

def HeadersFit (file : List Byte) : Prop :=
  TableFits t (fieldOf file (e_phoff t) (addrSize t)) (sizeofPhdr t) (phdrFields t) (e_phnum t) file

/-- What is loaded from a segment, and whether it passes the checks. -/
def segmentRanges (ph : Nat) (file : List Byte) : List Range :=
  if (fieldOf file (ph + p_type) 4 = 1 && 0 < fieldOf file (ph + p_memsz t) (addrSize t)) = true ∧
      0 < fieldOf file (ph + p_filesz t) (addrSize t) then
    [⟨fieldOf file (ph + p_offset t) (addrSize t), fieldOf file (ph + p_filesz t) (addrSize t),
      fieldOf file (ph + p_vaddr t) (addrSize t), fieldOf file (ph + p_memsz t) (addrSize t),
      permissions (fieldOf file (ph + p_flags t) 4)⟩]
  else []

def SegmentPasses (ph : Nat) (file : List Byte) : Prop :=
  (fieldOf file (ph + p_type) 4 = 1 && 0 < fieldOf file (ph + p_memsz t) (addrSize t)) = true →
    fieldOf file (ph + p_filesz t) (addrSize t) ≤ fieldOf file (ph + p_memsz t) (addrSize t) ∧
      (0 < fieldOf file (ph + p_filesz t) (addrSize t) →
        sum t (fieldOf file (ph + p_offset t) (addrSize t)) (fieldOf file (ph + p_filesz t) (addrSize t)) ≤
          file.length)

/-- If all segments pass the checks, what is loaded from them lies in the file. -/
def SegmentsFit (phdr : Nat) (file : List Byte) : Prop :=
  (∀ i < fieldOf file (e_phnum t) 2, SegmentPasses t (phdr + i * sizeofPhdr t) file) →
    ∀ i < fieldOf file (e_phnum t) 2, ∀ r ∈ segmentRanges t (phdr + i * sizeofPhdr t) file,
      r.romOffset + r.romSize ≤ file.length

/-- In each state of the loader the table that it turns to fits. -/
structure TablesFit (msgPrefix : String) (file : List Byte) : Prop where
  sections : ∀ now, checkHeader t msgPrefix file = .ok ((), now) → SectionsFit t now
  symbols : ∀ symbols now, symbolPhase t msgPrefix file = .ok (some symbols, now) → SymbolsFit t symbols now
  headers : ∀ added now, headerPhase t msgPrefix file = .ok (added, now) → HeadersFit t now

structure InFile (msgPrefix : String) (file : List Byte) : Prop extends TablesFit t msgPrefix file where
  segments : ∀ added phdr now, segmentPhase t msgPrefix file = .ok ((added, phdr), now) → SegmentsFit t phdr now

/-- The ranges lie in the file and in their segments. -/
def RangesFit (size : Nat) (ranges : List Range) : Prop :=
  ∀ r ∈ ranges, r.romOffset + r.romSize ≤ size ∧ r.romSize ≤ r.vsize

/-- No byte outside of the file is touched, and each range to be loaded lies in the file and in its segment. -/
def StaysInside (msgPrefix : String) (file : List Byte) : Prop :=
  LoadProgram t msgPrefix file ≠ .error none ∧ ∀ program now, LoadProgram t msgPrefix file = .ok (program, now) →
    RangesFit file.length program.ranges

end Fits

/-! ### Computations inside the file -/

section Rules
variable {α β σ : Type} {file : List Byte} {m : LoaderM α} {f : α → LoaderM β} {Q R : α → List Byte → Prop}
  {T : β → List Byte → Prop} {pos size : Nat}

/-- A computation touches nothing outside of the file. -/
def Safe (m : LoaderM α) (file : List Byte) : Prop := m file ≠ .error none

/-- Moreover, what it gives and leaves has a property. -/
def Within (m : LoaderM α) (file : List Byte) (Q : α → List Byte → Prop) : Prop :=
  Safe m file ∧ ∀ a now, m file = .ok (a, now) → Q a now

theorem Within.of_ok {a : α} {now : List Byte} (done : m file = .ok (a, now)) (holds : Q a now) :
    Within m file Q := by
  constructor
  · rw [Safe, done]
    intro wrong
    cases wrong
  · intro b after same
    rw [done] at same
    cases same
    exact holds

theorem Within.of_throw {message : String} (failed : m file = .error (some message)) : Within m file Q := by
  constructor
  · rw [Safe, failed]
    intro wrong
    cases wrong
  · intro b after same
    rw [failed] at same
    cases same

theorem Within.pure {a : α} (holds : Q a file) : Within (pure a) file Q := .of_ok rfl holds

theorem bind_of_ok {a : α} {now : List Byte} (done : m file = .ok (a, now)) : (m >>= f) file = f a now := by
  show (m file >>= fun r => f r.1 r.2) = _
  rw [done]
  rfl

theorem bind_of_error {e : Option String} (failed : m file = .error e) : (m >>= f) file = .error e := by
  show (m file >>= fun r => f r.1 r.2) = _
  rw [failed]
  rfl

theorem Within.after {a : α} {now : List Byte} (done : m file = .ok (a, now)) (rest : Within (f a) now T) :
    Within (m >>= f) file T := by
  rw [Within, Safe, bind_of_ok done]
  exact rest

theorem Within.bind (first : Within m file Q) (rest : ∀ a now, Q a now → Within (f a) now T) :
    Within (m >>= f) file T := by
  cases done : m file with
  | error e =>
    cases e with
    | none => exact absurd done first.1
    | some message => exact .of_throw (bind_of_error done)
  | ok r => exact .after done (rest r.1 r.2 (first.2 r.1 r.2 done))

theorem Within.weaken (first : Within m file Q) (le : ∀ a now, Q a now → R a now) : Within m file R :=
  ⟨first.1, fun a now done => le a now (first.2 a now done)⟩

/-- What is known of a computation on this file. -/
theorem Within.self (first : Within m file Q) : Within m file fun a now => m file = .ok (a, now) ∧ Q a now :=
  ⟨first.1, fun a now done => ⟨done, first.2 a now done⟩⟩

theorem verify_eq {msgPrefix message : String} {condition : Bool} (met : condition = true) :
    Verify msgPrefix condition message file = .ok ((), file) := by
  unfold Verify
  rw [if_pos met]
  rfl

theorem Within.verify {msgPrefix message : String} {condition : Bool} {P : Unit → List Byte → Prop}
    (holds : condition = true → P () file) : Within (Verify msgPrefix condition message) file P := by
  unfold Verify
  split
  · rename_i met
    exact .pure (holds met)
  · exact .of_throw rfl

theorem touch_eq (inside : pos + size ≤ file.length) : touch pos size file = .ok ((), file) := by
  show (if pos + size ≤ file.length then (return ()) else outside : LoaderM Unit) file = _
  rw [if_pos inside]
  rfl

theorem field_eq (inside : pos + size ≤ file.length) : field pos size file = .ok (fieldOf file pos size, file) :=
  bind_of_ok (touch_eq inside)

/-- A field is read, a condition checked, or the size of the file read in front of the rest. -/
theorem Within.read {f : Nat → LoaderM β} (inside : pos + size ≤ file.length)
    (rest : Within (f (fieldOf file pos size)) file T) : Within (field pos size >>= f) file T :=
  .after (field_eq inside) rest

theorem Within.check {msgPrefix message : String} {condition : Bool} {f : Unit → LoaderM β}
    (rest : condition = true → Within (f ()) file T) : Within (Verify msgPrefix condition message >>= f) file T := by
  refine Within.bind (Q := fun _ now => condition = true ∧ now = file) (.verify fun met => ⟨met, rfl⟩) ?_
  rintro _ _ ⟨met, rfl⟩
  exact rest met

theorem Within.sized {f : List Byte → LoaderM β} (rest : Within (f file) file T) : Within (get >>= f) file T := rest

theorem cString_eq (ended : 0 ∈ file.drop pos) :
    cString pos file = .ok ((file.drop pos).takeWhile (· ≠ 0), file) := by
  show (if (file.drop pos).contains 0 then (return _) else outside : LoaderM (List Byte)) file = _
  rw [if_pos (List.contains_iff_mem.mpr ended)]
  rfl

/-- A loop ends when its counter has come to the bound, if that stays the same. -/
theorem Within.forHalf {bound : LoaderM Nat} {body : Nat → σ → LoaderM σ} {n : Nat} {I : Nat → σ → List Byte → Prop}
    (bounded : ∀ i s now, i ≤ n → I i s now → bound now = .ok (n, now))
    (round : ∀ i s now, i < n → I i s now → Within (body i s) now (I (i + 1))) {left i : Nat} {s : σ} (le : i ≤ n)
    (enough : n < i + left) (start : I i s file) : Within (forHalf bound body left i s) file (I n) := by
  induction left generalizing i s file with
  | zero => omega
  | succ left ih =>
    refine .after (bounded i s file le start) ?_
    split
    · rename_i more
      exact (round i s file more start).bind fun s now kept => ih more (by omega) kept
    · rename_i done
      rw [show i = n by omega] at start
      exact .pure start

/-- Conversely, a part of a computation that touches nothing outside does not do so either. -/
theorem Safe.first (safe : Safe (m >>= f) file) : Safe m file := fun failed => safe (bind_of_error failed)

theorem Safe.rest {a : α} {now : List Byte} (safe : Safe (m >>= f) file) (done : m file = .ok (a, now)) :
    Safe (f a) now := by
  rw [Safe, bind_of_ok done] at safe
  exact safe

theorem Safe.touched (safe : Safe (touch pos size) file) : pos + size ≤ file.length := by
  by_contra beyond
  apply safe
  show (if pos + size ≤ file.length then (return ()) else outside : LoaderM Unit) file = _
  rw [if_neg beyond]
  rfl

theorem Safe.ended (safe : Safe (cString pos) file) : 0 ∈ file.drop pos := by
  by_contra missing
  apply safe
  show (if (file.drop pos).contains 0 then (return _) else outside : LoaderM (List Byte)) file = _
  rw [if_neg fun found => missing (List.contains_iff_mem.mp found)]
  rfl

end Rules

section Records
variable {t : Target} {file now : List Byte} {pos size number : Nat} {fields : List (Nat × Nat)}

theorem length_swapped (inside : pos + size ≤ file.length) : (swapped t pos size file).length = file.length := by
  unfold swapped
  split
  · simp only [List.length_append, List.length_take, List.length_reverse, List.length_drop]
    omega
  · rfl

theorem elftoh_eq (inside : pos + size ≤ file.length) : elftoh t pos size file = .ok ((), swapped t pos size file) :=
  bind_of_ok (touch_eq inside)

theorem RecordFits.of_length (fits : RecordFits pos fields file) (same : now.length = file.length) :
    RecordFits pos fields now := by
  intro entry member
  rw [same]
  exact fits entry member

theorem RecordFits.tail {entry : Nat × Nat} (fits : RecordFits pos (entry :: fields) file) :
    RecordFits pos fields (swapped t (pos + entry.1) entry.2 file) := by
  have rest : RecordFits pos fields file := fun other member => fits other (List.mem_cons_of_mem _ member)
  exact rest.of_length (length_swapped (fits entry List.mem_cons_self))

theorem unmarshall_eq (fits : RecordFits pos fields file) :
    unmarshall t pos fields file = .ok ((), swapRecord t pos fields file) := by
  induction fields generalizing file with
  | nil => rfl
  | cons entry fields ih =>
    rw [unmarshall, bind_of_ok (elftoh_eq (fits entry List.mem_cons_self)), ih fits.tail]
    rfl

theorem length_swapRecord (fits : RecordFits pos fields file) :
    (swapRecord t pos fields file).length = file.length := by
  induction fields generalizing file with
  | nil => rfl
  | cons entry fields ih =>
    have first := length_swapped (t := t) (fits entry List.mem_cons_self)
    exact (ih fits.tail).trans first

theorem Safe.record (safe : Safe (unmarshall t pos fields) file) : RecordFits pos fields file := by
  induction fields generalizing file with
  | nil =>
    intro entry member
    cases member
  | cons entry fields ih =>
    have here : pos + entry.1 + entry.2 ≤ file.length := safe.first.first.touched
    have rest := ih (safe.rest (elftoh_eq here))
    intro other member
    rcases List.mem_cons.mp member with rfl | member
    · exact here
    · exact rest.of_length (length_swapped here).symm other member

theorem length_swapTable {k : Nat} (fits : ∀ i < k, RecordFits (pos + i * size) fields file) :
    (swapTable t pos size fields k file).length = file.length := by
  induction k with
  | zero => rfl
  | succ k ih =>
    have before := ih fun i below => fits i (by omega)
    rw [swapTable, length_swapRecord ((fits k (by omega)).of_length before), before]

theorem fieldOf_lt (file : List Byte) (pos size : Nat) : fieldOf file pos size < 256 ^ size := by
  refine Nat.lt_of_lt_of_le (ofBytes_lt _) (Nat.pow_le_pow_right (by decide) ?_)
  exact List.length_take_le size _

/-- The first records of a table have been unmarshalled, and all of them are in the file. -/
structure Unmarshalled (t : Target) (pos size : Nat) (fields : List (Nat × Nat)) (file : List Byte) (k : Nat)
    (now : List Byte) : Prop where
  same : now = swapTable t pos size fields k file
  records : ∀ i < k, RecordFits (pos + i * size) fields file

theorem Unmarshalled.length {k : Nat} (done : Unmarshalled t pos size fields file k now) :
    now.length = file.length := by
  rw [done.same]
  exact length_swapTable done.records

theorem Unmarshalled.zero : Unmarshalled t pos size fields file 0 file := by
  refine ⟨rfl, fun i below => ?_⟩
  omega

theorem Unmarshalled.next {k : Nat} (done : Unmarshalled t pos size fields file k now)
    (fits : RecordFits (pos + k * size) fields file) :
    unmarshall t (pos + k * size) fields now = .ok ((), swapTable t pos size fields (k + 1) file) ∧
      Unmarshalled t pos size fields file (k + 1) (swapTable t pos size fields (k + 1) file) := by
  constructor
  · rw [unmarshall_eq (fits.of_length done.length), done.same]
    rfl
  · refine ⟨rfl, fun i below => ?_⟩
    rcases Nat.lt_succ_iff_lt_or_eq.mp below with before | rfl
    · exact done.records i before
    · exact fits

/-- The loop over a table that fits unmarshalls records until it has come to their number. -/
theorem table_within (fits : TableFits t pos size fields number file) (header : number + 2 ≤ file.length)
    {left k : Nat} (enough : k + left = 65536) (done : Unmarshalled t pos size fields file k now)
    (reached : ∀ j < k, j < fieldOf (swapTable t pos size fields j file) number 2) :
    Within (forHalf (field number 2) (fun i _ => unmarshall t (pos + i * size) fields) left k ()) now fun _ after =>
      ∃ e, fieldOf after number 2 ≤ e ∧ Unmarshalled t pos size fields file e after := by
  induction left generalizing k now with
  | zero =>
    have small := fieldOf_lt now number 2
    exact .pure ⟨k, by omega, done⟩
  | succ left ih =>
    have length := done.length
    refine .read (by omega) ?_
    split
    · rename_i more
      rw [done.same] at more
      have all : ∀ j ≤ k, j < fieldOf (swapTable t pos size fields j file) number 2 := by
        intro j le
        rcases Nat.lt_or_eq_of_le le with before | rfl
        · exact reached j before
        · exact more
      have next := done.next (fits k all)
      exact .after next.1 (ih (by omega) next.2 fun j below => all j (by omega))
    · exact .pure ⟨k, by omega, done⟩

theorem Safe.table {left k : Nat} (enough : k + left = 65536) (done : Unmarshalled t pos size fields file k now)
    (safe : Safe (forHalf (field number 2) (fun i _ => unmarshall t (pos + i * size) fields) left k ()) now) :
    ∀ i, k ≤ i → (∀ j ≤ i, j < fieldOf (swapTable t pos size fields j file) number 2) →
      RecordFits (pos + i * size) fields file := by
  induction left generalizing k now with
  | zero =>
    intro i le reached
    have more := reached i (Nat.le_refl i)
    have small := fieldOf_lt (swapTable t pos size fields i file) number 2
    omega
  | succ left ih =>
    intro i le reached
    have more := reached k le
    rw [← done.same] at more
    have round := safe.rest (field_eq safe.first.first.touched)
    rw [if_pos more] at round
    have here := round.first.record.of_length done.length.symm
    rcases Nat.lt_or_eq_of_le le with later | rfl
    · have next := done.next here
      exact ih (by omega) next.2 (round.rest next.1) i later reached
    · exact here

end Records

section Phases
variable {t : Target} {msgPrefix : String} {file now : List Byte}

theorem ehdrFields_le : ∀ entry ∈ ehdrFields t, entry.1 + entry.2 ≤ sizeofEhdr t := by
  simp only [ehdrFields, List.mem_cons, List.not_mem_nil, or_false, forall_eq_or_imp, forall_eq, e_entry, e_phoff,
    e_shoff, e_phentsize, e_phnum, e_shentsize, e_shnum, sizeofEhdr]
  omega

/-- The header lies in a file that has passed the checks. -/
theorem checkHeader_within : Within (checkHeader t msgPrefix) file fun _ now =>
    now.length = file.length ∧ sizeofEhdr t ≤ file.length := by
  refine .sized (.check fun met => ?_)
  have enough := of_decide_eq_true met
  have fits : RecordFits 0 (ehdrFields t) file := by
    intro entry member
    have small := ehdrFields_le entry member
    omega
  refine .after (unmarshall_eq fits) ?_
  have length := length_swapRecord (t := t) fits
  have ends : ∀ {pos size : Nat}, pos + size ≤ sizeofEhdr t →
      pos + size ≤ (swapRecord t 0 (ehdrFields t) file).length := fun le => by omega
  simp only [sizeofEhdr] at ends
  refine .read (ends (by omega)) (.check fun _ => .read (ends (by omega)) (.check fun _ => ?_))
  refine .read (ends (by omega)) (.check fun _ => .read (ends (by omega)) (.check fun _ => ?_))
  refine .read (ends (by omega)) (.check fun _ => .read (ends (by omega)) (.check fun _ => ?_))
  refine .read (ends (by unfold e_phoff; omega)) (.read (ends (by unfold e_phnum; omega)) (.check fun _ => ?_))
  refine .read (ends (by unfold e_phentsize; omega)) (.check fun _ => .check fun _ => ?_)
  refine .read (ends (by unfold e_shentsize; omega)) (.check fun _ => ?_)
  refine .read (ends (by unfold e_shoff; omega)) (.read (ends (by unfold e_shnum; omega)) ?_)
  exact .verify fun _ => ⟨length, enough⟩

theorem shnum_inside (header : sizeofEhdr t ≤ file.length) : e_shnum t + 2 ≤ file.length := by
  unfold sizeofEhdr at header
  unfold e_shnum
  omega

theorem phnum_inside (header : sizeofEhdr t ≤ file.length) : e_phnum t + 2 ≤ file.length := by
  unfold sizeofEhdr at header
  unfold e_phnum
  omega

theorem shoff_inside (header : sizeofEhdr t ≤ file.length) : e_shoff t + addrSize t ≤ file.length := by
  unfold sizeofEhdr at header
  unfold e_shoff
  omega

theorem phoff_inside (header : sizeofEhdr t ≤ file.length) : e_phoff t + addrSize t ≤ file.length := by
  unfold sizeofEhdr at header
  unfold e_phoff
  omega

theorem findSymbols_within {shdr : Nat} (header : sizeofEhdr t ≤ file.length)
    (records : ∀ i < fieldOf file (e_shnum t) 2, RecordFits (shdr + i * sizeofShdr t) (shdrFields t) file) :
    Within (findSymbols t msgPrefix shdr) file fun _ now => now = file := by
  have bound := shnum_inside header
  have small := fieldOf_lt file (e_shnum t) 2
  have type : ∀ i < fieldOf file (e_shnum t) 2, shdr + i * sizeofShdr t + sh_type + 4 ≤ file.length :=
    fun i before => records i before (sh_type, 4) (by simp [shdrFields])
  have offset : ∀ i < fieldOf file (e_shnum t) 2, shdr + i * sizeofShdr t + sh_offset t + addrSize t ≤ file.length :=
    fun i before => records i before (sh_offset t, addrSize t) (by simp [shdrFields])
  have length : ∀ i < fieldOf file (e_shnum t) 2, shdr + i * sizeofShdr t + sh_size t + addrSize t ≤ file.length :=
    fun i before => records i before (sh_size t, addrSize t) (by simp [shdrFields])
  refine Within.forHalf (n := fieldOf file (e_shnum t) 2) (I := fun _ _ now => now = file) ?_ ?_ (Nat.zero_le _)
    (by omega) rfl
  · rintro i found now - rfl
    exact field_eq bound
  · rintro i found now before rfl
    cases found with
    | some symbols => exact .pure rfl
    | none =>
      refine .read (type i before) ?_
      split
      · have entsize := records i before (sh_entsize t, addrSize t) (by simp [shdrFields])
        have link := records i before (sh_link t, 4) (by simp [shdrFields])
        refine .sized (.read entsize (.check fun _ => .read (offset i before) (.read (length i before) ?_)))
        refine .check fun _ => .read link (.check fun _ => .read bound (.check fun below => ?_))
        have other := of_decide_eq_true below
        exact .read (type _ other) (.check fun _ => .read (offset _ other) (.read (length _ other)
          (.check fun _ => .pure rfl)))
      · exact .pure rfl

theorem addSymbol_eq {name addr : Nat} (size : Nat) (ended : addr ≠ 0 → 0 ∈ file.drop name) :
    ∃ added, addSymbol name addr size file = .ok (added, file) := by
  unfold addSymbol
  split
  · rename_i valued
    exact ⟨_, bind_of_ok (cString_eq (ended valued))⟩
  · exact ⟨[], rfl⟩

/-- The place of a symbol, counted from the first one that is used. -/
theorem symbol_place (symbols : Symbols) (k : Nat) :
    symbols.table + (1 + k) * sizeofSym t = symbols.table + sizeofSym t + k * sizeofSym t := by
  rw [Nat.add_mul, Nat.one_mul, Nat.add_assoc]

theorem symFields_mem : (st_name, 4) ∈ symFields t ∧ (st_value t, addrSize t) ∈ symFields t ∧
    (st_size t, addrSize t) ∈ symFields t := by
  simp [symFields]

abbrev SymbolsDone (t : Target) (symbols : Symbols) (file : List Byte) (k : Nat) (now : List Byte) : Prop :=
  Unmarshalled t (symbols.table + sizeofSym t) (sizeofSym t) (symFields t) file k now

/-- From the symbol `k + 1` on, if those in front of it have been unmarshalled. -/
theorem loadSymbols_within (msgPrefix : String) {symbols : Symbols} (fits : SymbolsFit t symbols file) {left k : Nat}
    (remaining : k + left = symbols.count - 1) (done : SymbolsDone t symbols file k now)
    (passed : ∀ j < k, symbolName t symbols j file < symbols.size) :
    Within (loadSymbols t msgPrefix symbols left (1 + k)) now fun _ after => after.length = file.length := by
  induction left generalizing k now with
  | zero => exact .pure done.length
  | succ left ih =>
    have here := fits k (by omega) passed
    rw [symbol_place] at here
    have next := done.next here.1
    have record := here.1.of_length next.2.length
    rw [loadSymbols, symbol_place]
    refine .after next.1 (.read (record _ symFields_mem.1) (.check fun below => ?_))
    refine .read (record _ symFields_mem.2.1) (.read (record _ symFields_mem.2.2) ?_)
    have name : symbolName t symbols k file < symbols.size := by
      rw [symbolName, symbol_place]
      exact of_decide_eq_true below
    have ended := here.2 name
    rw [symbolName, symbolValue, symbol_place] at ended
    obtain ⟨added, same⟩ := addSymbol_eq (fieldOf _ _ (addrSize t)) ended
    refine .after same ?_
    refine (ih (k := k + 1) (by omega) next.2 fun j before => ?_).bind fun _ _ sized => .pure sized
    rcases Nat.lt_succ_iff_lt_or_eq.mp before with earlier | rfl
    · exact passed j earlier
    · exact name

theorem Safe.symbols {symbols : Symbols} {left k : Nat} (remaining : k + left = symbols.count - 1)
    (done : SymbolsDone t symbols file k now)
    (safe : Safe (loadSymbols t msgPrefix symbols left (1 + k)) now) :
    ∀ i, k ≤ i → i < symbols.count - 1 → (∀ j < i, symbolName t symbols j file < symbols.size) →
      RecordFits (symbols.table + (1 + i) * sizeofSym t) (symFields t) file ∧
        (symbolName t symbols i file < symbols.size → symbolValue t symbols i file ≠ 0 →
          0 ∈ (symbolsDone t symbols (i + 1) file).drop (symbols.names + symbolName t symbols i file)) := by
  induction left generalizing k now with
  | zero =>
    intro i le below
    omega
  | succ left ih =>
    intro i le below passed
    rw [loadSymbols, symbol_place] at safe
    have here := safe.first.record.of_length done.length.symm
    have next := done.next here
    have record := here.of_length next.2.length
    have rest := (safe.rest next.1).rest (field_eq (record _ symFields_mem.1))
    have named : symbolName t symbols k file < symbols.size →
        (symbolValue t symbols k file ≠ 0 →
          0 ∈ (symbolsDone t symbols (k + 1) file).drop (symbols.names + symbolName t symbols k file)) ∧
        Safe (loadSymbols t msgPrefix symbols left (1 + (k + 1))) (symbolsDone t symbols (k + 1) file) := by
      intro name
      rw [symbolName, symbol_place] at name
      have fields := ((rest.rest (verify_eq (decide_eq_true name))).rest (field_eq (record _ symFields_mem.2.1))).rest
        (field_eq (record _ symFields_mem.2.2))
      have ended : symbolValue t symbols k file ≠ 0 →
          0 ∈ (symbolsDone t symbols (k + 1) file).drop (symbols.names + symbolName t symbols k file) := by
        intro valued
        rw [symbolValue, symbol_place] at valued
        rw [symbolName, symbol_place]
        have text := fields.first
        unfold addSymbol at text
        rw [symbolsDone] at valued
        rw [if_pos valued] at text
        exact text.first.ended
      refine ⟨ended, ?_⟩
      rw [symbolName, symbolValue, symbol_place] at ended
      obtain ⟨added, same⟩ := addSymbol_eq (fieldOf _ _ (addrSize t)) ended
      exact (fields.rest same).first
    rcases Nat.lt_or_eq_of_le le with later | rfl
    · exact ih (k := k + 1) (by omega) next.2 (named (passed k later)).2 i later below passed
    · rw [symbol_place]
      exact ⟨here, fun name => (named name).1⟩

theorem phdrFields_mem : (p_type, 4) ∈ phdrFields t ∧ (p_flags t, 4) ∈ phdrFields t ∧
    (p_offset t, addrSize t) ∈ phdrFields t ∧ (p_vaddr t, addrSize t) ∈ phdrFields t ∧
    (p_filesz t, addrSize t) ∈ phdrFields t ∧ (p_memsz t, addrSize t) ∈ phdrFields t := by
  simp [phdrFields]

/-- A segment is loaded exactly if it passes the checks. -/
theorem loadSegment_within {ph : Nat} {found : List Range × List (Nat × Nat × Nat)}
    (record : RecordFits ph (phdrFields t) file) :
    Within (loadSegment t msgPrefix ph found) file fun next now =>
      now = file ∧ SegmentPasses t ph file ∧ next.1 = found.1 ++ segmentRanges t ph file := by
  obtain ⟨type, flags, offset, vaddr, filesz, memsz⟩ := phdrFields_mem (t := t)
  refine .read (record _ memsz) (.read (record _ type) ?_)
  unfold SegmentPasses segmentRanges
  split
  · rename_i loadable
    refine .read (record _ filesz) (.check fun smaller => .read (record _ flags) (.read (record _ vaddr) ?_))
    have less := of_decide_eq_true smaller
    split
    · rename_i someBytes
      refine .read (record _ offset) (.sized (.check fun inside => .pure ⟨rfl, fun _ => ⟨less, fun _ => ?_⟩, ?_⟩))
      · exact of_decide_eq_true inside
      · rw [if_pos ⟨loadable, someBytes⟩]
    · rename_i noBytes
      refine .pure ⟨rfl, fun _ => ⟨less, fun someBytes => absurd someBytes noBytes⟩, ?_⟩
      rw [if_neg fun both => noBytes both.2, List.append_nil]
  · rename_i other
    refine .pure ⟨rfl, fun loadable => absurd loadable other, ?_⟩
    rw [if_neg fun both => other both.1, List.append_nil]

theorem loadSegment_eq (msgPrefix : String) {ph : Nat} (found : List Range × List (Nat × Nat × Nat))
    (record : RecordFits ph (phdrFields t) file) (passes : SegmentPasses t ph file) :
    ∃ next, loadSegment t msgPrefix ph found file = .ok (next, file) := by
  obtain ⟨type, flags, offset, vaddr, filesz, memsz⟩ := phdrFields_mem (t := t)
  rw [loadSegment, bind_of_ok (field_eq (record _ memsz)), bind_of_ok (field_eq (record _ type))]
  split
  · rename_i loadable
    have checks := passes loadable
    rw [bind_of_ok (field_eq (record _ filesz)), bind_of_ok (verify_eq (decide_eq_true checks.1)),
      bind_of_ok (field_eq (record _ flags)), bind_of_ok (field_eq (record _ vaddr))]
    split
    · rename_i someBytes
      rw [bind_of_ok (field_eq (record _ offset))]
      have size : (get : LoaderM (List Byte)) file = .ok (file, file) := rfl
      rw [bind_of_ok size]
      exact ⟨_, bind_of_ok (verify_eq (decide_eq_true (checks.2 someBytes)))⟩
    · exact ⟨_, rfl⟩
  · exact ⟨found, rfl⟩

section Segments
variable (msgPrefix : String) {phdr : Nat} (header : sizeofEhdr t ≤ file.length)
  (records : ∀ i < fieldOf file (e_phnum t) 2, RecordFits (phdr + i * sizeofPhdr t) (phdrFields t) file)
include header records

theorem loadSegments_within : Within (loadSegments t msgPrefix phdr) file fun found now => now = file ∧
    (∀ i < fieldOf file (e_phnum t) 2, SegmentPasses t (phdr + i * sizeofPhdr t) file) ∧
    found.1 = (List.range (fieldOf file (e_phnum t) 2)).flatMap fun i =>
      segmentRanges t (phdr + i * sizeofPhdr t) file := by
  have small := fieldOf_lt file (e_phnum t) 2
  refine Within.forHalf (n := fieldOf file (e_phnum t) 2)
    (I := fun i (found : List Range × List (Nat × Nat × Nat)) now => now = file ∧
      (∀ j < i, SegmentPasses t (phdr + j * sizeofPhdr t) file) ∧
      found.1 = (List.range i).flatMap fun i => segmentRanges t (phdr + i * sizeofPhdr t) file)
    ?_ ?_ (Nat.zero_le _) (by omega) ⟨rfl, fun j below => by omega, rfl⟩
  · rintro i found now - ⟨rfl, -⟩
    exact field_eq (phnum_inside header)
  · rintro i found now before ⟨rfl, passed, same⟩
    refine (loadSegment_within (records i before)).weaken ?_
    rintro next _ ⟨rfl, passes, more⟩
    refine ⟨rfl, fun j below => ?_, ?_⟩
    · rcases Nat.lt_succ_iff_lt_or_eq.mp below with earlier | rfl
      · exact passed j earlier
      · exact passes
    · rw [more, same, List.range_succ, List.flatMap_append, List.flatMap_singleton]

theorem loadSegments_eq
    (passes : ∀ i < fieldOf file (e_phnum t) 2, SegmentPasses t (phdr + i * sizeofPhdr t) file) :
    ∃ found, loadSegments t msgPrefix phdr file = .ok (found, file) := by
  have round : ∀ {left i : Nat} (found : List Range × List (Nat × Nat × Nat)),
      ∃ last, forHalf (field (e_phnum t) 2) (fun i found => loadSegment t msgPrefix (phdr + i * sizeofPhdr t) found)
        left i found file = .ok (last, file) := by
    intro left
    induction left with
    | zero => exact fun found => ⟨found, rfl⟩
    | succ left ih =>
      intro i found
      rw [forHalf, bind_of_ok (field_eq (phnum_inside header))]
      split
      · rename_i more
        obtain ⟨next, same⟩ := loadSegment_eq msgPrefix found (records i more) (passes i more)
        rw [bind_of_ok same]
        exact ih next
      · exact ⟨found, rfl⟩
  exact round ([], [])

end Segments

theorem segmentRanges_le {ph : Nat} (passes : SegmentPasses t ph file) :
    ∀ r ∈ segmentRanges t ph file, r.romSize ≤ r.vsize := by
  intro r member
  unfold segmentRanges at member
  split at member
  · rename_i loaded
    rw [List.mem_singleton.mp member]
    exact (passes loaded.1).1
  · cases member

/-! ### The whole loader -/

theorem symbolPhase_within (fits : TablesFit t msgPrefix file) : Within (symbolPhase t msgPrefix) file fun _ now =>
    now.length = file.length ∧ sizeofEhdr t ≤ file.length := by
  refine checkHeader_within.self.bind fun _ now checked => ?_
  obtain ⟨done, length, header⟩ := checked
  have enough : sizeofEhdr t ≤ now.length := by omega
  have loaded := table_within (fits.sections now done) (shnum_inside enough) (Nat.zero_add _) .zero
    fun j below => by omega
  refine .read (shoff_inside enough) (loaded.bind fun _ after swapped => ?_)
  obtain ⟨e, number, records⟩ := swapped
  have size := records.length
  refine (findSymbols_within (by omega) fun i below => ?_).weaken fun _ final same => ⟨?_, header⟩
  · exact (records.records i (by omega)).of_length size
  · rw [same, size, length]

theorem headerPhase_within (fits : TablesFit t msgPrefix file) : Within (headerPhase t msgPrefix) file fun _ now =>
    now.length = file.length ∧ sizeofEhdr t ≤ file.length := by
  refine (symbolPhase_within fits).self.bind fun found now searched => ?_
  obtain ⟨done, length, header⟩ := searched
  cases found with
  | none => exact .pure ⟨length, header⟩
  | some symbols =>
    have loaded := loadSymbols_within msgPrefix (fits.symbols symbols now done) (k := 0)
      (Nat.zero_add _) .zero fun j below => by omega
    exact loaded.weaken fun _ after size => ⟨size.trans length, header⟩

theorem segmentPhase_within (fits : TablesFit t msgPrefix file) :
    Within (segmentPhase t msgPrefix) file fun found now => now.length = file.length ∧ sizeofEhdr t ≤ now.length ∧
      ∀ i < fieldOf now (e_phnum t) 2, RecordFits (found.2 + i * sizeofPhdr t) (phdrFields t) now := by
  refine (headerPhase_within fits).self.bind fun added now searched => ?_
  obtain ⟨done, length, header⟩ := searched
  have enough : sizeofEhdr t ≤ now.length := by omega
  have loaded := table_within (fits.headers added now done) (phnum_inside enough) (Nat.zero_add _) .zero
    fun j below => by omega
  refine .read (phoff_inside enough) (loaded.bind fun _ after swapped => .pure ?_)
  obtain ⟨e, number, records⟩ := swapped
  have size := records.length
  exact ⟨size.trans length, by omega, fun i below => (records.records i (by omega)).of_length size⟩

theorem Safe.tables (safe : Safe (segmentPhase t msgPrefix) file) : TablesFit t msgPrefix file := by
  refine ⟨fun now done => ?_, fun symbols now done => ?_, fun added now done => ?_⟩
  · have rest := safe.first.first.rest done
    have table := (rest.rest (field_eq rest.first.first.touched)).first
    exact fun k reached => table.table (Nat.zero_add _) .zero k (Nat.zero_le _) reached
  · have rest := safe.first.rest done
    exact fun k below passed => rest.symbols (k := 0) (Nat.zero_add _) .zero k (Nat.zero_le _) below passed
  · have rest := safe.rest done
    have table := (rest.rest (field_eq rest.first.first.touched)).first
    exact fun k reached => table.table (Nat.zero_add _) .zero k (Nat.zero_le _) reached

theorem segmentRanges_sized {ph : Nat} :
    ∀ r ∈ segmentRanges t ph file, 0 < r.romSize ∧ r.romSize < 2 ^ (8 * addrSize t) := by
  intro r member
  unfold segmentRanges at member
  split at member
  · rename_i loaded
    rw [List.mem_singleton.mp member]
    refine ⟨loaded.2, Nat.lt_of_lt_of_eq (fieldOf_lt _ _ _) ?_⟩
    rw [Nat.pow_mul]
  · cases member

/-- The ranges of a program are not empty, and their sizes are those of fields. -/
theorem loadProgram_within (fits : TablesFit t msgPrefix file) :
    Within (LoadProgram t msgPrefix) file fun program now => now.length = file.length ∧
      ∀ r ∈ program.ranges, 0 < r.romSize ∧ r.romSize < 2 ^ (8 * addrSize t) := by
  refine (segmentPhase_within fits).bind ?_
  rintro ⟨added, phdr⟩ now ⟨length, header, records⟩
  have fields : e_entry + addrSize t ≤ now.length ∧ 18 + 2 ≤ now.length := by
    unfold sizeofEhdr at header
    unfold e_entry
    omega
  refine (loadSegments_within msgPrefix header records).bind ?_
  rintro ⟨ranges, reserved⟩ _ ⟨rfl, passes, same⟩
  refine .read fields.1 (.read fields.2 (.pure ⟨length, fun r member => ?_⟩))
  rw [show ranges = _ from same] at member
  obtain ⟨i, below, member⟩ := List.mem_flatMap.mp member
  exact segmentRanges_sized r member

end Phases

/-- A header for the first target, and one program header behind it. -/
def oneSegment (phoff : Nat) : List Byte :=
  [0x7f, 0x45, 0x4c, 0x46, 2, 1, 1, 0, 0, 0, 0, 0, 0, 0, 0, 0] ++ toBytes 2 2 ++ toBytes 0xafef 2 ++ toBytes 1 4 ++
    toBytes 0 8 ++ toBytes phoff 8 ++ toBytes 0 8 ++ toBytes 0 4 ++ toBytes 64 2 ++ toBytes 56 2 ++ toBytes 1 2 ++
    toBytes 64 2 ++ toBytes 0 2 ++ toBytes 0 2 ++ toBytes 1 4 ++ toBytes 5 4 ++ toBytes 16 8 ++ toBytes 4096 8 ++
    toBytes 0 8 ++ toBytes 4 8 ++ toBytes 8 8 ++ toBytes 8 8

/-- At its proper place the program header is read, and the segment is loaded. -/
example : (LoadProgram .mtalpha "rom" (oneSegment 64)).toOption.map (fun loaded => loaded.1.ranges) =
    some [⟨16, 4, 4096, 8, 13⟩] := by decide +kernel

end ELF

end Mgsim.Dev
