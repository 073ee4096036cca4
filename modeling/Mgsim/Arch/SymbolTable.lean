import Mathlib.Data.Prod.Lex
import Mathlib.Data.String.Basic
import Mathlib.Data.BitVec
import Mgsim.Lib.Search
import Mgsim.Drisc.Register

namespace Mgsim.Arch
open Mgsim.Lib Mgsim.Drisc

/-- An address, which is as wide as an integer of the target. -/
abbrev MemAddr (t : Target) : Type := BitVec (8 * t.sizeofInteger)

variable {t : Target}

/-- `entry_t`: a pair of an address and a pair of a size and a name. -/
structure Entry (t : Target) where
  addr : MemAddr t
  size : BitVec 64
  name : String
deriving DecidableEq

/-- The pairs as `sort` compares them. -/
def Entry.key (e : Entry t) : Nat ×ₗ Nat ×ₗ String := toLex (e.addr.toNat, toLex (e.size.toNat, e.name))

/-- `entry_addr(e) + entry_sz(e)`. -/
def Entry.stop (e : Entry t) : BitVec 64 := e.addr.setWidth 64 + e.size

/-- The entry that stands in where there is none below. -/
def Entry.simulated : Entry t := ⟨0, 0, "0"⟩

/-- What a text tells about an address. -/
inductive Description (t : Target)
  | address (addr : MemAddr t)
  | bare (addr : MemAddr t)
  | exactly (found : Entry t) (more : List (Entry t))
  | inside (e : Entry t) (offset : BitVec 64)
  | under (e : Entry t) (distance : BitVec 64)
  | past (e : Entry t) (distance : BitVec 64)

def hex (n : Nat) : String := String.ofList (Nat.toDigits 16 n)

def dec (n : Nat) : String := String.ofList (Nat.toDigits 10 n)

/-- The text between the brackets. -/
def Description.text : Description t → String
  | .address addr => "0x" ++ hex addr.toNat
  | .bare addr => hex addr.toNat
  | .exactly found more => found.name ++ String.join (more.map fun e => "," ++ e.name)
  | .inside e offset => e.name ++ "+0x" ++ hex offset.toNat
  | .under e distance => e.name ++ "-0x" ++ hex distance.toNat
  | .past e distance => e.name ++ (if e.size ≠ 0 then "+" ++ dec e.size.toNat else "") ++ "+0x" ++ hex distance.toNat

/-- The loop over the symbols at the same address. It has no result if it leaves the table. -/
def collate (addr : MemAddr t) : List (Entry t) → Option (List (Entry t))
  | [] => none
  | e :: rest => if e.addr = addr then (collate addr rest).map (e :: ·) else some []

/-- What `Resolve` finds out, unless it accesses an entry that does not exist. -/
def describe (entries : List (Entry t)) (addr : MemAddr t) : Option (Description t) :=
  if entries.isEmpty then some (.address addr) else
    match bisect (fun e => e.addr < addr) entries 0 entries.length with
    | none => none
    | some cursor =>
      if entries.length ≤ cursor then
        match entries[entries.length - 1]? with
        | none => none
        | some last =>
          if addr.setWidth 64 < last.stop then some (.inside last (last.stop - addr.setWidth 64)) else some (.bare addr)
      else
        match entries[cursor]? with
        | none => none
        | some found =>
          if found.addr = addr then (collate addr (entries.drop (cursor + 1))).map (.exactly found)
          else
            match if 0 < cursor then entries[cursor - 1]? else some .simulated with
            | none => none
            | some below =>
              if addr.setWidth 64 < below.stop then some (.inside below ((addr - below.addr).setWidth 64))
              else
                let above := (found.addr - addr).setWidth 64
                let distance := addr.setWidth 64 - below.stop
                some (if above < distance then .under found above else .past below distance)

/-- `SymbolTable::Resolve`. -/
def resolve (entries : List (Entry t)) (addr : MemAddr t) : Option String :=
  (describe entries addr).map fun description => "<" ++ description.text ++ ">"

structure SymbolTable (t : Target) where
  entries : List (Entry t)
  cache : MemAddr t → Option String

def SymbolTable.empty : SymbolTable t := ⟨[], fun _ => none⟩

/-- `SymbolTable::AddSymbol`. -/
def SymbolTable.addSymbol (s : SymbolTable t) (addr : MemAddr t) (name : String) (size : BitVec 64) : SymbolTable t :=
  ⟨(s.entries ++ [Entry.mk addr size name]).mergeSort fun a b => a.key ≤ b.key, fun _ => none⟩

/-- `SymbolTable::operator[]` of a constant table. -/
def SymbolTable.lookUp (s : SymbolTable t) (addr : MemAddr t) : Option String :=
  match s.cache addr with
  | some text => some text
  | none => resolve s.entries addr

/-- `SymbolTable::operator[]`, which remembers the text. -/
def SymbolTable.index (s : SymbolTable t) (addr : MemAddr t) : Option (String × SymbolTable t) :=
  match s.cache addr with
  | some text => some (text, s)
  | none => (resolve s.entries addr).map fun text => (text, { s with cache := Function.update s.cache addr (some text) })

/-- What is done with a table. -/
inductive Use (t : Target)
  | add (addr : MemAddr t) (name : String) (size : BitVec 64)
  | look (addr : MemAddr t)

def SymbolTable.step (s : SymbolTable t) : Use t → Option (SymbolTable t)
  | .add addr name size => some (s.addSymbol addr name size)
  | .look addr => (s.index addr).map Prod.snd

def SymbolTable.run (s : SymbolTable t) : List (Use t) → Option (SymbolTable t)
  | [] => some s
  | use :: rest => (s.step use).bind fun s => s.run rest

/-- The symbols that have been added. -/
def added (uses : List (Use t)) : List (Entry t) :=
  uses.filterMap fun
    | .add addr name size => some (Entry.mk addr size name)
    | .look _ => none

end Mgsim.Arch
