import Mathlib.Algebra.Ring.Nat
import Mgsim.Lib.Backpatch
import Mgsim.Sim.ModelRegistry

namespace Mgsim.Sim
open Mgsim.Lib

abbrev ConfWord := BitVec 32

def confMagic : ConfWord := 0x53474d23

def confTagTypetable : ConfWord := 1
def confTagAttrtable : ConfWord := 2
def confTagRawconfig : ConfWord := 3
def confTagObject : ConfWord := 4
def confTagSymbol : ConfWord := 5

def confEntityVoid : ConfWord := 1
def confEntitySymbol : ConfWord := 2
def confEntityObject : ConfWord := 3
def confEntityUint : ConfWord := 4

section
variable {ObjectRef Symbol : Type} [LinearOrder ObjectRef] [LinearOrder Symbol]

variable (Symbol) in
/-- The attributes of each type in their order, and the index of each of them. -/
structure TypeAttributes where
  types : SortedMap Symbol (List Symbol)
  typeattrs : SortedMap Symbol (SortedMap Symbol Nat)

namespace TypeAttributes

def clear (t : TypeAttributes Symbol) (type : Symbol) : TypeAttributes Symbol :=
  ⟨t.types.put type [], t.typeattrs.put type .empty⟩

/-- The loop over the attributes of one type. -/
def enter (type : Symbol) : List Symbol → (j : Nat) → TypeAttributes Symbol → TypeAttributes Symbol
  | [], _, t => t
  | k :: rest, j, t =>
    enter type rest (j + 1) ⟨t.types.update type [] (· ++ [k]), t.typeattrs.update type .empty (·.put k j)⟩

end TypeAttributes

namespace ComponentModelRegistry
variable (reg : ComponentModelRegistry ObjectRef Symbol)

/-- A property of an object is entered into the set of its type. -/
def collectProperty (obj : ObjectRef) (collect : SortedMap Symbol (SortedMap Symbol Unit))
    (j : Symbol × Entity ObjectRef Symbol) : SortedMap Symbol (SortedMap Symbol Unit) :=
  match reg.objects.get? obj with
  | none => collect
  | some type => collect.update type .empty (·.insert j.1 ())

/-- The attributes that the objects of each type have. -/
def collect : SortedMap Symbol (SortedMap Symbol Unit) :=
  reg.objprops.entries.foldl (fun collect i => i.2.foldl (reg.collectProperty i.1) collect) .empty

def collectPropertiesByType : TypeAttributes Symbol :=
  let cleared := reg.objects.entries.foldl (fun t i => t.clear i.2) ⟨.empty, .empty⟩
  reg.collect.entries.foldl (fun t i => TypeAttributes.enter i.1 i.2.keys 0 t) cleared

end ComponentModelRegistry

variable (ObjectRef Symbol) in
/-- The variables of `GetConfWords`, and the registry, which gets more symbols. -/
structure ConfBuilder where
  reg : ComponentModelRegistry ObjectRef Symbol
  db : List ConfWord
  attrtableBackrefs : SortedMap Symbol (List Nat)
  symBackrefs : SortedMap Symbol (List Nat)
  objBackrefs : SortedMap ObjectRef (List Nat)
  typeTable : SortedMap Symbol Nat
  attrtableTable : SortedMap Symbol Nat
  objTable : SortedMap ObjectRef Nat
  symTable : SortedMap Symbol Nat

/-- The word that a character of type `char` is converted to: its sign is extended. -/
def charWord (c : Fin 256) : ConfWord := (BitVec.ofFin c : BitVec 8).signExtend 32

/-- The words of a string whose length is a multiple of four. -/
def packWords : List (Fin 256) → List ConfWord
  | c₀ :: c₁ :: c₂ :: c₃ :: rest =>
    (charWord c₀ ||| charWord c₁ <<< 8 ||| charWord c₂ <<< 16 ||| charWord c₃ <<< 24) :: packWords rest
  | _ => []

/-- A string with zeros behind it, up to the next word. -/
def resizeRaw (text : Text) : List (Fin 256) := text ++ List.replicate ((text.length / 4 + 1) * 4 - text.length) 0

namespace ConfBuilder
variable (b : ConfBuilder ObjectRef Symbol)

def init (reg : ComponentModelRegistry ObjectRef Symbol) : ConfBuilder ObjectRef Symbol :=
  ⟨reg, [], .empty, .empty, .empty, .empty, .empty, .empty, .empty⟩

def pushBack (word : ConfWord) : ConfBuilder ObjectRef Symbol := { b with db := b.db ++ [word] }

def pushSize (n : Nat) : ConfBuilder ObjectRef Symbol := b.pushBack (BitVec.ofNat 32 n)

def attrtableRef (type : Symbol) : ConfBuilder ObjectRef Symbol :=
  { b with attrtableBackrefs := b.attrtableBackrefs.update type [] (· ++ [b.db.length]) }.pushBack 0

def symRef (sym : Symbol) : ConfBuilder ObjectRef Symbol :=
  { b with symBackrefs := b.symBackrefs.update sym [] (· ++ [b.db.length]) }.pushBack 0

def objRef (obj : ObjectRef) : ConfBuilder ObjectRef Symbol :=
  { b with objBackrefs := b.objBackrefs.update obj [] (· ++ [b.db.length]) }.pushBack 0

def typeIndex (type : Symbol) : Nat := (b.typeTable.get? type).getD 0

/-- The header of a block, its content, and the offset of the next block in the header. -/
def block (tag : ConfWord) (content : ConfBuilder ObjectRef Symbol → ConfBuilder ObjectRef Symbol) :
    ConfBuilder ObjectRef Symbol :=
  let header := b.pushBack tag
  let curNextOffset := header.db.length
  let whole := content (header.pushBack 0)
  { whole with db := whole.db.set curNextOffset (BitVec.ofNat 32 whole.db.length) }

/-- The loop over the types. -/
def typeEntries : List (Symbol × List Symbol) → (typecnt : Nat) → ConfBuilder ObjectRef Symbol → ConfBuilder ObjectRef Symbol
  | [], _, b => b
  | i :: rest, typecnt, b =>
    let b := b.symRef i.1
    let b := if i.2.isEmpty then b.pushBack 0 else b.attrtableRef i.1
    typeEntries rest (typecnt + 1) { b with typeTable := b.typeTable.put i.1 typecnt }

def typetableBlock (types : SortedMap Symbol (List Symbol)) : ConfBuilder ObjectRef Symbol :=
  b.block confTagTypetable fun b => typeEntries types.entries 0 (b.pushSize types.entries.length)

def attrtableBlock (i : Symbol × List Symbol) : ConfBuilder ObjectRef Symbol :=
  if i.2.isEmpty then b
  else b.block confTagAttrtable fun b =>
    let b := { b with attrtableTable := b.attrtableTable.put i.1 b.db.length }
    let b := (b.pushSize i.2.length).pushSize (b.typeIndex i.1)
    i.2.foldl symRef b

/-- The type and the value of an entry. -/
def pushEntity : Option (Entity ObjectRef Symbol) → ConfBuilder ObjectRef Symbol
  | none => (b.pushBack 0).pushBack 0
  | some .void => (b.pushBack confEntityVoid).pushBack 0
  | some (.symbol s) => (b.pushBack confEntitySymbol).symRef s
  | some (.object o) => (b.pushBack confEntityObject).objRef o
  | some (.uint value) => (b.pushBack confEntityUint).pushBack value

/-- The value of a property is put at the index of its attribute. -/
def collectValue (propdescs : SortedMap Symbol Nat) (collect : List (Option (Entity ObjectRef Symbol)))
    (j : Symbol × Entity ObjectRef Symbol) : List (Option (Entity ObjectRef Symbol)) :=
  match propdescs.get? j.1 with
  | none => collect
  | some index => collect.set index (some j.2)

def collectValues (propdescs : SortedMap Symbol Nat) (props : List (Symbol × Entity ObjectRef Symbol)) :
    List (Option (Entity ObjectRef Symbol)) :=
  props.foldl (collectValue propdescs) (List.replicate propdescs.entries.length none)

def objectBlock (typeattrs : SortedMap Symbol (SortedMap Symbol Nat)) (i : ObjectRef × Symbol) :
    ConfBuilder ObjectRef Symbol :=
  b.block confTagObject fun b =>
    let b := { b with objTable := b.objTable.put i.1 b.db.length }
    let b := b.pushSize (b.typeIndex i.2)
    let propdescs := (typeattrs.get? i.2).getD .empty
    (collectValues propdescs ((b.reg.objprops.get? i.1).getD [])).foldl pushEntity b

def rawconfEntry (i : Text × Text) : ConfBuilder ObjectRef Symbol :=
  let (reg, key) := b.reg.makeSymbol i.1
  let (reg, val) := reg.makeSymbol i.2
  ({ b with reg := reg }.symRef key).symRef val

def rawconfBlock (rawconf : List (Text × Text)) : ConfBuilder ObjectRef Symbol :=
  b.block confTagRawconfig fun b => rawconf.foldl rawconfEntry (b.pushSize rawconf.length)

def symbolBlock (text : Text) : ConfBuilder ObjectRef Symbol :=
  b.block confTagSymbol fun b =>
    let b := { b with symTable := b.symTable.put (b.reg.node text) b.db.length }
    let b := b.pushSize text.length
    { b with db := b.db ++ packWords (resizeRaw text) }

end ConfBuilder

/-- The words of the back references of one kind, with their places. -/
def backrefWrites {κ : Type} [LinearOrder κ] (backrefs : SortedMap κ (List Nat)) (table : SortedMap κ Nat) :
    List (Nat × ConfWord) :=
  backrefs.entries.flatMap fun i => i.2.map fun j => (j, BitVec.ofNat 32 ((table.get? i.1).getD 0))

/-- All back references are resolved. -/
def ConfBuilder.resolve (b : ConfBuilder ObjectRef Symbol) : List ConfWord :=
  patch (patch (patch b.db (backrefWrites b.attrtableBackrefs b.attrtableTable)) (backrefWrites b.symBackrefs b.symTable))
    (backrefWrites b.objBackrefs b.objTable)

/-- `GetConfWords`, where `rawconf` is what `getRawConfiguration` returns. -/
def ComponentModelRegistry.getConfWords (reg : ComponentModelRegistry ObjectRef Symbol) (rawconf : List (Text × Text)) :
    List ConfWord :=
  let ⟨types, typeattrs⟩ := reg.collectPropertiesByType
  let b := (ConfBuilder.init reg).pushBack confMagic
  let b := b.typetableBlock types
  let b := types.entries.foldl ConfBuilder.attrtableBlock b
  let b := reg.objects.entries.foldl (fun b i => b.objectBlock typeattrs i) b
  let b := b.rawconfBlock rawconf
  let b := b.reg.symbols.keys.foldl ConfBuilder.symbolBlock b
  (b.pushBack 0).resolve

end
end Mgsim.Sim
