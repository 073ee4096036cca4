import Mgsim.Lib.BlockChain
import Mgsim.Sim.PropertyTypes

namespace Mgsim.Sim
open Mgsim.Lib

variable {ObjectRef Symbol : Type} [LinearOrder ObjectRef] [LinearOrder Symbol]

/-- What an offset in the database can refer to. -/
inductive ConfLabel (ObjectRef Symbol : Type)
  | attrtable (type : Symbol)
  | symbol (sym : Symbol)
  | object (obj : ObjectRef)
deriving DecidableEq

abbrev ConfCell (ObjectRef Symbol : Type) := Cell (ConfLabel ObjectRef Symbol) ConfWord
abbrev ConfBlock (ObjectRef Symbol : Type) := Block (ConfLabel ObjectRef Symbol) 32

def entityCells : Option (Entity ObjectRef Symbol) → List (ConfCell ObjectRef Symbol)
  | none => [.word 0, .word 0]
  | some .void => [.word confEntityVoid, .word 0]
  | some (.symbol s) => [.word confEntitySymbol, .ref (.symbol s)]
  | some (.object o) => [.word confEntityObject, .ref (.object o)]
  | some (.uint value) => [.word confEntityUint, .word value]

namespace ComponentModelRegistry
variable (reg : ComponentModelRegistry ObjectRef Symbol)

def typeCells (type : Symbol) : List (ConfCell ObjectRef Symbol) :=
  [.ref (.symbol type), if (reg.attributes type).isEmpty then .word 0 else .ref (.attrtable type)]

def typetable : ConfBlock ObjectRef Symbol :=
  ⟨confTagTypetable, none, .word (BitVec.ofNat 32 reg.typeNames.length) :: reg.typeNames.flatMap reg.typeCells⟩

def attrtable (type : Symbol) : ConfBlock ObjectRef Symbol :=
  ⟨confTagAttrtable, some (.attrtable type),
    .word (BitVec.ofNat 32 (reg.attributes type).length) :: .word (BitVec.ofNat 32 (reg.typeNames.idxOf type)) ::
      (reg.attributes type).flatMap fun name => [.ref (.symbol name)]⟩

/-- There is no attribute table for a type without attributes. -/
def attrtables (type : Symbol) : List (ConfBlock ObjectRef Symbol) :=
  if (reg.attributes type).isEmpty then [] else [reg.attrtable type]

def objectEntry (i : ObjectRef × Symbol) : ConfBlock ObjectRef Symbol :=
  ⟨confTagObject, some (.object i.1), .word (BitVec.ofNat 32 (reg.typeNames.idxOf i.2)) ::
    (reg.attributes i.2).flatMap fun name => entityCells (reg.property i.1 name)⟩

/-- The symbols of a raw configuration entry. -/
def rawSymbols (i : Text × Text) : Symbol × Symbol := (reg.node (lowerCase i.1), reg.node (lowerCase i.2))

def rawconfEntries (rawconf : List (Text × Text)) : ConfBlock ObjectRef Symbol :=
  ⟨confTagRawconfig, none, .word (BitVec.ofNat 32 rawconf.length) ::
    rawconf.flatMap fun i => [.ref (.symbol (reg.rawSymbols i).1), .ref (.symbol (reg.rawSymbols i).2)]⟩

def symbolEntry (text : Text) : ConfBlock ObjectRef Symbol :=
  ⟨confTagSymbol, some (.symbol (reg.node text)),
    .word (BitVec.ofNat 32 text.length) :: (packWords (resizeRaw text)).map .word⟩

/-- The registry with the strings of the raw configuration. -/
def memoizeRaw (rawconf : List (Text × Text)) : ComponentModelRegistry ObjectRef Symbol :=
  rawconf.foldl (fun reg i => (reg.memoize (lowerCase i.1)).memoize (lowerCase i.2)) reg

/-- The blocks of the database. -/
def layout (rawconf : List (Text × Text)) : List (ConfBlock ObjectRef Symbol) :=
  [reg.typetable] ++ reg.typeNames.flatMap reg.attrtables ++ reg.objects.entries.map reg.objectEntry ++
    [reg.rawconfEntries rawconf] ++ (reg.memoizeRaw rawconf).symbols.keys.map reg.symbolEntry

theorem node_memoizeRaw (rawconf : List (Text × Text)) : (reg.memoizeRaw rawconf).node = reg.node := by
  unfold memoizeRaw
  induction rawconf generalizing reg with
  | nil => rfl
  | cons i rawconf ih => exact ih _

end ComponentModelRegistry

namespace ConfBuilder
variable {b b' b'' : ConfBuilder ObjectRef Symbol} {added more : List (ConfCell ObjectRef Symbol)}
  {cells : List (ConfCell ObjectRef Symbol)} {label : ConfLabel ObjectRef Symbol}

/-- The places that are to be filled with the offset of a label. -/
def refs (b : ConfBuilder ObjectRef Symbol) : ConfLabel ObjectRef Symbol → Nat → Prop
  | .attrtable type, i => i ∈ (b.attrtableBackrefs.get? type).getD []
  | .symbol sym, i => i ∈ (b.symBackrefs.get? sym).getD []
  | .object obj, i => i ∈ (b.objBackrefs.get? obj).getD []

/-- The offset that is known for a label. -/
def table (b : ConfBuilder ObjectRef Symbol) : ConfLabel ObjectRef Symbol → Option Nat
  | .attrtable type => b.attrtableTable.get? type
  | .symbol sym => b.symTable.get? sym
  | .object obj => b.objTable.get? obj

/-- From one state to the other cells are added, and nothing else changes. -/
structure Appends (b b' : ConfBuilder ObjectRef Symbol) (added : List (ConfCell ObjectRef Symbol)) : Prop where
  emitted : ∀ {cells}, Emitted b.db b.refs cells → Emitted b'.db b'.refs (cells ++ added)
  table : b'.table = b.table
  reg : b'.reg = b.reg
  typeTable : b'.typeTable = b.typeTable

namespace Appends

theorem refl (b : ConfBuilder ObjectRef Symbol) : Appends b b [] :=
  ⟨fun emitted => by rwa [List.append_nil], rfl, rfl, rfl⟩

theorem trans (first : Appends b b' added) (second : Appends b' b'' more) : Appends b b'' (added ++ more) where
  emitted start := by
    rw [← List.append_assoc]
    exact second.emitted (first.emitted start)
  table := second.table.trans first.table
  reg := second.reg.trans first.reg
  typeTable := second.typeTable.trans first.typeTable

theorem foldl {α : Type} {f : ConfBuilder ObjectRef Symbol → α → ConfBuilder ObjectRef Symbol}
    {g : α → List (ConfCell ObjectRef Symbol)} (l : List α) (each : ∀ b, ∀ x ∈ l, Appends b (f b x) (g x))
    (b : ConfBuilder ObjectRef Symbol) : Appends b (l.foldl f b) (l.flatMap g) := by
  induction l generalizing b with
  | nil => exact refl b
  | cons x l ih =>
    have rest := ih (fun b y member => each b y (List.mem_cons_of_mem _ member)) (f b x)
    exact (each b x List.mem_cons_self).trans rest

theorem pushBack (b : ConfBuilder ObjectRef Symbol) (word : ConfWord) : Appends b (b.pushBack word) [.word word] :=
  ⟨fun emitted => emitted.push_word word, rfl, rfl, rfl⟩

theorem pushSize (b : ConfBuilder ObjectRef Symbol) (n : Nat) : Appends b (b.pushSize n) [.word (BitVec.ofNat 32 n)] :=
  pushBack b _

end Appends

/-- A place is remembered with the others of its key. -/
theorem mem_remember {κ : Type} [LinearOrder κ] (backrefs : SortedMap κ (List Nat)) (key other : κ) (place i : Nat) :
    i ∈ ((backrefs.update key [] (· ++ [place])).get? other).getD [] ↔
      i ∈ (backrefs.get? other).getD [] ∨ other = key ∧ i = place := by
  rw [SortedMap.get?_update]
  split
  · rename_i same
    subst same
    simp
  · rename_i different
    simp [different]

theorem appends_attrtableRef (b : ConfBuilder ObjectRef Symbol) (type : Symbol) :
    Appends b (b.attrtableRef type) [.ref (.attrtable type)] := by
  refine ⟨fun emitted => emitted.push_ref 0 fun label i => ?_, rfl, rfl, rfl⟩
  cases label with
  | attrtable other =>
    rw [ConfLabel.attrtable.injEq]
    exact mem_remember b.attrtableBackrefs type other b.db.length i
  | symbol | object => exact (or_iff_left fun other => nomatch other.1).symm

theorem appends_symRef (b : ConfBuilder ObjectRef Symbol) (sym : Symbol) :
    Appends b (b.symRef sym) [.ref (.symbol sym)] := by
  refine ⟨fun emitted => emitted.push_ref 0 fun label i => ?_, rfl, rfl, rfl⟩
  cases label with
  | symbol other =>
    rw [ConfLabel.symbol.injEq]
    exact mem_remember b.symBackrefs sym other b.db.length i
  | attrtable | object => exact (or_iff_left fun other => nomatch other.1).symm

theorem appends_objRef (b : ConfBuilder ObjectRef Symbol) (obj : ObjectRef) :
    Appends b (b.objRef obj) [.ref (.object obj)] := by
  refine ⟨fun emitted => emitted.push_ref 0 fun label i => ?_, rfl, rfl, rfl⟩
  cases label with
  | object other =>
    rw [ConfLabel.object.injEq]
    exact mem_remember b.objBackrefs obj other b.db.length i
  | attrtable | symbol => exact (or_iff_left fun other => nomatch other.1).symm

theorem appends_pushEntity (b : ConfBuilder ObjectRef Symbol) (value : Option (Entity ObjectRef Symbol)) :
    Appends b (b.pushEntity value) (entityCells value) := by
  match value with
  | none => exact (Appends.pushBack b 0).trans (Appends.pushBack _ 0)
  | some .void => exact (Appends.pushBack b confEntityVoid).trans (Appends.pushBack _ 0)
  | some (.symbol s) => exact (Appends.pushBack b confEntitySymbol).trans (appends_symRef _ s)
  | some (.object o) => exact (Appends.pushBack b confEntityObject).trans (appends_objRef _ o)
  | some (.uint value) => exact (Appends.pushBack b confEntityUint).trans (Appends.pushBack _ value)

/-- From one state to the other the payload of a block is added, and its label becomes known. -/
structure Fills (b b' : ConfBuilder ObjectRef Symbol) (block : ConfBlock ObjectRef Symbol) : Prop where
  emitted : ∀ {cells}, Emitted b.db b.refs cells → Emitted b'.db b'.refs (cells ++ block.payload)
  table : ∀ label, b'.table label = if block.label = some label then some b.db.length else b.table label

/-- The database holds the magic word and the blocks, and the labels of the blocks are known. -/
structure Lays (b : ConfBuilder ObjectRef Symbol) (blocks : List (ConfBlock ObjectRef Symbol)) : Prop where
  emitted : Emitted b.db b.refs (.word confMagic :: chain 1 blocks)
  table : ∀ label, b.table label = offsetOf 1 blocks label

section Fills
variable {tag : ConfWord}

theorem fills_attrtable {type : Symbol}
    (appends : Appends { b with attrtableTable := b.attrtableTable.put type b.db.length } b' added) :
    Fills b b' ⟨tag, some (.attrtable type), added⟩ := by
  refine ⟨appends.emitted, fun label => ?_⟩
  rw [appends.table]
  cases label with
  | attrtable other =>
    simp only [Option.some.injEq, ConfLabel.attrtable.injEq, eq_comm (a := type)]
    exact b.attrtableTable.get?_put type b.db.length other
  | symbol | object => exact (if_neg (by simp)).symm

theorem fills_symbol {sym : Symbol} (appends : Appends { b with symTable := b.symTable.put sym b.db.length } b' added) :
    Fills b b' ⟨tag, some (.symbol sym), added⟩ := by
  refine ⟨appends.emitted, fun label => ?_⟩
  rw [appends.table]
  cases label with
  | symbol other =>
    simp only [Option.some.injEq, ConfLabel.symbol.injEq, eq_comm (a := sym)]
    exact b.symTable.get?_put sym b.db.length other
  | attrtable | object => exact (if_neg (by simp)).symm

theorem fills_object {obj : ObjectRef} (appends : Appends { b with objTable := b.objTable.put obj b.db.length } b' added) :
    Fills b b' ⟨tag, some (.object obj), added⟩ := by
  refine ⟨appends.emitted, fun label => ?_⟩
  rw [appends.table]
  cases label with
  | object other =>
    simp only [Option.some.injEq, ConfLabel.object.injEq, eq_comm (a := obj)]
    exact b.objTable.get?_put obj b.db.length other
  | attrtable | symbol => exact (if_neg (by simp)).symm

end Fills

section Lays
variable {blocks : List (ConfBlock ObjectRef Symbol)}
  {content : ConfBuilder ObjectRef Symbol → ConfBuilder ObjectRef Symbol}

/-- A block is added with its header. -/
theorem Lays.block (lays : Lays b blocks) (entry : ConfBlock ObjectRef Symbol)
    (fills : Fills ((b.pushBack entry.tag).pushBack 0) (content ((b.pushBack entry.tag).pushBack 0)) entry) :
    Lays (b.block entry.tag content) (blocks ++ [entry]) := by
  have header := (Appends.pushBack _ 0).emitted ((Appends.pushBack b entry.tag).emitted lays.emitted)
  have whole := fills.emitted header
  have length : b.db.length = 1 + (chain 1 blocks).length := by rw [lays.emitted.length, List.length_cons, Nat.add_comm]
  have next : (b.pushBack entry.tag).db.length = 1 + (chain 1 blocks).length + 1 := by
    rw [← length]
    exact List.length_append
  have total : (content ((b.pushBack entry.tag).pushBack 0)).db.length =
      1 + (chain 1 blocks).length + 2 + entry.payload.length := by
    rw [whole.length]
    simp only [List.length_append, List.length_cons, List.length_nil]
    omega
  have there : (.word confMagic :: chain 1 blocks ++ [.word entry.tag] ++ [.word 0] ++ entry.payload :
      List (ConfCell ObjectRef Symbol))[1 + (chain 1 blocks).length + 1]? = some (.word 0) := by
    rw [Nat.add_comm 1]
    simp
  have filled := whole.set_word there (BitVec.ofNat 32 (1 + (chain 1 blocks).length + 2 + entry.payload.length))
  have added : Cell.word confMagic :: chain 1 (blocks ++ [entry]) =
      (Cell.word confMagic :: chain 1 blocks ++ [Cell.word entry.tag] ++ [Cell.word 0] ++ entry.payload).set
        (1 + (chain 1 blocks).length + 1)
        (.word (BitVec.ofNat 32 (1 + (chain 1 blocks).length + 2 + entry.payload.length))) := by
    rw [chain_append, chain, chain, Block.cells, List.append_nil, Nat.add_comm 1]
    simp
  constructor
  · rw [added, ConfBuilder.block, next, total]
    exact filled
  · intro label
    rw [offsetOf_append, ← lays.table, ← length]
    refine (fills.table label).trans ?_
    have place : ((b.pushBack entry.tag).pushBack 0).db.length = b.db.length + 2 := by
      simp [ConfBuilder.pushBack]
    rw [place]
    rfl

end Lays
end ConfBuilder
end Mgsim.Sim
