import Mgsim.Sim.ConfLayout

namespace Mgsim.Sim
open Mgsim.Lib

variable {ObjectRef Symbol : Type} [LinearOrder ObjectRef] [LinearOrder Symbol]

namespace ConfBuilder
variable {reg : ComponentModelRegistry ObjectRef Symbol} {b : ConfBuilder ObjectRef Symbol}
  {blocks : List (ConfBlock ObjectRef Symbol)} {type : Symbol} {obj : ObjectRef}

/-- Blocks are added one after another. -/
theorem Lays.foldl {α : Type} {f : ConfBuilder ObjectRef Symbol → α → ConfBuilder ObjectRef Symbol}
    {g : α → List (ConfBlock ObjectRef Symbol)} (Kept : ConfBuilder ObjectRef Symbol → Prop) (l : List α)
    (each : ∀ {b blocks}, ∀ x ∈ l, Lays b blocks → Kept b → Lays (f b x) (blocks ++ g x) ∧ Kept (f b x))
    (lays : Lays b blocks) (kept : Kept b) : Lays (l.foldl f b) (blocks ++ l.flatMap g) ∧ Kept (l.foldl f b) := by
  induction l generalizing b blocks with
  | nil => exact ⟨by rwa [List.flatMap_nil, List.append_nil], kept⟩
  | cons x l ih =>
    obtain ⟨lays', kept'⟩ := each x List.mem_cons_self lays kept
    rw [List.flatMap_cons, ← List.append_assoc]
    exact ih (fun y member => each y (List.mem_cons_of_mem _ member)) lays' kept'

/-- The registry is as it was, and the types have been numbered. -/
structure Numbered (reg : ComponentModelRegistry ObjectRef Symbol) (b : ConfBuilder ObjectRef Symbol) : Prop where
  registry : b.reg = reg
  indices : b.typeTable = indexAttributes reg.typeNames 0 .empty

theorem Numbered.typeIndex (numbered : Numbered reg b) (named : type ∈ reg.typeNames) :
    b.typeIndex type = reg.typeNames.idxOf type := by
  rw [ConfBuilder.typeIndex, numbered.indices, get?_indexAttributes reg.nodup_typeNames, if_pos named, Nat.zero_add,
    Option.getD_some]

/-- The loop over the types. The numbers of the types are set apart. -/
theorem appends_typeEntries (reg : ComponentModelRegistry ObjectRef Symbol) (names : List Symbol) (typecnt : Nat) (b : ConfBuilder ObjectRef Symbol) :
    Appends b { typeEntries (names.map fun t => (t, reg.attributes t)) typecnt b with typeTable := b.typeTable }
        (names.flatMap reg.typeCells) ∧
      (typeEntries (names.map fun t => (t, reg.attributes t)) typecnt b).typeTable =
        indexAttributes names typecnt b.typeTable := by
  induction names generalizing b typecnt with
  | nil => exact ⟨Appends.refl b, rfl⟩
  | cons t names ih =>
    have entry : Appends b
        (if (reg.attributes t).isEmpty then (b.symRef t).pushBack 0 else (b.symRef t).attrtableRef t) (reg.typeCells t) := by
      unfold ComponentModelRegistry.typeCells
      split
      · exact (appends_symRef b t).trans (Appends.pushBack _ 0)
      · exact (appends_symRef b t).trans (appends_attrtableRef _ t)
    rw [List.map_cons, typeEntries, List.flatMap_cons, indexAttributes]
    generalize (if (reg.attributes t).isEmpty then (b.symRef t).pushBack 0 else (b.symRef t).attrtableRef t) = b₁ at *
    obtain ⟨rest, indices⟩ := ih (typecnt + 1) { b₁ with typeTable := b₁.typeTable.put t typecnt }
    refine ⟨⟨fun emitted => ?_, rest.table.trans entry.table, rest.reg.trans entry.reg, rfl⟩, ?_⟩
    · rw [← List.append_assoc]
      exact rest.emitted (entry.emitted emitted)
    · rw [← entry.typeTable]
      exact indices

theorem lays_typetable {types : SortedMap Symbol (List Symbol)}
    (entries : types.entries = reg.typeNames.map fun t => (t, reg.attributes t)) (lays : Lays b blocks) (same : b.reg = reg)
    (fresh : b.typeTable = .empty) :
    Lays (b.typetableBlock types) (blocks ++ [reg.typetable]) ∧ Numbered reg (b.typetableBlock types) := by
  obtain ⟨rest, indices⟩ := appends_typeEntries reg reg.typeNames 0
    (((b.pushBack confTagTypetable).pushBack 0).pushSize reg.typeNames.length)
  have appends := (Appends.pushSize ((b.pushBack confTagTypetable).pushBack 0) reg.typeNames.length).trans rest
  have length : types.entries.length = reg.typeNames.length := by rw [entries, List.length_map]
  unfold typetableBlock
  rw [length, entries]
  refine ⟨lays.block reg.typetable ?_, rest.reg.trans same, indices.trans ?_⟩
  · exact ⟨appends.emitted, fun label => congrFun appends.table label⟩
  · exact congrArg _ fresh

theorem lays_attrtable (named : type ∈ reg.typeNames) (lays : Lays b blocks) (numbered : Numbered reg b) :
    Lays (b.attrtableBlock (type, reg.attributes type)) (blocks ++ reg.attrtables type) ∧
      Numbered reg (b.attrtableBlock (type, reg.attributes type)) := by
  unfold ComponentModelRegistry.attrtables
  split
  · rename_i none
    rw [List.append_nil, attrtableBlock, if_pos none]
    exact ⟨lays, numbered⟩
  · rename_i some
    let b₀ := (b.pushBack confTagAttrtable).pushBack 0
    let b₁ : ConfBuilder ObjectRef Symbol := { b₀ with attrtableTable := b₀.attrtableTable.put type b₀.db.length }
    have index : b₁.typeIndex type = reg.typeNames.idxOf type := numbered.typeIndex named
    have content : b.attrtableBlock (type, reg.attributes type) = b.block confTagAttrtable fun _ =>
        (reg.attributes type).foldl symRef
          ((b₁.pushSize (reg.attributes type).length).pushSize (reg.typeNames.idxOf type)) := by
      rw [← index, attrtableBlock, if_neg some]
      rfl
    have sizes := (Appends.pushSize b₁ (reg.attributes type).length).trans (Appends.pushSize _ (reg.typeNames.idxOf type))
    have whole := sizes.trans (Appends.foldl (reg.attributes type) (fun b name _ => appends_symRef b name) _)
    rw [content]
    exact ⟨lays.block (reg.attrtable type) (fills_attrtable whole), whole.reg.trans numbered.registry,
      whole.typeTable.trans numbered.indices⟩

theorem lays_object {typeattrs : SortedMap Symbol (SortedMap Symbol Nat)}
    (known : reg.objects.get? obj = some type)
    (indices : typeattrs.get? type = some (indexAttributes (reg.attributes type) 0 .empty))
    (lays : Lays b blocks) (numbered : Numbered reg b) :
    Lays (b.objectBlock typeattrs (obj, type)) (blocks ++ [reg.objectEntry (obj, type)]) ∧
      Numbered reg (b.objectBlock typeattrs (obj, type)) := by
  let b₀ := (b.pushBack confTagObject).pushBack 0
  let b₁ : ConfBuilder ObjectRef Symbol := { b₀ with objTable := b₀.objTable.put obj b₀.db.length }
  have index : b₁.typeIndex type = reg.typeNames.idxOf type :=
    numbered.typeIndex (ComponentModelRegistry.mem_typeNames.mpr ⟨obj, known⟩)
  have props : (b₁.pushSize (b₁.typeIndex type)).reg.objprops = reg.objprops := by rw [← numbered.registry]; rfl
  have values : collectValues ((typeattrs.get? type).getD .empty)
      (((b₁.pushSize (b₁.typeIndex type)).reg.objprops.get? obj).getD []) =
      (reg.attributes type).map (reg.property obj) := by
    rw [props, indices, Option.getD_some]
    refine collectValues_eq (reg.nodup_attributes type) fun j member => ?_
    cases own : reg.objprops.get? obj with
    | none =>
      rw [own] at member
      cases member
    | some own' =>
      rw [own, Option.getD_some] at member
      exact ComponentModelRegistry.mem_attributes.mpr
        ⟨(obj, own'), SortedMap.get?_eq_some.mp own, known, List.mem_map_of_mem member⟩
  have content : b.objectBlock typeattrs (obj, type) = b.block confTagObject fun _ =>
      ((reg.attributes type).map (reg.property obj)).foldl pushEntity (b₁.pushSize (reg.typeNames.idxOf type)) := by
    rw [← values, ← index]
    rfl
  have entries := Appends.foldl ((reg.attributes type).map (reg.property obj)) (fun b value _ => appends_pushEntity b value)
    (b₁.pushSize (reg.typeNames.idxOf type))
  rw [List.flatMap_map] at entries
  have whole := (Appends.pushSize b₁ (reg.typeNames.idxOf type)).trans entries
  rw [content]
  exact ⟨lays.block (reg.objectEntry (obj, type)) (fills_object whole), whole.reg.trans numbered.registry,
    whole.typeTable.trans numbered.indices⟩

/-- The loop over the raw configuration. Its strings are set apart. -/
theorem appends_rawconf (rawconf : List (Text × Text)) (b : ConfBuilder ObjectRef Symbol) :
    Appends b { rawconf.foldl rawconfEntry b with reg := b.reg } (rawconf.flatMap fun i =>
        [.ref (.symbol (b.reg.rawSymbols i).1), .ref (.symbol (b.reg.rawSymbols i).2)]) ∧
      (rawconf.foldl rawconfEntry b).reg = b.reg.memoizeRaw rawconf := by
  induction rawconf generalizing b with
  | nil => exact ⟨Appends.refl b, rfl⟩
  | cons i rawconf ih =>
    have entry := (appends_symRef b (b.reg.rawSymbols i).1).trans (appends_symRef _ (b.reg.rawSymbols i).2)
    obtain ⟨rest, reg⟩ := ih (b.rawconfEntry i)
    refine ⟨⟨fun emitted => ?_, rest.table.trans entry.table, rfl, rest.typeTable.trans entry.typeTable⟩, reg⟩
    rw [List.flatMap_cons, ← List.append_assoc]
    exact rest.emitted (entry.emitted emitted)

theorem lays_rawconf (rawconf : List (Text × Text)) (lays : Lays b blocks) (same : b.reg = reg) :
    Lays (b.rawconfBlock rawconf) (blocks ++ [reg.rawconfEntries rawconf]) ∧
      (b.rawconfBlock rawconf).reg = reg.memoizeRaw rawconf := by
  subst same
  obtain ⟨rest, memoized⟩ := appends_rawconf rawconf (((b.pushBack confTagRawconfig).pushBack 0).pushSize rawconf.length)
  have whole := (Appends.pushSize ((b.pushBack confTagRawconfig).pushBack 0) rawconf.length).trans rest
  exact ⟨lays.block (b.reg.rawconfEntries rawconf) ⟨whole.emitted, fun label => congrFun whole.table label⟩, memoized⟩

theorem lays_symbol (text : Text) (lays : Lays b blocks) :
    Lays (b.symbolBlock text) (blocks ++ [b.reg.symbolEntry text]) := by
  let b₀ := (b.pushBack confTagSymbol).pushBack 0
  let b₁ : ConfBuilder ObjectRef Symbol := { b₀ with symTable := b₀.symTable.put (b.reg.node text) b₀.db.length }
  have characters : ∀ (words : List ConfWord) (b : ConfBuilder ObjectRef Symbol),
      Appends b { b with db := b.db ++ words } (words.map .word) := by
    intro words
    induction words with
    | nil =>
      intro b
      rw [List.append_nil]
      exact Appends.refl b
    | cons word words ih =>
      intro b
      have rest := (Appends.pushBack b word).trans (ih (b.pushBack word))
      rwa [pushBack, List.append_assoc] at rest
  have whole := (Appends.pushSize b₁ text.length).trans (characters (packWords (resizeRaw text)) _)
  exact lays.block (b.reg.symbolEntry text) (fills_symbol whole)

theorem mem_backrefWrites {κ : Type} [LinearOrder κ] {backrefs : SortedMap κ (List Nat)} {table : SortedMap κ Nat}
    {i : Nat} {value : ConfWord} : (i, value) ∈ backrefWrites backrefs table ↔
      ∃ key, i ∈ (backrefs.get? key).getD [] ∧ value = BitVec.ofNat 32 ((table.get? key).getD 0) := by
  simp only [backrefWrites, List.mem_flatMap, List.mem_map, Prod.mk.injEq]
  constructor
  · rintro ⟨⟨key, places⟩, member, place, inside, rfl, rfl⟩
    rw [← SortedMap.get?_eq_some] at member
    exact ⟨key, by rwa [member], rfl⟩
  · rintro ⟨key, inside, rfl⟩
    cases found : backrefs.get? key with
    | none =>
      rw [found] at inside
      cases inside
    | some places =>
      rw [found] at inside
      exact ⟨(key, places), SortedMap.get?_eq_some.mp found, i, inside, rfl, rfl⟩

/-- The resolution of the back references fills the offsets in. -/
theorem resolve_eq {cells : List (ConfCell ObjectRef Symbol)} (emitted : Emitted b.db b.refs cells) :
    b.resolve = cells.map (Cell.fill fun label => BitVec.ofNat 32 ((b.table label).getD 0)) := by
  rw [resolve, ← patch_append, ← patch_append]
  refine emitted.patched _ fun i value => ?_
  rw [List.mem_append, List.mem_append, mem_backrefWrites, mem_backrefWrites, mem_backrefWrites]
  constructor
  · rintro (⟨type, place, rfl⟩ | ⟨sym, place, rfl⟩ | ⟨obj, place, rfl⟩)
    · exact ⟨.attrtable type, place, rfl⟩
    · exact ⟨.symbol sym, place, rfl⟩
    · exact ⟨.object obj, place, rfl⟩
  · rintro ⟨label, place, rfl⟩
    cases label with
    | attrtable type => exact Or.inl ⟨type, place, rfl⟩
    | symbol sym => exact Or.inr (Or.inl ⟨sym, place, rfl⟩)
    | object obj => exact Or.inr (Or.inr ⟨obj, place, rfl⟩)

end ConfBuilder

namespace ComponentModelRegistry
variable (reg : ComponentModelRegistry ObjectRef Symbol) (rawconf : List (Text × Text))

/-- The word that stands for a label. -/
def offsetWord (label : ConfLabel ObjectRef Symbol) : ConfWord :=
  BitVec.ofNat 32 ((offsetOf 1 (reg.layout rawconf) label).getD 0)

/-- `GetConfWords` gives the blocks of the layout, with the offsets filled in. -/
theorem getConfWords_eq : reg.getConfWords rawconf =
    (Cell.word confMagic :: chain 1 (reg.layout rawconf) ++ [Cell.word 0]).map (Cell.fill (reg.offsetWord rawconf)) := by
  have start : ConfBuilder.Lays ((ConfBuilder.init reg).pushBack confMagic) [] := by
    refine ⟨(Emitted.nil fun label i => ?_).push_word confMagic, fun label => ?_⟩
    · cases label <;> exact fun member => nomatch member
    · cases label <;> exact SortedMap.get?_empty _
  obtain ⟨lays, numbered⟩ := ConfBuilder.lays_typetable reg.types_collectPropertiesByType start rfl rfl
  obtain ⟨lays, numbered⟩ := lays.foldl (f := fun b t => b.attrtableBlock (t, reg.attributes t)) (g := reg.attrtables)
    (ConfBuilder.Numbered reg) reg.typeNames (fun t member => ConfBuilder.lays_attrtable member) numbered
  obtain ⟨lays, numbered⟩ := lays.foldl (f := fun b i => b.objectBlock reg.collectPropertiesByType.typeattrs i)
    (g := fun i => [reg.objectEntry i]) (ConfBuilder.Numbered reg) reg.objects.entries
    (fun i member => ConfBuilder.lays_object (SortedMap.get?_eq_some.mpr member)
      (reg.lists_collectPropertiesByType.1 (mem_typeNames.mpr ⟨i.1, SortedMap.get?_eq_some.mpr member⟩)).typeattrs)
    numbered
  obtain ⟨lays, memoized⟩ := ConfBuilder.lays_rawconf rawconf lays numbered.registry
  obtain ⟨lays, _⟩ := lays.foldl (f := ConfBuilder.symbolBlock) (g := fun text => [reg.symbolEntry text])
    (fun b => b.reg.node = reg.node) (reg.memoizeRaw rawconf).symbols.keys
    (fun text _ lays same => ⟨by rw [symbolEntry, ← same]; exact ConfBuilder.lays_symbol text lays, same⟩)
    ((congrArg node memoized).trans (reg.node_memoizeRaw rawconf))
  have blocks : [] ++ [reg.typetable] ++ reg.typeNames.flatMap reg.attrtables ++
      reg.objects.entries.flatMap (fun i => [reg.objectEntry i]) ++ [reg.rawconfEntries rawconf] ++
      (reg.memoizeRaw rawconf).symbols.keys.flatMap (fun text => [reg.symbolEntry text]) = reg.layout rawconf := by
    rw [layout, List.nil_append, List.map_eq_flatMap, List.map_eq_flatMap]
  rw [blocks] at lays
  have whole := ConfBuilder.resolve_eq ((ConfBuilder.Appends.pushBack _ 0).emitted lays.emitted)
  have offsets : (fun label => BitVec.ofNat 32 ((ConfBuilder.table _ label).getD 0)) = reg.offsetWord rawconf :=
    funext fun label => congrArg (fun offset => BitVec.ofNat 32 (Option.getD offset 0)) (lays.table label)
  refine Eq.trans ?_ (whole.trans (congrArg (fun value => List.map (Cell.fill value) _) offsets))
  have loop : ∀ b : ConfBuilder ObjectRef Symbol, reg.typeNames.foldl (fun b t => b.attrtableBlock (t, reg.attributes t)) b =
      reg.collectPropertiesByType.types.entries.foldl ConfBuilder.attrtableBlock b := fun b => by
    rw [types_collectPropertiesByType, List.foldl_map]
  rw [← memoized, loop]
  rfl

end ComponentModelRegistry
end Mgsim.Sim
