import Mgsim.Sim.ConfReader

namespace Mgsim.Sim
open Mgsim.Lib

variable {ObjectRef Symbol : Type} [LinearOrder ObjectRef] [LinearOrder Symbol]

/-- A reader that reads each member reads them all. -/
theorem mapM_eq_some {α β γ : Type} {f : β → Option γ} {g : α → γ} {R : α → β → Prop} {xs : List α} {ys : List β}
    (related : List.Forall₂ R xs ys) (each : ∀ x ∈ xs, ∀ y, R x y → f y = some (g x)) : ys.mapM f = some (xs.map g) := by
  induction related with
  | nil => rfl
  | cons here _ ih =>
    rw [List.mapM_cons, each _ List.mem_cons_self _ here, ih fun x member => each x (List.mem_cons_of_mem _ member)]
    rfl

theorem mapM_map_eq_some {α β γ : Type} {f : β → Option γ} {h : α → β} {g : α → γ} {xs : List α}
    (each : ∀ x ∈ xs, f (h x) = some (g x)) : (xs.map h).mapM f = some (xs.map g) :=
  mapM_eq_some (R := fun x y => y = h x) (List.forall₂_map_right_iff.mpr (List.forall₂_same.mpr fun _ _ => rfl))
    fun x member _ same => same ▸ each x member

theorem readPairs_flatMap {α : Type} {f : α → List ConfWord} {g : α → ConfWord × ConfWord} {l : List α}
    (each : ∀ x ∈ l, f x = [(g x).1, (g x).2]) : readPairs (l.flatMap f) = some (l.map g) := by
  induction l with
  | nil => rfl
  | cons x l ih =>
    rw [List.flatMap_cons, each x List.mem_cons_self, List.cons_append, List.cons_append, List.nil_append, readPairs,
      ih fun y member => each y (List.mem_cons_of_mem _ member)]
    rfl

/-- A raw configuration entry in the case of its symbols. -/
def lowerEntry (i : Text × Text) : Text × Text := (lowerCase i.1, lowerCase i.2)

namespace ComponentModelRegistry
variable {reg : ComponentModelRegistry ObjectRef Symbol} {rawconf : List (Text × Text)} {type : Symbol}

section Labels

theorem flatMap_attrtables (types : List Symbol) : types.flatMap reg.attrtables =
    (types.filter fun t => !(reg.attributes t).isEmpty).map reg.attrtable := by
  induction types with
  | nil => rfl
  | cons t types ih =>
    rw [List.flatMap_cons, ih, attrtables]
    cases empty : (reg.attributes t).isEmpty with
    | true => simp [empty]
    | false => simp [empty]

/-- Each attribute table, object and symbol has one block. -/
theorem labels_nodup (reg : ComponentModelRegistry ObjectRef Symbol) (rawconf : List (Text × Text)) :
    ((reg.layout rawconf).filterMap Block.label).Nodup := by
  have labels : (reg.layout rawconf).filterMap Block.label =
      (reg.typeNames.filter fun t => !(reg.attributes t).isEmpty).map ConfLabel.attrtable ++
        reg.objects.keys.map ConfLabel.object ++
        (reg.memoizeRaw rawconf).symbols.keys.map fun text => .symbol (reg.node text) := by
    rw [layout, flatMap_attrtables]
    simp only [List.filterMap_append, List.filterMap_map, SortedMap.keys, List.map_map]
    simp [typetable, rawconfEntries, attrtable, objectEntry, symbolEntry, Function.comp_def]
  rw [labels, List.nodup_append, List.nodup_append]
  refine ⟨⟨?_, ?_, ?_⟩, ?_, ?_⟩
  · exact (reg.nodup_typeNames.filter _).map fun _ _ same => ConfLabel.attrtable.inj same
  · exact reg.objects.nodup_keys.map fun _ _ same => ConfLabel.object.inj same
  · simp only [List.mem_map]
    rintro _ ⟨_, _, rfl⟩ _ ⟨_, _, rfl⟩ same
    cases same
  · exact (SortedMap.nodup_keys _).map fun _ _ same => reg.node.injective (ConfLabel.symbol.inj same)
  · simp only [List.mem_append, List.mem_map]
    rintro _ (⟨_, _, rfl⟩ | ⟨_, _, rfl⟩) _ ⟨_, _, rfl⟩ same <;> cases same

theorem mem_layout_attrtable (named : type ∈ reg.typeNames) (some : reg.attributes type ≠ []) :
    reg.attrtable type ∈ reg.layout rawconf := by
  have member : reg.attrtable type ∈ reg.typeNames.flatMap reg.attrtables :=
    List.mem_flatMap.mpr ⟨type, named, by rw [attrtables, if_neg (by simpa using some)]; exact List.mem_cons_self⟩
  simp [layout, member]

theorem mem_layout_object {i : ObjectRef × Symbol} (known : i ∈ reg.objects.entries) :
    reg.objectEntry i ∈ reg.layout rawconf := by
  have member := List.mem_map_of_mem (f := reg.objectEntry) known
  simp only [layout, List.mem_append]
  exact Or.inl (Or.inl (Or.inr member))

theorem mem_layout_symbol {text : Text} (known : text ∈ (reg.memoizeRaw rawconf).symbols.keys) :
    reg.symbolEntry text ∈ reg.layout rawconf := by
  rw [layout, List.mem_append]
  exact Or.inr (List.mem_map_of_mem known)

end Labels

/-- The words can hold the offsets and the sizes, and no character of a symbol is negative. -/
structure Representable (reg : ComponentModelRegistry ObjectRef Symbol) (rawconf : List (Text × Text)) : Prop where
  fits : (reg.getConfWords rawconf).length < 2 ^ 32
  short : ∀ text ∈ (reg.memoizeRaw rawconf).symbols.keys, text.length < 2 ^ 32
  ascii : ∀ text ∈ (reg.memoizeRaw rawconf).symbols.keys, ∀ c ∈ text, c < 128

/-- The blocks of the database. -/
def blocks (reg : ComponentModelRegistry ObjectRef Symbol) (rawconf : List (Text × Text)) : List (Placed 32) :=
  place (reg.offsetWord rawconf) 1 (reg.layout rawconf)

/-- The offset of the payload of an object. -/
def objectOffset (reg : ComponentModelRegistry ObjectRef Symbol) (rawconf : List (Text × Text)) (obj : ObjectRef) : Nat :=
  (offsetOf 1 (reg.layout rawconf) (.object obj)).getD 0

namespace Representable
variable {block : ConfBlock ObjectRef Symbol} {label : ConfLabel ObjectRef Symbol} {sym : Symbol}

theorem chain_fits (r : Representable reg rawconf) : 2 + (chain 1 (reg.layout rawconf)).length < 2 ^ 32 := by
  have fits := r.fits
  rw [getConfWords_eq, List.length_map, List.length_append, List.length_cons, List.length_singleton] at fits
  omega

/-- The word of a label leads to the payload that has the label. -/
theorem payloadAt_label (r : Representable reg rawconf) (member : block ∈ reg.layout rawconf)
    (named : block.label = some label) :
    offsetOf 1 (reg.layout rawconf) label = some (reg.offsetWord rawconf label).toNat ∧
      3 ≤ (reg.offsetWord rawconf label).toNat ∧
      payloadAt (reg.blocks rawconf) block.tag (reg.offsetWord rawconf label).toNat =
        some (block.payload.map (Cell.fill (reg.offsetWord rawconf))) := by
  obtain ⟨offset, found, content⟩ := payloadAt_place (reg.labels_nodup rawconf) member named (reg.offsetWord rawconf) 1
  have bounds := offsetOf_bounds found
  have fits := r.chain_fits
  have word : (reg.offsetWord rawconf label).toNat = offset := by
    rw [offsetWord, found, Option.getD_some, BitVec.toNat_ofNat, Nat.mod_eq_of_lt (by omega)]
  rw [word]
  exact ⟨found, bounds.1, content⟩

theorem payload_fits (r : Representable reg rawconf) (member : block ∈ reg.layout rawconf) :
    block.payload.length < 2 ^ 32 := by
  have inside := payload_le_chain member 1
  have fits := r.chain_fits
  omega

theorem readSymbol_known (r : Representable reg rawconf) {text : Text}
    (known : text ∈ (reg.memoizeRaw rawconf).symbols.keys) :
    readSymbol (reg.blocks rawconf) (reg.offsetWord rawconf (.symbol (reg.node text))) = some text := by
  obtain ⟨_, _, content⟩ := r.payloadAt_label (mem_layout_symbol known) rfl
  have characters : ((packWords (resizeRaw text)).map Cell.word : List (ConfCell ObjectRef Symbol)).map
      (Cell.fill (reg.offsetWord rawconf)) = packWords (resizeRaw text) := by
    rw [List.map_map]
    exact List.map_id _
  rw [show (reg.symbolEntry text).tag = confTagSymbol from rfl, symbolEntry, List.map_cons, characters] at content
  rw [readSymbol, content]
  change readCharacters (BitVec.ofNat 32 text.length).toNat _ = some text
  rw [BitVec.toNat_ofNat, Nat.mod_eq_of_lt (r.short text known), readCharacters_packed (r.ascii text known)]

end Representable

theorem memoised_memoizeRaw {sym : Symbol} (memoised : Memoised reg.node reg.symbols sym) (rawconf : List (Text × Text)) :
    reg.text sym ∈ (reg.memoizeRaw rawconf).symbols.keys := by
  have kept : ∀ (rawconf : List (Text × Text)) (reg' : ComponentModelRegistry ObjectRef Symbol),
      Memoised reg.node reg'.symbols sym → Memoised reg.node (reg'.memoizeRaw rawconf).symbols sym := by
    intro rawconf
    induction rawconf with
    | nil => exact fun _ memoised => memoised
    | cons i rawconf ih => exact fun reg' memoised => ih _ ((memoised.insert _).insert _)
  exact SortedMap.mem_keys.mpr ⟨(), kept rawconf reg memoised⟩

section Tags

theorem tagged_blocks (reg : ComponentModelRegistry ObjectRef Symbol) (rawconf : List (Text × Text)) (tag : ConfWord) :
    List.Forall₂ (fun block placed => placed.tag = block.tag ∧
      placed.payload = block.payload.map (Cell.fill (reg.offsetWord rawconf)) ∧
      ∀ label, block.label = some label → offsetOf 1 (reg.layout rawconf) label = some placed.offset)
    ((reg.layout rawconf).filter (·.tag = tag)) (tagged (reg.blocks rawconf) tag) := by
  refine List.rel_filter ?_ (place_forall₂ (reg.labels_nodup rawconf) (reg.offsetWord rawconf) 1)
  intro block placed related
  simp only [related.1]

theorem filter_layout (tag : ConfWord) : (reg.layout rawconf).filter (·.tag = tag) =
    (if confTagTypetable = tag then [reg.typetable] else []) ++
      (if confTagAttrtable = tag then reg.typeNames.flatMap reg.attrtables else []) ++
      (if confTagObject = tag then reg.objects.entries.map reg.objectEntry else []) ++
      (if confTagRawconfig = tag then [reg.rawconfEntries rawconf] else []) ++
      (if confTagSymbol = tag then (reg.memoizeRaw rawconf).symbols.keys.map reg.symbolEntry else []) := by
  have same : ∀ (l : List (ConfBlock ObjectRef Symbol)) (t : ConfWord), (∀ block ∈ l, block.tag = t) →
      l.filter (·.tag = tag) = if t = tag then l else [] := by
    intro l t all
    split
    · rename_i equal
      exact List.filter_eq_self.mpr fun block member => decide_eq_true ((all block member).trans equal)
    · rename_i different
      exact List.filter_eq_nil_iff.mpr fun block member => by simpa [all block member] using different
  have mapped : ∀ {α : Type} (f : α → ConfBlock ObjectRef Symbol) (l : List α) (t : ConfWord), (∀ x, (f x).tag = t) →
      ∀ block ∈ l.map f, block.tag = t := by
    intro α f l t all block member
    obtain ⟨x, _, rfl⟩ := List.mem_map.mp member
    exact all x
  rw [layout, flatMap_attrtables, List.filter_append, List.filter_append, List.filter_append, List.filter_append,
    same [reg.typetable] _ (List.forall_mem_singleton.mpr rfl), same _ _ (mapped reg.attrtable _ _ fun _ => rfl),
    same _ _ (mapped reg.objectEntry _ _ fun _ => rfl),
    same [reg.rawconfEntries rawconf] _ (List.forall_mem_singleton.mpr rfl),
    same _ _ (mapped reg.symbolEntry _ _ fun _ => rfl)]
  rfl

theorem layout_tags (reg : ComponentModelRegistry ObjectRef Symbol) (rawconf : List (Text × Text)) :
    ∀ block ∈ reg.layout rawconf, block.tag ≠ 0 := by
  intro block member zero
  have inside : block ∈ (reg.layout rawconf).filter (·.tag = 0) := List.mem_filter.mpr ⟨member, decide_eq_true zero⟩
  rw [filter_layout, if_neg (by decide), if_neg (by decide), if_neg (by decide), if_neg (by decide),
    if_neg (by decide)] at inside
  cases inside

/-- The block of a tag that one block has. -/
theorem tagged_single (tag : ConfWord) (block : ConfBlock ObjectRef Symbol)
    (single : (reg.layout rawconf).filter (·.tag = tag) = [block]) :
    ∃ offset, tagged (reg.blocks rawconf) tag =
      [⟨offset, block.tag, block.payload.map (Cell.fill (reg.offsetWord rawconf))⟩] := by
  have related := reg.tagged_blocks rawconf tag
  rw [single] at related
  cases found : tagged (reg.blocks rawconf) tag with
  | nil =>
    rw [found] at related
    cases related
  | cons placed rest =>
    rw [found] at related
    obtain ⟨⟨sameTag, samePayload, _⟩, none⟩ := List.forall₂_cons.mp related
    rw [List.forall₂_nil_left_iff.mp none, ← sameTag, ← samePayload]
    exact ⟨placed.offset, rfl⟩

end Tags

section Reading
variable {obj : ObjectRef} {sym : Symbol}

namespace Representable

theorem readSymbol_memoised (r : Representable reg rawconf) (memoised : Memoised reg.node reg.symbols sym) :
    readSymbol (reg.blocks rawconf) (reg.offsetWord rawconf (.symbol sym)) = some (reg.text sym) := by
  have read := r.readSymbol_known (memoised_memoizeRaw memoised rawconf)
  rwa [text, Equiv.apply_symm_apply] at read

end Representable

theorem memoised_attribute {name : Symbol} (member : name ∈ reg.attributes type) : Memoised reg.node reg.symbols name := by
  obtain ⟨i, known, _, inside⟩ := mem_attributes.mp member
  obtain ⟨property, there, rfl⟩ := List.mem_map.mp inside
  exact (reg.named (SortedMap.get?_eq_some.mpr known) property there).1

/-- The words of an entry of the type table. -/
def typeWords (reg : ComponentModelRegistry ObjectRef Symbol) (rawconf : List (Text × Text)) (type : Symbol) :
    ConfWord × ConfWord :=
  (reg.offsetWord rawconf (.symbol type),
    if (reg.attributes type).isEmpty then 0 else reg.offsetWord rawconf (.attrtable type))

theorem Representable.types_fit (r : Representable reg rawconf) : reg.typeNames.length < 2 ^ 32 := by
  have table : reg.typetable ∈ reg.layout rawconf := by simp [layout]
  have bound := r.payload_fits table
  have cells : reg.typeNames.length ≤ (reg.typeNames.flatMap reg.typeCells).length := by
    rw [List.length_flatMap]
    simp [typeCells]
    omega
  rw [typetable, List.length_cons] at bound
  omega

theorem attrtable_filled (value : ConfLabel ObjectRef Symbol → ConfWord) (type : Symbol) :
    (reg.attrtable type).payload.map (Cell.fill value) =
      BitVec.ofNat 32 (reg.attributes type).length :: BitVec.ofNat 32 (reg.typeNames.idxOf type) ::
        (reg.attributes type).map fun name => value (.symbol name) := by
  rw [attrtable, List.map_cons, List.map_cons, ← List.map_eq_flatMap, List.map_map]
  rfl

theorem Representable.readAttributes_eq (r : Representable reg rawconf) (named : type ∈ reg.typeNames) :
    readAttributes (reg.blocks rawconf) (reg.typeNames.idxOf type) (reg.typeWords rawconf type).2 =
      some ((reg.attributes type).map reg.text) := by
  unfold readAttributes typeWords
  by_cases empty : reg.attributes type = []
  · rw [if_pos (by simp [empty]), empty]
    rfl
  · have member : reg.attrtable type ∈ reg.layout rawconf := mem_layout_attrtable named empty
    obtain ⟨_, positive, content⟩ := r.payloadAt_label member rfl
    have size : (reg.attributes type).length < 2 ^ 32 := by
      have bound := r.payload_fits member
      rw [attrtable, List.length_cons, List.length_cons, ← List.map_eq_flatMap, List.length_map] at bound
      omega
    have index : reg.typeNames.idxOf type < 2 ^ 32 := (List.idxOf_lt_length_of_mem named).trans r.types_fit
    have nonzero : reg.offsetWord rawconf (.attrtable type) ≠ 0 := fun zero => by
      rw [zero] at positive
      simp at positive
    rw [attrtable_filled] at content
    simp only [List.isEmpty_iff, empty, if_false, nonzero]
    rw [show confTagAttrtable = (reg.attrtable type).tag from rfl, content]
    change (if (BitVec.ofNat 32 _).toNat = _ ∧ (BitVec.ofNat 32 _).toNat = _ then _ else none) = _
    rw [BitVec.toNat_ofNat, BitVec.toNat_ofNat, Nat.mod_eq_of_lt size, Nat.mod_eq_of_lt index,
      if_pos ⟨(List.length_map _).symm, rfl⟩]
    exact mapM_map_eq_some fun name inside => r.readSymbol_memoised (memoised_attribute inside)

/-- The types and their attributes are read back. -/
theorem Representable.readTypes_eq (r : Representable reg rawconf) :
    readTypes (reg.blocks rawconf) = some (reg.typeNames.map fun t => (reg.text t, (reg.attributes t).map reg.text)) := by
  have first : (reg.layout rawconf).filter (·.tag = confTagTypetable) = [reg.typetable] := by
    rw [filter_layout]
    rfl
  obtain ⟨offset, single⟩ := tagged_single confTagTypetable reg.typetable first
  have pairs : readPairs ((reg.typeNames.flatMap reg.typeCells).map (Cell.fill (reg.offsetWord rawconf))) =
      some (reg.typeNames.map (reg.typeWords rawconf)) := by
    rw [List.map_flatMap]
    refine readPairs_flatMap fun t _ => ?_
    unfold typeCells typeWords
    split <;> rfl
  have counted : readCounted (reg.typetable.payload.map (Cell.fill (reg.offsetWord rawconf))) =
      some (reg.typeNames.map (reg.typeWords rawconf)) := by
    rw [typetable, List.map_cons, readCounted, pairs, Option.filter_some, if_pos]
    rw [List.length_map, Cell.fill, BitVec.toNat_ofNat, Nat.mod_eq_of_lt r.types_fit]
    exact decide_eq_true rfl
  have indexed : (reg.typeNames.map (reg.typeWords rawconf)).zipIdx =
      reg.typeNames.map fun t => (reg.typeWords rawconf t, reg.typeNames.idxOf t) := by
    refine List.ext_getElem (by simp) fun i bound _ => ?_
    simp only [List.getElem_zipIdx, List.getElem_map, Nat.zero_add, Prod.mk.injEq, true_and]
    exact (reg.nodup_typeNames.idxOf_getElem i _).symm
  rw [readTypes, single]
  change (readCounted _).bind _ = _
  rw [counted, Option.bind_some, indexed]
  refine mapM_map_eq_some fun t member => ?_
  obtain ⟨obj, known⟩ := mem_typeNames.mp member
  rw [readType, r.readAttributes_eq member]
  change (do let name ← readSymbol _ (reg.offsetWord rawconf (.symbol t)); _) = _
  rw [r.readSymbol_memoised (reg.typed known)]
  rfl

/-- The words of the value of a property. -/
def entityWords (reg : ComponentModelRegistry ObjectRef Symbol) (rawconf : List (Text × Text)) :
    Option (Entity ObjectRef Symbol) → ConfWord × ConfWord
  | none => (0, 0)
  | some .void => (confEntityVoid, 0)
  | some (.symbol s) => (confEntitySymbol, reg.offsetWord rawconf (.symbol s))
  | some (.object o) => (confEntityObject, reg.offsetWord rawconf (.object o))
  | some (.uint value) => (confEntityUint, value)

theorem Representable.payloadAt_object (r : Representable reg rawconf) (known : reg.objects.get? obj = some type) :
    (reg.offsetWord rawconf (.object obj)).toNat = reg.objectOffset rawconf obj ∧
      (payloadAt (reg.blocks rawconf) confTagObject (reg.offsetWord rawconf (.object obj)).toNat).isSome := by
  obtain ⟨found, _, content⟩ := r.payloadAt_label (mem_layout_object (SortedMap.get?_eq_some.mp known)) rfl
  rw [objectOffset, found, show confTagObject = (reg.objectEntry (obj, type)).tag from rfl, content]
  exact ⟨rfl, rfl⟩

/-- A value is read back, and an absent one as absent. -/
theorem Representable.readValue_eq (r : Representable reg rawconf) {value : Option (Entity ObjectRef Symbol)}
    (registered : ∀ entity ∈ value, entity.Registered reg.node reg.symbols reg.objects) :
    readValue (reg.blocks rawconf) (reg.entityWords rawconf value) =
      some (value.map (Entity.value reg.text (reg.objectOffset rawconf))) := by
  match value with
  | none => rfl
  | some .void => rfl
  | some (.symbol s) =>
    have memoised : Memoised reg.node reg.symbols s := registered _ rfl
    change (readSymbol _ (reg.offsetWord rawconf (.symbol s))).map _ = _
    rw [r.readSymbol_memoised memoised]
    rfl
  | some (.object o) =>
    obtain ⟨t, known⟩ : ∃ t, reg.objects.get? o = some t := registered _ rfl
    obtain ⟨offset, there⟩ := r.payloadAt_object known
    obtain ⟨payload, content⟩ := Option.isSome_iff_exists.mp there
    change (payloadAt _ confTagObject (reg.offsetWord rawconf (.object o)).toNat).map _ = _
    rw [content, Option.map_some, entityWords, offset]
    rfl
  | some (.uint value) => rfl

theorem registered_property {name : Symbol} {entity : Entity ObjectRef Symbol} (there : entity ∈ reg.property obj name) :
    entity.Registered reg.node reg.symbols reg.objects := by
  obtain ⟨found, last, rfl⟩ := Option.map_eq_some_iff.mp there
  have member := List.mem_reverse.mp (List.mem_of_find?_eq_some last)
  cases own : reg.objprops.get? obj with
  | none =>
    rw [own] at member
    cases member
  | some props =>
    rw [own] at member
    exact (reg.named own found member).2

/-- An object is read back from its block. -/
theorem Representable.readObject_eq (r : Representable reg rawconf) (known : reg.objects.get? obj = some type)
    {placed : Placed 32} (place : reg.objectOffset rawconf obj = placed.offset)
    (content : placed.payload = (reg.objectEntry (obj, type)).payload.map (Cell.fill (reg.offsetWord rawconf))) :
    readObject (reg.blocks rawconf) (reg.typeNames.map fun t => (reg.text t, (reg.attributes t).map reg.text)) placed =
      some (reg.objectOffset rawconf obj, reg.text type, (reg.attributes type).map fun a =>
        (reg.text a, (reg.property obj a).map (Entity.value reg.text (reg.objectOffset rawconf)))) := by
  have named : type ∈ reg.typeNames := mem_typeNames.mpr ⟨obj, known⟩
  have index : reg.typeNames.idxOf type < reg.typeNames.length := List.idxOf_lt_length_of_mem named
  have pairs : readPairs (((reg.attributes type).flatMap fun name => entityCells (reg.property obj name)).map
      (Cell.fill (reg.offsetWord rawconf))) =
      some ((reg.attributes type).map fun name => reg.entityWords rawconf (reg.property obj name)) := by
    rw [List.map_flatMap]
    refine readPairs_flatMap fun name _ => ?_
    match reg.property obj name with
    | none | some .void | some (.symbol _) | some (.object _) | some (.uint _) => rfl
  have values := mapM_map_eq_some (f := readValue (reg.blocks rawconf))
    (h := fun name => reg.entityWords rawconf (reg.property obj name))
    (g := fun name => (reg.property obj name).map (Entity.value reg.text (reg.objectOffset rawconf)))
    (fun name (_ : name ∈ reg.attributes type) => r.readValue_eq fun entity there => registered_property there)
  have own : (reg.typeNames.map fun t => (reg.text t, (reg.attributes t).map reg.text))[reg.typeNames.idxOf type]? =
      some (reg.text type, (reg.attributes type).map reg.text) := by
    rw [List.getElem?_map, List.getElem?_eq_getElem index, List.getElem_idxOf index]
    rfl
  have word : (BitVec.ofNat 32 (reg.typeNames.idxOf type)).toNat = reg.typeNames.idxOf type := by
    rw [BitVec.toNat_ofNat, Nat.mod_eq_of_lt (index.trans r.types_fit)]
  have length : ((reg.attributes type).map fun name => (reg.property obj name).map
      (Entity.value reg.text (reg.objectOffset rawconf))).length = ((reg.attributes type).map reg.text).length := by
    rw [List.length_map, List.length_map]
  rw [readObject, content, place]
  simp only [objectEntry, List.map_cons, Cell.fill, word, own, pairs, List.map_map, Function.comp_def] at values ⊢
  simp only [Option.bind_eq_bind, Option.bind_some, values, length, if_true, Option.pure_def, List.zip_map']

theorem Representable.readObjects_eq (r : Representable reg rawconf) :
    (tagged (reg.blocks rawconf) confTagObject).mapM
        (readObject (reg.blocks rawconf) (reg.typeNames.map fun t => (reg.text t, (reg.attributes t).map reg.text))) =
      some (reg.model (reg.objectOffset rawconf) rawconf).objects := by
  have related := reg.tagged_blocks rawconf confTagObject
  have objects : (reg.layout rawconf).filter (·.tag = confTagObject) = reg.objects.entries.map reg.objectEntry := by
    rw [filter_layout, if_neg (by decide), if_neg (by decide), if_pos rfl, if_neg (by decide), if_neg (by decide)]
    simp
  rw [objects, List.forall₂_map_left_iff] at related
  refine mapM_eq_some related fun i member placed here => ?_
  refine r.readObject_eq (SortedMap.get?_eq_some.mpr member) ?_ here.2.1
  rw [objectOffset, here.2.2 _ rfl, Option.getD_some]

theorem raw_memoized {i : Text × Text} (member : i ∈ rawconf) :
    lowerCase i.1 ∈ (reg.memoizeRaw rawconf).symbols.keys ∧ lowerCase i.2 ∈ (reg.memoizeRaw rawconf).symbols.keys := by
  have kept : ∀ (rawconf : List (Text × Text)) (reg : ComponentModelRegistry ObjectRef Symbol) (text : Text),
      Memoised reg.node reg.symbols (reg.node text) → text ∈ (reg.memoizeRaw rawconf).symbols.keys := by
    intro rawconf reg text memoised
    have there := memoised_memoizeRaw memoised rawconf
    rwa [ComponentModelRegistry.text, Equiv.symm_apply_apply] at there
  induction rawconf generalizing reg with
  | nil => cases member
  | cons first rawconf ih =>
    rcases List.mem_cons.mp member with rfl | later
    · exact ⟨kept rawconf _ _ ((memoised_insert _ _ _).insert _), kept rawconf _ _ (memoised_insert _ _ _)⟩
    · exact ih later

/-- The raw configuration is read back in lower case. -/
theorem Representable.readRaw_eq (r : Representable reg rawconf) :
    readRaw (reg.blocks rawconf) = some (rawconf.map lowerEntry) := by
  have table : (reg.layout rawconf).filter (·.tag = confTagRawconfig) = [reg.rawconfEntries rawconf] := by
    rw [filter_layout]
    rfl
  obtain ⟨offset, single⟩ := tagged_single confTagRawconfig (reg.rawconfEntries rawconf) table
  have size : rawconf.length < 2 ^ 32 := by
    have bound := r.payload_fits (show reg.rawconfEntries rawconf ∈ reg.layout rawconf by simp [layout])
    rw [rawconfEntries, List.length_cons, List.length_flatMap] at bound
    simp only [List.length_cons, List.length_nil, List.map_const', List.sum_replicate_nat] at bound
    omega
  have pairs : readPairs ((rawconf.flatMap fun i =>
      [Cell.ref (.symbol (reg.rawSymbols i).1), Cell.ref (.symbol (reg.rawSymbols i).2)]).map
        (Cell.fill (reg.offsetWord rawconf))) = some (rawconf.map fun i =>
      (reg.offsetWord rawconf (.symbol (reg.rawSymbols i).1), reg.offsetWord rawconf (.symbol (reg.rawSymbols i).2))) := by
    rw [List.map_flatMap]
    exact readPairs_flatMap fun i _ => rfl
  have counted : readCounted ((reg.rawconfEntries rawconf).payload.map (Cell.fill (reg.offsetWord rawconf))) =
      some (rawconf.map fun i =>
        (reg.offsetWord rawconf (.symbol (reg.rawSymbols i).1), reg.offsetWord rawconf (.symbol (reg.rawSymbols i).2))) := by
    rw [rawconfEntries, List.map_cons, readCounted, pairs, Option.filter_some, if_pos]
    rw [List.length_map, Cell.fill, BitVec.toNat_ofNat, Nat.mod_eq_of_lt size]
    exact decide_eq_true rfl
  rw [readRaw, single]
  change (readCounted _).bind _ = _
  rw [counted, Option.bind_some]
  refine mapM_map_eq_some fun i member => ?_
  simp only [readRawEntry, rawSymbols, r.readSymbol_known (raw_memoized member).1,
    r.readSymbol_known (raw_memoized member).2]
  rfl

theorem Representable.readSymbols_eq (r : Representable reg rawconf) :
    (tagged (reg.blocks rawconf) confTagSymbol).mapM readSymbolBlock = some (reg.memoizeRaw rawconf).symbols.keys := by
  have related := reg.tagged_blocks rawconf confTagSymbol
  have symbols : (reg.layout rawconf).filter (·.tag = confTagSymbol) =
      (reg.memoizeRaw rawconf).symbols.keys.map reg.symbolEntry := by
    rw [filter_layout, if_neg (by decide), if_neg (by decide), if_neg (by decide), if_neg (by decide), if_pos rfl]
    rfl
  rw [symbols, List.forall₂_map_left_iff] at related
  refine (mapM_eq_some related fun text member placed here => ?_).trans (congrArg some (List.map_id _))
  have characters : ((packWords (resizeRaw text)).map Cell.word : List (ConfCell ObjectRef Symbol)).map
      (Cell.fill (reg.offsetWord rawconf)) = packWords (resizeRaw text) := by
    rw [List.map_map]
    exact List.map_id _
  rw [readSymbolBlock, here.2.1, symbolEntry, List.map_cons, characters]
  change readCharacters (BitVec.ofNat 32 text.length).toNat _ = some text
  rw [BitVec.toNat_ofNat, Nat.mod_eq_of_lt (r.short text member), readCharacters_packed (r.ascii text member)]

theorem toLower_toLower (c : Fin 256) : toLower (toLower c) = toLower c := by
  unfold toLower
  split_ifs with upper again
  · revert c
    decide +kernel
  · rfl
  · rfl

theorem memoizeRaw_lowerEntry (reg : ComponentModelRegistry ObjectRef Symbol) (rawconf : List (Text × Text)) :
    reg.memoizeRaw (rawconf.map lowerEntry) = reg.memoizeRaw rawconf := by
  have lower : ∀ text, lowerCase (lowerCase text) = lowerCase text := by
    intro text
    rw [lowerCase, lowerCase, List.map_map]
    exact List.map_congr_left fun c _ => toLower_toLower c
  rw [memoizeRaw, List.foldl_map]
  simp only [lowerEntry, lower]
  rfl

theorem Representable.readBlocks_eq (r : Representable reg rawconf) :
    readBlocks (reg.getConfWords rawconf) (reg.getConfWords rawconf).length 1 = some (reg.blocks rawconf) := by
  have words : reg.getConfWords rawconf = [confMagic] ++
      (chain [confMagic].length (reg.layout rawconf)).map (Cell.fill (reg.offsetWord rawconf)) ++ [0] := by
    rw [getConfWords_eq]
    simp [Cell.fill]
  have fits := r.chain_fits
  have enough : (reg.layout rawconf).length < (reg.getConfWords rawconf).length := by
    have inside := length_le_chain 1 (reg.layout rawconf)
    rw [words, List.length_append, List.length_append, List.length_map]
    change _ < 1 + (chain 1 (reg.layout rawconf)).length + 1
    omega
  have chained := readBlocks_chain (reg.offsetWord rawconf) [confMagic] enough (fun block member => ?_) ?_
  · rwa [← words] at chained
  · exact reg.layout_tags rawconf block member
  · change 1 + (chain 1 (reg.layout rawconf)).length < 2 ^ 32
    omega

theorem Representable.readModel_eq (r : Representable reg rawconf) : readModel (reg.blocks rawconf) =
    some (reg.model (reg.objectOffset rawconf) (rawconf.map lowerEntry)) := by
  rw [readModel, r.readTypes_eq]
  simp only [Option.bind_eq_bind, Option.bind_some, r.readObjects_eq, r.readRaw_eq, r.readSymbols_eq]
  rw [← memoizeRaw_lowerEntry]
  rfl

theorem Representable.objectOffset_injective (r : Representable reg rawconf) {other : ObjectRef}
    (known : obj ∈ reg.objects.keys) (known' : other ∈ reg.objects.keys)
    (same : reg.objectOffset rawconf obj = reg.objectOffset rawconf other) : obj = other := by
  obtain ⟨type, found⟩ := SortedMap.mem_keys.mp known
  obtain ⟨type', found'⟩ := SortedMap.mem_keys.mp known'
  have place := (r.payloadAt_label (mem_layout_object (SortedMap.get?_eq_some.mp found)) rfl).1
  have place' := (r.payloadAt_label (mem_layout_object (SortedMap.get?_eq_some.mp found')) rfl).1
  rw [(r.payloadAt_object found).1] at place
  rw [(r.payloadAt_object found').1, ← same] at place'
  exact ConfLabel.object.inj (offsetOf_injective place place')

end Reading

/-- The database is a chain of blocks behind the magic word, up to a zero tag, and it is read as the registry that it
was made from. The raw configuration is read in lower case, as all symbols are. -/
theorem configuration_database (reg : ComponentModelRegistry ObjectRef Symbol) (rawconf : List (Text × Text))
    (r : reg.Representable rawconf) :
    ∃ (blocks : List (Placed 32)) (offset : ObjectRef → Nat),
      reg.getConfWords rawconf = confMagic :: blocks.flatMap Placed.words ++ [0] ∧
      readBlocks (reg.getConfWords rawconf) (reg.getConfWords rawconf).length 1 = some blocks ∧
      (∀ obj ∈ reg.objects.keys, ∀ other ∈ reg.objects.keys, offset obj = offset other → obj = other) ∧
      readModel blocks = some (reg.model offset (rawconf.map lowerEntry)) := by
  refine ⟨reg.blocks rawconf, reg.objectOffset rawconf, ?_, r.readBlocks_eq, fun obj known other known' =>
    r.objectOffset_injective known known', r.readModel_eq⟩
  have rest := readBlocks_words r.readBlocks_eq
  rw [getConfWords_eq] at rest ⊢
  exact congrArg (confMagic :: ·) rest

/-- One object of type `b` with the property `c`. -/
def sampleRegistry : ComponentModelRegistry Nat Text :=
  let typed := ((ComponentModelRegistry.empty (Equiv.refl Text)).registerObject 5 [98]).memoize [99]
  typed.addProperty ⟨5, [98], rfl⟩ ⟨[99], rfl⟩ ⟨.object 5, [98], rfl⟩

theorem representable_sample : sampleRegistry.Representable [([97], [65])] where
  fits := by decide +kernel
  short := by decide +kernel
  ascii := by decide +kernel

theorem configuration_database_sample : ∃ (blocks : List (Placed 32)) (offset : Nat → Nat),
    sampleRegistry.getConfWords [([97], [65])] = confMagic :: blocks.flatMap Placed.words ++ [0] ∧
    readBlocks (sampleRegistry.getConfWords [([97], [65])]) (sampleRegistry.getConfWords [([97], [65])]).length 1 =
      some blocks ∧
    (∀ obj ∈ sampleRegistry.objects.keys, ∀ other ∈ sampleRegistry.objects.keys, offset obj = offset other → obj = other) ∧
    readModel blocks = some (sampleRegistry.model offset [([97], [97])]) :=
  configuration_database sampleRegistry [([97], [65])] representable_sample

/-- The value `A` of the raw configuration is read as `a`. -/
theorem raw_value_lowered : ¬ ∃ (blocks : List (Placed 32)) (offset : Nat → Nat),
    readBlocks (sampleRegistry.getConfWords [([97], [65])]) (sampleRegistry.getConfWords [([97], [65])]).length 1 =
      some blocks ∧
    readModel blocks = some (sampleRegistry.model offset [([97], [65])]) := by
  rintro ⟨blocks, offset, read, model⟩
  rw [representable_sample.readBlocks_eq, Option.some.injEq] at read
  rw [← read, representable_sample.readModel_eq, Option.some.injEq] at model
  have raw : [([97], [65])].map lowerEntry = [([97], [65])] := congrArg ConfModel.raw model
  exact absurd raw (by decide)

end ComponentModelRegistry
end Mgsim.Sim
