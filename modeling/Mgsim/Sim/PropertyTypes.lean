import Mathlib.Data.List.Induction
import Mgsim.Sim.ConfWords

namespace Mgsim.Sim
open Mgsim.Lib

variable {ObjectRef Symbol : Type} [LinearOrder ObjectRef] [LinearOrder Symbol]

namespace ComponentModelRegistry
variable (reg : ComponentModelRegistry ObjectRef Symbol)

/-- The types of the objects. -/
def typeNames : List Symbol := sortedSet (reg.objects.entries.map Prod.snd)

/-- The properties that some object of a type has. -/
def attributes (type : Symbol) : List Symbol :=
  sortedSet ((reg.objprops.entries.filter fun i => reg.objects.get? i.1 = some type).flatMap fun i => i.2.map Prod.fst)

end ComponentModelRegistry

/-- The value that was registered last for a property. -/
def lastValue (props : List (Symbol × Entity ObjectRef Symbol)) (name : Symbol) : Option (Entity ObjectRef Symbol) :=
  (props.reverse.find? (·.1 = name)).map Prod.snd

/-- The value of a property of an object; nothing when the object does not have it. -/
def ComponentModelRegistry.property (reg : ComponentModelRegistry ObjectRef Symbol) (obj : ObjectRef) (name : Symbol) :
    Option (Entity ObjectRef Symbol) :=
  lastValue ((reg.objprops.get? obj).getD []) name

section Collect
variable {reg : ComponentModelRegistry ObjectRef Symbol} {type name : Symbol} {obj : ObjectRef}

theorem ComponentModelRegistry.mem_typeNames : type ∈ reg.typeNames ↔ ∃ obj, reg.objects.get? obj = some type := by
  simp only [typeNames, mem_sortedSet, List.mem_map, SortedMap.get?_eq_some]
  exact ⟨fun ⟨i, member, same⟩ => ⟨i.1, same ▸ member⟩, fun ⟨obj, member⟩ => ⟨(obj, type), member, rfl⟩⟩

theorem ComponentModelRegistry.mem_attributes : name ∈ reg.attributes type ↔
    ∃ i ∈ reg.objprops.entries, reg.objects.get? i.1 = some type ∧ name ∈ i.2.map Prod.fst := by
  simp only [attributes, mem_sortedSet, List.mem_flatMap, List.mem_filter, decide_eq_true_eq, and_assoc]

theorem ComponentModelRegistry.nodup_typeNames (reg : ComponentModelRegistry ObjectRef Symbol) : reg.typeNames.Nodup :=
  nodup_sortedSet _

theorem ComponentModelRegistry.nodup_attributes (reg : ComponentModelRegistry ObjectRef Symbol) (type : Symbol) :
    (reg.attributes type).Nodup :=
  nodup_sortedSet _

/-- The attribute has been collected for the type. -/
def Collected (c : SortedMap Symbol (SortedMap Symbol Unit)) (type name : Symbol) : Prop :=
  ∃ set, c.get? type = some set ∧ name ∈ set.keys

theorem collected_update (c : SortedMap Symbol (SortedMap Symbol Unit)) (t k : Symbol) :
    Collected (c.update t .empty (·.insert k ())) type name ↔ Collected c type name ∨ type = t ∧ name = k := by
  have inserted : ∀ set : SortedMap Symbol Unit, name ∈ (set.insert k ()).keys ↔ name ∈ set.keys ∨ name = k := by
    intro set
    rw [SortedMap.mem_keys, SortedMap.mem_keys, SortedMap.get?_insert]
    split
    · rename_i same
      cases set.get? k <;> simp [same]
    · rename_i different
      simp [different]
  unfold Collected
  rw [SortedMap.get?_update]
  split
  · rename_i same
    subst same
    simp only [Option.some.injEq, exists_eq_left', inserted, true_and]
    refine or_congr_left ?_
    cases c.get? type with
    | none => simp [SortedMap.mem_keys, SortedMap.get?_empty]
    | some set => simp
  · rename_i different
    simp [different]

/-- The loop over the properties of one object. -/
theorem collected_properties {c : SortedMap Symbol (SortedMap Symbol Unit)}
    {props : List (Symbol × Entity ObjectRef Symbol)} :
    Collected (props.foldl (reg.collectProperty obj) c) type name ↔
      Collected c type name ∨ reg.objects.get? obj = some type ∧ name ∈ props.map Prod.fst := by
  induction props generalizing c with
  | nil => simp
  | cons j props ih =>
    rw [List.foldl_cons, ih, ComponentModelRegistry.collectProperty]
    cases reg.objects.get? obj with
    | none => simp
    | some t =>
      simp only [collected_update, Option.some.injEq, List.map_cons, List.mem_cons, or_assoc, eq_comm (a := t)]
      refine or_congr_right ?_
      rw [← and_or_left]

theorem ComponentModelRegistry.collected_iff : Collected reg.collect type name ↔ name ∈ reg.attributes type := by
  have loop : ∀ (entries : List (ObjectRef × List (Symbol × Entity ObjectRef Symbol)))
      (c : SortedMap Symbol (SortedMap Symbol Unit)),
      Collected (entries.foldl (fun collect i => i.2.foldl (reg.collectProperty i.1) collect) c) type name ↔
        Collected c type name ∨ ∃ i ∈ entries, reg.objects.get? i.1 = some type ∧ name ∈ i.2.map Prod.fst := by
    intro entries
    induction entries with
    | nil => simp
    | cons i entries ih =>
      intro c
      rw [List.foldl_cons, ih, collected_properties, or_assoc]
      simp only [List.mem_cons, exists_eq_or_imp]
  rw [collect, loop, mem_attributes]
  refine or_iff_right ?_
  rintro ⟨set, found, _⟩
  rw [SortedMap.get?_empty] at found
  cases found

/-- Only the types of objects are collected. -/
theorem ComponentModelRegistry.typed_collect {set : SortedMap Symbol Unit} (found : reg.collect.get? type = some set) :
    type ∈ reg.typeNames := by
  let Typed (c : SortedMap Symbol (SortedMap Symbol Unit)) : Prop :=
    ∀ type set, c.get? type = some set → type ∈ reg.typeNames
  have property : ∀ obj c j, Typed c → Typed (reg.collectProperty obj c j) := by
    intro obj c j typed type set found
    rw [collectProperty] at found
    split at found
    · exact typed type set found
    · rename_i t known
      rw [SortedMap.get?_update] at found
      split at found
      · rename_i same
        exact mem_typeNames.mpr ⟨obj, same ▸ known⟩
      · exact typed type set found
  have start : Typed .empty := fun type set found => by
    rw [SortedMap.get?_empty] at found
    cases found
  have whole : Typed reg.collect := List.foldlRecOn (motive := Typed) reg.objprops.entries _ start fun c typed i _ =>
    List.foldlRecOn (motive := Typed) i.2 _ typed fun c typed j _ => property i.1 c j typed
  exact whole type set found

end Collect

/-- The indices that the loop over the attributes of a type gives them. -/
def indexAttributes : List Symbol → (j : Nat) → SortedMap Symbol Nat → SortedMap Symbol Nat
  | [], _, m => m
  | k :: rest, j, m => indexAttributes rest (j + 1) (m.put k j)

theorem get?_indexAttributes {ks : List Symbol} {j : Nat} {m : SortedMap Symbol Nat} (distinct : ks.Nodup)
    (name : Symbol) :
    (indexAttributes ks j m).get? name = if name ∈ ks then some (j + ks.idxOf name) else m.get? name := by
  induction ks generalizing j m with
  | nil => rfl
  | cons k rest ih =>
    rw [List.nodup_cons] at distinct
    rw [indexAttributes, ih distinct.2, SortedMap.get?_put]
    by_cases here : name = k
    · subst here
      rw [if_neg distinct.1, if_pos rfl, if_pos List.mem_cons_self, List.idxOf_cons_self, Nat.add_zero]
    · rw [if_neg here, List.idxOf_cons_ne _ (Ne.symm here)]
      simp only [List.mem_cons, here, false_or, Nat.succ_eq_add_one, Nat.add_assoc, Nat.add_comm 1]

namespace TypeAttributes
variable {type t : Symbol} {ks l : List Symbol} {j : Nat} {m : SortedMap Symbol Nat} {a : TypeAttributes Symbol}

theorem enter_types (known : a.types.get? type = some l) (t : Symbol) :
    (enter type ks j a).types.get? t = if t = type then some (l ++ ks) else a.types.get? t := by
  induction ks generalizing j a l with
  | nil =>
    rw [List.append_nil]
    split
    · rename_i same
      exact same ▸ known
    · rfl
  | cons k rest ih =>
    rw [enter, ih (l := l ++ [k]), List.append_assoc]
    · split
      · rfl
      · rename_i different
        exact (a.types.get?_update _ _ _ _).trans (if_neg different)
    · rw [SortedMap.get?_update, if_pos rfl, known, Option.getD_some]

theorem enter_typeattrs (known : a.typeattrs.get? type = some m) (t : Symbol) :
    (enter type ks j a).typeattrs.get? t = if t = type then some (indexAttributes ks j m) else a.typeattrs.get? t := by
  induction ks generalizing j a m with
  | nil =>
    split
    · rename_i same
      exact same ▸ known
    · rfl
  | cons k rest ih =>
    rw [enter, ih (m := m.put k j)]
    · split
      · rfl
      · rename_i different
        exact (a.typeattrs.get?_update _ _ _ _).trans (if_neg different)
    · rw [SortedMap.get?_update, if_pos rfl, known, Option.getD_some]

/-- What is known about a type: the attributes in their order, and their indices. -/
structure Lists (a : TypeAttributes Symbol) (type : Symbol) (ks : List Symbol) : Prop where
  types : a.types.get? type = some ks
  typeattrs : a.typeattrs.get? type = some (indexAttributes ks 0 .empty)

theorem Lists.enter_self (lists : a.Lists type []) (ks : List Symbol) : (enter type ks 0 a).Lists type ks :=
  ⟨by rw [enter_types lists.types, if_pos rfl, List.nil_append], by rw [enter_typeattrs lists.typeattrs, if_pos rfl]; rfl⟩

theorem Lists.enter_other (lists : a.Lists type []) (other : t ≠ type) (kept : a.Lists t l) (ks : List Symbol) :
    (enter type ks 0 a).Lists t l :=
  ⟨by rw [enter_types lists.types, if_neg other, kept.types],
    by rw [enter_typeattrs lists.typeattrs, if_neg other, kept.typeattrs]⟩

theorem clear_lists (a : TypeAttributes Symbol) (type : Symbol) : (a.clear type).Lists type [] :=
  ⟨by rw [clear, SortedMap.get?_put, if_pos rfl], by rw [clear, SortedMap.get?_put, if_pos rfl]; rfl⟩

theorem Lists.clear (lists : a.Lists type []) (t : Symbol) : (a.clear t).Lists type [] := by
  by_cases same : type = t
  · exact same ▸ a.clear_lists type
  · refine ⟨?_, ?_⟩
    · rw [TypeAttributes.clear, SortedMap.get?_put, if_neg same, lists.types]
    · rw [TypeAttributes.clear, SortedMap.get?_put, if_neg same, lists.typeattrs]

theorem lists_foldl_clear {objects : List (ObjectRef × Symbol)}
    (known : a.Lists type [] ∨ type ∈ objects.map Prod.snd) :
    (objects.foldl (fun a i => a.clear i.2) a).Lists type [] := by
  induction objects generalizing a with
  | nil => exact known.resolve_right (by simp)
  | cons i objects ih =>
    rw [List.map_cons, List.mem_cons, ← or_assoc] at known
    refine ih (known.imp_left ?_)
    rintro (lists | rfl)
    · exact lists.clear i.2
    · exact a.clear_lists i.2

theorem types_foldl_clear {objects : List (ObjectRef × Symbol)} (other : type ∉ objects.map Prod.snd) :
    (objects.foldl (fun a i => a.clear i.2) a).types.get? type = a.types.get? type := by
  induction objects generalizing a with
  | nil => rfl
  | cons i objects ih =>
    rw [List.map_cons, List.mem_cons, not_or] at other
    rw [List.foldl_cons, ih other.2, clear, SortedMap.get?_put, if_neg other.1]

/-- The loop over the collected types: each of them gets its own attributes. -/
theorem foldl_enter {collected : List (Symbol × SortedMap Symbol Unit)} (distinct : (collected.map Prod.fst).Nodup)
    (start : ∀ i ∈ collected, a.Lists i.1 []) :
    (∀ i ∈ collected, (collected.foldl (fun a i => enter i.1 i.2.keys 0 a) a).Lists i.1 i.2.keys) ∧
      ∀ t ∉ collected.map Prod.fst,
        (∀ l, a.Lists t l → (collected.foldl (fun a i => enter i.1 i.2.keys 0 a) a).Lists t l) ∧
          (collected.foldl (fun a i => enter i.1 i.2.keys 0 a) a).types.get? t = a.types.get? t := by
  induction collected generalizing a with
  | nil =>
    refine ⟨fun i member => ?_, fun t _ => ⟨fun l lists => lists, rfl⟩⟩
    cases member
  | cons i collected ih =>
    rw [List.map_cons, List.nodup_cons] at distinct
    have first := start i List.mem_cons_self
    obtain ⟨inside, outside⟩ := ih (a := enter i.1 i.2.keys 0 a) distinct.2 fun k member =>
      first.enter_other (fun same => distinct.1 (same ▸ List.mem_map_of_mem member))
        (start k (List.mem_cons_of_mem _ member)) _
    refine ⟨fun k member => ?_, fun t absent => ?_⟩
    · rcases List.mem_cons.mp member with rfl | later
      · exact (outside k.1 distinct.1).1 _ (first.enter_self _)
      · exact inside k later
    · rw [List.map_cons, List.mem_cons, not_or] at absent
      refine ⟨fun l lists => (outside t absent.2).1 l (first.enter_other absent.1 lists _), ?_⟩
      rw [List.foldl_cons, (outside t absent.2).2, enter_types first.types, if_neg absent.1]

end TypeAttributes

namespace ComponentModelRegistry
variable {reg : ComponentModelRegistry ObjectRef Symbol} {type : Symbol}

/-- The types are those of the objects, and each of them has the attributes of its objects. -/
theorem lists_collectPropertiesByType :
    (type ∈ reg.typeNames → reg.collectPropertiesByType.Lists type (reg.attributes type)) ∧
      (type ∉ reg.typeNames → reg.collectPropertiesByType.types.get? type = none) := by
  have cleared : ∀ {t}, t ∈ reg.typeNames →
      (reg.objects.entries.foldl (fun a i => a.clear i.2) ⟨.empty, .empty⟩ : TypeAttributes Symbol).Lists t [] :=
    fun named => TypeAttributes.lists_foldl_clear (Or.inr (mem_sortedSet.mp named))
  obtain ⟨inside, outside⟩ := TypeAttributes.foldl_enter reg.collect.nodup_keys fun i member =>
    cleared (typed_collect (SortedMap.get?_eq_some.mpr member))
  refine ⟨fun named => ?_, fun unnamed => ?_⟩
  · cases found : reg.collect.get? type with
    | some set =>
      have keys : set.keys = reg.attributes type := eq_sortedSet set.keys_sorted fun name => by
        have collected : name ∈ set.keys ↔ Collected reg.collect type name :=
          ⟨fun member => ⟨set, found, member⟩, fun ⟨other, same, member⟩ =>
            Option.some.inj (found.symm.trans same) ▸ member⟩
        exact (collected.trans collected_iff).trans mem_sortedSet
      exact keys ▸ inside (type, set) (SortedMap.get?_eq_some.mp found)
    | none =>
      have empty : reg.attributes type = [] := List.eq_nil_iff_forall_not_mem.mpr fun name member => by
        obtain ⟨set, there, _⟩ := collected_iff.mpr member
        cases found.symm.trans there
      have absent : type ∉ reg.collect.keys := fun member => by
        obtain ⟨set, there⟩ := SortedMap.mem_keys.mp member
        cases found.symm.trans there
      exact empty ▸ (outside type absent).1 [] (cleared named)
  · have absent : type ∉ reg.collect.keys := fun member => by
      obtain ⟨set, there⟩ := SortedMap.mem_keys.mp member
      exact unnamed (typed_collect there)
    refine (outside type absent).2.trans ?_
    rw [TypeAttributes.types_foldl_clear fun member => unnamed (mem_sortedSet.mpr member), SortedMap.get?_empty]

theorem types_collectPropertiesByType :
    reg.collectPropertiesByType.types.entries = reg.typeNames.map fun t => (t, reg.attributes t) := by
  have known : ∀ {t ks}, reg.collectPropertiesByType.types.get? t = some ks → t ∈ reg.typeNames := by
    intro t ks found
    by_contra unnamed
    cases found.symm.trans (lists_collectPropertiesByType.2 unnamed)
  refine SortedMap.entries_eq (fun {t ks} found => ?_) fun t => ?_
  · exact Option.some.inj (found.symm.trans (lists_collectPropertiesByType.1 (known found)).types)
  · rw [SortedMap.mem_keys, ← mem_sortedSet]
    exact ⟨fun ⟨ks, found⟩ => known found, fun named => ⟨_, (lists_collectPropertiesByType.1 named).types⟩⟩

end ComponentModelRegistry

section Values
variable {ks : List Symbol} {props : List (Symbol × Entity ObjectRef Symbol)} {a : Symbol}

theorem length_indexAttributes (distinct : ks.Nodup) : (indexAttributes ks 0 .empty).entries.length = ks.length := by
  have keys : (indexAttributes ks 0 .empty).keys.Perm ks := by
    refine (List.perm_ext_iff_of_nodup (SortedMap.nodup_keys _) distinct).mpr fun name => ?_
    rw [SortedMap.mem_keys, get?_indexAttributes distinct, SortedMap.get?_empty]
    split <;> simp_all
  rw [← keys.length_eq, SortedMap.keys, List.length_map]

theorem lastValue_append (j : Symbol × Entity ObjectRef Symbol) :
    lastValue (props ++ [j]) a = if j.1 = a then some j.2 else lastValue props a := by
  rw [lastValue, lastValue, List.reverse_append, List.reverse_singleton, List.singleton_append, List.find?_cons]
  by_cases same : j.1 = a <;> simp [same]

theorem set_idxOf {β : Type} (distinct : ks.Nodup) (member : a ∈ ks) (f : Symbol → β) (value : β) :
    (ks.map f).set (ks.idxOf a) value = ks.map fun k => if a = k then value else f k := by
  induction ks with
  | nil => cases member
  | cons k rest ih =>
    rw [List.nodup_cons] at distinct
    by_cases here : a = k
    · subst here
      rw [List.idxOf_cons_self, List.map_cons, List.set_cons_zero, List.map_cons, if_pos rfl]
      refine congrArg _ (List.map_congr_left fun other inside => ?_)
      exact (if_neg fun same : a = other => distinct.1 (same ▸ inside)).symm
    · rw [List.idxOf_cons_ne _ (Ne.symm here), List.map_cons, List.map_cons, if_neg here, List.set_cons_succ,
        ih distinct.2 ((List.mem_cons.mp member).resolve_left here)]

/-- In the end each attribute has the value that was registered last for it, in the order of the type. -/
theorem collectValues_eq (distinct : ks.Nodup) (known : ∀ j ∈ props, j.1 ∈ ks) :
    ConfBuilder.collectValues (indexAttributes ks 0 .empty) props = ks.map (lastValue props) := by
  induction props using List.reverseRecOn with
  | nil =>
    rw [ConfBuilder.collectValues, length_indexAttributes distinct]
    exact List.map_const'.symm
  | append_singleton props j ih =>
    have member := known j (List.mem_append_right _ List.mem_cons_self)
    have index := get?_indexAttributes (j := 0) (m := .empty) distinct j.1
    rw [if_pos member, Nat.zero_add] at index
    have before := ih fun i inside => known i (List.mem_append_left _ inside)
    rw [ConfBuilder.collectValues] at before ⊢
    rw [List.foldl_append, before, List.foldl_cons, List.foldl_nil, ConfBuilder.collectValue, index]
    refine (set_idxOf distinct member _ _).trans (List.map_congr_left fun k _ => ?_)
    exact (lastValue_append j).symm

end Values
end Mgsim.Sim
