import Mathlib.Algebra.Ring.Nat
import Mathlib.Data.List.Lex
import Mathlib.Logic.Equiv.Defs
import Mathlib.Order.Fin.Basic
import Mgsim.Lib.SortedMap

namespace Mgsim.Sim
open Mgsim.Lib

/-- A string of characters. -/
abbrev Text := List (Fin 256)

scoped instance neZero_characters : NeZero 256 := ⟨by decide⟩

/-- `::tolower` in the classic locale. -/
def toLower (c : Fin 256) : Fin 256 := if 65 ≤ c ∧ c ≤ 90 then c + 32 else c

def lowerCase (text : Text) : Text := text.map toLower

/-- The value of a property. -/
inductive Entity (ObjectRef Symbol : Type)
  | void
  | symbol (s : Symbol)
  | object (o : ObjectRef)
  | uint (value : BitVec 32)
deriving DecidableEq

/-- The arguments that `refEntity` takes. -/
inductive EntityArgument (ObjectRef : Type)
  | void
  | text (str : Text)
  | object (o : ObjectRef)
  | uint (value : BitVec 32)

section
variable {ObjectRef Symbol : Type} [LinearOrder ObjectRef] [LinearOrder Symbol]

/-- The string of a symbol is in the set. -/
def Memoised (node : Text ≃ Symbol) (symbols : SortedMap Text Unit) (s : Symbol) : Prop :=
  symbols.get? (node.symm s) = some ()

/-- What an entity refers to has been registered. -/
def Entity.Registered (node : Text ≃ Symbol) (symbols : SortedMap Text Unit) (objects : SortedMap ObjectRef Symbol) :
    Entity ObjectRef Symbol → Prop
  | .void => True
  | .symbol s => Memoised node symbols s
  | .object o => ∃ type, objects.get? o = some type
  | .uint _ => True

variable (ObjectRef Symbol) in
/-- Objects and symbols are in the order of their addresses. `node` tells where the string of
a symbol is. -/
structure ComponentModelRegistry where
  node : Text ≃ Symbol
  symbols : SortedMap Text Unit
  objects : SortedMap ObjectRef Symbol
  objprops : SortedMap ObjectRef (List (Symbol × Entity ObjectRef Symbol))
  typed : ∀ {o type}, objects.get? o = some type → Memoised node symbols type
  owned : ∀ {o props}, objprops.get? o = some props → ∃ type, objects.get? o = some type
  named : ∀ {o props}, objprops.get? o = some props → ∀ property ∈ props,
    Memoised node symbols property.1 ∧ property.2.Registered node symbols objects

section Growth
variable {node : Text ≃ Symbol} {symbols : SortedMap Text Unit} {objects objects' : SortedMap ObjectRef Symbol}
  {s : Symbol} {entity : Entity ObjectRef Symbol}

theorem Memoised.insert (memoised : Memoised node symbols s) (text : Text) :
    Memoised node (symbols.insert text ()) s := by
  unfold Memoised at *
  rw [SortedMap.get?_insert]
  split
  · cases symbols.get? text <;> rfl
  · exact memoised

theorem memoised_insert (node : Text ≃ Symbol) (symbols : SortedMap Text Unit) (text : Text) :
    Memoised node (symbols.insert text ()) (node text) := by
  unfold Memoised
  rw [SortedMap.get?_insert, Equiv.symm_apply_apply, if_pos rfl]
  cases symbols.get? text <;> rfl

theorem Entity.Registered.insert (registered : entity.Registered node symbols objects) (text : Text) :
    entity.Registered node (symbols.insert text ()) objects := by
  cases entity with
  | symbol s => exact Memoised.insert registered text
  | void | object | uint => exact registered

theorem Entity.Registered.put (registered : entity.Registered node symbols objects) (obj : ObjectRef) (type : Symbol) :
    entity.Registered node symbols (objects.put obj type) := by
  cases entity with
  | object o =>
    obtain ⟨old, found⟩ := registered
    change ∃ type', (objects.put obj type).get? o = some type'
    rw [SortedMap.get?_put]
    split
    · exact ⟨type, rfl⟩
    · exact ⟨old, found⟩
  | void | symbol | uint => exact registered

end Growth

namespace ComponentModelRegistry

def empty (node : Text ≃ Symbol) : ComponentModelRegistry ObjectRef Symbol where
  node := node
  symbols := .empty
  objects := .empty
  objprops := .empty
  typed found := by rw [SortedMap.get?_empty] at found; cases found
  owned found := by rw [SortedMap.get?_empty] at found; cases found
  named found := by rw [SortedMap.get?_empty] at found; cases found

variable (reg : ComponentModelRegistry ObjectRef Symbol)

/-- The string of a symbol. -/
def text (s : Symbol) : Text := reg.node.symm s

/-- The registry with one more string. -/
def memoize (str : Text) : ComponentModelRegistry ObjectRef Symbol :=
  { reg with
    symbols := reg.symbols.insert str ()
    typed := fun found => (reg.typed found).insert str
    named := fun found property member =>
      ⟨(reg.named found property member).1.insert str, (reg.named found property member).2.insert str⟩ }

def makeSymbol (sym : Text) : ComponentModelRegistry ObjectRef Symbol × Symbol :=
  (reg.memoize (lowerCase sym), reg.node (lowerCase sym))

/-- The object, when the assertion that it has been registered holds. -/
def refObject (obj : ObjectRef) : Option { obj : ObjectRef // ∃ type, reg.objects.get? obj = some type } :=
  match found : reg.objects.get? obj with
  | none => none
  | some type => some ⟨obj, type, found⟩

def registerObject (obj : ObjectRef) (type : Text) : ComponentModelRegistry ObjectRef Symbol :=
  let reg' := reg.memoize (lowerCase type)
  { reg' with
    objects := reg'.objects.put obj (reg.node (lowerCase type))
    typed := fun {o found} typed => by
      rw [SortedMap.get?_put] at typed
      split at typed
      · cases typed
        exact memoised_insert reg.node reg.symbols _
      · exact reg'.typed typed
    owned := fun {o props} found => by
      rw [SortedMap.get?_put]
      split
      · exact ⟨_, rfl⟩
      · exact reg.owned found
    named := fun found property member =>
      ⟨(reg'.named found property member).1, (reg'.named found property member).2.put obj _⟩ }

/-- `refEntity`, with the strings that it memoizes. -/
def refEntity : EntityArgument ObjectRef →
    Option ((reg' : ComponentModelRegistry ObjectRef Symbol) ×
      { entity : Entity ObjectRef Symbol // entity.Registered reg'.node reg'.symbols reg'.objects })
  | .void => some ⟨reg, .void, trivial⟩
  | .text str => some ⟨(reg.makeSymbol str).1, .symbol (reg.makeSymbol str).2, memoised_insert _ _ _⟩
  | .object o => (reg.refObject o).map fun found => ⟨reg, .object found.1, found.2⟩
  | .uint value => some ⟨reg, .uint value, trivial⟩

/-- A property is added to the ones that the object has. -/
def addProperty (obj : { obj : ObjectRef // ∃ type, reg.objects.get? obj = some type })
    (name : { name : Symbol // Memoised reg.node reg.symbols name })
    (value : { entity : Entity ObjectRef Symbol // entity.Registered reg.node reg.symbols reg.objects }) :
    ComponentModelRegistry ObjectRef Symbol :=
  { reg with
    objprops := reg.objprops.update obj [] (· ++ [(name.1, value.1)])
    owned := fun {o props} found => by
      rw [SortedMap.get?_update] at found
      split at found
      · rename_i same
        exact same ▸ obj.2
      · exact reg.owned found
    named := fun {o props} found property member => by
      rw [SortedMap.get?_update] at found
      split at found
      · cases found
        rcases List.mem_append.mp member with old | new
        · cases before : reg.objprops.get? obj with
          | none =>
            rw [before] at old
            cases old
          | some props =>
            rw [before] at old
            exact reg.named before property old
        · rw [List.mem_singleton.mp new]
          exact ⟨name.2, value.2⟩
      · exact reg.named found property member }

/-- `registerProperty`; nothing when an assertion on an object fails. -/
def registerProperty (obj : ObjectRef) (name : Text) (value : EntityArgument ObjectRef) :
    Option (ComponentModelRegistry ObjectRef Symbol) := do
  let ⟨reg', entity⟩ ← reg.refEntity value
  let named := (reg'.makeSymbol name).1
  let obj ← named.refObject obj
  return named.addProperty obj ⟨(reg'.makeSymbol name).2, memoised_insert _ _ _⟩ ⟨entity.1, entity.2.insert _⟩

end ComponentModelRegistry
end
end Mgsim.Sim
