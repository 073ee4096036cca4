import Mgsim.Sim.LinkedList

namespace Mgsim.Sim
open Mgsim.Lib
variable {T : Type}

structure Flag where
  set : Bool
  updated : Bool
  new : Bool
  deriving DecidableEq

namespace Flag

/-- The constructor, which also registers an update when the flag is to be set. -/
def create (set : Bool) : Flag := ⟨false, false, set⟩

/-- `Set` and `Clear` in a phase: the result and the flag. -/
def write (phase : Phase) (flag : Flag) (value : Bool) : Bool × Flag :=
  if flag.updated then (false, flag)
  else (true, if phase = .commit then { flag with new := value, updated := true } else flag)

def update (flag : Flag) : List Signal × Flag :=
  (if flag.new ∧ ¬ flag.set then [.notify] else if flag.set ∧ ¬ flag.new then [.unnotify] else [],
    { flag with set := flag.new, updated := false })

end Flag

/-- `Register`, which holds one value or none. -/
structure Register (T : Type) where
  cur : T
  new : T
  empty : Bool
  cleared : Bool
  assigned : Bool

namespace Register

/-- The constructor; `zero` is the value that a `T` has without an initialiser. -/
def create (zero : T) : Register T := ⟨zero, zero, true, false, false⟩

/-- `Clear` in a phase; none where an assertion fails. -/
def clear (phase : Phase) (register : Register T) : Option (Register T) :=
  if register.cleared ∨ register.empty then none
  else some (if phase = .commit then { register with cleared := true } else register)

/-- `Write` in a phase; none where an assertion fails. -/
def write (phase : Phase) (register : Register T) (data : T) : Option (Register T) :=
  if register.assigned then none
  else some (if phase = .commit then { register with new := data, assigned := true } else register)

/-- `Update`: a value that is written counts more than a clear. -/
def update (register : Register T) : Option (List Signal × Register T) :=
  if register.assigned then
    some (if register.empty then [.notify] else [],
      { register with empty := false, cur := register.new, assigned := false, cleared := false })
  else if register.cleared = false ∨ register.empty = true then none
  else some ([.unnotify], { register with empty := true, cleared := false })

end Register

/-- The kinds of storages that a process can be sensitive on. -/
inductive StorageObject (Item T : Type)
  | buffer (buffer : SimBuffer Item)
  | list (list : LinkedList T)
  | flag (flag : Flag)
  | register (register : Register Item)

inductive StorageOp (Item T : Type)
  | push (item : Item) (minSpace : Nat)
  | popBuffer
  | append (first last : T)
  | popList
  | writeFlag (value : Bool)
  | clear
  | write (data : Item)

namespace StorageObject
variable {Item : Type}

/-- The storage is not empty; for a flag, it is set. -/
def occupied : StorageObject Item T → Bool
  | .buffer b => !b.data.isEmpty
  | .list l => !l.empty
  | .flag f => f.set
  | .register r => !r.empty

/-- An operation in a phase: whether it registers an update, and the storage after it. An operation of another kind of
storage is not possible. -/
def operate (phase : Phase) (table : T → T) : StorageObject Item T → StorageOp Item T → Option (Bool × StorageObject Item T)
  | .buffer b, .push item minSpace => (b.push phase item minSpace).map fun (done, b') =>
      (decide (done = true ∧ phase = .commit ∧ b.new = []), .buffer b')
  | .buffer b, .popBuffer => (b.pop phase).map fun b' => (decide (phase = .commit), .buffer b')
  | .list l, .append first last => (l.append phase first last).map fun l' => (decide (phase = .commit), .list l')
  | .list l, .popList => (l.pop phase table).map fun l' => (decide (phase = .commit), .list l')
  | .flag f, .writeFlag value => some (decide ((f.write phase value).1 = true ∧ phase = .commit), .flag (f.write phase value).2)
  | .register r, .clear => (r.clear phase).map fun r' => (decide (phase = .commit), .register r')
  | .register r, .write data => (r.write phase data).map fun r' => (decide (phase = .commit), .register r')
  | _, _ => none

/-- The update of a storage: its signals, the table of the linked lists and the storage after it. -/
def update [DecidableEq T] (table : T → T) : StorageObject Item T → Option (List Signal × (T → T) × StorageObject Item T)
  | .buffer b => b.update.map fun (signals, _, b') => (signals, table, .buffer b')
  | .list l => (l.update table).map fun (signals, table', l') => (signals, table', .list l')
  | .flag f => some (f.update.1, table, .flag f.update.2)
  | .register r => r.update.map fun (signals, r') => (signals, table, .register r')

end StorageObject

/-- Signals that lead from one state of a storage to another: it is not notified twice. -/
inductive Toggles : Bool → List Signal → Bool → Prop
  | nil {b : Bool} : Toggles b [] b
  | notify {signals : List Signal} {b : Bool} : Toggles true signals b → Toggles false (.notify :: signals) b
  | unnotify {signals : List Signal} {b : Bool} : Toggles false signals b → Toggles true (.unnotify :: signals) b

section Toggles
variable {Item : Type} {phase : Phase} {table table' : T → T} {object object' : StorageObject Item T}

theorem Toggles.append {b₁ b₂ b₃ : Bool} {first second : List Signal} (left : Toggles b₁ first b₂) (right : Toggles b₂ second b₃) :
    Toggles b₁ (first ++ second) b₃ := by
  induction left with
  | nil => exact right
  | notify _ ih => exact .notify (ih right)
  | unnotify _ ih => exact .unnotify (ih right)

/-- Operations do not change whether a storage is occupied: that is left to its update. -/
theorem StorageObject.operate_occupied {op : StorageOp Item T} {registers : Bool}
    (called : object.operate phase table op = some (registers, object')) : object'.occupied = object.occupied := by
  cases object with
  | buffer b =>
    cases op with
    | push item minSpace =>
      obtain ⟨⟨done, b'⟩, pushed, same⟩ := Option.map_eq_some_iff.mp called
      cases same
      rcases SimBuffer.push_spec pushed with ⟨rfl, _⟩ | ⟨_, _, rfl, _⟩ <;> rfl
    | popBuffer =>
      obtain ⟨b', popped, same⟩ := Option.map_eq_some_iff.mp called
      cases same
      unfold occupied
      dsimp only
      rw [(SimBuffer.pop_spec popped).1]
    | append | popList | writeFlag | clear | write => cases called
  | list l =>
    cases op with
    | append first last =>
      obtain ⟨l', appended, same⟩ := Option.map_eq_some_iff.mp called
      cases same
      unfold LinkedList.append at appended
      split at appended
      · cases appended
      · cases appended
        unfold occupied
        dsimp only
        split <;> rfl
    | popList =>
      obtain ⟨l', popped, same⟩ := Option.map_eq_some_iff.mp called
      cases same
      unfold LinkedList.pop at popped
      split at popped
      · cases popped
      split at popped
      · cases popped
      · cases popped
        unfold occupied
        dsimp only
        split <;> rfl
    | push | popBuffer | writeFlag | clear | write => cases called
  | flag f =>
    cases op with
    | writeFlag value =>
      cases called
      unfold Flag.write occupied
      dsimp only
      split
      · rfl
      · split <;> rfl
    | push | popBuffer | append | popList | clear | write => cases called
  | register r =>
    cases op with
    | clear =>
      obtain ⟨r', cleared, same⟩ := Option.map_eq_some_iff.mp called
      cases same
      unfold Register.clear at cleared
      split at cleared
      · cases cleared
      · cases cleared
        unfold occupied
        dsimp only
        split <;> rfl
    | write data =>
      obtain ⟨r', written, same⟩ := Option.map_eq_some_iff.mp called
      cases same
      unfold Register.write at written
      split at written
      · cases written
      · cases written
        unfold occupied
        dsimp only
        split <;> rfl
    | push | popBuffer | append | popList | writeFlag => cases called

theorem SimBuffer.update_toggles {b b' : SimBuffer Item} {signals : List Signal} {taken : Option Item}
    (called : b.update = some (signals, taken, b')) : Toggles (!b.data.isEmpty) signals (!b'.data.isEmpty) := by
  -- First the new items come in, and then the popped one goes out.
  have entered (data new : List Item) : Toggles (!data.isEmpty) (if new ≠ [] ∧ data = [] then [.notify] else [])
      (!(data ++ new).isEmpty) := by
    cases data with
    | nil =>
      cases new with
      | nil => exact .nil
      | cons _ _ => exact .notify .nil
    | cons first rest =>
      rw [if_neg fun both => List.cons_ne_nil first rest both.2]
      exact .nil
  unfold SimBuffer.update at called
  dsimp only at called
  split at called
  · split at called
    · cases called
    · rename_i first rest found
      cases called
      have before := entered b.data b.new
      rw [found] at before
      refine before.append ?_
      cases rest with
      | nil => exact .unnotify .nil
      | cons _ _ => exact .nil
  · cases called
    exact entered b.data b.new

theorem LinkedList.update_toggles [DecidableEq T] {list list' : LinkedList T} {signals : List Signal}
    (called : list.update table = some (signals, table', list')) : Toggles (!list.empty) signals (!list'.empty) := by
  unfold LinkedList.update at called
  split at called
  · cases called
  rename_i possible
  obtain ⟨rfl, after⟩ := Prod.mk.inj (Option.some.inj called)
  have last : (list.updatePop.2.updatePush table).2.2 = list' := congrArg Prod.snd after
  rw [← last]
  have popped : Toggles (!list.empty) list.updatePop.1 (!list.updatePop.2.empty) := by
    unfold LinkedList.updatePop
    split
    · rename_i isPopped
      have nonempty : list.empty = false := Bool.not_eq_true _ ▸ fun isEmpty => possible ⟨isPopped, isEmpty⟩
      rw [nonempty]
      split
      · exact .unnotify .nil
      · exact .nil
    · exact .nil
  have pushed (l : LinkedList T) : Toggles (!l.empty) (l.updatePush table).1 (!(l.updatePush table).2.2.empty) := by
    unfold LinkedList.updatePush
    split
    · split
      · rename_i isEmpty
        rw [isEmpty]
        exact .notify .nil
      · exact .nil
    · exact .nil
  exact popped.append (pushed _)

/-- An update signals how the storage changes. -/
theorem StorageObject.update_toggles [DecidableEq T] {signals : List Signal}
    (called : object.update table = some (signals, table', object')) : Toggles object.occupied signals object'.occupied := by
  cases object with
  | buffer b =>
    obtain ⟨⟨_, _, _⟩, updated, same⟩ := Option.map_eq_some_iff.mp called
    cases same
    exact SimBuffer.update_toggles updated
  | list l =>
    obtain ⟨⟨_, _, _⟩, updated, same⟩ := Option.map_eq_some_iff.mp called
    cases same
    exact LinkedList.update_toggles updated
  | flag f =>
    cases called
    obtain ⟨set, updated, new⟩ := f
    unfold Flag.update occupied
    cases set <;> cases new
    · exact .nil
    · exact .notify .nil
    · exact .unnotify .nil
    · exact .nil
  | register r =>
    obtain ⟨⟨_, _⟩, updated, same⟩ := Option.map_eq_some_iff.mp called
    cases same
    unfold Register.update at updated
    split at updated
    · cases updated
      unfold occupied
      dsimp only
      cases r.empty
      · exact .nil
      · exact .notify .nil
    split at updated
    · cases updated
    · rename_i full
      cases updated
      have nonempty : r.empty = false := Bool.not_eq_true _ ▸ fun isEmpty => full (Or.inr isEmpty)
      unfold occupied
      dsimp only
      rw [nonempty]
      exact .unnotify .nil

end Toggles

end Mgsim.Sim
