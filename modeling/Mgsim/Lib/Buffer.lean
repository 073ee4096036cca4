import Mathlib.Data.List.Basic

namespace Mgsim.Lib
universe u

/-- A FIFO whose pushes and pops take effect at the end of the cycle. `maxSize`
is `none` for an infinite buffer; a pop is only marked on a buffer with data. -/
structure Buffer (α : Type u) where
  maxSize : Option Nat
  maxPushes : Nat
  data : List α
  pushed : List α
  popped : Bool
  poppable : popped = true → data ≠ []

namespace Buffer
variable {α : Type u}

def empty (maxSize : Option Nat) (maxPushes : Nat) : Buffer α :=
  ⟨maxSize, maxPushes, [], [], false, by simp⟩

/-- The space for `minSpace` more items, counted at the start of the cycle. -/
def hasSpace (b : Buffer α) (minSpace : Nat) : Bool :=
  b.maxSize.all fun max => b.data.length + b.pushed.length + minSpace ≤ max

/-- `Push`; at most `maxPushes` pushes are possible in one cycle. -/
def push (b : Buffer α) (item : α) (minSpace : Nat) : Option (Buffer α) :=
  if b.pushed.length < b.maxPushes ∧ b.hasSpace minSpace then
    some { b with pushed := b.pushed ++ [item] }
  else none

/-- The front item of a buffer that has not been popped in this cycle. -/
def front? (b : Buffer α) : Option α :=
  if b.popped then none else b.data.head?

def pop (b : Buffer α) (nonempty : b.data ≠ []) : Buffer α :=
  { b with popped := true, poppable := fun _ => nonempty }

/-- The front item and the buffer after its `Pop`. -/
def take? (b : Buffer α) : Option (α × Buffer α) :=
  if b.popped then none
  else match found : b.data with
    | [] => none
    | item :: _ => some (item, b.pop (by simp [found]))

/-- `Update`: the changes of this cycle take effect. -/
def update (b : Buffer α) : Buffer α :=
  { b with
    data := if b.popped then (b.data ++ b.pushed).tail else b.data ++ b.pushed
    pushed := []
    popped := false
    poppable := by simp }

/-- What the buffer holds with the changes of this cycle. -/
def contents (b : Buffer α) : List α :=
  (if b.popped then b.data.tail else b.data) ++ b.pushed

theorem contents_push {b b' : Buffer α} {item : α} {minSpace : Nat} (done : b.push item minSpace = some b') :
    b'.contents = b.contents ++ [item] := by
  unfold push at done
  split at done
  · cases done
    simp [contents]
  · cases done

theorem pushed_push {b b' : Buffer α} {item : α} {minSpace : Nat} (done : b.push item minSpace = some b') :
    b'.pushed = b.pushed ++ [item] := by
  unfold push at done
  split at done
  · cases done
    rfl
  · cases done

theorem popped_push {b b' : Buffer α} {item : α} {minSpace : Nat} (done : b.push item minSpace = some b') :
    b'.popped = b.popped := by
  unfold push at done
  split at done
  · cases done
    rfl
  · cases done

theorem data_push {b b' : Buffer α} {item : α} {minSpace : Nat} (done : b.push item minSpace = some b') :
    b'.data = b.data := by
  unfold push at done
  split at done
  · cases done
    rfl
  · cases done

theorem limits_push {b b' : Buffer α} {item : α} {minSpace : Nat} (done : b.push item minSpace = some b') :
    b'.maxSize = b.maxSize ∧ b'.maxPushes = b.maxPushes := by
  unfold push at done
  split at done
  · cases done
    exact ⟨rfl, rfl⟩
  · cases done

/-- A push of one item succeeds. -/
def HasRoom (b : Buffer α) : Prop := b.pushed.length < b.maxPushes ∧ b.hasSpace 1 = true

instance (b : Buffer α) : Decidable b.HasRoom :=
  inferInstanceAs (Decidable (b.pushed.length < b.maxPushes ∧ b.hasSpace 1 = true))

theorem HasRoom.push {b : Buffer α} (room : b.HasRoom) (item : α) :
    ∃ b', b.push item 1 = some b' ∧ b'.contents = b.contents ++ [item] := by
  have done : b.push item 1 = some { b with pushed := b.pushed ++ [item] } := if_pos room
  exact ⟨_, done, contents_push done⟩

theorem hasRoom_of_push {b b' : Buffer α} {item : α} (done : b.push item 1 = some b') : b.HasRoom := by
  unfold push at done
  split at done
  · rename_i room
    exact room
  · cases done

theorem not_hasRoom_of_push {b : Buffer α} {item : α} (refused : b.push item 1 = none) : ¬ b.HasRoom := by
  intro room
  obtain ⟨_, pushed, _⟩ := room.push item
  rw [refused] at pushed
  cases pushed

theorem take?_eq_some {b b' : Buffer α} {item : α} (done : b.take? = some (item, b')) :
    b.contents = item :: b'.contents ∧ b.front? = some item := by
  unfold take? at done
  split at done
  · cases done
  · rename_i fresh
    split at done
    · cases done
    · rename_i first rest found
      cases done
      simp [contents, pop, front?, fresh, found]

theorem popped_of_take? {b b' : Buffer α} {item : α} (done : b.take? = some (item, b')) :
    b.popped = false ∧ b'.popped = true := by
  unfold take? at done
  split at done
  · cases done
  · rename_i fresh
    split at done
    · cases done
    · cases done
      exact ⟨by simpa using fresh, rfl⟩

@[simp] theorem contents_update (b : Buffer α) : b.update.contents = b.contents := by
  by_cases marked : b.popped = true
  · have nonempty := b.poppable marked
    simp [contents, update, marked, List.tail_append_of_ne_nil nonempty]
  · simp [contents, update, marked]

theorem data_update (b : Buffer α) : b.update.data = b.contents := by
  have same := contents_update b
  rwa [contents, if_neg (by simp [update]), show b.update.pushed = [] from rfl, List.append_nil] at same

/-- The item that has been popped stands in front until the end of the cycle. -/
theorem head?_of_take? {b b' : Buffer α} {item : α} (done : b.take? = some (item, b')) : b'.data.head? = some item := by
  unfold take? at done
  split at done
  · cases done
  · split at done
    · cases done
    · rename_i first rest found
      cases done
      rw [pop, found]
      rfl

theorem mem_data {b : Buffer α} {item : α} (member : item ∈ b.data) :
    item ∈ b.contents ∨ b.popped = true ∧ b.data.head? = some item := by
  by_cases popped : b.popped = true
  · cases found : b.data with
    | nil =>
      rw [found] at member
      cases member
    | cons first rest =>
      rw [found] at member
      rcases List.mem_cons.mp member with rfl | later
      · exact Or.inr ⟨popped, rfl⟩
      · exact Or.inl (by simp [contents, popped, found, later])
  · exact Or.inl (by simp [contents, popped, member])

/-- The buffer gets some more items, and no pop: a front item whose pop is still marked is the same. A buffer
that takes one push in a cycle has no other pushes with the new item. -/
structure Gains (b b' : Buffer α) (items : List α) : Prop where
  contents : b'.contents = b.contents ++ items
  front : b'.popped = true → b.popped = true ∧ b'.data = b.data
  maxPushes : b'.maxPushes = b.maxPushes
  latest : b.maxPushes = 1 → ∀ x ∈ b'.pushed, x ∈ items ∨ items = [] ∧ x ∈ b.pushed

theorem Gains.refl (b : Buffer α) : b.Gains b [] :=
  ⟨(List.append_nil _).symm, fun popped => ⟨popped, rfl⟩, rfl, fun _ _ member => Or.inr ⟨rfl, member⟩⟩

theorem Gains.of_push {b b' : Buffer α} {item : α} {minSpace : Nat} (done : b.push item minSpace = some b') :
    b.Gains b' [item] := by
  have contents := contents_push done
  have pushed := pushed_push done
  have popped := popped_push done
  unfold push at done
  split at done
  · rename_i room
    cases done
    refine ⟨contents, fun marked => ⟨popped.symm.trans marked, rfl⟩, rfl, fun one x member => ?_⟩
    have first : b.pushed = [] := List.length_eq_zero_iff.mp (by omega)
    rw [pushed, first] at member
    exact Or.inl member
  · cases done

theorem Gains.of_update (b : Buffer α) : b.Gains b.update [] :=
  ⟨(contents_update b).trans (List.append_nil _).symm, nofun, rfl, fun _ _ => nofun⟩

end Buffer

/-- The phases in which the kernel runs a process. -/
inductive Phase
  | acquire
  | check
  | commit
  deriving DecidableEq

section Phases
variable {σ : Type u}

/-- The kernel runs a process in the check phase, and if this succeeds in the commit phase, which must succeed. -/
def runProcess (run : Phase → σ → Option (Bool × σ)) (s : σ) : Option (Bool × σ) :=
  (run .check s).bind fun (checked, s') =>
    if checked then (run .commit s').bind fun (committed, after) => if committed then some (true, after) else none
    else some (false, s')

/-- A run of a process whose check phase changes nothing: it is refused, or committed. -/
theorem runProcess_cases {run : Phase → σ → Option (Bool × σ)} {s s' : σ} {done : Bool}
    (quiet : ∀ done s', run .check s = some (done, s') → s' = s) (called : runProcess run s = some (done, s')) :
    done = false ∧ s' = s ∨ done = true ∧ run .commit s = some (true, s') := by
  obtain ⟨⟨checked, middle⟩, first, rest⟩ := Option.bind_eq_some_iff.mp called
  have same := quiet checked middle first
  cases checked with
  | false =>
    cases rest
    exact Or.inl ⟨rfl, same⟩
  | true =>
    obtain ⟨⟨committed, after⟩, second, last⟩ := Option.bind_eq_some_iff.mp rest
    cases committed with
    | false => cases last
    | true =>
      cases last
      rw [same] at second
      exact Or.inr ⟨rfl, second⟩

end Phases

namespace Buffer
variable {α : Type u} {b b' : Buffer α} {item : α} {minSpace : Nat} {done : Bool}

/-- `Push` in one phase: its result and the buffer after it, or `none` where its assertion fails.
Only the commit phase stores the item, and counts the push. -/
def pushIn (phase : Phase) (b : Buffer α) (item : α) (minSpace : Nat) : Option (Bool × Buffer α) :=
  if b.maxPushes ≠ 1 ∧ b.maxPushes ≤ b.pushed.length then none
  else if b.maxPushes = 1 ∧ b.pushed.length = 1 then some (false, b)
  else if b.hasSpace minSpace then
    some (true, if phase = .commit then { b with pushed := b.pushed ++ [item] } else b)
  else some (false, b)

/-- So many pushes of one item succeed in this cycle. -/
def RoomFor (b : Buffer α) (n : Nat) : Prop :=
  (if b.maxPushes = 1 then b.pushed.length + n ≠ 2 else b.pushed.length + n ≤ b.maxPushes) ∧ b.hasSpace n = true

instance (b : Buffer α) (n : Nat) : Decidable (b.RoomFor n) := by
  unfold RoomFor
  infer_instance

/-- There is room for one push, and not for two. -/
def HalfRoom (b : Buffer α) : Prop := b.RoomFor 1 ∧ ¬ b.RoomFor 2

instance (b : Buffer α) : Decidable b.HalfRoom := inferInstanceAs (Decidable (b.RoomFor 1 ∧ ¬ b.RoomFor 2))

/-- With room a push succeeds in every phase. -/
theorem RoomFor.pushIn (room : b.RoomFor 1) (phase : Phase) (item : α) :
    b.pushIn phase item 1 = some (true, if phase = .commit then { b with pushed := b.pushed ++ [item] } else b) := by
  obtain ⟨few, space⟩ := room
  by_cases one : b.maxPushes = 1
  · rw [if_pos one] at few
    rw [Buffer.pushIn, if_neg (fun both => both.1 one), if_neg (fun both => by omega), if_pos space]
  · rw [if_neg one] at few
    rw [Buffer.pushIn, if_neg (fun both => by omega), if_neg (fun both => one both.1), if_pos space]

/-- Without room a push fails, or asserts, and stores nothing. -/
theorem pushIn_of_no_room (full : ¬ b.RoomFor 1) (phase : Phase) (item : α) :
    b.pushIn phase item 1 = none ∨ b.pushIn phase item 1 = some (false, b) := by
  unfold Buffer.pushIn
  split
  · exact Or.inl rfl
  split
  · exact Or.inr rfl
  split
  · rename_i many once space
    refine absurd ⟨?_, space⟩ full
    split
    · rename_i one
      exact fun two => once ⟨one, by omega⟩
    · rename_i other
      by_contra tooLong
      exact many ⟨other, by omega⟩
  · exact Or.inr rfl

theorem hasSpace_pushed (b : Buffer α) (item : α) (minSpace : Nat) :
    ({ b with pushed := b.pushed ++ [item] } : Buffer α).hasSpace minSpace = b.hasSpace (minSpace + 1) := by
  unfold hasSpace
  cases b.maxSize with
  | none => rfl
  | some max =>
    simp only [Option.all_some, List.length_append, List.length_singleton]
    congr 2
    omega

theorem roomFor_pushed (b : Buffer α) (item : α) (n : Nat) :
    ({ b with pushed := b.pushed ++ [item] } : Buffer α).RoomFor n ↔ b.RoomFor (n + 1) := by
  unfold RoomFor
  rw [hasSpace_pushed]
  simp only [List.length_append, List.length_singleton]
  have same : b.pushed.length + 1 + n = b.pushed.length + (n + 1) := by omega
  rw [same]

/-- A push outside of the commit phase stores nothing. -/
theorem pushIn_check (called : b.pushIn .check item minSpace = some (done, b')) : b' = b := by
  unfold pushIn at called
  split at called
  · cases called
  split at called
  · cases called
    rfl
  split at called
  · cases called
    rfl
  · cases called
    rfl

theorem pushIn_refused {phase : Phase} (called : b.pushIn phase item minSpace = some (false, b')) : b' = b := by
  unfold pushIn at called
  split at called
  · cases called
  split at called
  · cases called
    rfl
  split at called
  · cases called
  · cases called
    rfl

theorem roomFor_of_pushIn {phase : Phase} (called : b.pushIn phase item 1 = some (true, b')) : b.RoomFor 1 := by
  by_contra full
  rcases pushIn_of_no_room full phase item with none | refused
  · rw [none] at called
    cases called
  · rw [refused] at called
    cases called

theorem pushIn_commit (called : b.pushIn .commit item 1 = some (true, b')) :
    b' = { b with pushed := b.pushed ++ [item] } := by
  rw [(roomFor_of_pushIn called).pushIn] at called
  cases called
  rfl

theorem contents_pushed (item : α) : ({ b with pushed := b.pushed ++ [item] } : Buffer α).contents = b.contents ++ [item] :=
  (List.append_assoc ..).symm

theorem take?_shape (taken : b.take? = some (item, b')) :
    b'.data = b.data ∧ b'.pushed = b.pushed ∧ b'.maxPushes = b.maxPushes ∧ b'.maxSize = b.maxSize := by
  unfold take? at taken
  split at taken
  · cases taken
  · split at taken
    · cases taken
    · cases taken
      exact ⟨rfl, rfl, rfl, rfl⟩

/-- The first item of a buffer in which nothing has been popped. -/
theorem hasRoom_of_take? (taken : b.take? = some (item, b')) : b'.HasRoom ↔ b.HasRoom := by
  obtain ⟨data, pushed, pushes, size⟩ := take?_shape taken
  simp only [HasRoom, hasSpace, data, pushed, pushes, size]

theorem data_of_take?_none (fresh : b.popped = false) (none : b.take? = none) : b.data = [] := by
  unfold take? at none
  rw [if_neg (by simp [fresh])] at none
  split at none
  · assumption
  · cases none

theorem take?_of_data {rest : List α} (fresh : b.popped = false) (data : b.data = item :: rest) :
    ∃ b', b.take? = some (item, b') := by
  unfold take?
  rw [if_neg (by simp [fresh])]
  split
  · rename_i none
    rw [data] at none
    cases none
  · rename_i first others found
    rw [data] at found
    cases found
    exact ⟨_, rfl⟩

end Buffer

end Mgsim.Lib
