import Mathlib.Data.BitVec
import Mathlib.Data.Fintype.Basic
import Mathlib.Data.List.FinRange
import Mathlib.Data.List.GetD

namespace Mgsim.Cdma

/-- The number of a cache line. All addresses in the rings are multiples of the
line size, which `Read` and `Write` of a cache assert. -/
abbrev Address := Nat

abbrev Byte := BitVec 8

abbrev LineData := Nat → Byte

structure MemData where
  data : LineData
  mask : Nat → Bool

/-! The loops of `line` over the bytes of a line. -/

def blit (dst src : LineData) (mask : Nat → Bool) : LineData := fun i => if mask i then src i else dst i

def blitNot (dst src : LineData) (mask : Nat → Bool) : LineData := fun i => if mask i then dst i else src i

def setIf (dst : Nat → Bool) (value : Bool) (mask : Nat → Bool) : Nat → Bool :=
  fun i => if mask i then value else dst i

def setIfNot (dst : Nat → Bool) (value : Bool) (mask : Nat → Bool) : Nat → Bool :=
  fun i => if mask i then dst i else value

inductive MessageType
  | request
  | requestData
  | requestDataToken
  | eviction
  | update
  deriving DecidableEq

/-- `Message`, between caches that are numbered from zero. A field that a type
of message does not use has no meaning there. -/
structure Message (caches : Nat) where
  type : MessageType
  dirty : Bool
  ignore : Bool
  address : Address
  data : MemData
  sender : Fin caches
  client : Nat
  wid : Nat
  tokens : Nat

/-- A message as the constructor leaves it, in the fields that are not set. -/
def Message.new {caches : Nat} (type : MessageType) (address : Address) (sender : Fin caches) : Message caches :=
  ⟨type, false, false, address, ⟨fun _ => 0, fun _ => false⟩, sender, 0, 0, 0⟩

/-- The ring nodes: the caches, the two sides of each directory, and the root directories. -/
inductive Node (caches directories roots : Nat)
  | cache (id : Fin caches)
  | top (id : Fin directories)
  | bottom (id : Fin directories)
  | root (id : Fin roots)
  deriving DecidableEq

namespace Node
variable {caches directories roots : Nat}

def all : List (Node caches directories roots) :=
  (List.finRange caches).map cache ++ (List.finRange directories).map top ++
    (List.finRange directories).map bottom ++ (List.finRange roots).map root

instance : Fintype (Node caches directories roots) where
  elems := (all : List (Node caches directories roots)).toFinset
  complete node := by
    cases node with
    | cache id => simp [all]
    | top id => simp [all]
    | bottom id => simp [all]
    | root id => simp [all]

end Node

/-- The rings of a memory system. `ring` is the directory above a ring of
caches, and `none` for the ring at the top. -/
structure Network where
  caches : Nat
  directories : Nat
  roots : Nat
  next : Node caches directories roots → Node caches directories roots
  ring : Node caches directories roots → Option (Fin directories)
  isBelow : Fin directories → Fin caches → Bool
  next_ring : ∀ node, ring (next node) = ring node
  top_ring : ∀ id, ring (.top id) = none
  bottom_ring : ∀ id, ring (.bottom id) = some id
  root_ring : ∀ id, ring (.root id) = none
  isBelow_iff : ∀ dir id, isBelow dir id = true ↔ ring (.cache id) = some dir

section Layout
universe u
variable {α : Type u}

/-- The first free place from `pos` on, around the ring. -/
def freePlace (nodes : List (Option α)) : Nat → Nat → Nat
  | 0, pos => pos
  | fuel + 1, pos =>
    if (nodes.getD pos none).isSome then freePlace nodes fuel ((pos + 1) % nodes.length) else pos

/-- The loop of `Initialize` that distributes the root directories over the
ring; `others` is the number of the other nodes. -/
def placeRoots (others total : Nat) : List (Option α) → Nat → List α → List (Option α)
  | nodes, _, [] => nodes
  | nodes, i, root :: rest =>
    placeRoots others total (nodes.set (freePlace nodes nodes.length (i * others / total + i)) (some root)) (i + 1) rest

/-- The loop that fills the gaps with the other nodes, in their order. -/
def fillGaps : List (Option α) → List α → List α
  | [], _ => []
  | some node :: rest, others => node :: fillGaps rest others
  | none :: rest, other :: others => other :: fillGaps rest others
  | none :: _, [] => []

/-- The nodes of the top-level ring in their order. -/
def layout (roots others : List α) : List α :=
  fillGaps (placeRoots others.length roots.length (List.replicate (roots.length + others.length) none) 0 roots) others

theorem mem_fillGaps {nodes : List (Option α)} {others : List α} {node : α} (member : node ∈ fillGaps nodes others) :
    some node ∈ nodes ∨ node ∈ others := by
  induction nodes generalizing others with
  | nil => simp [fillGaps] at member
  | cons place rest ih =>
    cases place with
    | some first =>
      rcases List.mem_cons.mp member with rfl | later
      · exact Or.inl List.mem_cons_self
      · exact (ih later).imp_left (List.mem_cons_of_mem _)
    | none =>
      cases others with
      | nil => simp [fillGaps] at member
      | cons other others =>
        rcases List.mem_cons.mp member with rfl | later
        · exact Or.inr List.mem_cons_self
        · exact (ih later).imp (List.mem_cons_of_mem _) (List.mem_cons_of_mem _)

theorem mem_placeRoots {others total i : Nat} {nodes : List (Option α)} {roots : List α} {node : α}
    (member : some node ∈ placeRoots others total nodes i roots) : some node ∈ nodes ∨ node ∈ roots := by
  induction roots generalizing nodes i with
  | nil => exact Or.inl member
  | cons root rest ih =>
    rcases ih member with placed | later
    · rcases List.mem_or_eq_of_mem_set placed with old | new
      · exact Or.inl old
      · cases new
        exact Or.inr List.mem_cons_self
    · exact Or.inr (List.mem_cons_of_mem _ later)

theorem mem_layout {roots others : List α} {node : α} (member : node ∈ layout roots others) :
    node ∈ roots ∨ node ∈ others := by
  rcases mem_fillGaps member with placed | other
  · rcases mem_placeRoots placed with old | root
    · rw [List.mem_replicate] at old
      cases old.2
    · exact Or.inl root
  · exact Or.inr other

/-- The node before this one in the list, which `Connect` makes the next one. -/
def ringNext [DecidableEq α] (nodes : List α) (node : α) : α :=
  let i := nodes.idxOf node
  nodes.getD ((if i = 0 then nodes.length else i) - 1) node

theorem ringNext_mem [DecidableEq α] (nodes : List α) (node : α) :
    ringNext nodes node = node ∨ ringNext nodes node ∈ nodes := by
  unfold ringNext
  dsimp only
  generalize (if nodes.idxOf node = 0 then nodes.length else nodes.idxOf node) - 1 = j
  by_cases inside : j < nodes.length
  · rw [List.getD_eq_getElem _ _ inside]
    exact Or.inr (List.getElem_mem inside)
  · rw [List.getD_eq_default _ _ (Nat.le_of_not_lt inside)]
    exact Or.inl rfl

end Layout

/-- `OneLevelCDMA`: all caches and root directories on one ring. -/
def Network.oneLevel (caches roots : Nat) : Network where
  caches := caches
  directories := 0
  roots := roots
  next := ringNext (layout ((List.finRange roots).map .root) ((List.finRange caches).map .cache))
  ring _ := none
  isBelow id := id.elim0
  next_ring _ := rfl
  top_ring id := id.elim0
  bottom_ring id := id.elim0
  root_ring _ := rfl
  isBelow_iff id := id.elim0

section TwoLevel
variable {caches perRing roots : Nat}

/-- The number of directories: the first cache of each ring adds one. -/
def ringCount (caches perRing : Nat) : Nat := (caches + perRing - 1) / perRing

/-- The directory above a cache. -/
def ringOf (positive : 0 < perRing) (id : Fin caches) : Fin (ringCount caches perRing) :=
  ⟨id / perRing, by
    have inside := id.isLt
    rw [ringCount, Nat.div_lt_iff_lt_mul positive]
    have split := Nat.div_add_mod (caches + perRing - 1) perRing
    have rest := Nat.mod_lt (caches + perRing - 1) positive
    rw [Nat.mul_comm] at split
    omega⟩

theorem ring_nonempty (positive : 0 < perRing) (dir : Fin (ringCount caches perRing)) : dir * perRing < caches := by
  have bound : (dir : Nat) + 1 ≤ (caches + perRing - 1) / perRing := dir.isLt
  rw [Nat.le_div_iff_mul_le positive, Nat.succ_mul] at bound
  omega

/-- The number of the last cache below a directory. -/
def lastBelow (positive : 0 < perRing) (dir : Fin (ringCount caches perRing)) : Fin caches :=
  ⟨min (dir * perRing + perRing) caches - 1, by
    have nonempty := ring_nonempty positive dir
    omega⟩

theorem div_eq_iff_between (positive : 0 < perRing) {id dir : Nat} :
    id / perRing = dir ↔ dir * perRing ≤ id ∧ id < dir * perRing + perRing := by
  rw [Nat.div_eq_iff positive]
  omega

theorem ringOf_lastBelow (positive : 0 < perRing) (dir : Fin (ringCount caches perRing)) :
    ringOf positive (lastBelow positive dir) = dir := by
  have nonempty := ring_nonempty positive dir
  apply Fin.ext
  simp only [ringOf, lastBelow]
  rw [div_eq_iff_between positive]
  omega

/-- `TwoLevelCDMA`: rings of caches below directories, which share a ring with
the root directories. -/
def Network.twoLevel (caches perRing roots : Nat) (positive : 0 < perRing) : Network where
  caches := caches
  directories := ringCount caches perRing
  roots := roots
  next
    | .cache id =>
      if id % perRing = 0 then .bottom (ringOf positive id)
      else .cache ⟨id - 1, lt_of_le_of_lt (Nat.sub_le _ _) id.isLt⟩
    | .bottom dir => .cache (lastBelow positive dir)
    | .top dir => ringNext (layout ((List.finRange roots).map .root) ((List.finRange _).map .top)) (.top dir)
    | .root id => ringNext (layout ((List.finRange roots).map .root) ((List.finRange _).map .top)) (.root id)
  ring
    | .cache id => some (ringOf positive id)
    | .bottom dir => some dir
    | .top _ => none
    | .root _ => none
  isBelow dir id := dir * perRing ≤ (id : Nat) && (id : Nat) ≤ lastBelow positive dir
  next_ring node := by
    have topLevel : ∀ node : Node caches (ringCount caches perRing) roots,
        node ∈ layout ((List.finRange roots).map .root) ((List.finRange _).map .top) →
          (∃ id, node = .root id) ∨ ∃ dir, node = .top dir := by
      intro node member
      rcases mem_layout member with root | top
      · obtain ⟨id, _, rfl⟩ := List.mem_map.mp root
        exact Or.inl ⟨id, rfl⟩
      · obtain ⟨dir, _, rfl⟩ := List.mem_map.mp top
        exact Or.inr ⟨dir, rfl⟩
    cases node with
    | cache id =>
      by_cases first : (id : Nat) % perRing = 0
      · simp only [first, if_true]
      · simp only [first, if_false, Option.some.injEq]
        apply Fin.ext
        have split := Nat.div_add_mod (id : Nat) perRing
        simp only [ringOf]
        rw [div_eq_iff_between positive, Nat.mul_comm]
        have rest := Nat.mod_lt (id : Nat) positive
        omega
    | bottom dir => simp only [ringOf_lastBelow]
    | top dir =>
      dsimp only
      rcases ringNext_mem (layout ((List.finRange roots).map .root) ((List.finRange _).map .top))
        (.top dir : Node caches (ringCount caches perRing) roots) with same | member
      · rw [same]
      · rcases topLevel _ member with ⟨_, same⟩ | ⟨_, same⟩
        · rw [same]
        · rw [same]
    | root id =>
      dsimp only
      rcases ringNext_mem (layout ((List.finRange roots).map .root) ((List.finRange _).map .top))
        (.root id : Node caches (ringCount caches perRing) roots) with same | member
      · rw [same]
      · rcases topLevel _ member with ⟨_, same⟩ | ⟨_, same⟩
        · rw [same]
        · rw [same]
  top_ring _ := rfl
  bottom_ring _ := rfl
  root_ring _ := rfl
  isBelow_iff dir id := by
    have inside := id.isLt
    have nonempty := ring_nonempty positive dir
    rw [Bool.and_eq_true, decide_eq_true_eq, decide_eq_true_eq, Option.some.injEq, Fin.ext_iff]
    simp only [ringOf, lastBelow]
    rw [div_eq_iff_between positive]
    omega

end TwoLevel

end Mgsim.Cdma
