import Mathlib.Data.BitVec
import Mathlib.Data.List.Nodup
import Mathlib.Logic.Function.Basic

namespace Mgsim.Mmu

abbrev Addr := BitVec 64

/-- What ends the simulation: an exception of the source with its text, an
assertion, or a branch marked as unreachable. -/
inductive Fault
  | invalidArgument (text : String)
  | domainError (text : String)
  | logicError (text : String)
  | securityException (text : String)
  | outOfRange
  | assertion
  | unreachable
  deriving DecidableEq

inductive EvictionStrategy
  | pseudoRandom
  | accessed
  | lru
  deriving DecidableEq

inductive LineTag
  | free
  | pending
  | normal
  | nLocked
  | indexable
  | present
  | locked
  deriving DecidableEq

/-- The bits of a tag: bit `2 p + l` stands for the lines with these two flags. -/
def LineTag.mask : LineTag → Nat
  | free => 1
  | pending => 2
  | normal => 4
  | nLocked => 8
  | indexable => 2 ||| 4 ||| 8
  | present => 4 ||| 8
  | locked => 2 ||| 8

structure Line where
  present : Bool
  locked : Bool
  accessed : Bool
  contextId : Addr
  vAddr : Addr
  pAddr : Addr
  dLineRef : BitVec 32
  read : Bool
  write : Bool
  deriving DecidableEq

/-- A line as its constructor leaves it. -/
def Line.initial : Line := ⟨false, false, false, 0, 0, 0, 0, false, false⟩

def Line.is (line : Line) (cmp : LineTag) : Bool :=
  cmp.mask.testBit (2 * line.present.toNat + line.locked.toNat)

/-- `Line::is` on an address; `none` is the null pointer, which matches everything. -/
def Line.matches (line : Line) (cmpContextId cmpVAddr : Option Addr) (cmp : LineTag) : Bool :=
  line.is cmp && cmpContextId.all (· == line.contextId) && cmpVAddr.all (· == line.vAddr)

structure Table where
  offsetWidth : Nat
  numLines : Nat
  evictionStrategy : EvictionStrategy
  lines : Nat → Line
  /-- The linked list of the LRU strategy, from `m_head` to `m_tail`. -/
  order : List Nat

namespace Table

def initial (offsetWidth numLines : Nat) (strategy : EvictionStrategy) : Table :=
  ⟨offsetWidth, numLines, strategy, fun _ => Line.initial, List.range numLines⟩

instance : Inhabited Table := ⟨initial 0 0 .lru⟩

/-- The constructor with its `initStrategy`. -/
def create (offsetWidth numLines : Nat) (strategy : EvictionStrategy) : Except Fault Table :=
  if numLines = 0 then .error (.invalidArgument "A table cannot be initialised with 0 lines")
  else if strategy ≠ .lru ∧ numLines &&& (numLines - 1) ≠ 0 then
    .error (.invalidArgument "This eviction strategy requires the number of lines to be a factor of 2")
  else .ok (initial offsetWidth numLines strategy)

def setLine (t : Table) (i : Nat) (line : Line) : Table :=
  { t with lines := Function.update t.lines i line }

def find (t : Table) (lambda : Line → Bool) : Option Nat :=
  (List.range t.numLines).find? fun i => lambda (t.lines i)

def findAddr (t : Table) (contextId vAddr : Addr) (type : LineTag) : Option Nat :=
  t.find fun line => line.matches (some contextId) (some vAddr) type

def setPrioHigh (t : Table) (i : Nat) : Table :=
  match t.evictionStrategy with
  | .accessed => t.setLine i { t.lines i with accessed := true }
  | .lru => { t with order := i :: t.order.erase i }
  | .pseudoRandom => t

def lookup (t : Table) (contextId vAddr : Addr) (type : LineTag) : Option Nat × Table :=
  match t.findAddr contextId vAddr type with
  | some i => (some i, t.setPrioHigh i)
  | none => (none, t)

def pickVictimRandom (t : Table) : Nat :=
  ((List.range t.numLines).foldl (fun (index : Addr) i =>
    index ^^^ ((t.lines i).vAddr &&& BitVec.ofNat 64 (t.numLines - 1))) 0).toNat

def pickVictimAccessed (t : Table) : Nat :=
  (t.find fun line => line.is .normal && !line.accessed).getD t.pickVictimRandom

def pickVictimLru (t : Table) : Nat := t.order.getLast?.getD 0

def pickDestination (t : Table) : Nat :=
  (t.find fun line => line.is .free).getD <|
    match t.evictionStrategy with
    | .pseudoRandom => t.pickVictimRandom
    | .accessed => t.pickVictimAccessed
    | .lru => t.pickVictimLru

def freeLine (t : Table) (i : Nat) : Except Fault Table :=
  if (t.lines i).locked then .error (.domainError "Attempt to invalidate locked TLB line")
  else .ok (t.setLine i { t.lines i with present := false })

/-- `storePending`: the line it has taken, or `none` when that line is locked. -/
def storePending (t : Table) (contextId vAddr : Addr) : Option (Nat × Table) :=
  let i := t.pickDestination
  if (t.lines i).locked then none
  else some (i, t.setLine i
    { t.lines i with present := false, locked := true, contextId := contextId, vAddr := vAddr })

def storeNormal (t : Table) (contextId vAddr pAddr : Addr) (read write : Bool) : Option (Nat × Table) :=
  let i := t.pickDestination
  if (t.lines i).locked then none
  else some (i, t.setLine i
    { t.lines i with
      present := true, locked := true, contextId := contextId, vAddr := vAddr, pAddr := pAddr,
      read := read, write := write })

/-- `getPending`: the pending line, of which the source copies three fields. -/
def getPending (t : Table) (i : Nat) : Except Fault (Option Line) :=
  if i < t.numLines then
    if (t.lines i).is .pending then .ok (some (t.lines i)) else .ok none
  else .error .outOfRange

def releasePending (t : Table) (i : Nat) : Except Fault Table :=
  if i < t.numLines then
    if (t.lines i).is .pending then .ok (t.setLine i { t.lines i with locked := false })
    else .error .assertion
  else .error .outOfRange

def fillPending (t : Table) (i : Nat) (read write : Bool) (pAddr : Addr) : Except Fault (BitVec 32 × Table) :=
  if i < t.numLines then
    if (t.lines i).is .pending then
      .ok ((t.lines i).dLineRef,
        t.setLine i { t.lines i with present := true, read := read, write := write, pAddr := pAddr })
    else .error .assertion
  else .error .outOfRange

/-- The loop of both `freeLines`: free every line that `lambda` accepts. -/
def freeLinesWhere (t : Table) (lambda : Line → Bool) : Except Fault Table :=
  (List.range t.numLines).foldlM (fun t i => if lambda (t.lines i) then t.freeLine i else .ok t) t

def freeLines (t : Table) : Except Fault Table := t.freeLinesWhere fun _ => true

def freeLinesOf (t : Table) (contextId : Addr) (vAddr : Option Addr) : Except Fault Table :=
  t.freeLinesWhere fun line => line.matches (some contextId) vAddr .indexable

/-- What the constructor checks and `setPrioHigh` keeps. -/
structure Wf (t : Table) : Prop where
  numLines : 0 < t.numLines
  order : t.evictionStrategy = .lru → t.order ≠ [] ∧ ∀ i ∈ t.order, i < t.numLines
  power : t.evictionStrategy ≠ .lru → ∃ k, t.numLines = 2 ^ k

theorem create_eq_ok {offsetWidth numLines : Nat} {strategy : EvictionStrategy} {t : Table}
    (done : create offsetWidth numLines strategy = .ok t) :
    t = initial offsetWidth numLines strategy ∧ t.Wf := by
  unfold create at done
  split at done
  · cases done
  · rename_i nonzero
    split at done
    · cases done
    · rename_i allowed
      cases done
      refine ⟨rfl, Nat.pos_of_ne_zero nonzero, fun _ => ?_, fun other => ?_⟩
      · refine ⟨?_, fun i member => List.mem_range.mp member⟩
        rw [initial, Ne, List.range_eq_nil]
        exact nonzero
      · have power : numLines &&& (numLines - 1) = 0 := by
          by_contra more
          exact allowed ⟨other, more⟩
        exact (Nat.and_sub_one_eq_zero_iff_isPowerOfTwo nonzero).mp power

section Lines
variable {t : Table} {i j : Nat} {line : Line}

@[simp] theorem setLine_self : (t.setLine i line).lines i = line := by simp [setLine]

theorem setLine_ne (different : j ≠ i) : (t.setLine i line).lines j = t.lines j := by
  simp [setLine, different]

@[simp] theorem setLine_numLines : (t.setLine i line).numLines = t.numLines := rfl

@[simp] theorem setLine_offsetWidth : (t.setLine i line).offsetWidth = t.offsetWidth := rfl

theorem Wf.setLine (wf : t.Wf) : (t.setLine i line).Wf := ⟨wf.numLines, wf.order, wf.power⟩

theorem find_eq_some {lambda : Line → Bool} (found : t.find lambda = some i) :
    i < t.numLines ∧ lambda (t.lines i) = true := by
  have accepted := List.find?_some found
  have member := List.mem_of_find?_eq_some found
  exact ⟨List.mem_range.mp member, accepted⟩

theorem find_eq_none {lambda : Line → Bool} (absent : t.find lambda = none) (inside : i < t.numLines) :
    lambda (t.lines i) = false := by
  have refused := List.find?_eq_none.mp absent i (List.mem_range.mpr inside)
  simpa using refused

end Lines

section Tags
variable {line : Line}

@[simp] theorem is_free : line.is .free = (!line.present && !line.locked) := by
  cases p : line.present <;> cases l : line.locked <;> simp only [Line.is, p, l] <;> decide

@[simp] theorem is_pending : line.is .pending = (!line.present && line.locked) := by
  cases p : line.present <;> cases l : line.locked <;> simp only [Line.is, p, l] <;> decide

@[simp] theorem is_normal : line.is .normal = (line.present && !line.locked) := by
  cases p : line.present <;> cases l : line.locked <;> simp only [Line.is, p, l] <;> decide

@[simp] theorem is_indexable : line.is .indexable = (line.present || line.locked) := by
  cases p : line.present <;> cases l : line.locked <;> simp only [Line.is, p, l] <;> decide

end Tags

/-- The line is present or pending for an address of its own table. -/
def Line.InUse (line : Line) (contextId vAddr : Addr) : Prop :=
  (line.present = true ∨ line.locked = true) ∧ line.contextId = contextId ∧ line.vAddr = vAddr

theorem matches_indexable {line : Line} {contextId vAddr : Addr} :
    line.matches (some contextId) (some vAddr) .indexable = true ↔ Line.InUse line contextId vAddr := by
  simp only [Line.matches, is_indexable, Line.InUse, Option.all_some, Bool.and_eq_true, Bool.or_eq_true, beq_iff_eq,
    and_assoc]
  constructor
  · rintro ⟨used, rfl, rfl⟩
    exact ⟨used, rfl, rfl⟩
  · rintro ⟨used, rfl, rfl⟩
    exact ⟨used, rfl, rfl⟩

section Priority
variable {t : Table} {i : Nat}

/-- A raised priority changes nothing in the lines but the accessed bits. -/
theorem setPrioHigh_lines (j : Nat) : ∃ a, (t.setPrioHigh i).lines j = { t.lines j with accessed := a } := by
  unfold setPrioHigh
  split
  · by_cases same : j = i
    · subst same
      exact ⟨true, setLine_self⟩
    · exact ⟨(t.lines j).accessed, setLine_ne same⟩
  · exact ⟨_, rfl⟩
  · exact ⟨_, rfl⟩

@[simp] theorem setPrioHigh_numLines : (t.setPrioHigh i).numLines = t.numLines := by
  unfold setPrioHigh
  split <;> rfl

@[simp] theorem setPrioHigh_offsetWidth : (t.setPrioHigh i).offsetWidth = t.offsetWidth := by
  unfold setPrioHigh
  split <;> rfl

@[simp] theorem setPrioHigh_strategy : (t.setPrioHigh i).evictionStrategy = t.evictionStrategy := by
  unfold setPrioHigh
  split <;> rfl

theorem Wf.setPrioHigh (wf : t.Wf) (inside : i < t.numLines) : (t.setPrioHigh i).Wf := by
  refine ⟨by simpa using wf.numLines, ?_, by simpa using wf.power⟩
  intro lru
  rw [setPrioHigh_strategy] at lru
  rw [setPrioHigh_numLines]
  simp only [Table.setPrioHigh, lru]
  refine ⟨List.cons_ne_nil _ _, fun j member => ?_⟩
  rcases List.mem_cons.mp member with rfl | old
  · exact inside
  · exact (wf.order lru).2 j (List.mem_of_mem_erase old)

end Priority

section Destination
variable {t : Table}

theorem pickVictimRandom_lt {k : Nat} (power : t.numLines = 2 ^ k) : t.pickVictimRandom < t.numLines := by
  rw [power]
  unfold pickVictimRandom
  have kept : ∀ (lines : List Nat) (index : Addr), index.toNat < 2 ^ k →
      (lines.foldl (fun (index : Addr) i =>
        index ^^^ ((t.lines i).vAddr &&& BitVec.ofNat 64 (t.numLines - 1))) index).toNat < 2 ^ k := by
    intro lines
    induction lines with
    | nil => exact fun _ bound => bound
    | cons i rest ih =>
      intro index bound
      refine ih _ ?_
      rw [BitVec.toNat_xor, BitVec.toNat_and, BitVec.toNat_ofNat, power]
      have mask : (2 ^ k - 1) % 2 ^ 64 < 2 ^ k :=
        lt_of_le_of_lt (Nat.mod_le _ _) (Nat.sub_lt (Nat.two_pow_pos k) Nat.one_pos)
      exact Nat.xor_lt_two_pow bound (lt_of_le_of_lt Nat.and_le_right mask)
  exact kept _ _ (Nat.two_pow_pos k)

theorem Wf.pickDestination_lt (wf : t.Wf) : t.pickDestination < t.numLines := by
  unfold pickDestination
  cases free : t.find fun line => line.is .free with
  | some i => exact (find_eq_some free).1
  | none =>
    simp only [Option.getD_none]
    split
    · rename_i random
      obtain ⟨k, power⟩ := wf.power (by simp [random])
      exact pickVictimRandom_lt power
    · rename_i byAccess
      obtain ⟨k, power⟩ := wf.power (by simp [byAccess])
      unfold pickVictimAccessed
      cases victim : t.find fun line => line.is .normal && !line.accessed with
      | some i => exact (find_eq_some victim).1
      | none => exact pickVictimRandom_lt power
    · rename_i lru
      obtain ⟨nonempty, inside⟩ := wf.order lru
      obtain ⟨last, isLast⟩ := Option.isSome_iff_exists.mp (List.getLast?_isSome.mpr nonempty)
      rw [pickVictimLru, isLast]
      exact inside last (List.mem_of_getLast? isLast)

variable {contextId vAddr pAddr : Addr} {read write : Bool} {i : Nat} {t' : Table}

theorem storePending_eq_some (taken : t.storePending contextId vAddr = some (i, t')) :
    i = t.pickDestination ∧ (t.lines i).locked = false ∧ t' = t.setLine i
      { t.lines i with present := false, locked := true, contextId := contextId, vAddr := vAddr } := by
  simp only [storePending] at taken
  split at taken
  · cases taken
  · rename_i unlocked
    cases taken
    exact ⟨rfl, by simpa using unlocked, rfl⟩

theorem storeNormal_eq_some (taken : t.storeNormal contextId vAddr pAddr read write = some (i, t')) :
    i = t.pickDestination ∧ (t.lines i).locked = false ∧ t' = t.setLine i
      { t.lines i with
        present := true, locked := true, contextId := contextId, vAddr := vAddr, pAddr := pAddr,
        read := read, write := write } := by
  simp only [storeNormal] at taken
  split at taken
  · cases taken
  · rename_i unlocked
    cases taken
    exact ⟨rfl, by simpa using unlocked, rfl⟩

end Destination

section Pending
variable {t t' : Table} {i : Nat}

/-- A line between its miss and the answer to it. -/
def IsPending (t : Table) (i : Nat) : Prop :=
  i < t.numLines ∧ (t.lines i).present = false ∧ (t.lines i).locked = true

theorem getPending_eq_ok {answer : Option Line} (done : t.getPending i = .ok answer) :
    (answer = some (t.lines i) ∧ t.IsPending i) ∨ (answer = none ∧ ¬ t.IsPending i) := by
  unfold getPending at done
  split at done
  · rename_i inside
    split at done
    · rename_i pending
      cases done
      simp only [is_pending, Bool.and_eq_true, Bool.not_eq_true'] at pending
      exact Or.inl ⟨rfl, inside, pending⟩
    · rename_i other
      cases done
      refine Or.inr ⟨rfl, fun ⟨_, absent, locked⟩ => other ?_⟩
      rw [is_pending, absent, locked]
      rfl
  · cases done

theorem releasePending_eq_ok (done : t.releasePending i = .ok t') :
    t.IsPending i ∧ t' = t.setLine i { t.lines i with locked := false } := by
  unfold releasePending at done
  split at done
  · rename_i inside
    split at done
    · rename_i pending
      cases done
      simp only [is_pending, Bool.and_eq_true, Bool.not_eq_true'] at pending
      exact ⟨⟨inside, pending⟩, rfl⟩
    · cases done
  · cases done

theorem fillPending_eq_ok {read write : Bool} {pAddr : Addr} {ref : BitVec 32}
    (done : t.fillPending i read write pAddr = .ok (ref, t')) :
    t.IsPending i ∧ ref = (t.lines i).dLineRef ∧
      t' = t.setLine i { t.lines i with present := true, read := read, write := write, pAddr := pAddr } := by
  unfold fillPending at done
  split at done
  · rename_i inside
    split at done
    · rename_i pending
      cases done
      simp only [is_pending, Bool.and_eq_true, Bool.not_eq_true'] at pending
      exact ⟨⟨inside, pending⟩, rfl, rfl⟩
    · cases done
  · cases done

end Pending

section Free
variable {t t' : Table} {lambda : Line → Bool}

/-- The line as `freeLines` leaves it. -/
def freed (lambda : Line → Bool) (line : Line) : Line :=
  if lambda line then { line with present := false } else line

/-- What the loop of `freeLines` over some of the lines does. -/
theorem freeLoop_eq_ok {indices : List Nat} (nodup : indices.Nodup)
    (done : indices.foldlM (fun t i => if lambda (t.lines i) then t.freeLine i else .ok t) t = .ok t') :
    (∀ i ∈ indices, lambda (t.lines i) = true → (t.lines i).locked = false) ∧
      t' = { t with lines := fun j => if j ∈ indices then freed lambda (t.lines j) else t.lines j } := by
  induction indices generalizing t with
  | nil =>
    cases done
    simp
  | cons i rest ih =>
    obtain ⟨fresh, nodup⟩ := List.nodup_cons.mp nodup
    rw [List.foldlM_cons] at done
    cases first : (if lambda (t.lines i) = true then t.freeLine i else Except.ok t) with
    | error fault =>
      rw [first] at done
      cases done
    | ok middle =>
      rw [first] at done
      have head : (lambda (t.lines i) = true → (t.lines i).locked = false) ∧
          middle = t.setLine i (freed lambda (t.lines i)) := by
        split at first
        · rename_i accepted
          unfold freeLine at first
          split at first
          · cases first
          · rename_i unlocked
            cases first
            exact ⟨fun _ => by simpa using unlocked, by simp [freed, accepted]⟩
        · rename_i refused
          cases first
          exact ⟨fun accepted => absurd accepted refused, by simp [freed, refused, setLine]⟩
      obtain ⟨unlocked, rfl⟩ := head
      obtain ⟨others, rfl⟩ := ih nodup done
      have untouched : ∀ j ∈ rest, (t.setLine i (freed lambda (t.lines i))).lines j = t.lines j := by
        intro j member
        exact setLine_ne (by rintro rfl; exact fresh member)
      constructor
      · intro j member accepted
        rcases List.mem_cons.mp member with rfl | later
        · exact unlocked accepted
        · rw [← untouched j later] at accepted ⊢
          exact others j later accepted
      · refine congrArg (fun lines => { t with lines := lines }) (funext fun j => ?_)
        by_cases later : j ∈ rest
        · simp only [later, if_true, List.mem_cons, or_true, untouched j later]
        · by_cases same : j = i
          · subst same
            simp [fresh]
          · simp [later, same, setLine_ne same]

theorem freeLinesWhere_eq_ok (done : t.freeLinesWhere lambda = .ok t') :
    (∀ i < t.numLines, lambda (t.lines i) = true → (t.lines i).locked = false) ∧
      t' = { t with lines := fun j => if j < t.numLines then freed lambda (t.lines j) else t.lines j } := by
  have loop := freeLoop_eq_ok List.nodup_range done
  simpa only [List.mem_range] using loop

/-- With no lock in the way the loop of `freeLines` does not throw. -/
theorem freeLoop_isOk {indices : List Nat} (nodup : indices.Nodup)
    (unlocked : ∀ i ∈ indices, lambda (t.lines i) = true → (t.lines i).locked = false) :
    ∃ t', indices.foldlM (fun t i => if lambda (t.lines i) then t.freeLine i else .ok t) t = .ok t' := by
  induction indices generalizing t with
  | nil => exact ⟨t, rfl⟩
  | cons i rest ih =>
    obtain ⟨fresh, nodup⟩ := List.nodup_cons.mp nodup
    have later : ∀ (line : Line), ∀ j ∈ rest, lambda ((t.setLine i line).lines j) = true →
        ((t.setLine i line).lines j).locked = false := by
      intro line j member
      rw [setLine_ne (by rintro rfl; exact fresh member)]
      exact unlocked j (List.mem_cons_of_mem _ member)
    rw [List.foldlM_cons]
    split
    · rename_i accepted
      have freed : t.freeLine i = .ok (t.setLine i { t.lines i with present := false }) := by
        rw [freeLine, if_neg (by simp [unlocked i List.mem_cons_self accepted])]
      rw [freed]
      exact ih nodup (later _)
    · exact ih nodup fun j member => unlocked j (List.mem_cons_of_mem _ member)

theorem freeLinesWhere_isOk
    (unlocked : ∀ i < t.numLines, lambda (t.lines i) = true → (t.lines i).locked = false) :
    ∃ t', t.freeLinesWhere lambda = .ok t' :=
  freeLoop_isOk List.nodup_range fun i member => unlocked i (List.mem_range.mp member)

end Free

end Table

end Mgsim.Mmu
