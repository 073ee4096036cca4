import Mgsim.Lib.DoublyLinked
import Mgsim.Lib.Recency
import Mgsim.Mmu.Sweep

namespace Mgsim.Mmu
open Mgsim.Lib

/-- `Table` with the links of its LRU list as the source keeps them; a pointer
to a line is its index. -/
structure LinkedTable where
  offsetWidth : Nat
  numLines : Nat
  evictionStrategy : EvictionStrategy
  lines : Nat → Line
  head : Option Nat
  tail : Option Nat
  previous : Nat → Option Nat
  next : Nat → Option Nat

/-- What a component does to a table. The lines that the table has given out are
changed later (`fillPending`, `releasePending`, the locks and references of the
TLB), and a sweep that throws keeps what it has done. -/
inductive TableEvent
  | lookup (contextId vAddr : Addr) (type : LineTag)
  | storePending (contextId vAddr : Addr)
  | storeNormal (contextId vAddr pAddr : Addr) (read write : Bool)
  | freeLines (lambda : Line → Bool)
  | change (i : Nat) (line : Line)

/-- The same event on a table that keeps its order as a list. -/
def Table.perform (t : Table) : TableEvent → Table
  | .lookup contextId vAddr type => (t.lookup contextId vAddr type).2
  | .storePending contextId vAddr => ((t.storePending contextId vAddr).map Prod.snd).getD t
  | .storeNormal contextId vAddr pAddr read write =>
    ((t.storeNormal contextId vAddr pAddr read write).map Prod.snd).getD t
  | .freeLines lambda => (t.freeLinesLeft lambda).1
  | .change i line => t.setLine i line

/-- The line that a lookup finds. -/
def Table.found (t : Table) : TableEvent → List Nat
  | .lookup contextId vAddr type => (t.lookup contextId vAddr type).1.toList
  | _ => []

namespace LinkedTable

/-- The table behind the links, with a list in their place. -/
def view (t : LinkedTable) (order : List Nat) : Table :=
  ⟨t.offsetWidth, t.numLines, t.evictionStrategy, t.lines, order⟩

/-- The table with its lines as an operation that reads no link has left them. -/
def withLinesOf (t : LinkedTable) (result : Table) : LinkedTable := { t with lines := result.lines }

/-- The loop of `initStrategy`, up to the line `count`. -/
def linkLines (t : LinkedTable) : Nat → LinkedTable
  | 0 => t
  | i + 1 =>
    let t := t.linkLines i
    { t with next := Function.update t.next i (some (i + 1)), previous := Function.update t.previous (i + 1) (some i) }

def initStrategy (t : LinkedTable) : Except Fault LinkedTable :=
  if t.evictionStrategy = .lru then
    let last := t.numLines - 1
    let t := { t with
      head := some 0, tail := some last, previous := Function.update t.previous 0 none
      next := Function.update t.next last none }
    .ok (t.linkLines last)
  else if t.numLines &&& (t.numLines - 1) ≠ 0 then
    .error (.invalidArgument "This eviction strategy requires the number of lines to be a factor of 2")
  else .ok t

def create (offsetWidth numLines : Nat) (strategy : EvictionStrategy) : Except Fault LinkedTable :=
  if numLines = 0 then .error (.invalidArgument "A table cannot be initialised with 0 lines")
  else initStrategy ⟨offsetWidth, numLines, strategy, fun _ => Line.initial, none, none, fun _ => none, fun _ => none⟩

/-- The line is taken out of the list; `none` where the source follows a null pointer. -/
def unlink (t : LinkedTable) (i : Nat) : Option LinkedTable :=
  if t.tail = some i then do
    let last ← t.previous i
    return { t with tail := some last, next := Function.update t.next last none }
  else do
    let prev ← t.previous i
    let next ← t.next i
    return { t with
      next := Function.update t.next prev (some next), previous := Function.update t.previous next (some prev) }

/-- The line becomes the head of the list. -/
def linkFront (t : LinkedTable) (i : Nat) : Option LinkedTable := do
  let head ← t.head
  return { t with
    previous := Function.update (Function.update t.previous i none) head (some i)
    next := Function.update t.next i (some head), head := some i }

def setPrioHigh (t : LinkedTable) (i : Nat) : Option LinkedTable :=
  match t.evictionStrategy with
  | .accessed => some { t with lines := Function.update t.lines i { t.lines i with accessed := true } }
  | .lru => if t.head = some i then some t else (t.unlink i).bind fun t => t.linkFront i
  | .pseudoRandom => some t

def lookup (t : LinkedTable) (contextId vAddr : Addr) (type : LineTag) : Option (Option Nat × LinkedTable) :=
  match (t.view []).findAddr contextId vAddr type with
  | some i => (t.setPrioHigh i).map fun t => (some i, t)
  | none => some (none, t)

def pickDestination (t : LinkedTable) : Option Nat :=
  match (t.view []).find fun line => line.is .free with
  | some i => some i
  | none =>
    match t.evictionStrategy with
    | .pseudoRandom => some (t.view []).pickVictimRandom
    | .accessed => some (t.view []).pickVictimAccessed
    | .lru => t.tail

/-- What both stores do: the destination is filled, unless it is locked. -/
def store (t : LinkedTable) (fill : Line → Line) : Option LinkedTable := do
  let i ← t.pickDestination
  if (t.lines i).locked then return t
  return t.withLinesOf ((t.view []).setLine i (fill (t.lines i)))

def storePending (t : LinkedTable) (contextId vAddr : Addr) : Option LinkedTable :=
  t.store fun line => { line with present := false, locked := true, contextId := contextId, vAddr := vAddr }

def storeNormal (t : LinkedTable) (contextId vAddr pAddr : Addr) (read write : Bool) : Option LinkedTable :=
  t.store fun line =>
    { line with
      present := true, locked := true, contextId := contextId, vAddr := vAddr, pAddr := pAddr,
      read := read, write := write }

/-- One event, with the lines that the lookups have found, the last one first. -/
def step (state : LinkedTable × List Nat) : TableEvent → Option (LinkedTable × List Nat)
  | .lookup contextId vAddr type =>
    (state.1.lookup contextId vAddr type).map fun found => (found.2, found.1.toList ++ state.2)
  | .storePending contextId vAddr => (state.1.storePending contextId vAddr).map fun t => (t, state.2)
  | .storeNormal contextId vAddr pAddr read write =>
    (state.1.storeNormal contextId vAddr pAddr read write).map fun t => (t, state.2)
  | .freeLines lambda => some (state.1.withLinesOf ((state.1.view []).freeLinesLeft lambda).1, state.2)
  | .change i line => some (state.1.withLinesOf ((state.1.view []).setLine i line), state.2)

/-- The links are those of the list. -/
structure Represents (t : LinkedTable) (order : List Nat) : Prop where
  nonempty : 0 < t.numLines
  linked : t.evictionStrategy = .lru → Linked t.head t.tail t.next t.previous order
  once : t.evictionStrategy = .lru → order.Perm (List.range t.numLines)

section Represents
variable {t t' : LinkedTable} {order : List Nat} {i : Nat}

/-- A line behind another one is moved to the front of the list. -/
theorem moveFront {front back : List Nat} {b h : Nat}
    (linked : Linked t.head t.tail t.next t.previous (front ++ b :: i :: back)) (atHead : t.head = some h) :
    ∃ t', ((t.unlink i).bind fun t => t.linkFront i) = some t' ∧ t'.view [] = t.view [] ∧
      Linked t'.head t'.tail t'.next t'.previous (i :: (front ++ b :: back)) := by
  have notHead : h ≠ i := fun same => linked.head_ne (by rw [atHead, same])
  have previousI : t.previous i = some b := by
    rw [List.append_cons] at linked
    rw [linked.previous_eq, List.getLast?_concat]
  have nextI : t.next i = back.head? := by
    rw [List.append_cons] at linked
    exact linked.next_eq
  have notB : b ≠ i := by
    rintro rfl
    have distinct := linked.nodup
    rw [List.append_cons] at distinct
    exact (List.nodup_middle.mp distinct).notMem (by simp)
  cases back with
  | nil =>
    have atTail : t.tail = some i := by
      rw [linked.tail_eq]
      simp
    simp only [unlink, atTail, if_true, previousI, linkFront, atHead, Option.bind_some, Option.pure_def,
      Option.bind_eq_bind]
    refine ⟨_, rfl, rfl, linked.moveFront ?_ ?_ ?_ ?_ ?_ ?_ ?_ ?_⟩
    · simp [notB, nextI]
    · simp [atHead]
    · intro x notI other
      simp [notI, other]
    · simp [Ne.symm notHead]
    · intro x first
      cases Option.some.inj (atHead.symm.trans first)
      simp
    · intro x first
      cases first
    · intro x notI other _
      have notFirst : x ≠ h := fun same => other (by rw [same]; exact atHead)
      dsimp only
      rw [Function.update_of_ne notFirst, Function.update_of_ne notI]
    · simp
  | cons c rest =>
    have split := linked
    rw [List.append_cons] at split
    have notTail : t.tail ≠ some i := split.tail_ne
    have notFirst : c ≠ h := fun same => split.head_ne (by rw [atHead, same])
    have notI : c ≠ i := by
      rintro rfl
      exact (List.nodup_middle.mp split.nodup).notMem (by simp)
    simp only [unlink, notTail, if_false, previousI, nextI, List.head?_cons, linkFront, atHead, Option.bind_some,
      Option.pure_def, Option.bind_eq_bind]
    refine ⟨_, rfl, rfl, linked.moveFront ?_ ?_ ?_ ?_ ?_ ?_ ?_ ?_⟩
    · simp [notB, nextI]
    · simp [atHead]
    · intro x notI other
      simp [notI, other]
    · simp [Ne.symm notHead]
    · intro x first
      cases Option.some.inj (atHead.symm.trans first)
      simp
    · intro x first
      cases Option.some.inj first
      dsimp only
      rw [Function.update_of_ne notFirst, Function.update_of_ne notI, Function.update_self]
    · intro x notI other notBack
      have notFirst : x ≠ h := fun same => other (by rw [same]; exact atHead)
      have notC : x ≠ c := fun same => notBack (by rw [same]; rfl)
      dsimp only
      rw [Function.update_of_ne notFirst, Function.update_of_ne notI, Function.update_of_ne notC]
    · rw [linked.tail_eq]
      simp

theorem setPrioHigh_lru (lru : t.evictionStrategy = .lru)
    (linked : Linked t.head t.tail t.next t.previous order) (member : i ∈ order) :
    ∃ t', t.setPrioHigh i = some t' ∧ t'.view [] = t.view [] ∧
      Linked t'.head t'.tail t'.next t'.previous (i :: order.erase i) := by
  obtain ⟨front, back, rfl⟩ := List.append_of_mem member
  simp only [setPrioHigh, lru]
  rcases List.eq_nil_or_concat' front with rfl | ⟨front, b, rfl⟩
  · refine ⟨t, if_pos linked.head_eq, rfl, ?_⟩
    rwa [List.nil_append, List.erase_cons_head]
  · have fresh : i ∉ front ++ [b] := fun inside =>
      (List.nodup_middle.mp linked.nodup).notMem (List.mem_append_left _ inside)
    rw [List.erase_append_right _ fresh, List.erase_cons_head]
    rw [List.append_assoc, List.singleton_append] at linked ⊢
    obtain ⟨h, atHead⟩ : ∃ h, t.head = some h := by
      rw [linked.head_eq]
      cases front <;> exact ⟨_, rfl⟩
    rw [if_neg linked.head_ne]
    exact moveFront linked atHead

theorem Represents.setPrioHigh (rep : t.Represents order) (inside : i < t.numLines) :
    ∃ t', t.setPrioHigh i = some t' ∧ ((t.view order).setPrioHigh i) = t'.view ((t.view order).setPrioHigh i).order ∧
      t'.Represents ((t.view order).setPrioHigh i).order := by
  cases strategy : t.evictionStrategy with
  | lru =>
    have member : i ∈ order := (rep.once strategy).mem_iff.mpr (List.mem_range.mpr inside)
    obtain ⟨t', done, same, linked⟩ := setPrioHigh_lru strategy (rep.linked strategy) member
    obtain ⟨_, numLines, kind, _, _⟩ := Table.mk.injEq .. ▸ same
    have moved : (t.view order).setPrioHigh i = { t.view order with order := i :: order.erase i } := by
      simp [Table.setPrioHigh, view, strategy]
    refine ⟨t', done, ?_, ?_, fun _ => ?_, fun _ => ?_⟩
    · rw [moved]
      simp only [view, Table.mk.injEq] at same ⊢
      tauto
    · have count : t'.numLines = t.numLines := numLines
      rw [count]
      exact rep.nonempty
    · rw [moved]
      exact linked
    · rw [moved]
      have count : t'.numLines = t.numLines := numLines
      rw [count]
      exact (List.perm_cons_erase member).symm.trans (rep.once strategy)
  | accessed =>
    have other : t.evictionStrategy ≠ .lru := by simp [strategy]
    refine ⟨{ t with lines := Function.update t.lines i { t.lines i with accessed := true } }, ?_, ?_, ?_⟩
    · simp [LinkedTable.setPrioHigh, strategy]
    · simp [Table.setPrioHigh, view, strategy, Table.setLine]
    · exact ⟨rep.nonempty, fun lru => absurd lru other, fun lru => absurd lru other⟩
  | pseudoRandom =>
    have other : t.evictionStrategy ≠ .lru := by simp [strategy]
    refine ⟨t, ?_, ?_, ?_⟩
    · simp [LinkedTable.setPrioHigh, strategy]
    · simp [Table.setPrioHigh, view, strategy]
    · exact ⟨rep.nonempty, fun lru => absurd lru other, fun lru => absurd lru other⟩

theorem Represents.nonempty_order (rep : t.Represents order) (lru : t.evictionStrategy = .lru) : order ≠ [] := by
  intro empty
  have length := (rep.once lru).length_eq
  rw [empty, List.length_range] at length
  exact absurd rep.nonempty (by rw [← length]; simp)

/-- The tail of the links is the victim of the list. -/
theorem Represents.pickDestination (rep : t.Represents order) :
    t.pickDestination = some (t.view order).pickDestination := by
  have free : ((t.view order).find fun line => line.is .free) = (t.view []).find fun line => line.is .free := rfl
  unfold LinkedTable.pickDestination Table.pickDestination
  rw [free]
  cases (t.view []).find fun line => line.is .free with
  | some i => rfl
  | none =>
    have kind : (t.view order).evictionStrategy = t.evictionStrategy := rfl
    rw [kind]
    cases strategy : t.evictionStrategy with
    | pseudoRandom => rfl
    | accessed => rfl
    | lru =>
      obtain ⟨last, isLast⟩ := Option.isSome_iff_exists.mp (List.getLast?_isSome.mpr (rep.nonempty_order strategy))
      have victim : (t.view order).pickVictimLru = last := by
        simp [Table.pickVictimLru, view, isLast]
      simp only [victim, Option.getD_none, (rep.linked strategy).tail_eq, isLast]

theorem Represents.withLinesOf (rep : t.Represents order) (result : Table) :
    (t.withLinesOf result).Represents order :=
  ⟨rep.nonempty, rep.linked, rep.once⟩

theorem freeLinesLeft_view (t : LinkedTable) (order : List Nat) (lambda : Line → Bool) :
    ((t.view order).freeLinesLeft lambda).1 = (t.withLinesOf ((t.view []).freeLinesLeft lambda).1).view order := by
  have swept : ∀ order, (t.view order).freeLinesLeft lambda =
      Prod.map (fun lines => ({ t with lines := lines } : LinkedTable).view order) id
        (runUntil (sweepStep (fun _ line => lambda line && line.locked) (fun _ => Table.freed lambda) Tlb.lockedFault)
          t.lines (List.range t.numLines)) := by
    intro order
    refine @runUntil_represented _ _ _ _ (Table.freeLineLeft lambda) _
      (fun lines => ({ t with lines := lines } : LinkedTable).view order) _ (fun lines i _ => ?_) t.lines
    unfold Table.freeLineLeft sweepStep Table.freeLine Table.freed
    have atLine : (({ t with lines := lines } : LinkedTable).view order).lines i = lines i := rfl
    simp only [atLine]
    cases lambda (lines i) with
    | false => simp [Prod.map]
    | true => cases (lines i).locked <;> simp [Prod.map, Tlb.lockedFault, view, Table.setLine]
  rw [swept order, swept []]
  rfl

theorem Represents.store (rep : t.Represents order) (fill : Line → Line) :
    ∃ t', t.store fill = some t' ∧ t'.Represents order ∧
      ((if ((t.view order).lines (t.view order).pickDestination).locked then none
        else some ((t.view order).pickDestination, (t.view order).setLine (t.view order).pickDestination
          (fill ((t.view order).lines (t.view order).pickDestination)))).map Prod.snd).getD (t.view order) =
        t'.view order := by
  have sameLines : (t.view order).lines = t.lines := rfl
  rw [LinkedTable.store, rep.pickDestination, sameLines, Option.bind_eq_bind, Option.bind_some]
  split
  · exact ⟨t, rfl, rep, rfl⟩
  · exact ⟨_, rfl, rep.withLinesOf _, rfl⟩

/-- An event on the links is the same event on the list. -/
theorem Represents.step (rep : t.Represents order) (recent : List Nat) (e : TableEvent) :
    ∃ t', step (t, recent) e = some (t', (t.view order).found e ++ recent) ∧
      (t.view order).perform e = t'.view ((t.view order).perform e).order ∧
        t'.Represents ((t.view order).perform e).order := by
  cases e with
  | lookup contextId vAddr type =>
    have same : (t.view order).findAddr contextId vAddr type = (t.view []).findAddr contextId vAddr type := rfl
    simp only [LinkedTable.step, LinkedTable.lookup, Table.found, Table.perform, Table.lookup, same]
    cases found : (t.view []).findAddr contextId vAddr type with
    | none => exact ⟨t, rfl, rfl, rep⟩
    | some i =>
      obtain ⟨t', done, view, rep'⟩ := rep.setPrioHigh (Table.find_eq_some found).1
      exact ⟨t', by simp [done], view, rep'⟩
  | storePending contextId vAddr =>
    obtain ⟨t', done, rep', same⟩ := rep.store fun line =>
      { line with present := false, locked := true, contextId := contextId, vAddr := vAddr }
    simp only [Table.perform, Table.storePending, same]
    exact ⟨t', congrArg (Option.map fun t => (t, recent)) done, rfl, rep'⟩
  | storeNormal contextId vAddr pAddr read write =>
    obtain ⟨t', done, rep', same⟩ := rep.store fun line =>
      { line with
        present := true, locked := true, contextId := contextId, vAddr := vAddr, pAddr := pAddr,
        read := read, write := write }
    simp only [Table.perform, Table.storeNormal, same]
    exact ⟨t', congrArg (Option.map fun t => (t, recent)) done, rfl, rep'⟩
  | freeLines lambda =>
    simp only [Table.perform, freeLinesLeft_view t order]
    exact ⟨_, rfl, rfl, rep.withLinesOf _⟩
  | change i line => exact ⟨_, rfl, rfl, rep.withLinesOf _⟩

end Represents

section Initial
variable {t : LinkedTable}

/-- What the loop of `initStrategy` has linked. -/
theorem linkLines_spec (t : LinkedTable) (count : Nat) :
    t.linkLines count = { t with
      next := fun j => if j < count then some (j + 1) else t.next j
      previous := fun j => if 0 < j ∧ j ≤ count then some (j - 1) else t.previous j } := by
  induction count with
  | zero =>
    have nothing : ∀ j, ¬ (0 < j ∧ j ≤ 0) := by omega
    simp only [linkLines, nothing, if_false, Nat.not_lt_zero]
  | succ i ih =>
    rw [linkLines, ih]
    simp only [LinkedTable.mk.injEq, true_and]
    constructor
    · refine funext fun j => ?_
      by_cases here : j = i + 1
      · subst here
        simp
      · rw [Function.update_of_ne here]
        have range : (0 < j ∧ j ≤ i + 1) ↔ (0 < j ∧ j ≤ i) := by omega
        simp only [range]
    · refine funext fun j => ?_
      by_cases here : j = i
      · subst here
        simp
      · rw [Function.update_of_ne here]
        have range : j < i + 1 ↔ j < i := by omega
        simp only [range]

/-- The constructor links the lines in the order of their indices. -/
theorem create_represents {offsetWidth numLines : Nat} (created : create offsetWidth numLines .lru = .ok t) :
    t.evictionStrategy = .lru ∧ t.numLines = numLines ∧ t.Represents (List.range numLines) := by
  unfold create at created
  split at created
  · cases created
  · rename_i nonzero
    simp only [initStrategy, if_true, linkLines_spec] at created
    cases created
    refine ⟨rfl, rfl, Nat.pos_of_ne_zero nonzero, fun _ => linked_range nonzero ?_ ?_, fun _ => .refl _⟩
    · intro i inside
      by_cases last : i = numLines - 1
      · have atEnd : ¬ i + 1 < numLines := by omega
        simp [last]
        omega
      · have before : i < numLines - 1 := by omega
        have room : i + 1 < numLines := by omega
        simp [before, room]
    · intro i inside
      by_cases first : i = 0
      · simp [first]
      · have range : 0 < i ∧ i ≤ numLines - 1 := by omega
        simp [first, range]

end Initial

/-- The lines in the order of replacement, and the line that a new entry takes. -/
structure ReplacementOrder (t : LinkedTable) (recent order : List Nat) : Prop where
  chain : Chain t.next t.head order
  tail : t.tail = order.getLast?
  once : order.Perm (List.range t.numLines)
  inverse : ∀ i < t.numLines, ∀ j < t.numLines, t.next i = some j ↔ t.previous j = some i
  first : ∀ i ∈ t.head, t.previous i = none
  recency : order.Pairwise (MoreRecent recent)
  destination : ∃ i < t.numLines, t.pickDestination = some i ∧
    ((t.lines i).is .free = true ∧ (∀ j < i, (t.lines j).is .free = false) ∨
      (∀ j < t.numLines, (t.lines j).is .free = false) ∧ ∀ j < t.numLines, j ≠ i → MoreRecent recent j i)

section Run
variable {t : LinkedTable} {order recent : List Nat}

/-- A line that is found is the first in the order of the indices. -/
theorem find_first {abs : Table} {lambda : Line → Bool} {i : Nat} (found : abs.find lambda = some i) :
    ∀ j < i, lambda (abs.lines j) = false := by
  have before := (List.find?_range_eq_some.mp found).2.2
  exact fun j lower => by simpa using before j lower

theorem Represents.replacementOrder (rep : t.Represents order) (lru : t.evictionStrategy = .lru)
    (recency : order.Pairwise (MoreRecent recent)) : t.ReplacementOrder recent order := by
  have linked := rep.linked lru
  have once := rep.once lru
  have inside : ∀ i < t.numLines, i ∈ order := fun i bound => once.mem_iff.mpr (List.mem_range.mpr bound)
  refine ⟨linked.forward, linked.tail_eq, once, ?_, ?_, recency, ?_⟩
  · exact fun i atI j atJ => linked.next_iff_previous (inside i atI) (inside j atJ)
  · intro i first
    rw [linked.head_eq] at first
    obtain ⟨rest, rfl⟩ := List.head?_eq_some_iff.mp first
    rw [← List.nil_append (i :: rest)] at linked
    rw [linked.previous_eq]
    rfl
  · cases free : (t.view []).find fun line => line.is .free with
    | some i =>
      obtain ⟨bound, isFree⟩ := Table.find_eq_some free
      refine ⟨i, bound, ?_, Or.inl ⟨isFree, find_first free⟩⟩
      simp only [LinkedTable.pickDestination, free]
    | none =>
      obtain ⟨last, isLast⟩ := Option.isSome_iff_exists.mp (List.getLast?_isSome.mpr (rep.nonempty_order lru))
      have bound := List.mem_range.mp (once.mem_iff.mp (List.mem_of_getLast? isLast))
      refine ⟨last, bound, ?_, Or.inr ⟨fun j atJ => Table.find_eq_none free atJ, fun j atJ other => ?_⟩⟩
      · simp only [LinkedTable.pickDestination, free, lru, linked.tail_eq, isLast]
      · exact moreRecent_of_getLast recency isLast (inside j atJ) other

/-- One event keeps the order by use. -/
theorem recency_perform (lru : t.evictionStrategy = .lru) (nodup : order.Nodup)
    (recency : order.Pairwise (MoreRecent recent)) (e : TableEvent) :
    ((t.view order).perform e).order.Pairwise (MoreRecent ((t.view order).found e ++ recent)) := by
  cases e with
  | lookup contextId vAddr type =>
    simp only [Table.perform, Table.found, Table.lookup]
    cases (t.view order).findAddr contextId vAddr type with
    | none => exact recency
    | some i =>
      have kind : (t.view order).evictionStrategy = .lru := lru
      simp only [Table.setPrioHigh, kind]
      exact pairwise_moreRecent_moveFront nodup recency
  | storePending contextId vAddr =>
    simp only [Table.perform, Table.found, Table.storePending]
    split <;> exact recency
  | storeNormal contextId vAddr pAddr read write =>
    simp only [Table.perform, Table.found, Table.storeNormal]
    split <;> exact recency
  | freeLines lambda =>
    rw [Table.perform, freeLinesLeft_view]
    exact recency
  | change i line => exact recency

theorem perform_strategy (e : TableEvent) :
    ((t.view order).perform e).evictionStrategy = t.evictionStrategy ∧
      ((t.view order).perform e).numLines = t.numLines := by
  cases e with
  | lookup contextId vAddr type =>
    simp only [Table.perform, Table.lookup]
    cases (t.view order).findAddr contextId vAddr type with
    | none => exact ⟨rfl, rfl⟩
    | some i => exact ⟨Table.setPrioHigh_strategy, Table.setPrioHigh_numLines⟩
  | storePending contextId vAddr =>
    simp only [Table.perform, Table.storePending]
    split <;> exact ⟨rfl, rfl⟩
  | storeNormal contextId vAddr pAddr read write =>
    simp only [Table.perform, Table.storeNormal]
    split <;> exact ⟨rfl, rfl⟩
  | freeLines lambda =>
    rw [Table.perform, freeLinesLeft_view]
    exact ⟨rfl, rfl⟩
  | change i line => exact ⟨rfl, rfl⟩

/-- The links, the list behind them, and its order by use. -/
structure Kept (numLines : Nat) (t : LinkedTable) (recent order : List Nat) : Prop where
  strategy : t.evictionStrategy = .lru
  count : t.numLines = numLines
  represents : t.Represents order
  recency : order.Pairwise (MoreRecent recent)

theorem Kept.step {numLines : Nat} (kept : Kept numLines t recent order) (e : TableEvent) :
    ∃ t' recent' order', LinkedTable.step (t, recent) e = some (t', recent') ∧ Kept numLines t' recent' order' := by
  obtain ⟨t', done, same, rep'⟩ := kept.represents.step recent e
  obtain ⟨strategy, count⟩ := @perform_strategy t order e
  have nodup := (kept.represents.linked kept.strategy).nodup
  rw [same] at strategy count
  exact ⟨t', _, _, done, strategy.trans kept.strategy, count.trans kept.count, rep',
    recency_perform kept.strategy nodup kept.recency e⟩

theorem Kept.execute {numLines : Nat} (kept : Kept numLines t recent order) (events : List TableEvent) :
    ∃ t' recent' order', execute LinkedTable.step (t, recent) events = some (t', recent') ∧
      Kept numLines t' recent' order' := by
  induction events generalizing t recent order with
  | nil => exact ⟨t, recent, order, rfl, kept⟩
  | cons e rest ih =>
    obtain ⟨t', recent', order', done, kept'⟩ := kept.step e
    obtain ⟨t'', recent'', order'', later, kept''⟩ := ih kept'
    refine ⟨t'', recent'', order'', ?_, kept''⟩
    rw [Lib.execute, done, Option.bind_some, later]

end Run

end LinkedTable

end Mgsim.Mmu
