import Mathlib.Data.Fintype.Basic
import Mgsim.Lib.Segment
import Mgsim.Sim.Buffer

namespace Mgsim.Sim
open Mgsim.Lib
variable {T : Type} [DecidableEq T] {L : Type} [DecidableEq L]

/-- `LinkedList`, without its table. -/
structure LinkedList (T : Type) where
  empty : Bool
  popped : Bool
  pushed : Bool
  head : T
  tail : T
  next : T
  first : T
  last : T

namespace LinkedList

/-- The constructor; `zero` is the value that an index has without an initialiser. -/
def create (zero : T) : LinkedList T := ⟨true, false, false, zero, zero, zero, zero, zero⟩

/-- `Append` in a phase; none where an assertion fails. -/
def append (phase : Phase) (list : LinkedList T) (first last : T) : Option (LinkedList T) :=
  if list.pushed then none
  else some (if phase = .commit then { list with first := first, last := last, pushed := true } else list)

/-- `Push`. -/
def push (phase : Phase) (list : LinkedList T) (item : T) : Option (LinkedList T) := list.append phase item item

/-- `Pop` in a phase: the link of the first element is read at once. -/
def pop (phase : Phase) (table : T → T) (list : LinkedList T) : Option (LinkedList T) :=
  if list.empty then none
  else if list.popped then none
  else some (if phase = .commit then { list with popped := true, next := table list.head } else list)

/-- The first half of `Update`, for the element that has been popped. -/
def updatePop (list : LinkedList T) : List Signal × LinkedList T :=
  if list.popped then
    if list.head = list.tail then ([.unnotify], { list with empty := true, popped := false })
    else ([], { list with head := list.next, popped := false })
  else ([], list)

/-- The second half of `Update`, for the elements that have been appended. -/
def updatePush (table : T → T) (list : LinkedList T) : List Signal × (T → T) × LinkedList T :=
  if list.pushed then
    if list.empty then ([.notify], table, { list with head := list.first, empty := false, tail := list.last, pushed := false })
    else ([], Function.update table list.tail list.first, { list with tail := list.last, pushed := false })
  else ([], table, list)

/-- `Update`: the signals, the table and the list after it. -/
def update (table : T → T) (list : LinkedList T) : Option (List Signal × (T → T) × LinkedList T) :=
  if list.popped ∧ list.empty then none
  else
    let afterPop := list.updatePop
    let afterPush := afterPop.2.updatePush table
    some (afterPop.1 ++ afterPush.1, afterPush.2)

/-- The elements of a list that are not being popped. -/
def staying (list : LinkedList T) (items : List T) : List T := if list.popped then items.tail else items

/-- The elements of a chain, if it is being appended. -/
def arriving (list : LinkedList T) (chain : List T) : List T := if list.pushed then chain else []

/-- The elements from `begin()` to `end()`, at most `fuel` of them. -/
def elements (table : T → T) (fuel : Nat) (list : LinkedList T) : List T :=
  if list.empty then [] else walk table list.tail fuel list.head

end LinkedList

/-- The calls in a cycle, and its end with the order in which the lists are updated. A component also
links elements, to form the chains that it appends. -/
inductive ListEvent (L T : Type)
  | append (list : L) (phase : Phase) (first last : T) (chain : List T)
  | pop (list : L) (phase : Phase)
  | link (element next : T)
  | endCycle (order : List L)

/-- The lists of one table; with the chain that has been appended to each, its history, and
the activations that its process has from it. -/
structure ListRecord (L T : Type) where
  table : T → T
  lists : L → LinkedList T
  chain : L → List T
  ops : L → List (FifoOp T)
  activations : L → Int

namespace ListRecord

/-- Empty lists over any table. -/
def initial (table : T → T) (zero : T) : ListRecord L T :=
  ⟨table, fun _ => .create zero, fun _ => [], fun _ => [], fun _ => 0⟩

/-- The chains that have been appended to a list, minus the elements that have been popped. -/
def contents (r : ListRecord L T) (l : L) : List T := remaining (r.ops l)

/-- The elements of a list that stay in it at the end of the cycle. -/
def kept (r : ListRecord L T) (l : L) : List T := (r.lists l).staying (r.contents l)

/-- The elements that come to a list at the end of the cycle. -/
def coming (r : ListRecord L T) (l : L) : List T := (r.lists l).arriving (r.chain l)

/-- The operations that the update of a list effects. -/
def effected (r : ListRecord L T) (l : L) : List (FifoOp T) :=
  (if (r.lists l).popped then [.dequeue (r.lists l).head] else []) ++ (r.coming l).map .enqueue

def updateList (r : ListRecord L T) (l : L) : Option (ListRecord L T) :=
  ((r.lists l).update r.table).map fun (signals, table, list) =>
    { r with
      table := table
      lists := Function.update r.lists l list
      ops := Function.update r.ops l (r.ops l ++ r.effected l)
      activations := Function.update r.activations l (r.activations l + balance signals) }

def step (r : ListRecord L T) : ListEvent L T → Option (ListRecord L T)
  | .append l phase first last chain => ((r.lists l).append phase first last).map fun list =>
      { r with
        lists := Function.update r.lists l list
        chain := if phase = .commit then Function.update r.chain l chain else r.chain }
  | .pop l phase => ((r.lists l).pop phase r.table).map fun list =>
      { r with lists := Function.update r.lists l list }
  | .link element next => some { r with table := Function.update r.table element next }
  | .endCycle order => order.foldlM updateList r

/-- What the components keep to: they append chains that they have linked, they do not touch the links
of elements that are in a list or come to one, and the elements that come to a list are in no list, or
are popped from it in this cycle. All lists with a change are updated. -/
def Guard (r : ListRecord L T) : ListEvent L T → Prop
  | .append _ _ first last chain => Segment r.table first chain last
  | .pop _ _ => True
  | .link element _ => ∀ l, element ∉ r.kept l ∧ element ∉ r.coming l
  | .endCycle order => (∀ l, (r.lists l).pushed = true ∨ (r.lists l).popped = true → l ∈ order) ∧
      (∀ l, (r.coming l).Nodup) ∧ (∀ l other, l ≠ other → List.Disjoint (r.coming l) (r.coming other)) ∧
      ∀ l other, List.Disjoint (r.coming l) (r.kept other)

instance [Fintype L] (r : ListRecord L T) (e : ListEvent L T) : Decidable (r.Guard e) := by
  cases e <;> unfold Guard <;> (try simp only [List.disjoint_left]) <;> infer_instance

end ListRecord

/-- The lists of one table are queues. -/
structure RefinesQueues (r : ListRecord L T) : Prop where
  queue : ∀ l, Fifo none (r.ops l) (r.contents l)
  elements : ∀ l fuel, (r.contents l).length ≤ fuel → (r.lists l).elements r.table fuel = r.contents l
  empty : ∀ l, (r.lists l).empty = true ↔ r.contents l = []
  front : ∀ l, (r.lists l).empty = false → (r.contents l).head? = some (r.lists l).head
  notified : ∀ l, r.activations l = if r.contents l = [] then 0 else 1

namespace LinkedList

/-- A list holds elements: from `m_head` on, or from `m_next` on when its first element has been popped. -/
inductive Holds (table : T → T) (list : LinkedList T) : List T → Prop
  | empty : list.empty = true → list.popped = false → Holds table list []
  | full {items : List T} : list.empty = false → list.popped = false →
      Segment table list.head items list.tail → Holds table list items
  | lastPopped : list.empty = false → list.popped = true → list.head = list.tail → Holds table list [list.head]
  | popped {rest : List T} : list.empty = false → list.popped = true → list.head ≠ list.tail →
      Segment table list.next rest list.tail → Holds table list (list.head :: rest)

namespace Holds
variable {table table' : T → T} {list list' : LinkedList T} {items chain : List T}

theorem congr (holds : Holds table list items) (same : ∀ a ∈ list.staying items, table' a = table a) :
    Holds table' list items := by
  cases holds with
  | empty isEmpty unpopped => exact .empty isEmpty unpopped
  | full nonempty unpopped segment =>
    rw [staying, unpopped] at same
    exact .full nonempty unpopped (segment.congr same)
  | lastPopped nonempty isPopped single => exact .lastPopped nonempty isPopped single
  | popped nonempty isPopped more segment =>
    rw [staying, isPopped] at same
    exact .popped nonempty isPopped more (segment.congr same)

/-- An append leaves what the list holds. -/
theorem append (holds : Holds table list items) (first last : T) :
    Holds table { list with first := first, last := last, pushed := true } items := by
  cases holds with
  | empty isEmpty unpopped => exact .empty isEmpty unpopped
  | full nonempty unpopped segment => exact .full nonempty unpopped segment
  | lastPopped nonempty isPopped single =>
    exact @Holds.lastPopped _ _ { list with first := first, last := last, pushed := true } nonempty isPopped single
  | popped nonempty isPopped more segment =>
    exact @Holds.popped _ _ { list with first := first, last := last, pushed := true } _ nonempty isPopped more segment

/-- A pop leaves what the list holds. -/
theorem pop (holds : Holds table list items) (nonempty : list.empty = false) (unpopped : list.popped = false)
    (nodup : items.Nodup) : Holds table { list with popped := true, next := table list.head } items := by
  cases holds with
  | empty isEmpty _ => rw [nonempty] at isEmpty; cases isEmpty
  | full _ _ segment =>
    obtain ⟨rest, rfl⟩ := segment.eq_cons
    by_cases single : list.head = list.tail
    · obtain rfl := (segment.tail_eq_nil nodup).mp single
      exact @Holds.lastPopped _ _ { list with popped := true, next := table list.head } nonempty rfl single
    · have more := mt (segment.tail_eq_nil nodup).mpr single
      exact @Holds.popped _ _ { list with popped := true, next := table list.head } _ nonempty rfl single
        (segment.rest more)
  | lastPopped _ isPopped _ => rw [unpopped] at isPopped; cases isPopped
  | popped _ isPopped _ _ => rw [unpopped] at isPopped; cases isPopped

theorem whole (holds : Holds table list items) (unpopped : list.popped = false) :
    (list.empty = true ∧ items = []) ∨ (list.empty = false ∧ Segment table list.head items list.tail) := by
  cases holds with
  | empty isEmpty _ => exact Or.inl ⟨isEmpty, rfl⟩
  | full nonempty _ segment => exact Or.inr ⟨nonempty, segment⟩
  | lastPopped _ isPopped _ => rw [unpopped] at isPopped; cases isPopped
  | popped _ isPopped _ _ => rw [unpopped] at isPopped; cases isPopped

theorem first_popped (holds : Holds table list items) (isPopped : list.popped = true) :
    items = list.head :: list.staying items := by
  rw [staying, if_pos isPopped]
  cases holds with
  | empty _ unpopped => rw [isPopped] at unpopped; cases unpopped
  | full _ unpopped _ => rw [isPopped] at unpopped; cases unpopped
  | lastPopped _ _ _ => rfl
  | popped _ _ _ _ => rfl

/-- The update takes the popped element out. -/
theorem updatePop (holds : Holds table list items) :
    Holds table list.updatePop.2 (list.staying items) ∧ list.updatePop.2.popped = false ∧
      list.updatePop.2.pushed = list.pushed ∧ list.updatePop.2.first = list.first ∧ list.updatePop.2.last = list.last ∧
      balance list.updatePop.1 = (if list.staying items = [] then 0 else 1) - (if items = [] then 0 else 1) := by
  unfold LinkedList.updatePop staying
  cases holds with
  | empty isEmpty unpopped =>
    rw [unpopped]
    exact ⟨.empty isEmpty unpopped, unpopped, rfl, rfl, rfl, rfl⟩
  | full nonempty unpopped segment =>
    rw [unpopped]
    exact ⟨.full nonempty unpopped segment, unpopped, rfl, rfl, rfl, (Int.sub_self _).symm⟩
  | lastPopped nonempty isPopped single =>
    rw [isPopped, if_pos rfl, if_pos single]
    exact ⟨.empty rfl rfl, rfl, rfl, rfl, rfl, rfl⟩
  | popped nonempty isPopped more segment =>
    rw [isPopped, if_pos rfl, if_neg more]
    refine ⟨.full nonempty rfl segment, rfl, rfl, rfl, rfl, ?_⟩
    rw [if_pos rfl, List.tail_cons, if_neg segment.ne_nil]
    rfl

/-- The update links the appended elements behind those of the list, and changes no other link. -/
theorem updatePush (holds : Holds table list items) (unpopped : list.popped = false) (nodup : items.Nodup)
    (linked : list.pushed = true → Segment table list.first chain list.last ∧ List.Disjoint chain items) :
    Holds (list.updatePush table).2.1 (list.updatePush table).2.2 (items ++ list.arriving chain) ∧
      (list.updatePush table).2.2.popped = false ∧ (list.updatePush table).2.2.pushed = false ∧
      (∀ a ∉ items, (list.updatePush table).2.1 a = table a) ∧
      balance (list.updatePush table).1 =
        (if (items ++ list.arriving chain) = [] then 0 else 1) - (if items = [] then 0 else 1) := by
  unfold LinkedList.updatePush arriving
  by_cases pushed : list.pushed = true
  · obtain ⟨segment, apart⟩ := linked pushed
    rw [if_pos pushed, if_pos pushed]
    cases holds with
    | empty isEmpty _ =>
      rw [if_pos isEmpty, List.nil_append, if_neg segment.ne_nil]
      exact ⟨.full rfl unpopped segment, unpopped, rfl, fun _ _ => rfl, rfl⟩
    | full nonempty _ inner =>
      rw [nonempty, if_neg Bool.false_ne_true, if_neg inner.ne_nil, if_neg (List.append_ne_nil_of_left_ne_nil inner.ne_nil _)]
      refine ⟨.full rfl unpopped (inner.append nodup segment ?_), unpopped, rfl, ?_, rfl⟩
      · exact fun member => apart member inner.last_mem
      · intro a absent
        exact Function.update_of_ne (ne_of_mem_of_not_mem inner.last_mem absent).symm _ _
    | lastPopped _ isPopped _ => rw [unpopped] at isPopped; cases isPopped
    | popped _ isPopped _ _ => rw [unpopped] at isPopped; cases isPopped
  · rw [if_neg pushed, if_neg pushed, List.append_nil]
    exact ⟨holds, unpopped, Bool.not_eq_true _ ▸ pushed, fun _ _ => rfl, (Int.sub_self _).symm⟩

end Holds

/-- The update takes the popped element out and puts the appended ones in. -/
theorem Holds.update {table : T → T} {list : LinkedList T} {items chain : List T}
    (holds : Holds table list items) (nodup : items.Nodup)
    (linked : list.pushed = true → Segment table list.first chain list.last ∧ List.Disjoint chain (list.staying items)) :
    ∃ signals table' list', list.update table = some (signals, table', list') ∧
      Holds table' list' (list.staying items ++ list.arriving chain) ∧
      list'.popped = false ∧ list'.pushed = false ∧ (∀ a ∉ list.staying items, table' a = table a) ∧
      balance signals = (if (list.staying items ++ list.arriving chain) = [] then 0 else 1) -
        (if items = [] then 0 else 1) := by
  obtain ⟨afterPop, unpopped, samePushed, sameFirst, sameLast, popSignals⟩ := holds.updatePop
  have fewer : (list.staying items).Nodup := by
    unfold staying
    split
    · exact nodup.sublist (List.tail_sublist _)
    · exact nodup
  have afterPush := afterPop.updatePush unpopped fewer (by rw [samePushed, sameFirst, sameLast]; exact linked)
  rw [arriving, samePushed, ← arriving] at afterPush
  obtain ⟨after, stillUnpopped, unpushed, same, pushSignals⟩ := afterPush
  have possible : ¬ (list.popped = true ∧ list.empty = true) := by
    rintro ⟨isPopped, isEmpty⟩
    cases holds with
    | empty _ unpopped => rw [isPopped] at unpopped; cases unpopped
    | full nonempty _ _ => rw [isEmpty] at nonempty; cases nonempty
    | lastPopped nonempty _ _ => rw [isEmpty] at nonempty; cases nonempty
    | popped nonempty _ _ _ => rw [isEmpty] at nonempty; cases nonempty
  refine ⟨_, _, _, if_neg possible, after, stillUnpopped, unpushed, same, ?_⟩
  rw [balance_append, popSignals, pushSignals]
  omega

end LinkedList

section Steps
variable {r r' : ListRecord L T} {l : L}

/-- What holds between the events and between the updates at the end of a cycle. -/
structure Linked (r : ListRecord L T) : Prop where
  queue : ∀ l, Fifo none (r.ops l) (r.contents l)
  nodup : ∀ l, (r.contents l).Nodup
  holds : ∀ l, (r.lists l).Holds r.table (r.contents l)
  pending : ∀ l, (r.lists l).pushed = true → Segment r.table (r.lists l).first (r.chain l) (r.lists l).last
  notified : ∀ l, r.activations l = if r.contents l = [] then 0 else 1

/-- No element is in two places: in a list or on the way to one. -/
def Apart (r : ListRecord L T) : Prop :=
  (∀ l, (r.kept l ++ r.coming l).Nodup) ∧
    ∀ l other, l ≠ other → List.Disjoint (r.kept l ++ r.coming l) (r.kept other ++ r.coming other)

theorem Apart.of_same (apart : Apart r) (same : ∀ x, r'.kept x ++ r'.coming x = r.kept x ++ r.coming x) : Apart r' := by
  refine ⟨fun x => ?_, fun x other different => ?_⟩
  · rw [same]
    exact apart.1 x
  · rw [same, same]
    exact apart.2 x other different

theorem Linked.effected (linked : Linked r) (l : L) : Fifo none (r.ops l ++ r.effected l) (r.kept l ++ r.coming l) := by
  have run := linked.queue l
  have afterPop : Fifo none (r.ops l ++ if (r.lists l).popped then [.dequeue (r.lists l).head] else []) (r.kept l) := by
    by_cases isPopped : (r.lists l).popped = true
    · rw [if_pos isPopped]
      rw [(linked.holds l).first_popped isPopped] at run
      exact run.dequeue
    · rw [if_neg isPopped, List.append_nil, ListRecord.kept, LinkedList.staying, if_neg isPopped]
      exact run
  rw [ListRecord.effected, ← List.append_assoc]
  exact afterPop.enqueueAll _

/-- What the update of one list does. -/
theorem Linked.updateList (linked : Linked r) (apart : Apart r) (l : L) :
    ∃ r', r.updateList l = some r' ∧ Linked r' ∧ Apart r' ∧ (r'.lists l).popped = false ∧ (r'.lists l).pushed = false ∧
      ∀ other, other ≠ l → r'.lists other = r.lists other := by
  have separate : (r.lists l).pushed = true → List.Disjoint (r.chain l) (r.kept l) := by
    intro isPushed
    have disjoint := List.disjoint_of_nodup_append (apart.1 l)
    rw [ListRecord.coming, LinkedList.arriving, if_pos isPushed] at disjoint
    exact List.disjoint_symm disjoint
  obtain ⟨signals, table, list, called, holds, unpopped, unpushed, same, counted⟩ :=
    (linked.holds l).update (linked.nodup l) fun isPushed => ⟨linked.pending l isPushed, separate isPushed⟩
  have run := linked.effected l
  refine ⟨_, by rw [ListRecord.updateList, called]; rfl, ?_⟩
  have atList {x : L} (here : x = l) : remaining (Function.update r.ops l (r.ops l ++ r.effected l) x) = r.kept l ++ r.coming l := by
    rw [here, Function.update_self, run.remaining_eq]
  have atOther {x : L} (other : x ≠ l) : remaining (Function.update r.ops l (r.ops l ++ r.effected l) x) = r.contents x := by
    rw [Function.update_of_ne other]
    rfl
  have unchanged {x : L} (other : x ≠ l) {a : T} (member : a ∈ r.kept x ++ r.coming x) : table a = r.table a :=
    same a fun inside => apart.2 x l other member (List.mem_append_left _ inside)
  refine ⟨⟨fun x => ?_, fun x => ?_, fun x => ?_, fun x isPushed => ?_, fun x => ?_⟩, ?_, ?_, ?_,
    fun other different => Function.update_of_ne different _ _⟩
  · show Fifo none (Function.update r.ops l _ x) (remaining (Function.update r.ops l _ x))
    by_cases here : x = l
    · rw [atList here, here, Function.update_self]
      exact run
    · rw [atOther here, Function.update_of_ne here]
      exact linked.queue x
  · show (remaining (Function.update r.ops l _ x)).Nodup
    by_cases here : x = l
    · rw [atList here]
      exact apart.1 l
    · rw [atOther here]
      exact linked.nodup x
  · show (Function.update r.lists l list x).Holds table (remaining (Function.update r.ops l _ x))
    by_cases here : x = l
    · rw [atList here, here, Function.update_self]
      exact holds
    · rw [atOther here, Function.update_of_ne here]
      exact (linked.holds x).congr fun a member => unchanged here (List.mem_append_left _ member)
  · dsimp only at isPushed ⊢
    by_cases here : x = l
    · rw [here, Function.update_self, unpushed] at isPushed
      cases isPushed
    · rw [Function.update_of_ne here] at isPushed ⊢
      refine (linked.pending x isPushed).congr fun a member => unchanged here (List.mem_append_right _ ?_)
      rw [ListRecord.coming, LinkedList.arriving, if_pos isPushed]
      exact member
  · show Function.update r.activations l _ x = if remaining (Function.update r.ops l _ x) = [] then 0 else 1
    by_cases here : x = l
    · rw [atList here, here, Function.update_self, linked.notified l, counted]
      unfold ListRecord.kept ListRecord.coming
      omega
    · rw [atOther here, Function.update_of_ne here]
      exact linked.notified x
  · refine apart.of_same fun x => ?_
    show (Function.update r.lists l list x).staying (remaining (Function.update r.ops l _ x)) ++
      (Function.update r.lists l list x).arriving (r.chain x) = _
    by_cases here : x = l
    · rw [atList here, here, Function.update_self, LinkedList.staying, LinkedList.arriving, unpopped, unpushed,
        if_neg Bool.false_ne_true, if_neg Bool.false_ne_true, List.append_nil]
    · rw [atOther here, Function.update_of_ne here]
      rfl
  · show (Function.update r.lists l list l).popped = false
    rw [Function.update_self]
    exact unpopped
  · show (Function.update r.lists l list l).pushed = false
    rw [Function.update_self]
    exact unpushed

/-- Lists without a change in this cycle. -/
def Settled (r : ListRecord L T) (l : L) : Prop := (r.lists l).popped = false ∧ (r.lists l).pushed = false

/-- The updates at the end of a cycle, in any order. -/
theorem Linked.updateAll (linked : Linked r) (apart : Apart r) {order : List L}
    (done : order.foldlM ListRecord.updateList r = some r') :
    Linked r' ∧ Apart r' ∧ ∀ l, l ∈ order ∨ Settled r l → Settled r' l := by
  induction order generalizing r with
  | nil =>
    cases done
    refine ⟨linked, apart, fun l settled => settled.resolve_left List.not_mem_nil⟩
  | cons first rest ih =>
    obtain ⟨middle, called, restLinked, restApart, unpopped, unpushed, others⟩ := linked.updateList apart first
    rw [List.foldlM_cons, called] at done
    obtain ⟨afterLinked, afterApart, settles⟩ := ih restLinked restApart done
    refine ⟨afterLinked, afterApart, fun l settled => settles l ?_⟩
    by_cases here : l = first
    · exact Or.inr (here ▸ ⟨unpopped, unpushed⟩)
    · rcases settled with member | already
      · exact Or.inl ((List.mem_cons.mp member).resolve_left here)
      · refine Or.inr ?_
        unfold Settled
        rw [others l here]
        exact already

/-- What holds in every run. -/
structure Queues (r : ListRecord L T) : Prop extends Linked r where
  separate : ∀ l other, l ≠ other → List.Disjoint (r.kept l) (r.kept other)

namespace Queues

theorem initial (table : T → T) (zero : T) : Queues (ListRecord.initial table zero : ListRecord L T) where
  queue _ := .start
  nodup _ := List.nodup_nil
  holds _ := .empty rfl rfl
  pending _ isPushed := by cases isPushed
  notified _ := rfl
  separate _ _ _ := List.disjoint_nil_left _

/-- The chains that come to the lists are linked, and apart from what stays in them. -/
theorem append (queues : Queues r) {first last : T} {chain : List T} (segment : Segment r.table first chain last) :
    Queues { r with
      lists := Function.update r.lists l { r.lists l with first := first, last := last, pushed := true }
      chain := Function.update r.chain l chain } := by
  refine ⟨⟨queues.queue, queues.nodup, fun x => ?_, fun x isPushed => ?_, queues.notified⟩, fun x other different => ?_⟩
  · show LinkedList.Holds r.table (Function.update r.lists l _ x) (r.contents x)
    by_cases here : x = l
    · rw [here, Function.update_self]
      exact (queues.holds l).append first last
    · rw [Function.update_of_ne here]
      exact queues.holds x
  · dsimp only at isPushed ⊢
    by_cases here : x = l
    · rw [here, Function.update_self, Function.update_self]
      exact segment
    · rw [Function.update_of_ne here] at isPushed ⊢
      rw [Function.update_of_ne here]
      exact queues.pending x isPushed
  · have same (y : L) : ListRecord.kept { r with
        lists := Function.update r.lists l { r.lists l with first := first, last := last, pushed := true }
        chain := Function.update r.chain l chain } y = r.kept y := by
      show (Function.update r.lists l _ y).staying (r.contents y) = _
      by_cases here : y = l
      · rw [here, Function.update_self]
        rfl
      · rw [Function.update_of_ne here]
        rfl
    rw [same, same]
    exact queues.separate x other different

theorem pop (queues : Queues r) (nonempty : (r.lists l).empty = false) (unpopped : (r.lists l).popped = false) :
    Queues { r with
      lists := Function.update r.lists l { r.lists l with popped := true, next := r.table (r.lists l).head } } := by
  refine ⟨⟨queues.queue, queues.nodup, fun x => ?_, fun x isPushed => ?_, queues.notified⟩, fun x other different => ?_⟩
  · show LinkedList.Holds r.table (Function.update r.lists l _ x) (r.contents x)
    by_cases here : x = l
    · rw [here, Function.update_self]
      exact (queues.holds l).pop nonempty unpopped (queues.nodup l)
    · rw [Function.update_of_ne here]
      exact queues.holds x
  · dsimp only at isPushed ⊢
    by_cases here : x = l
    · rw [here, Function.update_self] at isPushed ⊢
      exact queues.pending l isPushed
    · rw [Function.update_of_ne here] at isPushed ⊢
      exact queues.pending x isPushed
  · have fewer (y : L) : ListRecord.kept { r with
        lists := Function.update r.lists l { r.lists l with popped := true, next := r.table (r.lists l).head } } y ⊆
        r.kept y := by
      show (Function.update r.lists l _ y).staying (r.contents y) ⊆ _
      by_cases here : y = l
      · rw [here, Function.update_self, ListRecord.kept, LinkedList.staying, LinkedList.staying, unpopped]
        exact (List.tail_sublist _).subset
      · rw [Function.update_of_ne here]
        exact List.Subset.refl _
    exact List.disjoint_of_subset_left (fewer x)
      (List.disjoint_of_subset_right (fewer other) (queues.separate x other different))

/-- A link that no list needs is changed. -/
theorem link (queues : Queues r) {element next : T} (free : ∀ l, element ∉ r.kept l ∧ element ∉ r.coming l) :
    Queues { r with table := Function.update r.table element next } := by
  refine ⟨⟨queues.queue, queues.nodup, fun x => ?_, fun x isPushed => ?_, queues.notified⟩, queues.separate⟩
  · refine (queues.holds x).congr fun a member => Function.update_of_ne ?_ _ _
    exact ne_of_mem_of_not_mem member (free x).1
  · refine (queues.pending x isPushed).update ?_
    have outside := (free x).2
    rw [ListRecord.coming, LinkedList.arriving, if_pos isPushed] at outside
    exact outside

theorem apart (queues : Queues r) (distinct : ∀ l, (r.coming l).Nodup)
    (elsewhere : ∀ l other, l ≠ other → List.Disjoint (r.coming l) (r.coming other))
    (free : ∀ l other, List.Disjoint (r.coming l) (r.kept other)) : Apart r := by
  refine ⟨fun l => ?_, fun l other different => ?_⟩
  · refine List.nodup_append'.mpr ⟨?_, distinct l, List.disjoint_symm (free l l)⟩
    unfold ListRecord.kept LinkedList.staying
    split
    · exact (queues.nodup l).sublist (List.tail_sublist _)
    · exact queues.nodup l
  · rw [List.disjoint_append_left, List.disjoint_append_right, List.disjoint_append_right]
    exact ⟨⟨queues.separate l other different, List.disjoint_symm (free other l)⟩, free l other, elsewhere l other different⟩

theorem of_updated (linked : Linked r) (apart : Apart r) : Queues r where
  toLinked := linked
  separate l other different :=
    List.disjoint_of_subset_left (List.subset_append_left _ _)
      (List.disjoint_of_subset_right (List.subset_append_left _ _) (apart.2 l other different))

theorem step {e : ListEvent L T} (queues : Queues r) (allowed : r.Guard e) (taken : r.step e = some r') : Queues r' := by
  cases e with
  | append l phase first last chain =>
    obtain ⟨list, called, rfl⟩ := Option.map_eq_some_iff.mp taken
    unfold LinkedList.append at called
    split at called
    · cases called
    by_cases commit : phase = .commit
    · rw [if_pos commit] at called
      cases called
      rw [if_pos commit]
      exact queues.append allowed
    · rw [if_neg commit] at called
      cases called
      rw [if_neg commit, Function.update_eq_self]
      exact queues
  | pop l phase =>
    obtain ⟨list, called, rfl⟩ := Option.map_eq_some_iff.mp taken
    unfold LinkedList.pop at called
    split at called
    · cases called
    rename_i nonempty
    split at called
    · cases called
    rename_i unpopped
    by_cases commit : phase = .commit
    · rw [if_pos commit] at called
      cases called
      exact queues.pop (Bool.not_eq_true _ ▸ nonempty) (Bool.not_eq_true _ ▸ unpopped)
    · rw [if_neg commit] at called
      cases called
      rw [Function.update_eq_self]
      exact queues
  | link element next =>
    cases taken
    exact queues.link allowed
  | endCycle order =>
    obtain ⟨_, distinct, elsewhere, free⟩ := allowed
    obtain ⟨linked, apart, _⟩ := queues.toLinked.updateAll (queues.apart distinct elsewhere free) taken
    exact of_updated linked apart

/-- At the end of a cycle no list has a change. -/
theorem settled {order : List L} (queues : Queues r) (allowed : r.Guard (.endCycle order))
    (taken : r.step (.endCycle order) = some r') (l : L) : Settled r' l := by
  obtain ⟨all, distinct, elsewhere, free⟩ := allowed
  obtain ⟨_, _, settles⟩ := queues.toLinked.updateAll (queues.apart distinct elsewhere free) taken
  refine settles l ?_
  by_cases changed : (r.lists l).pushed = true ∨ (r.lists l).popped = true
  · exact Or.inl (all l changed)
  · rw [not_or, Bool.not_eq_true, Bool.not_eq_true] at changed
    exact Or.inr ⟨changed.2, changed.1⟩

theorem refines (queues : Queues r) (settled : ∀ l, Settled r l) : RefinesQueues r where
  queue := queues.queue
  notified := queues.notified
  elements l fuel enough := by
    unfold LinkedList.elements
    rcases (queues.holds l).whole (settled l).1 with ⟨isEmpty, none⟩ | ⟨nonempty, segment⟩
    · rw [if_pos isEmpty, none]
    · rw [nonempty, if_neg Bool.false_ne_true]
      exact segment.walk_eq (queues.nodup l) enough
  empty l := by
    rcases (queues.holds l).whole (settled l).1 with ⟨isEmpty, none⟩ | ⟨nonempty, segment⟩
    · exact ⟨fun _ => none, fun _ => isEmpty⟩
    · rw [nonempty]
      exact ⟨nofun, fun none => absurd none segment.ne_nil⟩
  front l nonempty := by
    rcases (queues.holds l).whole (settled l).1 with ⟨isEmpty, _⟩ | ⟨_, segment⟩
    · rw [nonempty] at isEmpty
      cases isEmpty
    · obtain ⟨rest, found⟩ := segment.eq_cons
      rw [found, List.head?_cons]

end Queues

end Steps

section Examples

/-- In one cycle the first of two elements moves to the other list and a chain of two comes to its old one. -/
def moveFirst : List (ListEvent Bool Nat) :=
  [.link 1 2, .append true .commit 1 2 [1, 2], .endCycle [true],
    .append false .commit 1 1 [1], .pop true .commit, .link 3 4, .append true .commit 3 4 [3, 4], .endCycle [false, true]]

end Examples

end Mgsim.Sim
