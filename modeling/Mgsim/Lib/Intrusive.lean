import Mgsim.Lib.Chain

namespace Mgsim.Lib
universe u v
variable {κ : Type u} {α : Type v}

/-- Where a link to an item of an intrusive list is stored: in the head of the list or in the item before it. -/
inductive Spot (κ : Type u) (α : Type v)
  | head (list : κ)
  | after (item : α)
  deriving DecidableEq

/-- Each item of a list knows the place of the link to it. -/
inductive Backed (prev : α → Option (Spot κ α)) : Spot κ α → List α → Prop
  | nil {spot : Spot κ α} : Backed prev spot []
  | cons {spot : Spot κ α} {a : α} {rest : List α} : prev a = some spot → Backed prev (.after a) rest →
      Backed prev spot (a :: rest)

namespace Backed
variable {prev prev' : α → Option (Spot κ α)} {spot : Spot κ α} {items front back : List α} {a b : α}

theorem congr (backed : Backed prev spot items) (same : ∀ b ∈ items, prev' b = prev b) : Backed prev' spot items := by
  induction backed with
  | nil => exact .nil
  | @cons spot a rest here _ ih =>
    refine .cons ?_ (ih fun b member => same b (List.mem_cons_of_mem _ member))
    rw [same a List.mem_cons_self]
    exact here

/-- A list with another place for the link to its first item. -/
theorem move {spot' : Spot κ α} (backed : Backed prev spot items) (first : ∀ b ∈ items.head?, prev' b = some spot')
    (others : ∀ b ∈ items.tail, prev' b = prev b) : Backed prev' spot' items := by
  cases backed with
  | nil => exact .nil
  | cons _ rest => exact .cons (first _ rfl) (rest.congr others)

theorem at_head (backed : Backed prev spot (a :: back)) : prev a = some spot := by
  cases backed with
  | cons here _ => exact here

theorem tail (backed : Backed prev spot (a :: back)) : Backed prev (.after a) back := by
  cases backed with
  | cons _ rest => exact rest

theorem at_next (backed : Backed prev spot (front ++ b :: a :: back)) : prev a = some (.after b) := by
  induction front generalizing spot with
  | nil => exact backed.tail.at_head
  | cons _ _ ih => exact ih backed.tail

/-- An item is taken out behind another one. -/
theorem unlink (backed : Backed prev spot (front ++ b :: a :: back)) (first : ∀ c ∈ back.head?, prev' c = some (.after b))
    (others : ∀ c ∈ front ++ b :: back.tail, prev' c = prev c) : Backed prev' spot (front ++ b :: back) := by
  induction front generalizing spot with
  | nil =>
    refine .cons ?_ (backed.tail.tail.move first fun c member => others c (List.mem_cons_of_mem _ member))
    rw [others b List.mem_cons_self]
    exact backed.at_head
  | cons c rest ih =>
    refine .cons ?_ (ih backed.tail fun d member => others d (List.mem_cons_of_mem _ member))
    rw [others c List.mem_cons_self]
    exact backed.at_head

end Backed

/-- An item is taken out behind another one. -/
theorem Chain.unlink {next next' : α → Option α} {head : Option α} {front back : List α} {a b : α}
    (chain : Chain next head (front ++ b :: a :: back)) (atB : next' b = next a)
    (others : ∀ c ∈ front ++ back, next' c = next c) : Chain next' head (front ++ b :: back) := by
  induction front generalizing head with
  | nil =>
    cases chain with
    | cons inner =>
      refine .cons ?_
      rw [atB]
      exact inner.rest.congr others
  | cons c rest ih =>
    cases chain with
    | cons inner =>
      refine .cons ?_
      rw [others c List.mem_cons_self]
      exact ih inner fun d member => others d (List.mem_cons_of_mem _ member)

/-- Lists whose items are linked forward, and know the place of the link to them. -/
structure Intrusive (head : κ → Option α) (next : α → Option α) (prev : α → Option (Spot κ α)) (items : κ → List α) :
    Prop where
  chain : ∀ l, Chain next (head l) (items l)
  backed : ∀ l, Backed prev (.head l) (items l)
  nodup : ∀ l, (items l).Nodup
  apart : ∀ l other, l ≠ other → List.Disjoint (items l) (items other)

namespace Intrusive
variable [DecidableEq κ] {head head' : κ → Option α} {next next' : α → Option α} {prev prev' : α → Option (Spot κ α)}
  {items : κ → List α} {a : α} {l : κ}

/-- An item that is in no list becomes the first one of a list. -/
theorem push (lists : Intrusive head next prev items) (fresh : ∀ m, a ∉ items m) (atHead : head' l = some a)
    (otherHeads : ∀ m, m ≠ l → head' m = head m) (atNext : next' a = head l) (otherNexts : ∀ b, b ≠ a → next' b = next b)
    (atPrev : prev' a = some (.head l)) (firstPrev : ∀ b ∈ head l, prev' b = some (.after a))
    (otherPrevs : ∀ b, b ≠ a → b ∉ head l → prev' b = prev b) :
    Intrusive head' next' prev' (Function.update items l (a :: items l)) := by
  have isOther {m : κ} {b : α} (member : b ∈ items m) : b ≠ a := ne_of_mem_of_not_mem member (fresh m)
  refine ⟨fun m => ?_, fun m => ?_, fun m => ?_, fun m other different => ?_⟩
  · by_cases here : m = l
    · rw [here, Function.update_self, atHead]
      refine .cons ?_
      rw [atNext]
      exact (lists.chain l).congr fun b member => otherNexts b (isOther member)
    · rw [Function.update_of_ne here, otherHeads m here]
      exact (lists.chain m).congr fun b member => otherNexts b (isOther member)
  · by_cases here : m = l
    · rw [here, Function.update_self]
      refine .cons atPrev ((lists.backed l).move ?_ ?_)
      · rw [← (lists.chain l).head_eq]
        exact firstPrev
      · intro b member
        refine otherPrevs b (isOther (List.mem_of_mem_tail member)) fun first => ?_
        rw [(lists.chain l).head_eq] at first
        obtain ⟨rest, split⟩ := List.head?_eq_some_iff.mp first
        have nodup := lists.nodup l
        rw [split] at member nodup
        exact (List.nodup_cons.mp nodup).1 member
    · rw [Function.update_of_ne here]
      refine (lists.backed m).congr fun b member => otherPrevs b (isOther member) fun first => ?_
      rw [(lists.chain l).head_eq] at first
      exact lists.apart m l here member (List.mem_of_head? first)
  · by_cases here : m = l
    · rw [here, Function.update_self]
      exact List.nodup_cons.mpr ⟨fresh l, lists.nodup l⟩
    · rw [Function.update_of_ne here]
      exact lists.nodup m
  · by_cases here : m = l
    · have there : other ≠ l := fun same => different (here.trans same.symm)
      rw [here, Function.update_self, Function.update_of_ne there]
      exact List.disjoint_cons_left.mpr ⟨fresh other, lists.apart l other there.symm⟩
    · rw [Function.update_of_ne here]
      by_cases there : other = l
      · rw [there, Function.update_self]
        exact List.disjoint_cons_right.mpr ⟨fresh m, lists.apart m l here⟩
      · rw [Function.update_of_ne there]
        exact lists.apart m other different

/-- An item is taken out of its list. -/
theorem remove {front back : List α} (lists : Intrusive head next prev items) (split : items l = front ++ a :: back)
    (atHead : ∀ m, prev a = some (.head m) → head' m = next a) (otherHeads : ∀ m, prev a ≠ some (.head m) → head' m = head m)
    (atNext : ∀ b, b ≠ a → prev a = some (.after b) → next' b = next a)
    (otherNexts : ∀ b, b ≠ a → prev a ≠ some (.after b) → next' b = next b)
    (atPrev : ∀ b, b ≠ a → next a = some b → prev' b = prev a)
    (otherPrevs : ∀ b, b ≠ a → next a ≠ some b → prev' b = prev b) :
    Intrusive head' next' prev' (Function.update items l (front ++ back)) := by
  have chain := lists.chain l
  have backed := lists.backed l
  have nodup := lists.nodup l
  rw [split] at chain backed nodup
  obtain ⟨absent, distinct⟩ := List.nodup_cons.mp (List.nodup_middle.mp nodup)
  have nextOf : next a = back.head? := chain.next_eq
  have kept {b : α} (member : b ∈ front ++ back) : b ≠ a := ne_of_mem_of_not_mem member absent
  have inList {b : α} (member : b ∈ front ++ back) : b ∈ items l := by
    rw [split]
    exact ((List.sublist_cons_self a back).append_left front).subset member
  have elsewhere {m : κ} (other : m ≠ l) {b : α} (member : b ∈ items m) : b ∉ items l :=
    fun inside => lists.apart m l other member inside
  have prevInside : prev a = some (.head l) ∨ ∃ b ∈ items l, prev a = some (.after b) := by
    rcases List.eq_nil_or_concat front with rfl | ⟨before, b, rfl⟩
    · exact Or.inl backed.at_head
    · rw [List.concat_eq_append] at split backed
      rw [List.append_assoc, List.singleton_append] at backed
      exact Or.inr ⟨b, by rw [split]; simp, backed.at_next⟩
  have nextInside {b : α} (next : next a = some b) : b ∈ items l :=
    inList (List.mem_append_right _ (List.mem_of_head? (nextOf.symm.trans next)))
  have others {m : κ} (other : m ≠ l) : Chain next' (head' m) (items m) ∧ Backed prev' (.head m) (items m) := by
    have notA {b : α} (member : b ∈ items m) : b ≠ a := by
      rintro rfl
      exact elsewhere other member (by rw [split]; simp)
    have sameHead : head' m = head m := by
      refine otherHeads m fun atM => ?_
      rcases prevInside with atL | ⟨b, _, after⟩
      · cases Option.some.inj (atM.symm.trans atL)
        exact other rfl
      · cases Option.some.inj (atM.symm.trans after)
    rw [sameHead]
    refine ⟨(lists.chain m).congr fun b member => otherNexts b (notA member) fun afterB => ?_,
      (lists.backed m).congr fun b member => otherPrevs b (notA member) fun nextB => elsewhere other member (nextInside nextB)⟩
    rcases prevInside with atL | ⟨c, inside, after⟩
    · cases Option.some.inj (afterB.symm.trans atL)
    · cases Option.some.inj (afterB.symm.trans after)
      exact elsewhere other member inside
  have here : Chain next' (head' l) (front ++ back) ∧ Backed prev' (.head l) (front ++ back) := by
    have notNext {b : α} (member : b ∈ front ++ back.tail) : next a ≠ some b := by
      intro isNext
      obtain ⟨rest, same⟩ := List.head?_eq_some_iff.mp (nextOf.symm.trans isNext)
      rw [same] at distinct member
      exact (List.nodup_cons.mp (List.nodup_middle.mp distinct)).1 member
    have firstPrev {b : α} (first : b ∈ back.head?) : prev' b = prev a :=
      atPrev b (kept (List.mem_append_right _ (List.mem_of_head? first))) (nextOf.trans first)
    have samePrev {b : α} (member : b ∈ front ++ back.tail) : prev' b = prev b := by
      refine otherPrevs b (kept ?_) (notNext member)
      exact ((List.tail_sublist back).append_left front).subset member
    rcases List.eq_nil_or_concat front with rfl | ⟨before, b, rfl⟩
    · have atFront : prev a = some (.head l) := backed.at_head
      rw [List.nil_append, atHead l atFront]
      refine ⟨chain.rest.congr fun b member => otherNexts b (kept member) fun after => ?_, backed.tail.move ?_ ?_⟩
      · cases Option.some.inj (atFront.symm.trans after)
      · exact fun b first => (firstPrev first).trans atFront
      · exact fun b member => samePrev member
    · rw [List.concat_eq_append, List.append_assoc, List.singleton_append] at chain backed nodup distinct ⊢
      rw [List.concat_eq_append] at kept samePrev
      have after : prev a = some (.after b) := backed.at_next
      have sameHead : head' l = head l := by
        refine otherHeads l fun atL => ?_
        cases Option.some.inj (atL.symm.trans after)
      rw [sameHead]
      refine ⟨chain.unlink (atNext b (kept (by simp)) after) fun c member => otherNexts c (kept ?_) fun afterC => ?_,
        backed.unlink (fun c first => (firstPrev first).trans after) fun c member => samePrev ?_⟩
      · rw [List.append_assoc, List.singleton_append]
        exact ((List.sublist_cons_self b back).append_left before).subset member
      · cases Option.some.inj (afterC.symm.trans after)
        exact (List.nodup_cons.mp (List.nodup_middle.mp distinct)).1 member
      · rw [List.append_assoc, List.singleton_append]
        exact member
  refine ⟨fun m => ?_, fun m => ?_, fun m => ?_, fun m other different => ?_⟩
  · by_cases same : m = l
    · rw [same, Function.update_self]
      exact here.1
    · rw [Function.update_of_ne same]
      exact (others same).1
  · by_cases same : m = l
    · rw [same, Function.update_self]
      exact here.2
    · rw [Function.update_of_ne same]
      exact (others same).2
  · by_cases same : m = l
    · rw [same, Function.update_self]
      exact distinct
    · rw [Function.update_of_ne same]
      exact lists.nodup m
  · have shrinks (n : κ) : Function.update items l (front ++ back) n ⊆ items n := by
      by_cases same : n = l
      · rw [same, Function.update_self]
        exact fun _ => inList
      · rw [Function.update_of_ne same]
        exact List.Subset.refl _
    exact List.disjoint_of_subset_left (shrinks m) (List.disjoint_of_subset_right (shrinks other) (lists.apart m other different))

end Intrusive

end Mgsim.Lib
