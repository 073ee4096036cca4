import Mathlib.Data.List.Nodup
import Mathlib.Data.List.Chain

namespace Mgsim.Lib
universe u v
variable {ι : Type u} {κ : Type v}

/-- Items that stand in a line between slots: each has a slot in front of it and one behind it,
which the item behind it has in front. -/
inductive Handover (front back : ι → κ → Prop) : List ι → List κ → Prop
  | start (slot : κ) : Handover front back [] [slot]
  | cons {item : ι} {slot behind : κ} {items : List ι} {slots : List κ} : front item slot → back item behind →
      Handover front back items (behind :: slots) → Handover front back (item :: items) (slot :: behind :: slots)

namespace Handover
variable {front back front' back' : ι → κ → Prop} {items : List ι} {slots : List κ}

theorem ne_nil (line : Handover front back items slots) : slots ≠ [] := by
  cases line <;> exact List.cons_ne_nil _ _

theorem congr (line : Handover front back items slots) (fronts : ∀ item ∈ items, ∀ slot, front item slot → front' item slot)
    (backs : ∀ item ∈ items, ∀ slot, back item slot → back' item slot) : Handover front' back' items slots := by
  induction line with
  | start slot => exact .start slot
  | cons before after _ ih =>
    refine .cons (fronts _ List.mem_cons_self _ before) (backs _ List.mem_cons_self _ after) (ih ?_ ?_)
    · exact fun item member => fronts item (List.mem_cons_of_mem _ member)
    · exact fun item member => backs item (List.mem_cons_of_mem _ member)

/-- The first item leaves the line, and the slot in front of it with it. -/
theorem leave {item : ι} (line : Handover front back (item :: items) slots) :
    ∃ slot rest, slots = slot :: rest ∧ front item slot ∧ Handover front back items rest := by
  cases line with
  | cons before _ rest => exact ⟨_, _, rfl, before, rest⟩

/-- An item joins the line at its end, with a slot behind it. -/
theorem join (line : Handover front back items slots) {item : ι} {last slot : κ} (atEnd : slots.getLast? = some last)
    (before : front item last) (after : back item slot) : Handover front back (items ++ [item]) (slots ++ [slot]) := by
  induction line with
  | start first =>
    cases atEnd
    exact .cons before after (.start slot)
  | cons earlier later _ ih =>
    rw [List.getLast?_cons_cons] at atEnd
    exact .cons earlier later (ih atEnd)

theorem exists_back (line : Handover front back items slots) {item : ι} (member : item ∈ items) :
    ∃ slot ∈ slots, back item slot := by
  induction line with
  | start => exact absurd member List.not_mem_nil
  | cons _ after _ ih =>
    rcases List.mem_cons.mp member with rfl | later
    · exact ⟨_, List.mem_cons_of_mem _ List.mem_cons_self, after⟩
    · obtain ⟨slot, inside, has⟩ := ih later
      exact ⟨slot, List.mem_cons_of_mem _ inside, has⟩

theorem exists_front (line : Handover front back items slots) {item : ι} (member : item ∈ items) :
    ∃ slot ∈ slots, front item slot := by
  induction line with
  | start => exact absurd member List.not_mem_nil
  | cons before _ _ ih =>
    rcases List.mem_cons.mp member with rfl | later
    · exact ⟨_, List.mem_cons_self, before⟩
    · obtain ⟨slot, inside, has⟩ := ih later
      exact ⟨slot, List.mem_cons_of_mem _ inside, has⟩

/-- Every slot but the first is behind an item. -/
theorem exists_back_tail (line : Handover front back items slots) {item : ι} (member : item ∈ items) :
    ∃ slot ∈ slots.tail, back item slot := by
  cases line with
  | start => exact absurd member List.not_mem_nil
  | cons _ after rest =>
    rcases List.mem_cons.mp member with rfl | later
    · exact ⟨_, List.mem_cons_self, after⟩
    · exact rest.exists_back later

/-- Where no slot occurs twice, no two items have the same slot behind them. -/
theorem apart (line : Handover front back items slots) (distinct : slots.Nodup) {item other : ι}
    (member : item ∈ items) (member' : other ∈ items) (different : item ≠ other) :
    ∃ slot ∈ slots, ∃ slot' ∈ slots, slot ≠ slot' ∧ back item slot ∧ back other slot' := by
  induction line with
  | start => exact absurd member List.not_mem_nil
  | @cons first slot behind rest slots _ after inner ih =>
    have distinct' := (List.nodup_cons.mp distinct).2
    have fresh := (List.nodup_cons.mp distinct').1
    have inside : behind ∈ slot :: behind :: slots := List.mem_cons_of_mem _ List.mem_cons_self
    rcases List.mem_cons.mp member with rfl | later
    · have later' : other ∈ rest := (List.mem_cons.mp member').resolve_left different.symm
      obtain ⟨slot', member', has⟩ := inner.exists_back_tail later'
      refine ⟨behind, inside, slot', List.mem_cons_of_mem _ (List.mem_cons_of_mem _ member'), ?_, after, has⟩
      rintro rfl
      exact fresh member'
    · rcases List.mem_cons.mp member' with rfl | later'
      · obtain ⟨slot', member', has⟩ := inner.exists_back_tail later
        refine ⟨slot', List.mem_cons_of_mem _ (List.mem_cons_of_mem _ member'), behind, inside, ?_, has, after⟩
        rintro rfl
        exact fresh member'
      · obtain ⟨one, inOne, two, inTwo, rest⟩ := ih distinct' later later'
        exact ⟨one, List.mem_cons_of_mem _ inOne, two, List.mem_cons_of_mem _ inTwo, rest⟩

theorem head_front (line : Handover front back items slots) {item : ι} (head : items.head? = some item) :
    ∃ slot, slots.head? = some slot ∧ front item slot := by
  cases line with
  | start => cases head
  | cons before _ _ =>
    cases head
    exact ⟨_, rfl, before⟩

theorem last_back (line : Handover front back items slots) {item : ι} (last : items.getLast? = some item) :
    ∃ slot, slots.getLast? = some slot ∧ back item slot := by
  induction line with
  | start => cases last
  | @cons first _ behind rest _ _ after inner ih =>
    rw [List.getLast?_cons_cons]
    cases inner with
    | start =>
      cases last
      exact ⟨behind, rfl, after⟩
    | cons _ _ _ =>
      rw [List.getLast?_cons_cons] at last
      exact ih last

/-- Each item has in front what the one before it has behind. -/
theorem isChain (line : Handover front back items slots) :
    items.IsChain fun earlier later => ∃ slot, back earlier slot ∧ front later slot := by
  induction line with
  | start => exact .nil
  | @cons first _ behind rest _ _ after inner ih =>
    cases inner with
    | start => exact .singleton _
    | cons before _ _ => exact .cons_cons ⟨behind, after, before⟩ ih

end Handover
end Mgsim.Lib
