import Mathlib.Data.List.Basic

namespace Mgsim.Lib
universe u v

/-- A word of a table that is being written: the word itself, or a label whose offset is filled in at the end. -/
inductive Cell (L : Type u) (W : Type v)
  | word (value : W)
  | ref (label : L)

section Backpatch
variable {L : Type u} {W : Type v}

def Cell.fill (offset : L → W) : Cell L W → W
  | .word value => value
  | .ref label => offset label

/-- The writes are done one after another. -/
def patch (words : List W) (writes : List (Nat × W)) : List W :=
  writes.foldl (fun words write => words.set write.1 write.2) words

theorem patch_append (words : List W) (first second : List (Nat × W)) :
    patch words (first ++ second) = patch (patch words first) second :=
  List.foldl_append

/-- Writes in any order lead to the words that all of them agree with, as soon as they reach every place that differs. -/
theorem patch_eq {words target : List W} {writes : List (Nat × W)} (length : words.length = target.length)
    (agree : ∀ write ∈ writes, target[write.1]? = some write.2)
    (reached : ∀ i, words[i]? = target[i]? ∨ ∃ value, (i, value) ∈ writes) : patch words writes = target := by
  induction writes generalizing words with
  | nil => exact List.ext_getElem? fun i => (reached i).resolve_right (by simp)
  | cons write writes ih =>
    have right := agree write List.mem_cons_self
    refine ih (by rw [List.length_set, length]) (fun other member => agree other (List.mem_cons_of_mem _ member)) fun i => ?_
    by_cases here : write.1 = i
    · subst here
      have bound : write.1 < words.length := length ▸ (List.getElem?_eq_some_iff.mp right).1
      exact Or.inl (by rw [List.getElem?_set_self bound, right])
    · rw [List.getElem?_set_ne here]
      refine (reached i).imp_right ?_
      rintro ⟨value, member⟩
      rcases List.mem_cons.mp member with rfl | later
      · exact absurd rfl here
      · exact ⟨value, later⟩

/-- The words stand for the cells: the known words are there, and the places of each label are remembered. -/
structure Emitted (words : List W) (refs : L → Nat → Prop) (cells : List (Cell L W)) : Prop where
  length : words.length = cells.length
  word : ∀ {i : Nat} {value : W}, cells[i]? = some (.word value) → words[i]? = some value
  ref : ∀ {label : L} {i : Nat}, refs label i ↔ cells[i]? = some (.ref label)

namespace Emitted
variable {words : List W} {refs refs' : L → Nat → Prop} {cells : List (Cell L W)} {value : W} {label : L} {i : Nat}

theorem nil (none : ∀ label i, ¬ refs label i) : Emitted [] refs ([] : List (Cell L W)) where
  length := rfl
  word found := by simp at found
  ref {label i} := by simpa using none label i

theorem push_word (emitted : Emitted words refs cells) (value : W) :
    Emitted (words ++ [value]) refs (cells ++ [.word value]) where
  length := by rw [List.length_append, List.length_append, emitted.length]; rfl
  word {i other} found := by
    rw [List.getElem?_append] at found ⊢
    rw [emitted.length]
    split_ifs at found ⊢ with old
    · exact emitted.word found
    · obtain ⟨here, same⟩ := List.getElem?_eq_some_iff.mp found
      simp only [List.getElem_singleton, Cell.word.injEq] at same
      rw [List.getElem?_eq_getElem (by simpa using here), List.getElem_singleton, same]
  ref {label i} := by
    rw [emitted.ref, List.getElem?_append]
    split_ifs with old
    · exact Iff.rfl
    · rw [List.getElem?_eq_none (Nat.le_of_not_lt old)]
      refine ⟨fun found => by simp at found, fun found => ?_⟩
      obtain ⟨_, same⟩ := List.getElem?_eq_some_iff.mp found
      simp at same

theorem push_ref (emitted : Emitted words refs cells) (value : W)
    (remembered : ∀ other i, refs' other i ↔ refs other i ∨ other = label ∧ i = words.length) :
    Emitted (words ++ [value]) refs' (cells ++ [.ref label]) where
  length := by rw [List.length_append, List.length_append, emitted.length]; rfl
  word {i other} found := by
    rw [List.getElem?_append] at found ⊢
    rw [emitted.length]
    split_ifs at found ⊢ with old
    · exact emitted.word found
    · obtain ⟨_, same⟩ := List.getElem?_eq_some_iff.mp found
      simp at same
  ref {other i} := by
    rw [remembered, emitted.ref, emitted.length, List.getElem?_append]
    split_ifs with old
    · exact or_iff_left fun ⟨_, last⟩ => absurd last (Nat.ne_of_lt old)
    · rw [List.getElem?_eq_none (Nat.le_of_not_lt old), List.getElem?_singleton]
      split_ifs with last
      · simp only [false_or, Option.some.injEq, Cell.ref.injEq]
        exact ⟨fun ⟨same, _⟩ => same.symm, fun same => ⟨same.symm, by omega⟩⟩
      · simp only [false_or, iff_false, not_and]
        exact fun _ => by omega

/-- A word that is already there is written again. -/
theorem set_word {old : W} (emitted : Emitted words refs cells) (there : cells[i]? = some (.word old)) (value : W) :
    Emitted (words.set i value) refs (cells.set i (.word value)) where
  length := by rw [List.length_set, List.length_set, emitted.length]
  word {j other} found := by
    by_cases here : i = j
    · subst here
      have bound := (List.getElem?_eq_some_iff.mp there).1
      rw [List.getElem?_set_self bound, Option.some.injEq, Cell.word.injEq] at found
      rw [List.getElem?_set_self (emitted.length ▸ bound), found]
    · rw [List.getElem?_set_ne here] at found ⊢
      exact emitted.word found
  ref {label j} := by
    rw [emitted.ref]
    by_cases here : i = j
    · subst here
      rw [there, List.getElem?_set_self (List.getElem?_eq_some_iff.mp there).1]
      simp
    · rw [List.getElem?_set_ne here]

/-- Once the place of each label has been written, the words are the cells filled in. -/
theorem patched (emitted : Emitted words refs cells) (offset : L → W) {writes : List (Nat × W)}
    (all : ∀ i value, (i, value) ∈ writes ↔ ∃ label, refs label i ∧ value = offset label) :
    patch words writes = cells.map (Cell.fill offset) := by
  refine patch_eq (by rw [List.length_map, emitted.length]) ?_ fun i => ?_
  · rintro ⟨i, value⟩ member
    obtain ⟨label, place, rfl⟩ := (all i value).mp member
    rw [List.getElem?_map, emitted.ref.mp place]
    rfl
  · cases cell : cells[i]? with
    | none =>
      have past := List.getElem?_eq_none_iff.mp cell
      exact Or.inl (by rw [List.getElem?_eq_none (emitted.length ▸ past), List.getElem?_map, cell]; rfl)
    | some cell' =>
      cases cell' with
      | word value => exact Or.inl (by rw [emitted.word cell, List.getElem?_map, cell]; rfl)
      | ref label => exact Or.inr ⟨offset label, (all i _).mpr ⟨label, emitted.ref.mpr cell, rfl⟩⟩

end Emitted
end Backpatch
end Mgsim.Lib
