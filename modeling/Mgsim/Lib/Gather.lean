import Mathlib.Data.List.Basic

namespace Mgsim.Lib

section Copy
universe u
variable {α : Type u} {buffer after data : List α} {offset k : Nat}

/-- A buffer with some data copied to a place in it, which must have room for them. -/
def copyInto (buffer : List α) (offset : Nat) (data : List α) : Option (List α) :=
  if offset + data.length ≤ buffer.length then some (buffer.take offset ++ data ++ buffer.drop (offset + data.length))
  else none

theorem copyInto_eq_some : copyInto buffer offset data = some after ↔ offset + data.length ≤ buffer.length ∧
    after = buffer.take offset ++ data ++ buffer.drop (offset + data.length) := by
  unfold copyInto
  split_ifs with fits
  · rw [Option.some.injEq, and_iff_right fits, eq_comm]
  · exact iff_of_false not_false fun both => fits both.1

theorem length_copyInto (done : copyInto buffer offset data = some after) : after.length = buffer.length := by
  obtain ⟨fits, rfl⟩ := copyInto_eq_some.1 done
  simp only [List.length_append, List.length_take, List.length_drop]
  omega

/-- Where there are new data they count, elsewhere the buffer. -/
theorem getElem?_copyInto (done : copyInto buffer offset data = some after) :
    after[k]? = if offset ≤ k ∧ k < offset + data.length then data[k - offset]? else buffer[k]? := by
  obtain ⟨fits, rfl⟩ := copyInto_eq_some.1 done
  have front : (buffer.take offset).length = offset := List.length_take_of_le (by omega)
  split_ifs with inside
  · have within : k < (buffer.take offset ++ data).length := by
      rw [List.length_append, front]
      omega
    rw [List.getElem?_append_left within, List.getElem?_append_right (by omega), front]
  · rcases Nat.lt_or_ge k offset with before | behind
    · rw [List.append_assoc, List.getElem?_append_left (by omega), List.getElem?_take_of_lt before]
    · have beyond : (buffer.take offset ++ data).length ≤ k := by
        rw [List.length_append, front]
        omega
      rw [List.getElem?_append_right beyond, List.getElem?_drop, List.length_append, front]
      exact congrArg _ (by omega)

end Copy

section Gathered
universe u v
variable {α : Type u} {ρ : Type v} {value : Nat → α} {covers : ρ → Nat → Prop} {sent sent' : Nat} {pending : List ρ}
  {buffer after : List α} {r : ρ}

/-- What has been asked for is in the buffer, unless an answer that is still to come covers it. -/
def Gathered (value : Nat → α) (covers : ρ → Nat → Prop) (sent : Nat) (pending : List ρ) (buffer : List α) : Prop :=
  ∀ k < sent, (∃ r ∈ pending, covers r k) ∨ buffer[k]? = some (value k)

theorem Gathered.zero : Gathered value covers 0 pending buffer := fun _ none => absurd none (Nat.not_lt_zero _)

/-- One more question, which covers what is asked for besides. -/
theorem Gathered.send (gathered : Gathered value covers sent pending buffer)
    (new : ∀ k, sent ≤ k → k < sent' → covers r k) : Gathered value covers sent' (pending ++ [r]) buffer := by
  intro k below
  rcases Nat.lt_or_ge k sent with old | fresh
  · refine (gathered k old).imp_left fun waiting => ?_
    obtain ⟨other, member, reaches⟩ := waiting
    exact ⟨other, List.mem_append_left _ member, reaches⟩
  · exact Or.inl ⟨r, List.mem_concat_self, new k fresh below⟩

/-- An answer comes and puts nothing wrong into the buffer. -/
theorem Gathered.answer (gathered : Gathered value covers sent pending buffer) {i : Nat} (found : pending[i]? = some r)
    (stored : ∀ k, covers r k → after[k]? = some (value k))
    (right : ∀ k, after[k]? = some (value k) ∨ after[k]? = buffer[k]?) :
    Gathered value covers sent (pending.eraseIdx i) after := by
  intro k below
  rcases gathered k below with ⟨other, member, reaches⟩ | there
  · obtain ⟨j, place⟩ := List.mem_iff_getElem?.1 member
    by_cases same : j = i
    · rw [same, found] at place
      cases place
      exact Or.inr (stored k reaches)
    · exact Or.inl ⟨other, List.mem_eraseIdx_iff_getElem?.2 ⟨j, same, place⟩, reaches⟩
  · refine Or.inr ((right k).elim id fun same => ?_)
    rw [same, there]

/-- Without a question in flight the buffer starts with what has been asked for. -/
theorem Gathered.complete (gathered : Gathered value covers sent [] buffer) :
    buffer.take sent = (List.range sent).map value := by
  refine List.ext_getElem? fun k => ?_
  rcases Nat.lt_or_ge k sent with below | beyond
  · rw [List.getElem?_take_of_lt below, List.getElem?_map, List.getElem?_range below]
    refine (gathered k below).resolve_left fun waiting => ?_
    obtain ⟨_, none, _⟩ := waiting
    cases none
  · rw [List.getElem?_eq_none (by rw [List.length_take]; omega), List.getElem?_eq_none (by simpa using beyond)]

end Gathered

end Mgsim.Lib
