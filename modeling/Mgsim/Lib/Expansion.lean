import Mathlib.Logic.Basic
import Mathlib.Tactic.Common

namespace Mgsim.Lib
universe u v w

/-- The expansion of a text whose parts are words and references to other texts. -/
inductive Expands {κ : Type u} {β : Type v} {ε : Type w} (body : κ → Except ε (List (κ ⊕ β))) :
    List (κ ⊕ β) → List β → Prop
  | nil : Expands body [] []
  | word {b rest words} : Expands body rest words → Expands body (.inr b :: rest) (b :: words)
  | reference {name parts inner rest words} : body name = .ok parts → Expands body parts inner →
      Expands body rest words → Expands body (.inl name :: rest) (inner ++ words)

variable {κ : Type u} {β : Type v} {ε : Type w}

/-- The words of a text that are added to those before it, where `call` expands a reference and may fail or not end. -/
def expandFrom (call : κ → Option (Except ε (List β))) (vals : List β) : List (κ ⊕ β) → Option (Except ε (List β))
  | [] => some (.ok vals)
  | .inr b :: rest => expandFrom call (vals ++ [b]) rest
  | .inl name :: rest =>
    match call name with
    | none => none
    | some (.error e) => some (.error e)
    | some (.ok inner) => expandFrom call (vals ++ inner) rest

/-- The expansion of the text of a name by calls that are nested at most so deep. -/
def expansion (body : κ → Except ε (List (κ ⊕ β))) : Nat → κ → Option (Except ε (List β))
  | 0, _ => none
  | depth + 1, name =>
    match body name with
    | .error e => some (.error e)
    | .ok parts => expandFrom (expansion body depth) [] parts

/-- The text of a name has a reference, and all parts before it can be expanded. -/
def Calls (body : κ → Except ε (List (κ ⊕ β))) (name next : κ) : Prop :=
  ∃ before after words, body name = .ok (before ++ .inl next :: after) ∧ Expands body before words

variable {body : κ → Except ε (List (κ ⊕ β))} {call more : κ → Option (Except ε (List β))} {vals words all : List β}
  {parts rest : List (κ ⊕ β)} {name next : κ} {answer : Except ε (List β)} {depth : Nat}

theorem Expands.append (first : Expands body parts vals) (second : Expands body rest words) :
    Expands body (parts ++ rest) (vals ++ words) := by
  induction first with
  | nil => exact second
  | word _ ih => exact .word ih
  | reference found inner _ _ ih =>
    rw [List.append_assoc]
    exact .reference found inner ih

theorem expandFrom_sound (sound : ∀ name inner, call name = some (.ok inner) →
      ∃ parts, body name = .ok parts ∧ Expands body parts inner) (done : expandFrom call vals parts = some (.ok all)) :
    ∃ words, all = vals ++ words ∧ Expands body parts words := by
  induction parts generalizing vals with
  | nil =>
    cases done
    exact ⟨[], by rw [List.append_nil], .nil⟩
  | cons part rest ih =>
    cases part with
    | inr b =>
      obtain ⟨words, same, expands⟩ := ih done
      exact ⟨b :: words, by rw [same, List.append_assoc]; rfl, .word expands⟩
    | inl name =>
      rw [expandFrom] at done
      split at done
      · cases done
      · cases done
      · rename_i inner called
        obtain ⟨words, same, expands⟩ := ih done
        obtain ⟨parts, found, below⟩ := sound name inner called
        exact ⟨inner ++ words, by rw [same, List.append_assoc], .reference found below expands⟩

/-- An expansion that ends without an error is the right one. -/
theorem expansion_sound (done : expansion body depth name = some (.ok words)) :
    ∃ parts, body name = .ok parts ∧ Expands body parts words := by
  induction depth generalizing name words with
  | zero => cases done
  | succ depth ih =>
    rw [expansion] at done
    split at done
    · cases done
    · rename_i parts found
      obtain ⟨inner, same, expands⟩ := expandFrom_sound (fun _ _ called => ih called) done
      rw [same]
      exact ⟨parts, found, expands⟩

theorem expandFrom_mono (mono : ∀ name answer, call name = some answer → more name = some answer)
    (done : expandFrom call vals parts = some answer) : expandFrom more vals parts = some answer := by
  induction parts generalizing vals with
  | nil => exact done
  | cons part rest ih =>
    cases part with
    | inr b => exact ih done
    | inl name =>
      rw [expandFrom] at done ⊢
      split at done
      · cases done
      · rename_i e called
        rw [mono name _ called]
        exact done
      · rename_i inner called
        rw [mono name _ called]
        exact ih done

/-- Deeper calls change no answer. -/
theorem expansion_mono {deeper : Nat} (le : depth ≤ deeper) (done : expansion body depth name = some answer) :
    expansion body deeper name = some answer := by
  induction depth generalizing name answer deeper with
  | zero => cases done
  | succ depth ih =>
    obtain ⟨deeper, rfl⟩ : ∃ d, deeper = d + 1 := ⟨deeper - 1, by omega⟩
    rw [expansion] at done ⊢
    split at done
    · exact done
    · exact expandFrom_mono (fun _ _ called => ih (by omega) called) done

/-- What can be expanded is expanded by calls that are deep enough. -/
theorem Expands.complete (expands : Expands body parts words) :
    ∃ depth, ∀ vals, expandFrom (expansion body depth) vals parts = some (.ok (vals ++ words)) := by
  induction expands with
  | nil => exact ⟨0, fun vals => by rw [expandFrom, List.append_nil]⟩
  | word _ ih =>
    obtain ⟨depth, done⟩ := ih
    refine ⟨depth, fun vals => ?_⟩
    rw [expandFrom, done, List.append_assoc]
    rfl
  | @reference name parts inner rest words found _ _ ihInner ih =>
    obtain ⟨first, below⟩ := ihInner
    obtain ⟨second, done⟩ := ih
    refine ⟨max (first + 1) second, fun vals => ?_⟩
    have called : expansion body (first + 1) name = some (.ok inner) := by
      rw [expansion, found]
      exact below []
    rw [expandFrom, expansion_mono (Nat.le_max_left _ second) called]
    dsimp only
    rw [← List.append_assoc]
    exact expandFrom_mono (fun _ _ => expansion_mono (Nat.le_max_right (first + 1) _)) (done _)

theorem expandFrom_append (call : κ → Option (Except ε (List β))) (vals : List β) (parts rest : List (κ ⊕ β)) :
    expandFrom call vals (parts ++ rest) =
      match expandFrom call vals parts with
      | none => none
      | some (.error e) => some (.error e)
      | some (.ok mid) => expandFrom call mid rest := by
  induction parts generalizing vals with
  | nil => rfl
  | cons part parts ih =>
    cases part with
    | inr b => exact ih _
    | inl name =>
      rw [List.cons_append, expandFrom, expandFrom]
      cases call name with
      | none => rfl
      | some answer =>
        cases answer with
        | error e => rfl
        | ok inner => exact ih _

/-- An expansion that ends has no endless chain of calls. -/
theorem acc_of_expansion (done : expansion body depth name = some answer) :
    Acc (fun next name => Calls body name next) name := by
  induction depth generalizing name answer with
  | zero => cases done
  | succ depth ih =>
    refine .intro _ fun next calls => ?_
    obtain ⟨before, after, words, found, expands⟩ := calls
    rw [expansion, found] at done
    dsimp only at done
    rw [expandFrom_append] at done
    cases came : expandFrom (expansion body depth) [] before with
    | none =>
      rw [came] at done
      cases done
    | some first =>
      cases first with
      | error e =>
        -- the parts before the reference can be expanded
        obtain ⟨enough, all⟩ := expands.complete
        have wrong := expandFrom_mono (fun _ _ => expansion_mono (Nat.le_max_left depth enough)) came
        rw [expandFrom_mono (fun _ _ => expansion_mono (Nat.le_max_right depth enough)) (all [])] at wrong
        cases wrong
      | ok mid =>
        rw [came] at done
        dsimp only at done
        rw [expandFrom] at done
        cases called : expansion body depth next with
        | none =>
          rw [called] at done
          cases done
        | some inner => exact ih called

theorem expandFrom_ends (ends : ∀ next, Calls body name next → ∃ depth answer, expansion body depth next = some answer)
    {before : List (κ ⊕ β)} (found : body name = .ok (before ++ parts)) (expands : Expands body before words) :
    ∃ depth, ∀ vals, ∃ answer, expandFrom (expansion body depth) vals parts = some answer := by
  induction parts generalizing before words with
  | nil => exact ⟨0, fun vals => ⟨_, rfl⟩⟩
  | cons part rest ih =>
    cases part with
    | inr b =>
      rw [List.append_cons] at found
      obtain ⟨depth, all⟩ := ih found (expands.append (.word .nil))
      exact ⟨depth, fun vals => all _⟩
    | inl next =>
      obtain ⟨first, answer, called⟩ := ends next ⟨before, rest, words, found, expands⟩
      cases answer with
      | error e => exact ⟨first, fun vals => ⟨.error e, by rw [expandFrom, called]⟩⟩
      | ok inner =>
        obtain ⟨below, text, expandsBelow⟩ := expansion_sound called
        rw [List.append_cons] at found
        obtain ⟨second, all⟩ := ih found (expands.append (.reference text expandsBelow .nil))
        refine ⟨max first second, fun vals => ?_⟩
        obtain ⟨answer, done⟩ := all (vals ++ inner)
        refine ⟨answer, ?_⟩
        rw [expandFrom, expansion_mono (Nat.le_max_left first second) called]
        exact expandFrom_mono (fun _ _ => expansion_mono (Nat.le_max_right first second)) done

/-- An expansion ends exactly if no chain of calls is endless. -/
theorem expansion_ends_iff (body : κ → Except ε (List (κ ⊕ β))) (name : κ) :
    (∃ depth answer, expansion body depth name = some answer) ↔ Acc (fun next name => Calls body name next) name := by
  constructor
  · rintro ⟨depth, answer, done⟩
    exact acc_of_expansion done
  intro acc
  induction acc with
  | intro name _ ih =>
    cases found : body name with
    | error e => exact ⟨1, .error e, by rw [expansion, found]⟩
    | ok parts =>
      have start : body name = .ok ([] ++ parts) := found
      obtain ⟨depth, all⟩ := expandFrom_ends ih start .nil
      obtain ⟨answer, done⟩ := all []
      exact ⟨depth + 1, answer, by rw [expansion, found]; exact done⟩

end Mgsim.Lib
