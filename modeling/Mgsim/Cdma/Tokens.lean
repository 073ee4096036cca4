import Mgsim.Cdma.Cache
import Mgsim.Lib.Account
import Mathlib.Data.Fintype.Prod

namespace Mgsim.Cdma
open Mgsim.Lib Lines
variable {g : Geometry} {caches : Nat}

/-! What lines and messages weigh in the books of an address. -/

def Line.fullTokens (line : Line) : Nat := if line.state = .full then line.tokens else 0

def Line.loads (line : Line) : Nat := if line.state = .loading then 1 else 0

/-- The weight of a line in the books of an address: lines that `FindLine` would
not find for this address weigh nothing. -/
def share (w : Line → Nat) (address : Address) (place : Place g) (line : Line) : Nat :=
  if line.state ≠ .empty ∧ IsFor g address place line.tag then w line else 0

def held (w : Line → Nat) (address : Address) (lines : Lines g) : Nat := account (share w address) lines

/-- The tokens that a message carries. -/
def Message.carried (msg : Message caches) : Nat :=
  if msg.type = .requestDataToken ∨ msg.type = .eviction then msg.tokens else 0

/-- The tokens that directories count: those of messages that are not ignored. -/
def Message.heard (msg : Message caches) : Nat := if msg.ignore then 0 else msg.carried

/-- One for each message of a cache that will end in a loading line there. -/
def Message.loadsOf (id : Fin caches) (msg : Message caches) : Nat :=
  if (msg.type = .request ∨ msg.type = .requestData ∨ msg.type = .requestDataToken) ∧ msg.sender = id then 1 else 0

def Message.updatesOf (id : Fin caches) (msg : Message caches) : Nat :=
  if msg.type = .update ∧ msg.sender = id then 1 else 0

theorem Lines.IsFor.unique {a b : Address} {place : Place g} {tag : Address} (first : IsFor g a place tag)
    (second : IsFor g b place tag) : a = b := by
  have same : g.selector.map a = g.selector.map b := first.trans second.symm
  rw [← g.selector.unmap_map a, same, g.selector.unmap_map]

theorem isFor_map (address : Address) (i : Fin g.assoc) :
    IsFor g address ((g.selector.map address).2, i) (g.selector.map address).1 := rfl

/-- A line that is empty or holds this address. -/
def Fits (address : Address) (place : Place g) (line : Line) : Prop :=
  line.state ≠ .empty → IsFor g address place line.tag

def Line.worth (w : Line → Nat) (line : Line) : Nat := if line.state ≠ .empty then w line else 0

theorem share_self {w : Line → Nat} {address : Address} {place : Place g} {line : Line}
    (fits : Fits address place line) : share w address place line = line.worth w := by
  unfold share Line.worth
  by_cases empty : line.state = .empty
  · rw [if_neg fun both => both.1 empty, if_neg fun nonempty => nonempty empty]
  · rw [if_pos ⟨empty, fits empty⟩, if_pos empty]

theorem share_other {w : Line → Nat} {address other : Address} {place : Place g} {line : Line}
    (fits : Fits address place line) (different : other ≠ address) : share w other place line = 0 :=
  if_neg fun both => different (both.2.unique (fits both.1))

theorem held_update_self {w : Line → Nat} {address : Address} {lines : Lines g} {place : Place g} {line : Line}
    (before : Fits address place (lines place)) (after : Fits address place line) :
    held w address (Function.update lines place line) + (lines place).worth w = held w address lines + line.worth w := by
  have moved := account_update (share w address) lines place line
  rwa [share_self before, share_self after] at moved

theorem held_update_other {w : Line → Nat} {address other : Address} {lines : Lines g} {place : Place g} {line : Line}
    (before : Fits address place (lines place)) (after : Fits address place line) (different : other ≠ address) :
    held w other (Function.update lines place line) = held w other lines := by
  have moved := account_update (share w other) lines place line
  rwa [share_other before different, share_other after different] at moved

/-- What holds of each line. A line that is not empty has an address. -/
structure LineOk (place : Place g) (line : Line) : Prop where
  full : line.state = .full → 0 < line.tokens
  loading : line.state = .loading → line.tokens = 0
  address : line.state ≠ .empty → IsFor g (g.selector.unmap line.tag place.1) place line.tag

/-- The lines of a cache are as they should be, at most one for each address. -/
structure LinesOk (lines : Lines g) : Prop where
  line : ∀ place, LineOk place (lines place)
  single : ∀ address, held (fun _ => 1) address lines ≤ 1

theorem linesOk_initial : LinesOk (fun _ => Line.initial : Lines g) := by
  refine ⟨fun place => ⟨?_, ?_, ?_⟩, fun address => ?_⟩
  · intro full
    cases full
  · intro loading
    cases loading
  · intro nonempty
    exact absurd rfl nonempty
  · have none : held (fun _ => 1) address (fun _ => Line.initial : Lines g) = 0 :=
      account_eq_zero.mpr fun place => if_neg fun both => both.1 rfl
    omega

theorem lineOk_of_fits {address : Address} {place : Place g} {line : Line} (fits : Fits address place line)
    (full : line.state = .full → 0 < line.tokens) (loading : line.state = .loading → line.tokens = 0) :
    LineOk place line := by
  refine ⟨full, loading, fun nonempty => ?_⟩
  have isFor := fits nonempty
  have same : g.selector.unmap line.tag place.1 = address := by
    have unmapped := g.selector.unmap_map address
    rwa [show g.selector.map address = (line.tag, place.1) from isFor] at unmapped
  rwa [same]

section FindLine
variable {lines : Lines g} {address : Address} {place : Place g} {w : Line → Nat}

theorem findLine_eq : findLine lines address =
    ((List.finRange g.assoc).find? fun i =>
      (lines ((g.selector.map address).2, i)).state ≠ .empty ∧
        (lines ((g.selector.map address).2, i)).tag = (g.selector.map address).1).map
      fun i => ((g.selector.map address).2, i) := rfl

theorem findLine_eq_some (found : findLine lines address = some place) :
    (lines place).state ≠ .empty ∧ IsFor g address place (lines place).tag := by
  rw [findLine_eq, Option.map_eq_some_iff] at found
  obtain ⟨i, first, rfl⟩ := found
  have both := List.find?_some first
  rw [decide_eq_true_eq] at both
  exact ⟨both.1, Prod.ext both.2.symm rfl⟩

theorem findLine_eq_none (found : findLine lines address = none) : held w address lines = 0 := by
  rw [findLine_eq, Option.map_eq_none_iff, List.find?_eq_none] at found
  refine account_eq_zero.mpr fun ⟨setindex, i⟩ => if_neg fun ⟨nonempty, isFor⟩ => ?_
  have same : g.selector.map address = ((lines (setindex, i)).tag, setindex) := isFor
  refine found i (List.mem_finRange i) ?_
  rw [same, decide_eq_true_eq]
  exact ⟨nonempty, rfl⟩

/-- The books of an address are those of its only line. -/
theorem held_of_place (ok : LinesOk lines) (here : (lines place).state ≠ .empty ∧ IsFor g address place (lines place).tag) :
    held w address lines = w (lines place) := by
  have only := account_of_only (f := share w address) (g := lines) place fun other different => by
    refine if_neg fun both => different ?_
    refine eq_of_account_le_one (ok.single address) ?_ ?_
    · rw [share, if_pos both]
      exact Nat.one_pos
    · rw [share, if_pos here]
      exact Nat.one_pos
  rw [held, only, share, if_pos here]

/-- The books of an address are those of the line that `FindLine` finds. -/
theorem held_of_findLine (ok : LinesOk lines) (found : findLine lines address = some place) :
    held w address lines = w (lines place) :=
  held_of_place ok (findLine_eq_some found)

/-- Where something is held, `FindLine` finds it. -/
theorem findLine_of_held (ok : LinesOk lines) (positive : 0 < held w address lines) :
    ∃ place, findLine lines address = some place ∧ 0 < w (lines place) := by
  cases found : findLine lines address with
  | none =>
    rw [findLine_eq_none found] at positive
    omega
  | some place =>
    rw [held_of_findLine ok found] at positive
    exact ⟨place, rfl, positive⟩

end FindLine

/-- `AllocateLine` gives a place of the set that is empty, or one whose line
neither loads nor updates. -/
def Allocated (lines : Lines g) (address : Address) (emptyOnly : Bool) (place : Place g) : Prop :=
  place.1 = (g.selector.map address).2 ∧
    ((lines place).state = .empty ∨ emptyOnly = false ∧ (lines place).state = .full ∧ (lines place).updating = 0)

theorem consider_spec {lines : Lines g} {address : Address} {emptyOnly : Bool} {found : Candidates g} (i : Fin g.assoc)
    (absent : findLine lines address = none) (empty : ∀ place ∈ found.empty, Allocated lines address emptyOnly place)
    (replace : ∀ place ∈ found.replace, Allocated lines address emptyOnly place) :
    ∃ next, consider lines (g.selector.map address).1 (g.selector.map address).2 emptyOnly found i = .ok next ∧
      (∀ place ∈ next.empty, Allocated lines address emptyOnly place) ∧
      ∀ place ∈ next.replace, Allocated lines address emptyOnly place := by
  unfold consider
  dsimp only
  by_cases isEmpty : (lines ((g.selector.map address).2, i)).state = .empty
  · rw [if_pos isEmpty]
    refine ⟨_, rfl, ?_, replace⟩
    rintro place ⟨⟩
    exact ⟨rfl, Or.inl isEmpty⟩
  · rw [if_neg isEmpty]
    cases emptyOnly with
    | true => exact ⟨found, rfl, empty, replace⟩
    | false =>
      have differs : (lines ((g.selector.map address).2, i)).tag ≠ (g.selector.map address).1 := by
        intro same
        have none := account_eq_zero.mp (findLine_eq_none (w := fun _ => 1) absent) ((g.selector.map address).2, i)
        rw [share, if_pos ⟨isEmpty, by rw [same]; exact isFor_map address i⟩] at none
        cases none
      simp only [require, differs, ne_eq, not_false_eq_true, decide_true, if_true, Bool.false_eq_true, if_false]
      by_cases better : (lines ((g.selector.map address).2, i)).state ≠ .loading ∧
          (lines ((g.selector.map address).2, i)).updating = 0 ∧
          found.replace.all fun old => (lines ((g.selector.map address).2, i)).access < (lines old).access
      · rw [if_pos better]
        refine ⟨_, rfl, empty, ?_⟩
        rintro place ⟨⟩
        refine ⟨rfl, Or.inr ⟨rfl, ?_, better.2.1⟩⟩
        cases state : (lines ((g.selector.map address).2, i)).state with
        | empty => exact absurd state isEmpty
        | loading => exact absurd state better.1
        | full => rfl
      · rw [if_neg better]
        exact ⟨found, rfl, empty, replace⟩

theorem allocateLine_spec {lines : Lines g} {address : Address} (emptyOnly : Bool)
    (absent : findLine lines address = none) :
    ∃ found, allocateLine lines address emptyOnly = .ok found ∧
      ∀ place ∈ found, Allocated lines address emptyOnly place := by
  have loop : ∀ (ways : List (Fin g.assoc)) (found : Candidates g),
      (∀ place ∈ found.empty, Allocated lines address emptyOnly place) →
      (∀ place ∈ found.replace, Allocated lines address emptyOnly place) →
      ∃ next, ways.foldlM (consider lines (g.selector.map address).1 (g.selector.map address).2 emptyOnly) found =
          .ok next ∧
        (∀ place ∈ next.empty, Allocated lines address emptyOnly place) ∧
        ∀ place ∈ next.replace, Allocated lines address emptyOnly place := by
    intro ways
    induction ways with
    | nil =>
      intro found empty replace
      exact ⟨found, rfl, empty, replace⟩
    | cons i rest ih =>
      intro found empty replace
      obtain ⟨next, done, empty, replace⟩ := consider_spec i absent empty replace
      rw [List.foldlM_cons, done]
      exact ih next empty replace
  obtain ⟨next, done, empty, replace⟩ := loop (List.finRange g.assoc) ⟨none, none⟩ nofun nofun
  unfold allocateLine
  dsimp only
  rw [done]
  refine ⟨_, rfl, fun place chosen => ?_⟩
  cases first : next.empty with
  | some other =>
    rw [first] at chosen
    exact empty place (first.trans chosen)
  | none =>
    rw [first] at chosen
    exact replace place chosen

end Mgsim.Cdma
