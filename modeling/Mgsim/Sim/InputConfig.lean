import Mathlib.Data.List.Basic
import Mathlib.Tactic.Common

namespace Mgsim.Sim

abbrev ConfigText := List Char

/-- The configuration, the overrides, and what was found so far for each name: its value and the pattern that
matched. -/
structure InputConfigRegistry where
  data : List (ConfigText × ConfigText)
  overrides : List (ConfigText × ConfigText)
  cache : List (ConfigText × ConfigText × ConfigText)

/-- A call of `lookupValue`. -/
structure ConfigQuery where
  name : ConfigText
  default : ConfigText
  failIfNotFound : Bool

namespace InputConfigRegistry

def create (defaults overrides : List (ConfigText × ConfigText)) : InputConfigRegistry := ⟨defaults, overrides, []⟩

variable (fnmatch : ConfigText → ConfigText → Bool)

/-- The value and the pattern of the last entry that matches a name, where `fnmatch` tells which patterns match. -/
def lastMatch (map : List (ConfigText × ConfigText)) (name : ConfigText) : Option (ConfigText × ConfigText) :=
  (map.reverse.find? fun entry => fnmatch entry.1 name).map fun entry => (entry.2, entry.1)

def search (registry : InputConfigRegistry) (name : ConfigText) : Option (ConfigText × ConfigText) :=
  (lastMatch fnmatch registry.overrides name).or (lastMatch fnmatch registry.data name)

def lookup (registry : InputConfigRegistry) (name default : ConfigText) (allowDefault : Bool) :
    Option ConfigText × InputConfigRegistry :=
  let name := name.map Char.toLower
  match registry.cache.lookup name with
  | some entry => (some entry.1, registry)
  | none =>
    match (registry.search fnmatch name).or (if allowDefault then some (default, "default".toList) else none) with
    | some entry => (some entry.1, { registry with cache := (name, entry) :: registry.cache })
    | none => (none, registry)

/-- The loop of `lookupValue`, which follows at most 10001 indirections. -/
def follow (query : ConfigQuery) (left : Nat) (found : Option ConfigText) (registry : InputConfigRegistry) :
    Except ConfigText ConfigText × InputConfigRegistry :=
  match found with
  | none =>
    (if query.failIfNotFound then .error ("No configuration key matches: ".toList ++ query.name)
      else .ok query.default, registry)
  | some val =>
    if val.head? = some '$' then
      match left with
      | 0 => (.error ("Runaway indirection in configuration: ".toList ++ query.name), registry)
      | left + 1 =>
        let next := registry.lookup fnmatch val.tail query.default !query.failIfNotFound
        follow query left next.1 next.2
    else (.ok val, registry)

def lookupValue (registry : InputConfigRegistry) (query : ConfigQuery) : Except ConfigText ConfigText × InputConfigRegistry :=
  let first := registry.lookup fnmatch query.name query.default !query.failIfNotFound
  follow fnmatch query 10001 first.1 first.2

/-- The answers to queries that are made one after another. -/
def answers (registry : InputConfigRegistry) : List ConfigQuery → List (Except ConfigText ConfigText)
  | [] => []
  | query :: queries =>
    let answer := registry.lookupValue fnmatch query
    answer.1 :: answers answer.2 queries

end InputConfigRegistry

/-! ### What a query gets from a table of values -/

namespace ConfigQuery
variable (value : ConfigText → Option ConfigText) (query : ConfigQuery)

/-- The value of a name, or the default of the query. -/
def choose (name : ConfigText) : Option ConfigText := (value name).or (if query.failIfNotFound then none else some query.default)

/-- The answer that follows from the value found so far. -/
def resolve (left : Nat) (found : Option ConfigText) : Except ConfigText ConfigText :=
  match found with
  | none =>
    if query.failIfNotFound then .error ("No configuration key matches: ".toList ++ query.name) else .ok query.default
  | some val =>
    if val.head? = some '$' then
      match left with
      | 0 => .error ("Runaway indirection in configuration: ".toList ++ query.name)
      | left + 1 => resolve left (query.choose value (val.tail.map Char.toLower))
    else .ok val

/-- The names that are looked up after this one. -/
def trail (left : Nat) (found : Option ConfigText) : List ConfigText :=
  match found with
  | none => []
  | some val =>
    if val.head? = some '$' then
      match left with
      | 0 => []
      | left + 1 =>
        let name := val.tail.map Char.toLower
        name :: trail left (query.choose value name)
    else []

/-- All names that the query looks up. -/
def names : List ConfigText := query.trail value (10001 + 1) (some ('$' :: query.name))

def answer : Except ConfigText ConfigText := query.resolve value (10001 + 1) (some ('$' :: query.name))

end ConfigQuery

namespace InputConfigRegistry
variable (fnmatch : ConfigText → ConfigText → Bool)

/-- The value that a lookup without a default finds. -/
def known (registry : InputConfigRegistry) (name : ConfigText) : Option ConfigText :=
  ((registry.cache.lookup name).or (registry.search fnmatch name)).map Prod.fst

theorem known_enter (registry : InputConfigRegistry) (name : ConfigText) (entry : ConfigText × ConfigText) :
    known fnmatch { registry with cache := (name, entry) :: registry.cache } =
      Function.update (registry.known fnmatch) name (some entry.1) := by
  funext other
  unfold known
  by_cases same : other = name
  · rw [same, Function.update_self, List.lookup_cons_self]
    rfl
  · rw [Function.update_of_ne same, List.lookup_cons, beq_false_of_ne same]
    rfl

/-- A lookup gives the value or the default, and enters it for the name. -/
theorem lookup_spec (registry : InputConfigRegistry) (query : ConfigQuery) (name : ConfigText) :
    (registry.lookup fnmatch name query.default !query.failIfNotFound).1 =
        query.choose (registry.known fnmatch) (name.map Char.toLower) ∧
      (registry.lookup fnmatch name query.default !query.failIfNotFound).2.known fnmatch =
        Function.update (registry.known fnmatch) (name.map Char.toLower)
          (query.choose (registry.known fnmatch) (name.map Char.toLower)) := by
  cases cached : registry.cache.lookup (name.map Char.toLower) with
  | some entry =>
    have found : registry.known fnmatch (name.map Char.toLower) = some entry.1 := by
      rw [known, cached]
      rfl
    rw [lookup, cached, ConfigQuery.choose, found]
    refine ⟨rfl, ?_⟩
    rw [Option.some_or, ← found, Function.update_eq_self]
  | none =>
    have value : registry.known fnmatch (name.map Char.toLower) =
        (registry.search fnmatch (name.map Char.toLower)).map Prod.fst := by
      rw [known, cached, Option.none_or]
    cases searched : registry.search fnmatch (name.map Char.toLower) with
    | some entry =>
      rw [lookup, cached, searched, ConfigQuery.choose, value, searched]
      exact ⟨rfl, known_enter fnmatch ..⟩
    | none =>
      rw [searched, Option.map_none] at value
      rw [lookup, cached, searched, ConfigQuery.choose, value]
      cases query.failIfNotFound with
      | false => exact ⟨rfl, known_enter fnmatch ..⟩
      | true =>
        refine ⟨rfl, ?_⟩
        show registry.known fnmatch = Function.update (registry.known fnmatch) (name.map Char.toLower) none
        rw [← value, Function.update_eq_self]

/-- What is known after the names of a query have been looked up. -/
def learned (query : ConfigQuery) (value : ConfigText → Option ConfigText) (names : List ConfigText) (name : ConfigText) : Option ConfigText :=
  if name ∈ names then query.choose value name else value name

theorem choose_update (query : ConfigQuery) (value : ConfigText → Option ConfigText) (name : ConfigText) :
    query.choose (Function.update value name (query.choose value name)) = query.choose value := by
  funext other
  by_cases same : other = name
  · rw [same, ConfigQuery.choose, Function.update_self, ConfigQuery.choose]
    cases value name with
    | some found => rfl
    | none => cases query.failIfNotFound <;> rfl
  · rw [ConfigQuery.choose, Function.update_of_ne same, ConfigQuery.choose]

theorem resolve_congr (query : ConfigQuery) {value other : ConfigText → Option ConfigText} (left : Nat) (found : Option ConfigText)
    (agree : ∀ name ∈ query.trail value left found, query.choose value name = query.choose other name) :
    query.resolve value left found = query.resolve other left found ∧
      query.trail value left found = query.trail other left found := by
  induction left generalizing found with
  | zero =>
    unfold ConfigQuery.resolve ConfigQuery.trail
    exact ⟨rfl, rfl⟩
  | succ left ih =>
    cases found with
    | none => exact ⟨rfl, rfl⟩
    | some val =>
      rw [ConfigQuery.trail] at agree
      rw [ConfigQuery.resolve, ConfigQuery.resolve, ConfigQuery.trail, ConfigQuery.trail]
      split
      · rename_i indirect
        simp only [if_pos indirect, List.mem_cons, forall_eq_or_imp] at agree
        obtain ⟨first, second⟩ := ih _ agree.2
        dsimp only
        rw [first, second, agree.1]
        exact ⟨rfl, rfl⟩
      · exact ⟨rfl, rfl⟩

theorem learned_update (query : ConfigQuery) (value : ConfigText → Option ConfigText) (name : ConfigText) (names : List ConfigText) :
    learned query (Function.update value name (query.choose value name)) names =
      learned query value (name :: names) := by
  funext other
  unfold learned
  rw [choose_update]
  by_cases same : other = name
  · rw [same, if_pos List.mem_cons_self, Function.update_self, ite_self]
  · simp only [List.mem_cons, same, false_or, Function.update_of_ne, ne_eq, not_false_eq_true]

theorem learned_nil (query : ConfigQuery) (value : ConfigText → Option ConfigText) : learned query value [] = value :=
  funext fun _ => if_neg List.not_mem_nil

theorem follow_spec (registry : InputConfigRegistry) (query : ConfigQuery) (left : Nat) (found : Option ConfigText) :
    (follow fnmatch query left found registry).1 = query.resolve (registry.known fnmatch) left found ∧
      (follow fnmatch query left found registry).2.known fnmatch =
        learned query (registry.known fnmatch) (query.trail (registry.known fnmatch) left found) := by
  induction left generalizing found registry with
  | zero =>
    unfold follow ConfigQuery.resolve ConfigQuery.trail
    split
    · exact ⟨rfl, (learned_nil ..).symm⟩
    · split <;> exact ⟨rfl, (learned_nil ..).symm⟩
  | succ left ih =>
    cases found with
    | none => exact ⟨rfl, (learned_nil ..).symm⟩
    | some val =>
      rw [follow, ConfigQuery.resolve, ConfigQuery.trail]
      split
      · obtain ⟨value, next⟩ := lookup_spec fnmatch registry query val.tail
        obtain ⟨answer, after⟩ := ih (registry.lookup fnmatch val.tail query.default !query.failIfNotFound).2
          (registry.lookup fnmatch val.tail query.default !query.failIfNotFound).1
        rw [next, value] at answer after
        obtain ⟨same, trail⟩ := resolve_congr query left
          (query.choose (registry.known fnmatch) (val.tail.map Char.toLower)) fun name _ =>
            (congrFun (choose_update query (registry.known fnmatch) (val.tail.map Char.toLower)) name).symm
        dsimp only
        rw [value, answer, after, same, ← trail, learned_update]
        exact ⟨rfl, rfl⟩
      · exact ⟨rfl, (learned_nil ..).symm⟩

/-- A query is answered from what is known, and its names are known after it. -/
theorem lookupValue_spec (registry : InputConfigRegistry) (query : ConfigQuery) :
    (registry.lookupValue fnmatch query).1 = query.answer (registry.known fnmatch) ∧
      (registry.lookupValue fnmatch query).2.known fnmatch =
        learned query (registry.known fnmatch) (query.names (registry.known fnmatch)) :=
  follow_spec fnmatch registry query (10001 + 1) (some ('$' :: query.name))

end InputConfigRegistry

/-- A later query that comes to a name without a value, for which an earlier one has put in its default, has the same
default. -/
def ConfigQuery.Agree (value : ConfigText → Option ConfigText) (earlier later : ConfigQuery) : Prop :=
  ∀ name ∈ earlier.names value, name ∈ later.names value → value name = none → earlier.failIfNotFound = false →
    later.failIfNotFound = false ∧ later.default = earlier.default

namespace InputConfigRegistry

/-- What is known is a value, or the default of a query that came to the name before. -/
def Learned (value : ConfigText → Option ConfigText) (past : List ConfigQuery) (known : ConfigText → Option ConfigText) : Prop :=
  ∀ name, known name = value name ∨ value name = none ∧ ∃ earlier ∈ past, name ∈ earlier.names value ∧
    earlier.failIfNotFound = false ∧ known name = some earlier.default

variable (fnmatch : ConfigText → ConfigText → Bool) {value now : ConfigText → Option ConfigText} {past : List ConfigQuery} {query : ConfigQuery}

theorem Learned.choose (learned : Learned value past now) (agree : ∀ earlier ∈ past, earlier.Agree value query)
    (name : ConfigText) (looked : name ∈ query.names value) : query.choose value name = query.choose now name := by
  rw [ConfigQuery.choose, ConfigQuery.choose]
  rcases learned name with same | ⟨none, earlier, member, came, open_, default⟩
  · rw [same]
  · obtain ⟨open', same⟩ := agree earlier member name came looked none open_
    rw [none, default, open', same]
    rfl

/-- A query that agrees with the earlier ones gets its own answer and adds its own defaults. -/
theorem Learned.answer (learned : Learned value past now) (agree : ∀ earlier ∈ past, earlier.Agree value query) :
    query.answer now = query.answer value ∧
      Learned value (past ++ [query]) (InputConfigRegistry.learned query now (query.names now)) := by
  have choose := learned.choose agree
  obtain ⟨answer, names⟩ := resolve_congr query (10001 + 1) (some ('$' :: query.name)) choose
  refine ⟨answer.symm, fun name => ?_⟩
  rw [ConfigQuery.names, ← names, InputConfigRegistry.learned]
  split
  · rename_i looked
    rw [← choose name looked, ConfigQuery.choose]
    cases found : value name with
    | some val => exact Or.inl rfl
    | none =>
      cases open_ : query.failIfNotFound with
      | true => exact Or.inl rfl
      | false => exact Or.inr ⟨rfl, query, by simp, looked, open_, rfl⟩
  · rcases learned name with same | ⟨none, earlier, member, rest⟩
    · exact Or.inl same
    · exact Or.inr ⟨none, earlier, List.mem_append_left _ member, rest⟩

/-- Queries that agree with each other are answered as if each were the first one. -/
theorem answers_eq (registry : InputConfigRegistry) (queries : List ConfigQuery)
    (learned : Learned value past (registry.known fnmatch)) (agree : (past ++ queries).Pairwise (·.Agree value ·)) :
    registry.answers fnmatch queries = queries.map (·.answer value) := by
  induction queries generalizing registry past with
  | nil => rfl
  | cons query queries ih =>
    have before : ∀ earlier ∈ past, earlier.Agree value query := fun earlier member =>
      (List.pairwise_append.mp agree).2.2 earlier member query List.mem_cons_self
    obtain ⟨answer, next⟩ := lookupValue_spec fnmatch registry query
    obtain ⟨same, after⟩ := learned.answer before
    rw [← next] at after
    rw [answers, List.map_cons, answer, same, ih _ after (by rwa [List.append_assoc])]

/-- Two runs of queries whose defaults do not get in each other's way answer a common query alike. -/
theorem answers_independent {defaults overrides : List (ConfigText × ConfigText)} {first second : List ConfigQuery} {i j : Nat}
    (firstAgrees : first.Pairwise (·.Agree ((create defaults overrides).known fnmatch) ·))
    (secondAgrees : second.Pairwise (·.Agree ((create defaults overrides).known fnmatch) ·))
    (inFirst : first[i]? = some query) (inSecond : second[j]? = some query) :
    ((create defaults overrides).answers fnmatch first)[i]? =
      ((create defaults overrides).answers fnmatch second)[j]? := by
  have start : Learned ((create defaults overrides).known fnmatch) [] ((create defaults overrides).known fnmatch) :=
    fun _ => Or.inl rfl
  rw [answers_eq fnmatch _ first start firstAgrees, answers_eq fnmatch _ second start secondAgrees, List.getElem?_map,
    List.getElem?_map, inFirst, inSecond]

/-- A default that was put in for another name does not change a value. -/
theorem answers_independent_pair :
    ((create [(['k'], ['$', 'm']), (['m'], ['1'])] []).answers (fun pattern name => pattern == name)
        [⟨['K'], ['2'], false⟩])[0]? =
      ((create [(['k'], ['$', 'm']), (['m'], ['1'])] []).answers (fun pattern name => pattern == name)
        [⟨['n'], ['3'], false⟩, ⟨['K'], ['2'], false⟩])[1]? := by
  refine answers_independent (fun pattern name => pattern == name) (i := 0) (j := 1) (List.pairwise_singleton _ _)
    (List.pairwise_pair.mpr fun name came looked => ?_) rfl rfl
  have first : name ∈ [['n']] := came
  have second : name ∈ [['k'], ['m']] := looked
  rw [List.mem_singleton.mp first] at second
  exact absurd second (by decide)

/-- The default of one caller becomes the answer for the next one. -/
theorem default_remembered : ¬ ∀ (fnmatch : ConfigText → ConfigText → Bool) (defaults overrides : List (ConfigText × ConfigText))
    (first second : List ConfigQuery) (i j : Nat) (query : ConfigQuery), first[i]? = some query →
      second[j]? = some query → ((create defaults overrides).answers fnmatch first)[i]? =
        ((create defaults overrides).answers fnmatch second)[j]? := by
  intro claimed
  have same := claimed (fun _ _ => false) [] [] [⟨['x'], ['b'], false⟩] [⟨['x'], ['a'], false⟩, ⟨['x'], ['b'], false⟩]
    0 1 ⟨['x'], ['b'], false⟩ rfl rfl
  have wrong : (some (Except.ok ['b']) : Option (Except ConfigText ConfigText)) = some (.ok ['a']) := same
  cases wrong

end InputConfigRegistry

end Mgsim.Sim
