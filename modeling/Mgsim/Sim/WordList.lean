import Mgsim.Lib.Expansion
import Mgsim.Sim.InputConfig
import Mathlib.Logic.Relation

namespace Mgsim.Sim
open Mgsim.Lib

/-- What `getline` takes off the text up to each comma. Behind the last comma there may be nothing. -/
def getlines : ConfigText → List ConfigText
  | [] => []
  | c :: rest =>
    if c = ',' then [] :: getlines rest
    else
      match getlines rest with
      | [] => [[c]]
      | token :: tokens => (c :: token) :: tokens

/-- The words of a text, without their spaces. -/
def tokens (text : ConfigText) : List ConfigText := (getlines text).map (·.filter (· ≠ ' '))

namespace InputConfigRegistry
variable (fnmatch : ConfigText → ConfigText → Bool)

/-- The loop of `getWordList`, where `call` is the call for the name behind a `$`. -/
def readWords (call : ConfigText → InputConfigRegistry → Option (Except ConfigText (List ConfigText) × InputConfigRegistry))
    (vals : List ConfigText) : List ConfigText → InputConfigRegistry → Option (Except ConfigText (List ConfigText) × InputConfigRegistry)
  | [], registry => some (.ok vals, registry)
  | token :: rest, registry =>
    if token.head? = some '$' then
      match call token.tail registry with
      | none => none
      | some (.error e, registry) => some (.error e, registry)
      | some (.ok vn, registry) => readWords call (vals ++ vn) rest registry
    else readWords call (vals ++ [token]) rest registry

/-- There is a result if the calls are nested at most so deep. -/
def getWordList : Nat → ConfigText → InputConfigRegistry → Option (Except ConfigText (List ConfigText) × InputConfigRegistry)
  | 0, _, _ => none
  | depth + 1, name, registry =>
    let looked := registry.lookupValue fnmatch ⟨name, [], true⟩
    match looked.1 with
    | .error e => some (.error e, looked.2)
    | .ok text => readWords (getWordList depth) [] (tokens text) looked.2

end InputConfigRegistry

/-- The words of a text, where those that begin with a `$` refer to other lists. -/
def parts (text : ConfigText) : List (ConfigText ⊕ ConfigText) :=
  (tokens text).map fun token => if token.head? = some '$' then .inl token.tail else .inr token

section
variable (value : ConfigText → Option ConfigText)

/-- The word lists that are meant: a reference stands for the list of its name. -/
def listOf (name : ConfigText) : Except Unit (List (ConfigText ⊕ ConfigText)) :=
  match value (name.map Char.toLower) with
  | none => .error ()
  | some text => .ok (parts text)

def WordList (name : ConfigText) (words : List ConfigText) : Prop :=
  ∃ text, value (name.map Char.toLower) = some text ∧ Expands (listOf value) (parts text) words

/-- The words that are read for a name, where a `$` in front of the whole text is followed first. -/
def readOf (name : ConfigText) : Except ConfigText (List (ConfigText ⊕ ConfigText)) :=
  ((⟨name, [], true⟩ : ConfigQuery).answer value).map parts

/-- No chain of references to lists is endless, where a reference follows after words that can be read. -/
def Ends (name : ConfigText) : Prop := Acc (fun next name => Calls (readOf value) name next) name

/-- A text with a `$` in front that has several words or spaces is not the name of another one, as it would have to be
for the text that is looked up instead. -/
def Plain (key : ConfigText) : Prop :=
  ∀ text, value key = some text → text.head? = some '$' → ',' ∈ text ∨ ' ' ∈ text →
    value (text.tail.map Char.toLower) = none

/-- All names that are looked up for a list are plain. -/
def AllPlain (name : ConfigText) : Prop :=
  ∀ next, Relation.ReflTransGen (Calls (readOf value)) name next →
    ∀ key ∈ (⟨next, [], true⟩ : ConfigQuery).names value, Plain value key

end

section
variable {value : ConfigText → Option ConfigText} {query : ConfigQuery} {name text : ConfigText} {words : List ConfigText}

theorem getlines_one (some : text ≠ []) (one : ',' ∉ text) : getlines text = [text] := by
  induction text with
  | nil => exact absurd rfl some
  | cons c rest ih =>
    rw [List.mem_cons, not_or] at one
    rw [getlines, if_neg (Ne.symm one.1)]
    cases rest with
    | nil => rfl
    | cons next rest => rw [ih (List.cons_ne_nil _ _) one.2]

/-- A text of one reference. -/
theorem parts_reference (one : ',' ∉ '$' :: name) (tight : ' ' ∉ '$' :: name) : parts ('$' :: name) = [.inl name] := by
  have same : ('$' :: name).filter (· ≠ ' ') = '$' :: name :=
    List.filter_eq_self.mpr fun c member => by
      rw [decide_eq_true_iff]
      rintro rfl
      exact tight member
  rw [parts, tokens, getlines_one (List.cons_ne_nil _ _) one, List.map_singleton, same]
  rfl

theorem choose_strict (value : ConfigText → Option ConfigText) (query : ConfigQuery) (strict : query.failIfNotFound = true) :
    query.choose value = value := by
  funext key
  rw [ConfigQuery.choose, strict, if_pos rfl, Option.or_none]

/-- The list of a text that is reached through plain names is the list of the first one. -/
theorem resolve_expands {left : Nat} {val : ConfigText} (strict : query.failIfNotFound = true)
    (plain : ∀ key ∈ query.trail value left (some val), Plain value key)
    (here : val.head? = some '$' → ',' ∈ val ∨ ' ' ∈ val → value (val.tail.map Char.toLower) = none)
    (done : query.resolve value left (some val) = .ok text) (list : Expands (listOf value) (parts text) words) :
    Expands (listOf value) (parts val) words := by
  induction left generalizing val with
  | zero =>
    rw [ConfigQuery.resolve] at done
    split at done
    · cases done
    · cases done
      exact list
  | succ left ih =>
    rw [ConfigQuery.resolve] at done
    rw [ConfigQuery.trail] at plain
    split at done
    · rename_i indirect
      rw [if_pos indirect, choose_strict value query strict] at plain
      rw [choose_strict value query strict] at done
      obtain ⟨name, rfl⟩ : ∃ name, val = '$' :: name := by
        cases val with
        | nil => cases indirect
        | cons c name =>
          cases indirect
          exact ⟨name, rfl⟩
      cases found : value (name.map Char.toLower) with
      | none =>
        dsimp only [List.tail_cons] at done
        rw [found, ConfigQuery.resolve, strict] at done
        cases done
      | some next =>
        dsimp only [List.tail_cons] at done plain here
        rw [found] at done plain here
        have one : ¬ (',' ∈ '$' :: name ∨ ' ' ∈ '$' :: name) := fun several => by cases here indirect several
        rw [not_or] at one
        have inner := ih (fun key member => plain key (List.mem_cons_of_mem _ member))
          (plain _ List.mem_cons_self next found) done
        rw [parts_reference one.1 one.2, ← List.append_nil words]
        refine .reference ?_ inner .nil
        rw [listOf, found]
    · cases done
      exact list

theorem wordList_of_answer (plain : ∀ key ∈ (⟨name, [], true⟩ : ConfigQuery).names value, Plain value key)
    (done : (⟨name, [], true⟩ : ConfigQuery).answer value = .ok text) (list : Expands (listOf value) (parts text) words) :
    WordList value name words := by
  have first : (⟨name, [], true⟩ : ConfigQuery).resolve value 10001
      ((⟨name, [], true⟩ : ConfigQuery).choose value (name.map Char.toLower)) = .ok text := done
  have names : ∀ key ∈ name.map Char.toLower :: (⟨name, [], true⟩ : ConfigQuery).trail value 10001
      ((⟨name, [], true⟩ : ConfigQuery).choose value (name.map Char.toLower)), Plain value key := plain
  rw [choose_strict value _ rfl] at first names
  cases found : value (name.map Char.toLower) with
  | none =>
    rw [found, ConfigQuery.resolve] at first
    cases first
  | some val =>
    rw [found] at first names
    exact ⟨val, found, resolve_expands rfl (fun key member => names key (List.mem_cons_of_mem _ member))
      (names _ List.mem_cons_self val found) first list⟩

theorem readOf_ok {all : List (ConfigText ⊕ ConfigText)} (found : readOf value name = .ok all) :
    ∃ text, (⟨name, [], true⟩ : ConfigQuery).answer value = .ok text ∧ all = parts text := by
  unfold readOf at found
  cases answer : (⟨name, [], true⟩ : ConfigQuery).answer value with
  | error e =>
    rw [answer] at found
    cases found
  | ok text =>
    rw [answer] at found
    cases found
    exact ⟨text, rfl, rfl⟩

/-- The rest of a text is read as its references mean. -/
theorem expands_listOf {before rest : List (ConfigText ⊕ ConfigText)} {seen : List ConfigText} (plain : AllPlain value name)
    (found : readOf value name = .ok (before ++ rest)) (past : Expands (readOf value) before seen)
    (expands : Expands (readOf value) rest words) : Expands (listOf value) rest words := by
  induction expands generalizing name before seen with
  | nil => exact .nil
  | word _ ih =>
    rw [List.append_cons] at found
    exact .word (ih plain found (past.append (.word .nil)))
  | @reference next below inner rest words foundNext expandsNext _ ihNext ih =>
    have plainNext : AllPlain value next := fun other reached =>
      plain other (.head ⟨before, rest, seen, found, past⟩ reached)
    have start : readOf value next = .ok ([] ++ below) := foundNext
    have innerList := ihNext plainNext start .nil
    obtain ⟨text, answer, rfl⟩ := readOf_ok foundNext
    obtain ⟨val, value', list⟩ := wordList_of_answer (plainNext next .refl) answer innerList
    rw [List.append_cons] at found
    refine .reference ?_ list (ih plain found (past.append (.reference foundNext expandsNext .nil)))
    rw [listOf, value']

end

namespace InputConfigRegistry
variable (fnmatch : ConfigText → ConfigText → Bool)

/-- A list is read or an exception is thrown, and what is read is the word list of the name. -/
def Reads (registry : InputConfigRegistry) (name : ConfigText) : Prop :=
  ∃ depth answer after, getWordList fnmatch depth name registry = some (answer, after) ∧
    ∀ words, answer = .ok words → WordList (registry.known fnmatch) name words

/-- Lookups without a default change nothing that is known. -/
theorem lookupValue_strict (registry : InputConfigRegistry) (name : ConfigText) :
    (registry.lookupValue fnmatch ⟨name, [], true⟩).2.known fnmatch = registry.known fnmatch := by
  rw [(lookupValue_spec fnmatch registry _).2]
  funext key
  rw [learned, choose_strict _ _ rfl, ite_self]

theorem readWords_spec {call : ConfigText → InputConfigRegistry → Option (Except ConfigText (List ConfigText) × InputConfigRegistry)}
    {pure : ConfigText → Option (Except ConfigText (List ConfigText))} {value : ConfigText → Option ConfigText}
    (calls : ∀ name registry, registry.known fnmatch = value → (call name registry).map Prod.fst = pure name ∧
      ∀ answer after, call name registry = some (answer, after) → after.known fnmatch = value)
    (registry : InputConfigRegistry) (known : registry.known fnmatch = value) (vals list : List ConfigText) :
    (readWords call vals list registry).map Prod.fst = expandFrom pure vals
        (list.map fun token => if token.head? = some '$' then .inl token.tail else .inr token) ∧
      ∀ answer after, readWords call vals list registry = some (answer, after) → after.known fnmatch = value := by
  induction list generalizing vals registry with
  | nil =>
    refine ⟨rfl, fun answer after done => ?_⟩
    cases done
    exact known
  | cons token rest ih =>
    rw [readWords, List.map_cons]
    split
    · obtain ⟨same, keeps⟩ := calls token.tail registry known
      rw [expandFrom, ← same]
      cases called : call token.tail registry with
      | none => exact ⟨rfl, fun answer after done => by cases done⟩
      | some result =>
        obtain ⟨answer, after⟩ := result
        have still := keeps answer after called
        cases answer with
        | error e =>
          refine ⟨rfl, fun answer after done => ?_⟩
          cases done
          exact still
        | ok vn => exact ih after still _
    · exact ih registry known _

/-- The list that is read is an expansion. -/
theorem getWordList_spec (depth : Nat) (name : ConfigText) (registry : InputConfigRegistry) :
    (getWordList fnmatch depth name registry).map Prod.fst =
        expansion (readOf (registry.known fnmatch)) depth name ∧
      ∀ answer after, getWordList fnmatch depth name registry = some (answer, after) →
        after.known fnmatch = registry.known fnmatch := by
  induction depth generalizing name registry with
  | zero => exact ⟨rfl, fun answer after done => by cases done⟩
  | succ depth ih =>
    have looked := (lookupValue_spec fnmatch registry ⟨name, [], true⟩).1
    have still := lookupValue_strict fnmatch registry name
    rw [getWordList, expansion, readOf, ← looked]
    cases found : (registry.lookupValue fnmatch ⟨name, [], true⟩).1 with
    | error e =>
      refine ⟨rfl, fun answer after done => ?_⟩
      cases done
      exact still
    | ok text =>
      refine readWords_spec fnmatch (fun name other known => ?_) _ still [] (tokens text)
      rw [← known]
      exact ih name other

/-- If a list is read or an exception is thrown for a name, then no chain of its references is endless, and this is
enough if all names that are looked up are plain. -/
theorem word_list_read (registry : InputConfigRegistry) (name : ConfigText) :
    (registry.Reads fnmatch name → Ends (registry.known fnmatch) name) ∧
      (AllPlain (registry.known fnmatch) name → Ends (registry.known fnmatch) name → registry.Reads fnmatch name) := by
  constructor
  · rintro ⟨depth, answer, after, done, _⟩
    have same := (getWordList_spec fnmatch depth name registry).1
    rw [done] at same
    exact acc_of_expansion same.symm
  · intro plain ends
    obtain ⟨depth, answer, done⟩ := (expansion_ends_iff _ _).mpr ends
    have same := (getWordList_spec fnmatch depth name registry).1
    rw [done] at same
    obtain ⟨result, read, rfl⟩ := Option.map_eq_some_iff.mp same
    refine ⟨depth, result.1, result.2, read, fun words ok => ?_⟩
    rw [ok] at done
    obtain ⟨all, found, expands⟩ := expansion_sound done
    have start : readOf (registry.known fnmatch) name = .ok ([] ++ all) := found
    have list := expands_listOf plain start .nil expands
    obtain ⟨text, answer, rfl⟩ := readOf_ok found
    exact wordList_of_answer (plain name .refl) answer list

/-- A list with a reference in the middle is read. -/
theorem word_list_read_nested :
    (create [(['x'], ['1', ',', ' ', '$', 'y', ',', '3']), (['y'], ['2'])] []).Reads (fun pattern name => pattern == name)
      ['x'] := by
  let fnmatch (pattern name : ConfigText) := pattern == name
  let registry := create [(['x'], ['1', ',', ' ', '$', 'y', ',', '3']), (['y'], ['2'])] []
  refine (word_list_read fnmatch registry ['x']).2 ?_ ?_
  · intro next _ key _ text found front
    by_cases first : ['x'] = key
    · subst first
      cases found
      cases front
    by_cases second : ['y'] = key
    · subst second
      cases found
      cases front
    · simp [registry, fnmatch, known, search, lastMatch, create, first, second] at found
  · have done : expansion (readOf (registry.known fnmatch)) 2 ['x'] = some (.ok [['1'], ['2'], ['3']]) := rfl
    exact acc_of_expansion done

/-- A list that contains itself is read for ever. -/
theorem word_list_cycle : ¬ ∀ (fnmatch : ConfigText → ConfigText → Bool) (defaults overrides : List (ConfigText × ConfigText)) (name : ConfigText),
    (create defaults overrides).Reads fnmatch name := by
  intro claimed
  let fnmatch (pattern name : ConfigText) := pattern == name
  let registry := create [(['x'], ['a', ',', '$', 'x'])] []
  have body : readOf (registry.known fnmatch) ['x'] = .ok [.inr ['a'], .inl ['x']] := rfl
  have endless (depth : Nat) : expansion (readOf (registry.known fnmatch)) depth ['x'] = none := by
    induction depth with
    | zero => rfl
    | succ depth ih =>
      rw [expansion, body]
      dsimp only
      rw [expandFrom, expandFrom, ih]
  obtain ⟨depth, answer, after, done, _⟩ := claimed fnmatch [(['x'], ['a', ',', '$', 'x'])] [] ['x']
  have same := (getWordList_spec fnmatch depth ['x'] registry).1
  rw [endless, done] at same
  cases same

end InputConfigRegistry

end Mgsim.Sim
