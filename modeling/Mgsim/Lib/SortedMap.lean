import Mathlib.Data.List.Dedup
import Mathlib.Data.List.Sort
import Mathlib.Data.List.TakeWhile
import Mathlib.Order.Defs.LinearOrder

namespace Mgsim.Lib
universe u v

/-- A map whose entries are kept in the order of their keys. -/
structure SortedMap (κ : Type u) (β : Type v) [LinearOrder κ] where
  entries : List (κ × β)
  sorted : entries.Pairwise fun p q => p.1 < q.1

namespace SortedMap
variable {κ : Type u} {β : Type v} [LinearOrder κ]

def empty : SortedMap κ β := ⟨[], .nil⟩

/-- The entries before `lower_bound`. -/
def below (map : SortedMap κ β) (key : κ) : List (κ × β) := map.entries.takeWhile fun p => p.1 < key

/-- The entries from `lower_bound` on. -/
def atLeast (map : SortedMap κ β) (key : κ) : List (κ × β) := map.entries.dropWhile fun p => p.1 < key

def lowerBound (map : SortedMap κ β) (key : κ) : Option (κ × β) := (map.atLeast key).head?

/-- The entry before `lower_bound`. -/
def previous (map : SortedMap κ β) (key : κ) : Option (κ × β) := (map.below key).getLast?

def find (map : SortedMap κ β) (key : κ) : Option (κ × β) := (map.lowerBound key).filter fun p => p.1 = key

def erase (map : SortedMap κ β) (key : κ) : SortedMap κ β := ⟨map.entries.filter fun p => p.1 ≠ key, map.sorted.filter _⟩

section
variable {map : SortedMap κ β} {key : κ} {p q : κ × β}

theorem below_append_atLeast (map : SortedMap κ β) (key : κ) : map.below key ++ map.atLeast key = map.entries :=
  List.takeWhile_append_dropWhile

theorem lt_of_mem_below (member : p ∈ map.below key) : p.1 < key := by
  have accepted := List.mem_takeWhile_imp member
  simpa using accepted

theorem mem_of_mem_below (member : p ∈ map.below key) : p ∈ map.entries := by
  rw [← map.below_append_atLeast key]
  exact List.mem_append_left _ member

theorem mem_of_mem_atLeast (member : p ∈ map.atLeast key) : p ∈ map.entries := by
  rw [← map.below_append_atLeast key]
  exact List.mem_append_right _ member

theorem mem_below_or_atLeast (member : p ∈ map.entries) : p ∈ map.below key ∨ p ∈ map.atLeast key := by
  rw [← map.below_append_atLeast key] at member
  exact List.mem_append.mp member

theorem mem_of_lowerBound (found : map.lowerBound key = some p) : p ∈ map.entries :=
  mem_of_mem_atLeast (List.mem_of_head? found)

theorem mem_of_previous (found : map.previous key = some p) : p ∈ map.entries :=
  mem_of_mem_below (List.mem_of_getLast? found)

theorem le_of_lowerBound (found : map.lowerBound key = some p) : key ≤ p.1 := by
  have refused := List.head?_dropWhile_not (fun q : κ × β => decide (q.1 < key)) map.entries
  rw [show (map.entries.dropWhile fun q => decide (q.1 < key)).head? = some p from found] at refused
  simpa using refused

theorem lowerBound_le (found : map.lowerBound key = some p) (member : q ∈ map.atLeast key) : q = p ∨ p.1 < q.1 := by
  obtain ⟨rest, split⟩ := List.head?_eq_some_iff.mp found
  have order := map.sorted
  rw [← map.below_append_atLeast key, List.pairwise_append, split, List.pairwise_cons] at order
  rw [split] at member
  exact (List.mem_cons.mp member).imp_right (order.2.1.1 q)

theorem le_of_mem_atLeast (member : q ∈ map.atLeast key) : key ≤ q.1 := by
  obtain ⟨p, rest, split⟩ := List.exists_cons_of_ne_nil (List.ne_nil_of_mem member)
  have found : map.lowerBound key = some p := by rw [lowerBound, split, List.head?_cons]
  rcases lowerBound_le found member with rfl | less
  · exact le_of_lowerBound found
  · exact (le_of_lowerBound found).trans less.le

theorem le_previous (found : map.previous key = some p) (member : q ∈ map.below key) : q = p ∨ q.1 < p.1 := by
  obtain ⟨before, split⟩ := List.getLast?_eq_some_iff.mp found
  have order := map.sorted
  rw [← map.below_append_atLeast key, List.pairwise_append, split, List.pairwise_append] at order
  rw [split] at member
  rcases List.mem_append.mp member with earlier | last
  · exact Or.inr (order.1.2.2 q earlier p List.mem_cons_self)
  · exact Or.inl (List.mem_singleton.mp last)

theorem find_eq_some (found : map.find key = some p) : map.lowerBound key = some p ∧ p.1 = key := by
  obtain ⟨bound, same⟩ := Option.filter_eq_some_iff.mp found
  exact ⟨bound, by simpa using same⟩

/-- An entry is erased, and the ones around it stay. -/
theorem erase_entries {before after : List (κ × β)} (split : map.entries = before ++ p :: after) :
    (map.erase p.1).entries = before ++ after := by
  have order := map.sorted
  rw [split, List.pairwise_append, List.pairwise_cons] at order
  have first : before.filter (fun q => q.1 ≠ p.1) = before :=
    List.filter_eq_self.mpr fun q member => by simpa using (order.2.2 q member p List.mem_cons_self).ne
  have second : after.filter (fun q => q.1 ≠ p.1) = after :=
    List.filter_eq_self.mpr fun q member => by simpa using (order.2.1.1 q member).ne'
  change map.entries.filter (fun q => q.1 ≠ p.1) = before ++ after
  rw [split, List.filter_append, List.filter_cons_of_neg (by simp), first, second]

end

/-- An entry with a new key is put where it belongs. -/
theorem insert_sorted (map : SortedMap κ β) {key : κ} (value : β) (absent : ∀ p ∈ map.lowerBound key, p.1 ≠ key) :
    (map.below key ++ (key, value) :: map.atLeast key).Pairwise fun p q => p.1 < q.1 := by
  have order := map.sorted
  rw [← map.below_append_atLeast key, List.pairwise_append] at order
  refine List.pairwise_append.mpr ⟨order.1, List.pairwise_cons.mpr ⟨fun q member => ?_, order.2.1⟩, fun p before q member => ?_⟩
  · refine lt_of_le_of_ne (le_of_mem_atLeast member) fun same => ?_
    obtain ⟨first, rest, split⟩ := List.exists_cons_of_ne_nil (List.ne_nil_of_mem member)
    have found : map.lowerBound key = some first := by rw [lowerBound, split, List.head?_cons]
    rcases lowerBound_le found member with rfl | less
    · exact absent q found same.symm
    · exact absurd ((le_of_lowerBound found).trans_lt less) (by simp [← same])
  · rcases List.mem_cons.mp member with rfl | later
    · exact lt_of_mem_below before
    · exact order.2.2 p before q later

/-- `insert`; an entry whose key is already there stays as it is. -/
def insert (map : SortedMap κ β) (key : κ) (value : β) : SortedMap κ β :=
  if absent : ∀ p ∈ map.lowerBound key, p.1 ≠ key then
    ⟨map.below key ++ (key, value) :: map.atLeast key, map.insert_sorted value absent⟩
  else map

theorem insert_entries {map : SortedMap κ β} {key : κ} (value : β) (absent : ∀ p ∈ map.lowerBound key, p.1 ≠ key) :
    (map.insert key value).entries = map.below key ++ (key, value) :: map.atLeast key := by
  rw [insert, dif_pos absent]

/-- The value of a key. -/
def get? (map : SortedMap κ β) (key : κ) : Option β := (map.find key).map Prod.snd

theorem get?_eq_some {map : SortedMap κ β} {key : κ} {value : β} :
    map.get? key = some value ↔ (key, value) ∈ map.entries := by
  rw [get?, Option.map_eq_some_iff]
  constructor
  · rintro ⟨⟨_, _⟩, found, rfl⟩
    obtain ⟨bound, rfl⟩ := find_eq_some found
    exact mem_of_lowerBound bound
  · intro member
    have later : (key, value) ∈ map.atLeast key :=
      (mem_below_or_atLeast member).resolve_left fun before => absurd (lt_of_mem_below before) (lt_irrefl _)
    obtain ⟨first, rest, split⟩ := List.exists_cons_of_ne_nil (List.ne_nil_of_mem later)
    have found : map.lowerBound key = some first := by rw [lowerBound, split, List.head?_cons]
    rcases lowerBound_le found later with rfl | less
    · exact ⟨_, by rw [find, found, Option.filter_some, if_pos (by simp)], rfl⟩
    · exact absurd (le_of_lowerBound found) (not_le_of_gt less)

theorem get?_eq_none {map : SortedMap κ β} {key : κ} : map.get? key = none ↔ ∀ p ∈ map.entries, p.1 ≠ key := by
  constructor
  · rintro absent ⟨_, value⟩ member rfl
    rw [get?_eq_some.mpr member] at absent
    cases absent
  · intro absent
    cases value : map.get? key with
    | none => rfl
    | some v => exact absurd rfl (absent _ (get?_eq_some.mp value))

/-- The value of a key is changed in its place. -/
def modify (map : SortedMap κ β) (key : κ) (f : β → β) : SortedMap κ β :=
  ⟨map.entries.map fun p => if p.1 = key then (p.1, f p.2) else p, by
    rw [List.pairwise_map]
    refine map.sorted.imp fun {p q} less => ?_
    split <;> split <;> exact less⟩

theorem modify_keys (map : SortedMap κ β) (key : κ) (f : β → β) :
    (map.modify key f).entries.map Prod.fst = map.entries.map Prod.fst := by
  rw [modify, List.map_map]
  refine List.map_congr_left fun p _ => ?_
  rw [Function.comp_apply]
  split <;> rfl

theorem get?_modify (map : SortedMap κ β) (key : κ) (f : β → β) (other : κ) :
    (map.modify key f).get? other = if other = key then (map.get? other).map f else map.get? other := by
  have forward : ∀ value, map.get? other = some value →
      (map.modify key f).get? other = some (if other = key then f value else value) := by
    intro value found
    rw [get?_eq_some] at found ⊢
    refine List.mem_map.mpr ⟨(other, value), found, ?_⟩
    split <;> rfl
  cases found : map.get? other with
  | some value =>
    rw [forward value found]
    split <;> rfl
  | none =>
    rw [Option.map_none, ite_self, get?_eq_none]
    intro p member
    have key : p.1 ∈ map.entries.map Prod.fst := by
      rw [← modify_keys map key f]
      exact List.mem_map_of_mem member
    obtain ⟨q, old, same⟩ := List.mem_map.mp key
    rw [← same]
    exact get?_eq_none.mp found q old

/-- An entry with a new key is found; the others stay. -/
theorem get?_insert (map : SortedMap κ β) (key : κ) (value : β) (other : κ) :
    (map.insert key value).get? other = if other = key then (map.get? key).or (some value) else map.get? other := by
  by_cases absent : ∀ p ∈ map.lowerBound key, p.1 ≠ key
  · have missing : map.get? key = none := by
      rw [get?, Option.map_eq_none_iff, Option.eq_none_iff_forall_not_mem]
      intro p found
      obtain ⟨bound, same⟩ := find_eq_some found
      exact absent p bound same
    have members : ∀ p, p ∈ (map.insert key value).entries ↔ p = (key, value) ∨ p ∈ map.entries := by
      intro p
      rw [insert_entries value absent, ← map.below_append_atLeast key, List.mem_append, List.mem_cons, List.mem_append]
      exact or_left_comm
    split
    · rename_i same
      rw [same, missing, Option.none_or, get?_eq_some, members]
      exact Or.inl rfl
    · rename_i different
      refine Option.ext fun v => ?_
      rw [get?_eq_some, get?_eq_some, members]
      exact ⟨fun here => here.resolve_left fun same => different (congrArg Prod.fst same), Or.inr⟩
  · have unchanged : map.insert key value = map := by rw [insert, dif_neg absent]
    simp only [not_forall, not_not] at absent
    obtain ⟨⟨_, v⟩, found, rfl⟩ := absent
    have present := get?_eq_some.mpr (mem_of_lowerBound found)
    rw [unchanged]
    split
    · rename_i same
      rw [same, present]
      rfl
    · rfl

theorem get?_empty (key : κ) : (empty : SortedMap κ β).get? key = none := get?_eq_none.mpr fun _ member => nomatch member

/-- `operator[]`, with a change of the value that is then there. -/
def update (map : SortedMap κ β) (key : κ) (initial : β) (f : β → β) : SortedMap κ β :=
  (map.insert key initial).modify key f

theorem get?_update (map : SortedMap κ β) (key : κ) (initial : β) (f : β → β) (other : κ) :
    (map.update key initial f).get? other =
      if other = key then some (f ((map.get? key).getD initial)) else map.get? other := by
  rw [update, get?_modify, get?_insert]
  split_ifs
  · cases map.get? key <;> rfl
  · rfl

/-- `operator[]`, and an assignment. -/
def put (map : SortedMap κ β) (key : κ) (value : β) : SortedMap κ β := map.update key value fun _ => value

theorem get?_put (map : SortedMap κ β) (key : κ) (value : β) (other : κ) :
    (map.put key value).get? other = if other = key then some value else map.get? other :=
  map.get?_update key value _ other

def keys (map : SortedMap κ β) : List κ := map.entries.map Prod.fst

theorem keys_sorted (map : SortedMap κ β) : map.keys.Pairwise (· < ·) := List.pairwise_map.mpr map.sorted

theorem nodup_keys (map : SortedMap κ β) : map.keys.Nodup := map.keys_sorted.imp ne_of_lt

theorem mem_keys {map : SortedMap κ β} {key : κ} : key ∈ map.keys ↔ ∃ value, map.get? key = some value := by
  simp only [keys, List.mem_map, get?_eq_some]
  exact ⟨fun ⟨entry, member, same⟩ => ⟨entry.2, same ▸ member⟩, fun ⟨value, member⟩ => ⟨(key, value), member, rfl⟩⟩

end SortedMap

section
variable {α : Type u} [LinearOrder α] {l m : List α} {a : α}

/-- The members of a list, each of them once, in their order. -/
def sortedSet (l : List α) : List α := l.dedup.insertionSort (· ≤ ·)

theorem mem_sortedSet : a ∈ sortedSet l ↔ a ∈ l := by rw [sortedSet, List.mem_insertionSort, List.mem_dedup]

theorem nodup_sortedSet (l : List α) : (sortedSet l).Nodup :=
  (List.perm_insertionSort _ _).nodup_iff.mpr (List.nodup_dedup l)

theorem sortedSet_sorted (l : List α) : (sortedSet l).Pairwise (· < ·) := by
  have order := List.pairwise_insertionSort (· ≤ ·) l.dedup
  exact (order.and (nodup_sortedSet l)).imp fun both => lt_of_le_of_ne both.1 both.2

theorem eq_sortedSet (sorted : l.Pairwise (· < ·)) (members : ∀ a, a ∈ l ↔ a ∈ m) : l = sortedSet m :=
  sorted.eq_of_mem_iff (sortedSet_sorted m) fun a => (members a).trans mem_sortedSet.symm

/-- The entries of a map are told by its keys and the value of each of them. -/
theorem SortedMap.entries_eq {β : Type v} {map : SortedMap α β} {value : α → β}
    (values : ∀ {key v}, map.get? key = some v → v = value key) (members : ∀ key, key ∈ map.keys ↔ key ∈ l) :
    map.entries = (sortedSet l).map fun key => (key, value key) := by
  rw [← eq_sortedSet map.keys_sorted members, keys, List.map_map]
  refine (List.map_id _).symm.trans (List.map_congr_left fun entry member => ?_)
  exact Prod.ext rfl (values (get?_eq_some.mpr member))

end
end Mgsim.Lib
