import Mathlib.Data.List.Infix

namespace Mgsim.Lib
universe u v

/-- A partial map from words over `α`, none of whose keys is a proper prefix
of another one: a radix tree seen from outside. -/
structure PrefixMap (α : Type u) (β : Type v) where
  get : List α → Option β
  separated : ∀ {k k' v v'}, get k = some v → get k' = some v' → k <+: k' → k = k'

namespace PrefixMap
variable {α : Type u} {β : Type v} (m : PrefixMap α β)

/-- Some key and `k` have words in common. -/
def Overlaps (k : List α) : Prop :=
  ∃ k' v, m.get k' = some v ∧ (k' <+: k ∨ k <+: k')

theorem unique {w k k' : List α} {v v' : β} (first : m.get k = some v) (second : m.get k' = some v')
    (pre : k <+: w) (pre' : k' <+: w) : k = k' := by
  rcases List.prefix_or_prefix_of_prefix pre pre' with le | le
  · exact m.separated first second le
  · exact (m.separated second first le).symm

end PrefixMap

end Mgsim.Lib
