/-!
# Repetitions in a list

The first element of a list that already stood before it. A list has none exactly
if its elements are pairwise different.
-/
namespace Taxonomy

/-- The first element that is among the ones seen before it. -/
def firstRepeated {α : Type} [DecidableEq α] (seen : List α) : List α → Option α
  | [] => none
  | element :: rest =>
    if element ∈ seen then some element else firstRepeated (element :: seen) rest

end Taxonomy
