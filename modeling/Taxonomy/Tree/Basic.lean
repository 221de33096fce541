import Taxonomy.Member

/-!
# Type trees

A tree holds a type and everything below it. Its leaves are final types; an
abstract type is a group, which has at least one child.
-/
namespace Taxonomy

/-- A final type, or an abstract type with the trees of the types derived from it. -/
inductive Tree where
  | leaf (id : TypeId)
  | group (id : TypeId) (eldest : Tree) (others : List Tree)

namespace Tree

/-- The type at the root of the tree. -/
def root : Tree → TypeId
  | .leaf id => id
  | .group id _ _ => id

/-- Whether the tree is a final type. -/
def isLeaf : Tree → Bool
  | .leaf _ => true
  | .group _ _ _ => false

/-- The trees below the root. -/
def children : Tree → List Tree
  | .leaf _ => []
  | .group _ eldest others => eldest :: others

mutual

/-- The types of a tree, each before those below it. -/
def ids : Tree → List TypeId
  | .leaf id => [id]
  | .group id eldest others => id :: (eldest.ids ++ idsAll others)

/-- The types of several trees, one tree after the other. -/
def idsAll : List Tree → List TypeId
  | [] => []
  | tree :: trees => tree.ids ++ idsAll trees

end

mutual

/-- The final types of a tree in the order of `ids`. -/
def leaves : Tree → List TypeId
  | .leaf id => [id]
  | .group _ eldest others => eldest.leaves ++ leavesAll others

/-- The final types of several trees, one tree after the other. -/
def leavesAll : List Tree → List TypeId
  | [] => []
  | tree :: trees => tree.leaves ++ leavesAll trees

end

mutual

/-- The subtrees of a tree in the order of `ids`, each with its depth. -/
def levels (depth : Nat) : Tree → List (Nat × Tree)
  | .leaf id => [(depth, .leaf id)]
  | .group id eldest others =>
    (depth, .group id eldest others) ::
      (eldest.levels (depth + 1) ++ levelsAll (depth + 1) others)

/-- The subtrees of several trees at one depth. -/
def levelsAll (depth : Nat) : List Tree → List (Nat × Tree)
  | [] => []
  | tree :: trees => tree.levels depth ++ levelsAll depth trees

end

end Tree

end Taxonomy
