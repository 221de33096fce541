import Taxonomy.Proofs.Facades
import Taxonomy.Proofs.Numbering
import Taxonomy.Slot

/-!
# Trees with other numbers

Replacing the numbers in a tree keeps its shape. Everything that is read off the
shape alone comes out the same up to the replacement: the lists of types, the
marks, the ranges, the final types that each facade stands for, and which slots are
written alike.
-/
namespace Taxonomy

/-- The mark for the replaced number. -/
def TagMark.map (rename : TypeId → TypeId) : TagMark → TagMark
  | .only id => .only (rename id)
  | .first id => .first (rename id)
  | .last id => .last (rename id)

/-- The facade for the replaced numbers. -/
def Facade.map (rename : TypeId → TypeId) (facade : Facade) : Facade :=
  { facade with objects := facade.objects.map rename }

namespace Tree

mutual

/-- The tree with every number replaced. -/
def map (rename : TypeId → TypeId) : Tree → Tree
  | .leaf id => .leaf (rename id)
  | .group id eldest others => .group (rename id) (eldest.map rename) (mapAll rename others)

/-- Several trees with every number replaced. -/
def mapAll (rename : TypeId → TypeId) : List Tree → List Tree
  | [] => []
  | tree :: trees => tree.map rename :: mapAll rename trees

end

/-- Replacing in several trees is replacing in each. -/
theorem mapAll_eq (rename : TypeId → TypeId) (trees : List Tree) :
    mapAll rename trees = trees.map (map rename) := by
  induction trees with
  | nil => rfl
  | cons tree trees inductionHypothesis => simp [mapAll, inductionHypothesis]

variable (rename : TypeId → TypeId)

/-- The root is replaced as all other numbers are. -/
theorem root_map (tree : Tree) : (tree.map rename).root = rename tree.root := by
  cases tree <;> rfl

mutual

/-- The types of a tree are replaced in their places. -/
theorem ids_map : ∀ tree : Tree, (tree.map rename).ids = tree.ids.map rename
  | .leaf _ => rfl
  | .group id eldest others => by
    simp [map, ids, ids_map eldest, idsAll_map others]

/-- The same for several trees. -/
theorem idsAll_map : ∀ trees : List Tree,
    idsAll (mapAll rename trees) = (idsAll trees).map rename
  | [] => rfl
  | tree :: trees => by
    simp [mapAll, idsAll, ids_map tree, idsAll_map trees]

end

mutual

/-- The final types of a tree are replaced in their places. -/
theorem leaves_map : ∀ tree : Tree, (tree.map rename).leaves = tree.leaves.map rename
  | .leaf _ => rfl
  | .group id eldest others => by
    simp [map, leaves, leaves_map eldest, leavesAll_map others]

/-- The same for several trees. -/
theorem leavesAll_map : ∀ trees : List Tree,
    leavesAll (mapAll rename trees) = (leavesAll trees).map rename
  | [] => rfl
  | tree :: trees => by
    simp [mapAll, leavesAll, leaves_map tree, leavesAll_map trees]

end

/-- A tree takes as many numbers as before. -/
theorem width_map (tree : Tree) : (tree.map rename).width = tree.width := by
  simp [width, leaves_map]

/-- A tree has the same range as before. -/
theorem range_map (tree : Tree) (next : Nat) : (tree.map rename).range next = tree.range next := by
  rw [range, range, width_map]

mutual

/-- The marks of a tree are replaced in their places and keep their numbers. -/
theorem marks_map (next : Nat) : ∀ tree : Tree,
    (tree.map rename).marks next = (tree.marks next).map (Prod.map (TagMark.map rename) id)
  | .leaf _ => rfl
  | .group id eldest others => by
    have same := range_map rename (.group id eldest others) next
    simp only [map] at same
    simp [map, marks, marks_map next eldest, marksAll_map (next + eldest.width) others, width_map,
      same, TagMark.map]

/-- The same for several trees. -/
theorem marksAll_map (next : Nat) : ∀ trees : List Tree,
    marksAll next (mapAll rename trees) =
      (marksAll next trees).map (Prod.map (TagMark.map rename) id)
  | [] => rfl
  | tree :: trees => by
    simp [mapAll, marksAll, marks_map next tree, marksAll_map (next + tree.width) trees, width_map]

end

mutual

/-- The ranges of a tree belong to the replaced types. -/
theorem ranges_map (next : Nat) : ∀ tree : Tree,
    (tree.map rename).ranges next = (tree.ranges next).map (Prod.map rename id)
  | .leaf _ => rfl
  | .group id eldest others => by
    have same := range_map rename (.group id eldest others) next
    simp only [map] at same
    simp [map, ranges, ranges_map next eldest, rangesAll_map (next + eldest.width) others,
      width_map, same]

/-- The same for several trees. -/
theorem rangesAll_map (next : Nat) : ∀ trees : List Tree,
    rangesAll next (mapAll rename trees) = (rangesAll next trees).map (Prod.map rename id)
  | [] => rfl
  | tree :: trees => by
    simp [mapAll, rangesAll, ranges_map next tree, rangesAll_map (next + tree.width) trees,
      width_map]

end

end Tree

namespace Facade

/-- Closing a list of final types commutes with the replacement. -/
theorem close_map (rename : TypeId → TypeId) (publicName : Option String)
    (found : List TypeId × List Facade) :
    close publicName (found.map (List.map rename) (List.map (map rename))) =
      (close publicName found).map (List.map rename) (List.map (map rename)) := by
  cases publicName <;> rfl

variable (rename : TypeId → TypeId) {left right : TypeId → Option String}

mutual

/-- If the replaced types have the public names of the given ones, the facades stand
for the replaced final types. -/
theorem harvest_map : ∀ tree : Tree, (∀ id ∈ tree.ids, right (rename id) = left id) →
    harvest right (tree.map rename) =
      (harvest left tree).map (List.map rename) (List.map (map rename))
  | .leaf id, same => by
    have named := same id (by simp [Tree.ids])
    rw [Tree.map, harvest, named, harvest, ← close_map]
    rfl
  | .group id eldest others, same => by
    simp only [Tree.ids, List.forall_mem_cons, List.forall_mem_append] at same
    rw [Tree.map, harvest, same.1, harvest_map eldest same.2.1, harvestAll_map others same.2.2,
      harvest, ← close_map]
    simp

/-- The same for several trees. -/
theorem harvestAll_map : ∀ trees : List Tree,
    (∀ id ∈ Tree.idsAll trees, right (rename id) = left id) →
    harvestAll right (Tree.mapAll rename trees) =
      (harvestAll left trees).map (List.map rename) (List.map (map rename))
  | [], _ => rfl
  | tree :: trees, same => by
    simp only [Tree.idsAll, List.forall_mem_append] at same
    rw [Tree.mapAll, harvestAll, harvest_map tree same.1, harvestAll_map trees same.2, harvestAll]
    simp

end

/-- The facades that are gathered from the replaced tree stand for the replaced final types. -/
theorem gather_map (tree : Tree) (same : ∀ id ∈ tree.ids, right (rename id) = left id) :
    gather right (tree.map rename) none [] = (gather left tree none []).map (map rename) := by
  rw [gather_eq, gather_eq, harvest_map rename tree same, Prod.map_snd]

end Facade

namespace Slot

/-- The slot for the replaced number. -/
def map (rename : TypeId → TypeId) (slot : Slot) : Slot :=
  { slot with target := rename slot.target }

/-- How a slot is written does not depend on the number of its type. -/
theorem make_map (rename : TypeId → TypeId) (settings : Settings) (kind : SlotKind) (id : TypeId)
    (type : TypeDef) :
    map rename (make settings kind id type) = make settings kind (rename id) type := by
  cases kind <;> rfl

/-- Which slot of each way of writing comes first does not depend on numbers. -/
theorem firsts_map (rename : TypeId → TypeId) (seen : List String) (slots : List Slot) :
    firsts seen (slots.map (map rename)) = (firsts seen slots).map (map rename) := by
  induction slots generalizing seen with
  | nil => rfl
  | cons slot slots inductionHypothesis =>
    have written : (map rename slot).rendered = slot.rendered := rfl
    rw [List.map_cons, firsts, firsts, written]
    by_cases met : slot.rendered ∈ seen
    · rw [if_pos met, if_pos met, inductionHypothesis]
    · rw [if_neg met, if_neg met, inductionHypothesis, List.map_cons]

end Slot

end Taxonomy
