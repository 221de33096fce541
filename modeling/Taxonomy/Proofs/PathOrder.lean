import Taxonomy.Proofs.Allocator

/-!
# Numbers as ranks of paths

The path to a type lists the names from the root of a tree down to the type. It is
read off the bases alone, from the type upwards, and does not depend on how the
tree was grown or in which order types were registered.

Sorting the derived types at every level puts the final types of a tree in the
order of their paths, compared name by name. The number of a final type is
therefore the start plus the number of final types with a smaller path.
-/
namespace Taxonomy

open Relation

/-- The types from the given top down to a type below it: the way up from the type,
cut off at the top and turned round. -/
def Bases.path (bases : Bases) (top id : TypeId) : List TypeId :=
  top :: ((bases.ancestors id).takeWhile fun ancestor => ancestor ≠ top).reverse

/-- The names on the path from the top down to a type. -/
def Registry.namePath (registry : Registry) (top id : TypeId) : List String :=
  match registry.links with
  | none => []
  | some links => (links.bases.path top id).filterMap registry.name?

namespace Bases

variable {bases : Bases}

/-- The path to what lies below a child leads through the child. Neither the child
nor the top is met before, since both would then be above themselves. -/
theorem path_child (acyclic : bases.Acyclic) (bounded : bases.Bounded) {top child id : TypeId}
    (step : bases.Step child top) (below : bases.Below id child) :
    bases.path top id = top :: bases.path child id := by
  have cut : (bases.ancestors id).takeWhile (fun ancestor => ancestor ≠ top) =
      (bases.ancestors id).takeWhile (fun ancestor => ancestor ≠ child) ++ [child] := by
    induction below using ReflTransGen.head_induction_on with
    | refl =>
      have apart : child ≠ top := by
        rintro rfl
        exact acyclic child (TransGen.single step)
      have first : (bases.ancestors top).takeWhile (fun ancestor => ancestor ≠ top) = [] := by
        cases found : bases.base? top with
        | none => simp [ancestors_top (bounded _ _ step) found]
        | some base => simp [ancestors_step acyclic bounded found]
      rw [ancestors_step acyclic bounded step]
      simpa [apart] using first
    | @head id base up rest inductionHypothesis =>
      have notChild : id ≠ child := by
        rintro rfl
        exact acyclic id (TransGen.head' up rest)
      have notTop : id ≠ top := by
        rintro rfl
        exact acyclic id (TransGen.head' up (rest.tail step))
      rw [ancestors_step acyclic bounded up]
      simpa [notChild, notTop] using inductionHypothesis
  rw [path, path, cut, List.reverse_append]
  rfl

end Bases

namespace Registry.Finished

variable {registry : Registry} {links : Links}

/-- The names on the path to what lies below a child are the name of the top and
the names on the path from the child. -/
theorem namePath_child (finished : registry.Finished links) {top child id : TypeId}
    {name : String} (named : registry.name? top = some name) (step : links.bases.Step child top)
    (below : links.bases.Below id child) :
    registry.namePath top id = name :: registry.namePath child id := by
  simp only [Registry.namePath, finished.linked,
    Bases.path_child finished.faithful.acyclic finished.bounded step below, List.filterMap_cons,
    named]

/-- The names on a path begin with the name of its top. -/
theorem namePath_head (finished : registry.Finished links) {top : TypeId} {name : String}
    (named : registry.name? top = some name) (id : TypeId) :
    ∃ rest, registry.namePath top id = name :: rest := by
  simp [Registry.namePath, finished.linked, Bases.path, named]

end Registry.Finished

namespace Tree.Grown

variable {registry : Registry} {links : Links} {tree : Tree}

/-- The final types of a grown tree are listed in the order of their paths.

Below one child the paths share their beginning, and the rest is in order by
induction. Below two children the paths part at the names of the children, which
are in order because the derived types are. -/
theorem leaves_sorted (finished : registry.Finished links) (grown : tree.Grown registry links) :
    tree.leaves.Pairwise fun left right =>
      registry.namePath tree.root left < registry.namePath tree.root right := by
  induction grown with
  | leaf found final => exact List.pairwise_singleton _ _
  | @group top type eldest others found abstract derived grown inductionHypothesis =>
    have named : registry.name? top = some type.name := by
      rw [finished.inStep.name?_eq, found, Option.map_some]
    have through {child leaf} (member : child ∈ eldest :: others) (under : leaf ∈ child.leaves) :
        registry.namePath top leaf = type.name :: registry.namePath child.root leaf := by
      have inChild : leaf ∈ child.ids := child.leaves_sublist.subset under
      exact finished.namePath_child named (child_step finished derived member)
        (((grown child member).mem_ids_iff finished leaf).mp inChild)
    rw [leaves_group, List.pairwise_flatMap]
    constructor
    · intro child member
      refine (inductionHypothesis child member).imp_of_mem ?_
      intro left right leftMember rightMember less
      rw [root, through member leftMember, through member rightMember, List.cons_lt_cons_self]
      exact less
    · have sorted := finished.derived_sorted top
      rw [derived, List.pairwise_map] at sorted
      refine sorted.imp_of_mem ?_
      intro first second firstMember secondMember before left leftMember right rightMember
      obtain ⟨firstName, secondName, firstNamed, secondNamed, less⟩ := before
      obtain ⟨firstRest, firstPath⟩ := finished.namePath_head firstNamed left
      obtain ⟨secondRest, secondPath⟩ := finished.namePath_head secondNamed right
      rw [root, through firstMember leftMember, through secondMember rightMember,
        List.cons_lt_cons_self, firstPath, secondPath, List.cons_lt_cons_iff]
      exact Or.inl less

end Tree.Grown

/-- The number of a final type is the start plus the number of final types of the
tree whose path of names is smaller. The final types together use the numbers from
the start on, each once.

Proof: the list of final types is strictly sorted by path. At each level the derived types
are sorted by name, and the paths into two of them differ first where the two names stand.
In a strictly sorted list the place of an element is the number of smaller ones, and the
number of a final type is the start plus its place. -/
theorem tag_eq_path_rank (registry : Registry) (reachable : registry.Reachable) (name : String)
    (tree : Tree) (built : Tree.ofRoot registry name = .ok tree) (start : Nat) (width : TagWidth)
    (table : TagTable) (allocated : TagTable.allocate registry tree start width = .ok table) :
    (∀ id ∈ tree.leaves, ∃ value, table.range? id = some ⟨value, value⟩ ∧
      value = start + tree.leaves.countP fun other =>
        registry.namePath tree.root other < registry.namePath tree.root id) ∧
    tree.leaves.Nodup ∧
    tree.leaves.map table.range? =
      (List.range' start tree.leaves.length).map fun value => some ⟨value, value⟩ := by
  have isFinished : registry.isFinished = true := by
    by_contra unfinished
    simp [Tree.ofRoot, unfinished] at built
  obtain ⟨links, finished⟩ := reachable.sound.finished isFinished
  have grown := (Tree.ofRoot_grown finished built).2
  have ranged (id : TypeId) : table.range? id = (tree.ranges start).lookup id := by
    rw [TagTable.range?, grown.table_ranges finished allocated]
  refine ⟨?_, grown.leaves_nodup finished, ?_⟩
  · intro id member
    obtain ⟨position, listed⟩ := List.mem_iff_getElem?.mp member
    refine ⟨start + position, (ranged id).trans (grown.range_of_leaf finished start listed), ?_⟩
    rw [Ordering.countP_before_eq (fun _ _ => List.lt_asymm) (grown.leaves_sorted finished) listed]
  · apply List.ext_getElem?
    intro position
    rw [List.getElem?_map, List.getElem?_map]
    cases listed : tree.leaves[position]? with
    | none =>
      have outside : tree.leaves.length ≤ position := List.getElem?_eq_none_iff.mp listed
      simp [outside]
    | some id =>
      have inside : position < tree.leaves.length := (List.getElem?_eq_some_iff.mp listed).1
      rw [List.getElem?_range' inside]
      simp [ranged, grown.range_of_leaf finished start listed, TagRange.single]

/-- An operator stands before a list of operators although the only operator has the
last name of all, for the name of one group is the beginning of another name. -/
def operators : Registry :=
  .holding [
    { name := "Zip", base := some (.named "Op") },
    { name := "Op", base := some (.named "Node"), isFinal := false },
    { name := "OpList", base := some (.named "Node") },
    { name := "Node", isFinal := false }]
    (some {
      bases := [some 1, some 3, some 3, none]
      derived := [[], [0], [], [1, 2]]
      targets := [[], [], [], []] })

/-- The numbers of the operators from 7 on. -/
def operatorTags : TagTable :=
  .append {}
    [⟨"Zip", 7⟩, ⟨"FirstOp", 7⟩, ⟨"LastOp", 7⟩, ⟨"OpList", 8⟩, ⟨"FirstNode", 7⟩,
    ⟨"LastNode", 8⟩]
    [(0, ⟨7, 7⟩), (1, ⟨7, 7⟩), (2, ⟨8, 8⟩), (3, ⟨7, 8⟩)]

/-- The list of operators has the second number, since the path to the operator is
smaller. -/
theorem tag_eq_path_rank_operators :
    Tree.ofRoot operators "Node" = .ok (.group 3 (.group 1 (.leaf 0) []) [.leaf 2]) ∧
      TagTable.allocate operators (.group 3 (.group 1 (.leaf 0) []) [.leaf 2]) 7 .u8 =
        .ok operatorTags ∧
      operators.namePath 3 0 = ["Node", "Op", "Zip"] ∧
      operators.namePath 3 2 = ["Node", "OpList"] ∧
      ∃ value, operatorTags.range? 2 = some ⟨value, value⟩ ∧
        value = 7 + [0, 2].countP fun other =>
          operators.namePath 3 other < operators.namePath 3 2 := by
  have made : Registry.ofList operators.types = .ok operators :=
    Registry.ofList_of_linkedBy (by decide +kernel)
  have built : Tree.ofRoot operators "Node" =
      .ok (.group 3 (.group 1 (.leaf 0) []) [.leaf 2]) := by rfl
  have allocated : TagTable.allocate operators (.group 3 (.group 1 (.leaf 0) []) [.leaf 2]) 7 .u8 =
      .ok operatorTags := by rfl
  have ranked := tag_eq_path_rank operators (Registry.ofList_reachable made) "Node" _ built 7 .u8
    operatorTags allocated
  exact ⟨built, allocated, by rfl, by rfl, ranked.1 2 (by decide)⟩

end Taxonomy
