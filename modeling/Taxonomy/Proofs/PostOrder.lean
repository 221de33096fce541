import Taxonomy.Proofs.Labels

/-!
# From below upwards

The subtrees of a tree can be listed so that each comes after those below it. In this
order numbering is done with the types of the tree: with a final type as soon as it has
its number, and with an abstract one once all types below it have theirs. The ranges are
listed in this order. So are the labels, of which a final type has one and an abstract
one has two.

The order is stated by recursion over the tree alone, without numbers and labels.
-/
namespace Taxonomy

namespace Tree

mutual

/-- The subtrees of a tree, each after those below it. -/
def postorder : Tree → List Tree
  | .leaf id => [.leaf id]
  | .group id eldest others =>
    eldest.postorder ++ postorderAll others ++ [.group id eldest others]

/-- The subtrees of several trees, one tree after the other. -/
def postorderAll : List Tree → List Tree
  | [] => []
  | tree :: trees => tree.postorder ++ postorderAll trees

end

/-- The labels of the root of a tree under the given name. -/
def ownLabels (name : String) : Tree → List String
  | .leaf _ => [name]
  | .group _ _ _ => ["First" ++ name, "Last" ++ name]

/-- The marks of the root of a tree with the given range. -/
def ownMarks (range : TagRange) : Tree → List (TagMark × Nat)
  | .leaf id => [(.only id, range.first)]
  | .group id _ _ => [(.first id, range.first), (.last id, range.last)]

/-- The labels of all types of a tree, those of a type after those below it. -/
def labels (registry : Registry) (tree : Tree) : Except Fault (List String) := do
  let parts ← tree.postorder.mapM fun sub => return sub.ownLabels (← registry.name sub.root)
  return parts.flatten

/-- The subtrees of several trees are those of each tree in turn. -/
theorem postorderAll_eq (trees : List Tree) : postorderAll trees = trees.flatMap postorder := by
  induction trees with
  | nil => rfl
  | cons tree trees inductionHypothesis => simp [postorderAll, inductionHypothesis]

/-- A group comes after all that is in its children. -/
theorem postorder_group (id : TypeId) (eldest : Tree) (others : List Tree) :
    (Tree.group id eldest others).postorder =
      (eldest :: others).flatMap postorder ++ [.group id eldest others] := by
  simp [postorder, postorderAll_eq]

/-- The listed trees are the subtrees. -/
theorem mem_postorder_iff (sub tree : Tree) : sub ∈ tree.postorder ↔ sub.Within tree := by
  induction tree using by_children with
  | leaf id =>
    rw [postorder, List.mem_singleton]
    constructor
    · rintro rfl
      exact .self
    · rintro ⟨⟩
      rfl
  | group id eldest others inductionHypothesis =>
    rw [postorder_group, List.mem_append, List.mem_flatMap, List.mem_singleton]
    constructor
    · rintro (⟨child, listed, member⟩ | rfl)
      · exact .child listed ((inductionHypothesis child listed).mp member)
      · exact .self
    · rintro (_ | ⟨listed, within⟩)
      · exact Or.inr rfl
      · exact Or.inl ⟨_, listed, (inductionHypothesis _ listed).mpr within⟩

/-- The ranges of several trees are listed in the order of the subtrees, if this holds for
each tree. -/
theorem rangesAll_postorder {trees : List Tree}
    (each : ∀ tree ∈ trees, ∀ next, (tree.ranges next).map Prod.fst = tree.postorder.map root)
    (next : Nat) :
    (rangesAll next trees).map Prod.fst = (trees.flatMap postorder).map root := by
  induction trees generalizing next with
  | nil => rfl
  | cons tree trees inductionHypothesis =>
    rw [List.forall_mem_cons] at each
    rw [rangesAll, List.map_append, each.1, inductionHypothesis each.2, List.flatMap_cons,
      List.map_append]

/-- The ranges of a tree are listed in the order of its subtrees. -/
theorem ranges_postorder (tree : Tree) (next : Nat) :
    (tree.ranges next).map Prod.fst = tree.postorder.map root := by
  induction tree using by_children generalizing next with
  | leaf id => rfl
  | group id eldest others inductionHypothesis =>
    rw [ranges_group, postorder_group, List.map_append, List.map_append,
      rangesAll_postorder inductionHypothesis]
    rfl

/-- The subtrees stand for the types of the tree, each for one. -/
theorem postorder_roots_perm (tree : Tree) : (tree.postorder.map root).Perm tree.ids := by
  rw [← tree.ranges_postorder 0]
  exact tree.ranges_keys 0

/-- Every type of a tree is the root of a subtree. -/
theorem mem_ids_iff_within (tree : Tree) (id : TypeId) :
    id ∈ tree.ids ↔ ∃ sub : Tree, sub.Within tree ∧ sub.root = id := by
  rw [← tree.postorder_roots_perm.mem_iff, List.mem_map]
  simp only [mem_postorder_iff]

/-- The marks of several trees are those of their subtrees, if this holds for each tree. -/
theorem marksAll_postorder {trees : List Tree} (rangeOf : TypeId → TagRange)
    (each : ∀ tree ∈ trees, ∀ next, (∀ entry ∈ tree.ranges next, rangeOf entry.1 = entry.2) →
      tree.marks next = tree.postorder.flatMap fun sub => sub.ownMarks (rangeOf sub.root))
    (next : Nat) (given : ∀ entry ∈ rangesAll next trees, rangeOf entry.1 = entry.2) :
    marksAll next trees =
      (trees.flatMap postorder).flatMap fun sub => sub.ownMarks (rangeOf sub.root) := by
  induction trees generalizing next with
  | nil => rfl
  | cons tree trees inductionHypothesis =>
    rw [List.forall_mem_cons] at each
    rw [rangesAll, List.forall_mem_append] at given
    rw [marksAll, each.1 next given.1, inductionHypothesis each.2 _ given.2, List.flatMap_cons,
      List.flatMap_append]

/-- The marks of a tree are those of its subtrees in their order, each with the numbers of
its range. -/
theorem marks_postorder (rangeOf : TypeId → TagRange) (tree : Tree) (next : Nat)
    (given : ∀ entry ∈ tree.ranges next, rangeOf entry.1 = entry.2) :
    tree.marks next = tree.postorder.flatMap fun sub => sub.ownMarks (rangeOf sub.root) := by
  induction tree using by_children generalizing next with
  | leaf id =>
    have own : rangeOf id = .single next := given (id, .single next) (by simp [ranges])
    simp [marks, postorder, ownMarks, root, own, TagRange.single]
  | group id eldest others inductionHypothesis =>
    rw [ranges_group, List.forall_mem_append] at given
    have own : rangeOf id = (Tree.group id eldest others).range next :=
      given.2 (id, _) List.mem_cons_self
    rw [marks_group, postorder_group, List.flatMap_append, List.flatMap_singleton,
      marksAll_postorder rangeOf inductionHypothesis next given.1, ownMarks, root, own]
    rfl

namespace Grown

variable {registry : Registry} {links : Links} {tree : Tree}

/-- The type of a subtree has a name. -/
theorem name_within (finished : registry.Finished links) (grown : tree.Grown registry links)
    {sub : Tree} (within : sub.Within tree) :
    ∃ name, registry.name sub.root = .ok name ∧ registry.name? sub.root = some name := by
  have member : sub.root ∈ tree.ids := (tree.mem_ids_iff_within sub.root).mpr ⟨sub, within, rfl⟩
  obtain ⟨name, named⟩ := grown.named finished _ member
  exact ⟨name, (registry.name_ok_iff _ _).mpr named, named⟩

/-- The marks of a grown tree are those of its subtrees in their order, each with the range
that is looked up for it. -/
theorem marks_by_lookup (finished : registry.Finished links) (grown : tree.Grown registry links)
    (next : Nat) :
    tree.marks next = tree.postorder.flatMap fun sub =>
      sub.ownMarks (((tree.ranges next).lookup sub.root).getD (.single next)) := by
  apply marks_postorder (fun id => ((tree.ranges next).lookup id).getD (.single next))
  intro entry member
  rw [(grown.lookup_range_iff finished next entry.1 entry.2).mpr member, Option.getD_some]

/-- The labels in the order of the subtrees are those of the marks, whatever the first
number is. -/
theorem labels_ok (finished : registry.Finished links) (grown : tree.Grown registry links)
    (next : Nat) :
    tree.labels registry = .ok ((tree.entries registry next).map TagEntry.label) := by
  have each : ∀ sub ∈ tree.postorder,
      (do return sub.ownLabels (← registry.name sub.root)) =
        Except.ok (ε := Fault) (sub.ownLabels ((registry.name? sub.root).getD "")) := by
    intro sub member
    obtain ⟨name, answered, found⟩ :=
      grown.name_within finished ((mem_postorder_iff sub tree).mp member)
    rw [answered, found]
    rfl
  have marked : (tree.entries registry next).map TagEntry.label =
      (tree.marks next).map fun mark => mark.1.labelIn registry := by
    simp [entries]
  rw [labels, Outcome.mapM_of_forall each, marked, grown.marks_by_lookup finished next,
    List.map_flatMap, List.flatMap_def]
  refine congrArg (fun parts => Except.ok (List.flatten parts)) (List.map_congr_left ?_)
  intro sub _
  cases sub <;> rfl

end Grown

end Tree

end Taxonomy
