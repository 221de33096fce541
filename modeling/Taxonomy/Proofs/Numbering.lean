import Taxonomy.Proofs.Growth
import Taxonomy.TagTable

/-!
# Numbers of a tree

A tree that takes its numbers from some value on gives them to its final types in
the order in which it lists them. The final types of any subtree stand side by
side in that list, so the subtree owns one run of numbers, and its range is exactly
this run. A number is thus in the range of a type exactly if it is the number of a
final type below it.

The ranges and the marks of a tree are given here in closed form: from the first
number and the numbers of final types, without a counter and without a table. That
the allocator comes to the same is shown where the allocator is.
-/
namespace Taxonomy

open Relation

/-- What a label stands for: the number of a final type, or the first or last
number below an abstract type. -/
inductive TagMark where
  | only (id : TypeId)
  | first (id : TypeId)
  | last (id : TypeId)
deriving DecidableEq, Repr

namespace TagMark

/-- The type that the label speaks of. -/
def type : TagMark → TypeId
  | .only id => id
  | .first id => id
  | .last id => id

/-- The label for the type of a given name. -/
def label (mark : TagMark) (name : String) : String :=
  match mark with
  | .only _ => name
  | .first _ => "First" ++ name
  | .last _ => "Last" ++ name

end TagMark

namespace Tree

/-- How many numbers a tree takes. -/
def width (tree : Tree) : Nat :=
  tree.leaves.length

/-- The range of a tree whose first number is `next`. -/
def range (tree : Tree) (next : Nat) : TagRange :=
  ⟨next, next + tree.width - 1⟩

mutual

/-- The marks of a tree that takes its numbers from `next` on. The marks of an
abstract type come after those below it. -/
def marks (next : Nat) : Tree → List (TagMark × Nat)
  | .leaf id => [(.only id, next)]
  | .group id eldest others =>
    eldest.marks next ++ marksAll (next + eldest.width) others ++
      [(.first id, next), (.last id, ((Tree.group id eldest others).range next).last)]

/-- The marks of several trees that take their numbers one after the other. -/
def marksAll (next : Nat) : List Tree → List (TagMark × Nat)
  | [] => []
  | tree :: trees => tree.marks next ++ marksAll (next + tree.width) trees

end

mutual

/-- The ranges of the types of a tree that takes its numbers from `next` on. The
range of an abstract type comes after those below it. -/
def ranges (next : Nat) : Tree → List (TypeId × TagRange)
  | .leaf id => [(id, .single next)]
  | .group id eldest others =>
    eldest.ranges next ++ rangesAll (next + eldest.width) others ++
      [(id, (Tree.group id eldest others).range next)]

/-- The ranges of the types of several trees. -/
def rangesAll (next : Nat) : List Tree → List (TypeId × TagRange)
  | [] => []
  | tree :: trees => tree.ranges next ++ rangesAll (next + tree.width) trees

end

/-- The first tree is the second one or stands somewhere below its root. -/
inductive Within (sub : Tree) : Tree → Prop
  | self : Within sub sub
  | child {id : TypeId} {eldest tree : Tree} {others : List Tree}
      (member : tree ∈ eldest :: others) (within : Within sub tree) :
      Within sub (.group id eldest others)

/-- Subtrees of grown trees are grown. -/
theorem Grown.within {registry : Registry} {links : Links} {sub tree : Tree}
    (grown : tree.Grown registry links) (within : sub.Within tree) :
    sub.Grown registry links := by
  induction within with
  | self => exact grown
  | child member _ inductionHypothesis =>
    cases grown with
    | group _ _ _ children => exact inductionHypothesis (children _ member)

/-- The children of a group take their numbers before the group closes with the
range of all. -/
theorem ranges_group (next : Nat) (id : TypeId) (eldest : Tree) (others : List Tree) :
    (Tree.group id eldest others).ranges next =
      rangesAll next (eldest :: others) ++ [(id, (Tree.group id eldest others).range next)] := by
  simp [ranges, rangesAll]

/-- A range of several trees is one of some tree among them, which starts after
the numbers of the trees before it. -/
theorem mem_rangesAll (next : Nat) (trees : List Tree) (entry : TypeId × TagRange)
    (member : entry ∈ rangesAll next trees) :
    ∃ before tree after, trees = before ++ tree :: after ∧
      entry ∈ tree.ranges (next + (before.flatMap leaves).length) := by
  induction trees generalizing next with
  | nil => simp [rangesAll] at member
  | cons tree trees inductionHypothesis =>
    rw [rangesAll, List.mem_append] at member
    rcases member with first | later
    · exact ⟨[], tree, trees, rfl, by simpa using first⟩
    · obtain ⟨before, found, after, rfl, inside⟩ := inductionHypothesis _ later
      refine ⟨tree :: before, found, after, rfl, ?_⟩
      simpa [width, Nat.add_assoc] using inside

/-- Every range belongs to a subtree. The final types of the subtree stand side by
side in the tree, and the range starts after as many numbers as final types stand
before them. -/
theorem ranges_block (tree : Tree) (next : Nat) (id : TypeId) (range : TagRange)
    (member : (id, range) ∈ tree.ranges next) :
    ∃ (sub : Tree) (before after : List TypeId), sub.Within tree ∧ sub.root = id ∧
      tree.leaves = before ++ sub.leaves ++ after ∧ range = sub.range (next + before.length) := by
  induction tree using by_children generalizing next with
  | leaf top =>
    obtain ⟨rfl, rfl⟩ : id = top ∧ range = .single next := by simpa [ranges] using member
    exact ⟨.leaf id, [], [], .self, rfl, by simp,
      by simp [Tree.range, width, leaves, TagRange.single]⟩
  | group top eldest others inductionHypothesis =>
    rw [ranges_group, List.mem_append, List.mem_singleton, Prod.mk.injEq] at member
    rcases member with below | ⟨rfl, rfl⟩
    · obtain ⟨earlier, child, later, split, inside⟩ := mem_rangesAll next _ _ below
      have listed : child ∈ eldest :: others := by simp [split]
      obtain ⟨sub, before, after, within, named, leaves, place⟩ :=
        inductionHypothesis child listed _ inside
      refine ⟨sub, earlier.flatMap Tree.leaves ++ before, after ++ later.flatMap Tree.leaves,
        .child listed within, named, ?_, ?_⟩
      · rw [leaves_group, split, List.flatMap_append, List.flatMap_cons, leaves]
        simp
      · rw [place, List.length_append, Nat.add_assoc]
    · exact ⟨.group id eldest others, [], [], .self, rfl, by simp, by simp⟩

/-- The ranges of several trees are for their types, in some order. -/
theorem rangesAll_keys (trees : List Tree)
    (each : ∀ tree ∈ trees, ∀ next, ((tree.ranges next).map Prod.fst).Perm tree.ids) (next : Nat) :
    ((rangesAll next trees).map Prod.fst).Perm (trees.flatMap ids) := by
  induction trees generalizing next with
  | nil => exact List.Perm.refl _
  | cons tree trees inductionHypothesis =>
    rw [List.forall_mem_cons] at each
    rw [rangesAll, List.map_append, List.flatMap_cons]
    exact (each.1 next).append (inductionHypothesis each.2 _)

/-- Every type of a tree has exactly one range. -/
theorem ranges_keys (tree : Tree) (next : Nat) :
    ((tree.ranges next).map Prod.fst).Perm tree.ids := by
  induction tree using by_children generalizing next with
  | leaf id => simp [ranges, ids]
  | group id eldest others inductionHypothesis =>
    rw [ranges_group, List.map_append, List.map_singleton, ids_group]
    exact (List.perm_append_singleton id _).trans
      ((rangesAll_keys _ inductionHypothesis next).cons id)

end Tree

/-- Where no key stands twice, looking a key up finds exactly what is listed with
it. -/
theorem lookup_some_iff {β : Type} (entries : List (TypeId × β))
    (distinct : (entries.map Prod.fst).Nodup) (id : TypeId) (value : β) :
    entries.lookup id = some value ↔ (id, value) ∈ entries := by
  induction entries with
  | nil => simp
  | cons entry entries inductionHypothesis =>
    obtain ⟨key, content⟩ := entry
    rw [List.map_cons, List.nodup_cons] at distinct
    by_cases same : id = key
    · subst same
      have absent : (id, value) ∉ entries := fun member =>
        distinct.1 (List.mem_map.mpr ⟨_, member, rfl⟩)
      simp [absent, eq_comm]
    · have other : (id == key) = false := by simp [same]
      simp [List.lookup_cons, other, same, inductionHypothesis distinct.2]

/-- A range holds the values between its first and its last. -/
theorem TagRange.contains_iff (range : TagRange) (value : Nat) :
    range.contains value = true ↔ range.first ≤ value ∧ value ≤ range.last := by
  simp [TagRange.contains]

namespace Tree

/-- The range of a tree holds as many values as the tree has final types. -/
theorem range_contains_iff (tree : Tree) (next value : Nat) :
    (tree.range next).contains value = true ↔ next ≤ value ∧ value < next + tree.leaves.length := by
  have positive : 0 < tree.leaves.length := List.length_pos_iff.mpr tree.leaves_ne_nil
  rw [TagRange.contains_iff]
  change next ≤ value ∧ value ≤ next + tree.leaves.length - 1 ↔ _
  omega

/-- The children of a group are marked before the group is. -/
theorem marks_group (next : Nat) (id : TypeId) (eldest : Tree) (others : List Tree) :
    (Tree.group id eldest others).marks next =
      marksAll next (eldest :: others) ++
        [(.first id, next), (.last id, ((Tree.group id eldest others).range next).last)] := by
  simp [marks, marksAll]

/-- A mark of several trees is one of some tree among them, which takes its numbers
within those of all. -/
theorem mem_marksAll (next : Nat) (trees : List Tree) (mark : TagMark × Nat)
    (member : mark ∈ marksAll next trees) :
    ∃ tree ∈ trees, ∃ first, next ≤ first ∧
      first + tree.width ≤ next + (trees.flatMap leaves).length ∧ mark ∈ tree.marks first := by
  induction trees generalizing next with
  | nil => simp [marksAll] at member
  | cons tree trees inductionHypothesis =>
    rw [marksAll, List.mem_append] at member
    rcases member with first | later
    · refine ⟨tree, List.mem_cons_self, next, Nat.le_refl next, ?_, first⟩
      simp [width]
    · obtain ⟨found, listed, start, low, bound, inside⟩ := inductionHypothesis _ later
      refine ⟨found, List.mem_cons_of_mem _ listed, start, by omega, ?_, inside⟩
      simp only [width, List.flatMap_cons, List.length_append] at bound ⊢
      omega

/-- The numbers of a tree go from its first one to that of its last final type. -/
theorem marks_within (tree : Tree) (next : Nat) :
    ∀ mark ∈ tree.marks next, next ≤ mark.2 ∧ mark.2 ≤ next + tree.width - 1 := by
  induction tree using by_children generalizing next with
  | leaf id => simp [marks, width, leaves]
  | group id eldest others inductionHypothesis =>
    intro mark member
    have positive : 0 < (Tree.group id eldest others).width :=
      List.length_pos_iff.mpr (leaves_ne_nil _)
    rw [marks_group, List.mem_append, List.mem_pair] at member
    rcases member with below | rfl | rfl
    · obtain ⟨child, listed, first, low, bound, inside⟩ := mem_marksAll next _ mark below
      have within := inductionHypothesis child listed first mark inside
      rw [← leaves_group id] at bound
      change first + child.width ≤ next + (Tree.group id eldest others).width at bound
      omega
    · dsimp only
      omega
    · dsimp only [Tree.range]
      omega

/-- The number of the last final type is marked. -/
theorem marks_reach (tree : Tree) (next : Nat) :
    ∃ mark ∈ tree.marks next, mark.2 = next + tree.width - 1 := by
  cases tree with
  | leaf id => exact ⟨(.only id, next), by simp [marks], by simp [width, leaves]⟩
  | group id eldest others =>
    refine ⟨(.last id, ((Tree.group id eldest others).range next).last), ?_, rfl⟩
    simp [marks]

/-- Of several trees the number of the last final type is marked. -/
theorem marksAll_reach (trees : List Tree) (some : trees ≠ []) (next : Nat) :
    ∃ mark ∈ marksAll next trees, mark.2 = next + (trees.flatMap leaves).length - 1 := by
  induction trees generalizing next with
  | nil => exact absurd rfl some
  | cons tree trees inductionHypothesis =>
    rw [marksAll, List.flatMap_cons, List.length_append]
    by_cases last : trees = []
    · obtain ⟨mark, member, value⟩ := tree.marks_reach next
      exact ⟨mark, List.mem_append_left _ member, by simpa [last, width] using value⟩
    · obtain ⟨mark, member, value⟩ := inductionHypothesis last (next + tree.width)
      refine ⟨mark, List.mem_append_right _ member, ?_⟩
      rw [value, width]
      omega

namespace Grown

variable {registry : Registry} {links : Links} {tree : Tree}

/-- A range can be looked up exactly if the tree computes it. -/
theorem lookup_range_iff (finished : registry.Finished links) (grown : tree.Grown registry links)
    (next : Nat) (id : TypeId) (range : TagRange) :
    (tree.ranges next).lookup id = some range ↔ (id, range) ∈ tree.ranges next := by
  apply lookup_some_iff
  exact (tree.ranges_keys next).nodup_iff.mpr (grown.ids_nodup finished)

/-- A type outside the tree has no range. -/
theorem lookup_range_none (tree : Tree) (next : Nat) (id : TypeId) (outside : id ∉ tree.ids) :
    (tree.ranges next).lookup id = none := by
  rw [List.lookup_eq_none_iff]
  intro entry member
  have listed : entry.1 ∈ tree.ids :=
    (tree.ranges_keys next).mem_iff.mp (List.mem_map_of_mem member)
  rw [bne_iff_ne]
  rintro rfl
  exact outside listed

/-- Every type of the tree has the range of its subtree, whose final types stand
side by side. -/
theorem range_of_type (finished : registry.Finished links) (grown : tree.Grown registry links)
    (next : Nat) {id : TypeId} (member : id ∈ tree.ids) :
    ∃ (sub : Tree) (before after : List TypeId), sub.Grown registry links ∧ sub.root = id ∧
      tree.leaves = before ++ sub.leaves ++ after ∧
      (tree.ranges next).lookup id = some (sub.range (next + before.length)) := by
  have keyed : id ∈ (tree.ranges next).map Prod.fst := (tree.ranges_keys next).mem_iff.mpr member
  obtain ⟨⟨_, range⟩, listed, rfl⟩ := List.mem_map.mp keyed
  obtain ⟨sub, before, after, within, named, leaves, place⟩ := ranges_block tree next _ range listed
  refine ⟨sub, before, after, grown.within within, named, leaves, ?_⟩
  rw [grown.lookup_range_iff finished, ← place]
  exact listed

/-- No final type stands twice in a grown tree. -/
theorem leaves_nodup (finished : registry.Finished links) (grown : tree.Grown registry links) :
    tree.leaves.Nodup :=
  (grown.ids_nodup finished).sublist tree.leaves_sublist

/-- A grown tree whose root is final is a leaf. -/
theorem eq_leaf (grown : tree.Grown registry links) {type : TypeDef}
    (found : registry.types[tree.root]? = some type) (final : type.isFinal = true) :
    tree = .leaf tree.root := by
  cases grown with
  | leaf _ _ => rfl
  | group there abstract _ _ =>
    obtain rfl := Option.some.inj (there.symm.trans found)
    simp [final] at abstract

/-- The final types of a tree get the numbers from the first one on, in the order
in which the tree lists them. -/
theorem range_of_leaf (finished : registry.Finished links) (grown : tree.Grown registry links)
    (next : Nat) {position : Nat} {id : TypeId} (listed : tree.leaves[position]? = some id) :
    (tree.ranges next).lookup id = some (.single (next + position)) := by
  have member : id ∈ tree.leaves := List.mem_of_getElem? listed
  obtain ⟨inTree, type, found, final⟩ := (grown.mem_leaves_iff id).mp member
  obtain ⟨sub, before, after, subGrown, rfl, leaves, range⟩ :=
    grown.range_of_type finished next inTree
  have alone : sub.leaves = [sub.root] := by
    rw [subGrown.eq_leaf found final]
    rfl
  -- The type stands right behind `before`, and nowhere else.
  have place : position = before.length := by
    have inside : position < tree.leaves.length := (List.getElem?_eq_some_iff.mp listed).1
    apply (List.getElem?_inj inside (grown.leaves_nodup finished)).mp
    rw [listed, leaves, alone]
    simp
  rw [range, Tree.range, width, alone, ← place]
  simp [TagRange.single]

/-- A number lies in the range of a type of the tree exactly if it is the number of
a final type below this type.

The range is the run of numbers of the subtree. A number of the run belongs to the
final type at its place, which is one of the subtree; and a final type below the
type is one of the subtree, so that its number is in the run. -/
theorem contains_iff_below (finished : registry.Finished links)
    (grown : tree.Grown registry links) (next value : Nat) {id : TypeId}
    (member : id ∈ tree.ids) :
    ((tree.ranges next).lookup id).any (fun range => range.contains value) = true ↔
      ∃ position leaf, value = next + position ∧ tree.leaves[position]? = some leaf ∧
        links.bases.Below leaf id := by
  obtain ⟨sub, before, after, subGrown, rfl, leaves, range⟩ :=
    grown.range_of_type finished next member
  have shifted (place : Nat) (inside : place < sub.leaves.length) :
      tree.leaves[before.length + place]? = sub.leaves[place]? := by
    rw [leaves, List.append_assoc, List.getElem?_append_right (Nat.le_add_right _ _),
      Nat.add_sub_cancel_left, List.getElem?_append_left inside]
  rw [range, Option.any_some, range_contains_iff]
  constructor
  · rintro ⟨low, high⟩
    obtain ⟨place, rfl⟩ := Nat.exists_eq_add_of_le low
    have inside : place < sub.leaves.length := by omega
    have found : sub.leaves[place]? = some sub.leaves[place] := List.getElem?_eq_getElem inside
    refine ⟨before.length + place, sub.leaves[place], by omega, (shifted place inside).trans found,
      ?_⟩
    have inSub : sub.leaves[place] ∈ sub.ids :=
      ((subGrown.mem_leaves_iff _).mp (List.getElem_mem inside)).1
    exact (subGrown.mem_ids_iff finished _).mp inSub
  · rintro ⟨position, leaf, rfl, listed, below⟩
    have final := ((grown.mem_leaves_iff leaf).mp (List.mem_of_getElem? listed)).2
    have inSub : leaf ∈ sub.leaves :=
      (subGrown.mem_leaves_iff leaf).mpr ⟨(subGrown.mem_ids_iff finished leaf).mpr below, final⟩
    obtain ⟨place, inside, found⟩ := List.mem_iff_getElem.mp inSub
    have same : position = before.length + place := by
      have bound : position < tree.leaves.length := (List.getElem?_eq_some_iff.mp listed).1
      apply (List.getElem?_inj bound (grown.leaves_nodup finished)).mp
      rw [listed, shifted place inside, List.getElem?_eq_getElem inside, found]
    omega

end Grown

end Tree

end Taxonomy
