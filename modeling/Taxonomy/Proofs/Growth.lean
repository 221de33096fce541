import Mathlib.Data.List.Flatten
import Mathlib.Data.List.Nodup
import Taxonomy.Proofs.Registration
import Taxonomy.Tree.Growth

/-!
# Grown trees

A tree is grown from a finished registry if its leaves are final types and each
group is an abstract type with one child for each type derived from it, in the
order of their names. Such a tree holds exactly the types that lie below its root,
each once.

Growing with a bounded depth yields such trees and nothing else. It succeeds
exactly if every abstract type below the root has a derived type: with every level
down, the way up gets longer by one, and no way up is longer than the number of
types, so the bound on the depth never stops a tree that could be grown.
-/
namespace Taxonomy

open Relation

namespace Tree

/-- To show something of all trees, show it of a leaf, and of a group whose
children all have it. -/
theorem by_children {motive : Tree → Prop} (leaf : ∀ id, motive (.leaf id))
    (group : ∀ id eldest others, (∀ child ∈ eldest :: others, motive child) →
      motive (.group id eldest others)) (tree : Tree) : motive tree :=
  @Tree.rec motive (fun trees => ∀ child ∈ trees, motive child) leaf
    (fun id eldest others first rest =>
      group id eldest others (List.forall_mem_cons.mpr ⟨first, rest⟩))
    (fun _ member => absurd member List.not_mem_nil)
    (fun _ _ first rest => List.forall_mem_cons.mpr ⟨first, rest⟩) tree

/-- The types of several trees are those of each tree in turn. -/
theorem idsAll_eq (trees : List Tree) : idsAll trees = trees.flatMap ids := by
  induction trees with
  | nil => rfl
  | cons tree trees inductionHypothesis => simp [idsAll, inductionHypothesis]

/-- The final types of several trees are those of each tree in turn. -/
theorem leavesAll_eq (trees : List Tree) : leavesAll trees = trees.flatMap leaves := by
  induction trees with
  | nil => rfl
  | cons tree trees inductionHypothesis => simp [leavesAll, inductionHypothesis]

/-- The types of a group are its own and those of its children. -/
theorem ids_group (id : TypeId) (eldest : Tree) (others : List Tree) :
    (Tree.group id eldest others).ids = id :: (eldest :: others).flatMap ids := by
  simp [ids, idsAll_eq]

/-- The final types of a group are those of its children. -/
theorem leaves_group (id : TypeId) (eldest : Tree) (others : List Tree) :
    (Tree.group id eldest others).leaves = (eldest :: others).flatMap leaves := by
  simp [leaves, leavesAll_eq]

/-- The final types stand among all types in the same order. -/
theorem leaves_sublist (tree : Tree) : tree.leaves.Sublist tree.ids := by
  induction tree using by_children with
  | leaf id => exact List.Sublist.refl _
  | group id eldest others inductionHypothesis =>
    rw [leaves_group, ids_group]
    exact List.Sublist.cons _ (List.Sublist.flatMap_right _ inductionHypothesis)

/-- Every tree has a final type. -/
theorem leaves_ne_nil (tree : Tree) : tree.leaves ≠ [] := by
  induction tree using by_children with
  | leaf id => simp [leaves]
  | group id eldest others inductionHypothesis =>
    rw [leaves_group, List.flatMap_cons]
    simp [inductionHypothesis eldest List.mem_cons_self]

/-- The tree is grown from the registry: leaves are final, and a group is abstract
and has a child for each type derived from it, in their order. -/
inductive Grown (registry : Registry) (links : Links) : Tree → Prop
  | leaf {id : TypeId} {type : TypeDef} (found : registry.types[id]? = some type)
      (final : type.isFinal = true) : Grown registry links (.leaf id)
  | group {id : TypeId} {type : TypeDef} {eldest : Tree} {others : List Tree}
      (found : registry.types[id]? = some type) (abstract : type.isFinal = false)
      (children : registry.derivedFrom links.bases id = (eldest :: others).map root)
      (grown : ∀ child ∈ eldest :: others, Grown registry links child) :
      Grown registry links (.group id eldest others)

namespace Grown

variable {registry : Registry} {links : Links} {tree : Tree}

/-- The root of a child has the root of the group as its base. -/
theorem child_step (finished : registry.Finished links) {id : TypeId} {children : List Tree}
    (derived : registry.derivedFrom links.bases id = children.map root) {child : Tree}
    (member : child ∈ children) : links.bases.Step child.root id := by
  rw [← finished.mem_derived_iff, derived]
  exact List.mem_map_of_mem member

/-- The types of a grown tree are those that lie below its root. Downwards each
child adds one step. Upwards the last step before the root leads from the root of
a child, since a final type is nobody's base. -/
theorem mem_ids_iff (finished : registry.Finished links) (grown : tree.Grown registry links)
    (id : TypeId) : id ∈ tree.ids ↔ links.bases.Below id tree.root := by
  induction grown with
  | @leaf top type found final =>
    simp only [ids, root, List.mem_singleton]
    constructor
    · rintro rfl
      exact ReflTransGen.refl
    · intro below
      rcases ReflTransGen.cases_tail below with same | ⟨last, _, step⟩
      · exact same.symm
      · have abstract := finished.faithful.bases_abstract last top type step found
        simp [final] at abstract
  | @group top type eldest others found abstract derived _ inductionHypothesis =>
    simp only [ids_group, root, List.mem_cons, List.mem_flatMap]
    constructor
    · rintro (rfl | ⟨child, member, under⟩)
      · exact ReflTransGen.refl
      · have member : child ∈ eldest :: others := List.mem_cons.mpr member
        exact ReflTransGen.tail ((inductionHypothesis child member).mp under)
          (child_step finished derived member)
    · intro below
      rcases ReflTransGen.cases_tail below with same | ⟨last, rest, step⟩
      · exact Or.inl same.symm
      · rw [← finished.mem_derived_iff, derived] at step
        obtain ⟨child, member, rfl⟩ := List.mem_map.mp step
        exact Or.inr ⟨child, List.mem_cons.mp member, (inductionHypothesis child member).mpr rest⟩

/-- Every type of a grown tree is declared. -/
theorem declared (grown : tree.Grown registry links) :
    ∀ id ∈ tree.ids, id < registry.types.length := by
  induction grown with
  | leaf found final =>
    intro other member
    rw [ids, List.mem_singleton] at member
    exact member ▸ (List.getElem?_eq_some_iff.mp found).1
  | group found abstract derived _ inductionHypothesis =>
    intro other member
    rw [ids_group, List.mem_cons, List.mem_flatMap] at member
    rcases member with rfl | ⟨child, listed, under⟩
    · exact (List.getElem?_eq_some_iff.mp found).1
    · exact inductionHypothesis child listed other under

/-- No type stands twice in a grown tree: a group is not below its own child, and
nothing is below two siblings. -/
theorem ids_nodup (finished : registry.Finished links) (grown : tree.Grown registry links) :
    tree.ids.Nodup := by
  have acyclic := finished.faithful.acyclic
  induction grown with
  | leaf found final => simp [ids]
  | @group top type eldest others found abstract derived grown inductionHypothesis =>
    rw [ids_group, List.nodup_cons, List.nodup_flatMap]
    refine ⟨?_, inductionHypothesis, ?_⟩
    · intro member
      obtain ⟨child, listed, under⟩ := List.mem_flatMap.mp member
      have below := ((grown child listed).mem_ids_iff finished top).mp under
      exact acyclic top (TransGen.tail' below (child_step finished derived listed))
    · have sorted := finished.derived_sorted top
      rw [derived, List.pairwise_map] at sorted
      refine sorted.imp_of_mem ?_
      intro left right leftMember rightMember before id underLeft underRight
      have same : left.root = right.root := Bases.siblings_disjoint acyclic
        (child_step finished derived leftMember) (child_step finished derived rightMember)
        (((grown left leftMember).mem_ids_iff finished id).mp underLeft)
        (((grown right rightMember).mem_ids_iff finished id).mp underRight)
      rw [same] at before
      exact registry.before_asymm _ _ before before

/-- The final types of a grown tree are its types that are declared final. -/
theorem mem_leaves_iff (grown : tree.Grown registry links) (id : TypeId) :
    id ∈ tree.leaves ↔
      id ∈ tree.ids ∧ ∃ type, registry.types[id]? = some type ∧ type.isFinal = true := by
  induction grown with
  | @leaf top type found final =>
    simp only [leaves, ids, List.mem_singleton]
    constructor
    · rintro rfl
      exact ⟨rfl, type, found, final⟩
    · exact fun both => both.1
  | @group top type eldest others found abstract derived grown inductionHypothesis =>
    rw [leaves_group, ids_group, List.mem_cons, List.mem_flatMap, List.mem_flatMap]
    constructor
    · rintro ⟨child, listed, under⟩
      obtain ⟨inChild, final⟩ := (inductionHypothesis child listed).mp under
      exact ⟨Or.inr ⟨child, listed, inChild⟩, final⟩
    · rintro ⟨rfl | ⟨child, listed, under⟩, other, otherFound, final⟩
      · obtain rfl := Option.some.inj (found.symm.trans otherFound)
        simp [abstract] at final
      · exact ⟨child, listed,
          (inductionHypothesis child listed).mpr ⟨under, other, otherFound, final⟩⟩

/-- Every abstract type of a grown tree has a derived type. -/
theorem inhabited (finished : registry.Finished links) (grown : tree.Grown registry links) :
    ∀ id ∈ tree.ids, ∀ type, registry.types[id]? = some type → type.isFinal = false →
      ∃ child, links.bases.Step child id := by
  induction grown with
  | @leaf top other found final =>
    intro id member type there abstract
    rw [ids, List.mem_singleton] at member
    subst member
    obtain rfl := Option.some.inj (found.symm.trans there)
    simp [final] at abstract
  | @group top other eldest others found abstract derived grown inductionHypothesis =>
    intro id member type there isAbstract
    rw [ids_group, List.mem_cons, List.mem_flatMap] at member
    rcases member with rfl | ⟨child, listed, under⟩
    · exact ⟨eldest.root, child_step finished derived List.mem_cons_self⟩
    · exact inductionHypothesis child listed id under type there isAbstract

/-- Only one tree grows from a type. -/
theorem unique {other : Tree} (grown : tree.Grown registry links)
    (otherGrown : other.Grown registry links) (same : tree.root = other.root) : tree = other := by
  induction grown generalizing other with
  | @leaf id type found final =>
    cases otherGrown with
    | @leaf otherId _ _ _ =>
      obtain rfl : id = otherId := same
      rfl
    | @group otherId otherType _ _ otherFound abstract _ _ =>
      obtain rfl : id = otherId := same
      obtain rfl := Option.some.inj (found.symm.trans otherFound)
      simp [final] at abstract
  | @group id type eldest others found abstract derived grown inductionHypothesis =>
    cases otherGrown with
    | @leaf otherId otherType otherFound final =>
      obtain rfl : id = otherId := same
      obtain rfl := Option.some.inj (found.symm.trans otherFound)
      simp [final] at abstract
    | @group otherId otherType otherEldest rest otherFound _ otherDerived otherGrown =>
      obtain rfl : id = otherId := same
      have roots : (eldest :: others).map root = (otherEldest :: rest).map root :=
        derived.symm.trans otherDerived
      have children : eldest :: others = otherEldest :: rest := by
        apply List.ext_getElem
        · simpa using congrArg List.length roots
        · intro position inside otherInside
          apply inductionHypothesis _ (List.getElem_mem inside)
            (otherGrown _ (List.getElem_mem otherInside))
          have there : position < ((eldest :: others).map root).length := by simpa using inside
          simpa only [List.getElem_map] using List.getElem_of_eq roots there
      obtain ⟨rfl, rfl⟩ := List.cons.inj children
      rfl

end Grown

variable {registry : Registry} {links : Links}

/-- With one more level to go, a tree grows as a leaf from a final type, and as a group
from an abstract one with the trees of its derived types, unless there are none. -/
theorem grow_succ_eq (finished : registry.Finished links) (depth : Nat) {id : TypeId}
    {type : TypeDef} (found : registry.types[id]? = some type) :
    grow registry (depth + 1) id =
      if type.isFinal then .ok (.leaf id)
      else (do
        match ← (registry.derivedFrom links.bases id).mapM (grow registry depth) with
        | [] => .error (.emptyHierarchy type.name)
        | eldest :: others => .ok (.group id eldest others)) := by
  have inside : id < registry.types.length := (List.getElem?_eq_some_iff.mp found).1
  rw [grow, (registry.type_ok_iff id type).mpr found, finished.derived_ok inside]
  rfl

/-- A tree of one more level is a leaf of a final type, or the group of an abstract one
whose derived types give at least one tree. -/
theorem grow_succ_ok_iff (finished : registry.Finished links) (depth : Nat) (id : TypeId)
    (tree : Tree) :
    grow registry (depth + 1) id = .ok tree ↔
      ∃ type, registry.types[id]? = some type ∧
        ((type.isFinal = true ∧ tree = .leaf id) ∨
          (type.isFinal = false ∧ ∃ eldest others,
            (registry.derivedFrom links.bases id).mapM (grow registry depth) =
              .ok (eldest :: others) ∧ tree = .group id eldest others)) := by
  constructor
  · intro grown
    cases found : registry.types[id]? with
    | none => simp [grow, Registry.type, Registry.type?, found, bind, Except.bind] at grown
    | some type =>
      refine ⟨type, rfl, ?_⟩
      rw [grow_succ_eq finished depth found] at grown
      cases final : type.isFinal with
      | true =>
        rw [if_pos final] at grown
        exact Or.inl ⟨rfl, (Except.ok.inj grown).symm⟩
      | false =>
        rw [if_neg (by simp [final]), Outcome.bind_ok_iff] at grown
        obtain ⟨trees, each, closed⟩ := grown
        cases trees with
        | nil => cases closed
        | cons eldest others =>
          exact Or.inr ⟨rfl, eldest, others, each, (Except.ok.inj closed).symm⟩
  · rintro ⟨type, found, ⟨final, rfl⟩ | ⟨abstract, eldest, others, each, rfl⟩⟩
    · rw [grow_succ_eq finished depth found, if_pos final]
    · rw [grow_succ_eq finished depth found, if_neg (by simp [abstract]), each]
      rfl

/-- What grows from a type is a grown tree with this type at its root. -/
theorem grow_grown (finished : registry.Finished links) (depth : Nat) (id : TypeId) (tree : Tree)
    (success : grow registry depth id = .ok tree) :
    tree.root = id ∧ tree.Grown registry links := by
  induction depth generalizing id tree with
  | zero =>
    rw [grow, Outcome.bind_ok_iff] at success
    obtain ⟨_, _, impossible⟩ := success
    cases impossible
  | succ depth inductionHypothesis =>
    obtain ⟨type, found, ⟨final, rfl⟩ | ⟨abstract, eldest, others, each, rfl⟩⟩ :=
      (grow_succ_ok_iff finished depth id tree).mp success
    · exact ⟨rfl, .leaf found final⟩
    · have roots : List.Forall₂ (fun child tree => child = root tree)
          (registry.derivedFrom links.bases id) (eldest :: others) :=
        ((Outcome.mapM_ok_iff _ _ _).mp each).imp fun child tree grown =>
          (inductionHypothesis child tree grown).1.symm
      have derived : registry.derivedFrom links.bases id = (eldest :: others).map root := by
        rwa [← List.forall₂_eq_eq_eq, List.forall₂_map_right_iff]
      refine ⟨rfl, .group found abstract derived ?_⟩
      intro child member
      obtain ⟨source, _, grown⟩ := Outcome.mem_of_mapM each member
      exact (inductionHypothesis source child grown).2

/-- A tree grows from a type if every abstract type below it has a derived type
and the depth makes up for what is missing from the way up to its full length. -/
theorem grow_succeeds (finished : registry.Finished links) (depth : Nat) (id : TypeId)
    (inside : id < registry.types.length)
    (enough : registry.types.length < depth + (links.bases.ancestors id).length)
    (inhabited : ∀ other type, links.bases.Below other id → registry.types[other]? = some type →
      type.isFinal = false → ∃ child, links.bases.Step child other) :
    ∃ tree, grow registry depth id = .ok tree := by
  induction depth generalizing id with
  | zero =>
    have bound := finished.ancestors_length_le inside
    omega
  | succ depth inductionHypothesis =>
    have found : registry.types[id]? = some registry.types[id] := List.getElem?_eq_getElem inside
    cases final : registry.types[id].isFinal with
    | true =>
      refine ⟨.leaf id, (grow_succ_ok_iff finished depth id _).mpr ?_⟩
      exact ⟨_, found, Or.inl ⟨final, rfl⟩⟩
    | false =>
      have each : ∀ child ∈ registry.derivedFrom links.bases id,
          ∃ tree, grow registry depth child = .ok tree := by
        intro child member
        have step : links.bases.Step child id := (finished.mem_derived_iff id child).mp member
        refine inductionHypothesis child (finished.step_declared step) ?_ ?_
        · rw [finished.ancestors_length_step step]
          omega
        · intro other type below
          exact inhabited other type (below.tail step)
      obtain ⟨trees, grown⟩ := (Outcome.mapM_succeeds_iff _ _).mpr each
      obtain ⟨child, step⟩ := inhabited id _ ReflTransGen.refl found final
      have aligned := (Outcome.mapM_ok_iff _ _ _).mp grown
      cases trees with
      | nil =>
        have nobody : registry.derivedFrom links.bases id = [] :=
          List.forall₂_nil_right_iff.mp aligned
        rw [← finished.mem_derived_iff, nobody] at step
        exact absurd step List.not_mem_nil
      | cons eldest others =>
        refine ⟨.group id eldest others, (grow_succ_ok_iff finished depth id _).mpr ?_⟩
        exact ⟨_, found, Or.inr ⟨final, eldest, others, grown, rfl⟩⟩

/-- The tree of a name is grown from the type of this name. -/
theorem ofRoot_grown (finished : registry.Finished links) {name : String} {tree : Tree}
    (success : ofRoot registry name = .ok tree) :
    registry.find? name = some tree.root ∧ tree.Grown registry links := by
  rw [ofRoot, Registry.isFinished, finished.linked, Option.isSome_some, if_pos rfl,
    Outcome.bind_ok_iff] at success
  obtain ⟨id, named, grown⟩ := success
  obtain ⟨rfl, shape⟩ := grow_grown finished _ id tree grown
  exact ⟨(Registry.id_ok_iff registry name _).mp named, shape⟩

/-- Where a name has a tree, the registry is finished and the tree is grown from it. -/
theorem ofRoot_reachable (reachable : registry.Reachable) {name : String} {tree : Tree}
    (success : ofRoot registry name = .ok tree) :
    ∃ links, registry.Finished links ∧ registry.find? name = some tree.root ∧
      tree.Grown registry links := by
  have isFinished : registry.isFinished = true := by
    by_contra unfinished
    simp [ofRoot, unfinished] at success
  obtain ⟨links, finished⟩ := reachable.sound.finished isFinished
  exact ⟨links, finished, ofRoot_grown finished success⟩

/-- A name has a tree exactly if it is declared and every abstract type below its
type has a derived type. -/
theorem ofRoot_succeeds_iff (finished : registry.Finished links) (name : String) :
    (∃ tree, ofRoot registry name = .ok tree) ↔
      ∃ top, registry.find? name = some top ∧
        ∀ id type, links.bases.Below id top → registry.types[id]? = some type →
          type.isFinal = false → ∃ child, links.bases.Step child id := by
  constructor
  · rintro ⟨tree, success⟩
    obtain ⟨named, grown⟩ := ofRoot_grown finished success
    refine ⟨tree.root, named, fun id type below => ?_⟩
    exact grown.inhabited finished id ((grown.mem_ids_iff finished id).mpr below) type
  · rintro ⟨top, named, inhabited⟩
    obtain ⟨type, found, _⟩ := (finished.inStep.find?_some_iff name top).mp named
    have inside : top < registry.types.length := (List.getElem?_eq_some_iff.mp found).1
    have positive := Bases.ancestors_positive (finished.faithful.sizes ▸ inside)
    obtain ⟨tree, grown⟩ := grow_succeeds finished registry.types.length top inside
      (by omega) inhabited
    refine ⟨tree, ?_⟩
    rw [ofRoot, Registry.isFinished, finished.linked, Option.isSome_some, if_pos rfl,
      Outcome.bind_ok_iff]
    exact ⟨top, (Registry.id_ok_iff registry name top).mpr named, grown⟩

end Tree

end Taxonomy
