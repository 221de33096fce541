import Taxonomy.Proofs.Facades
import Taxonomy.Proofs.Numbering

/-!
# Facades stand for what is nearest to them

A final type can lie below several public types of a tree. Of these it belongs to the nearest
one, that is to the one that lies below all the others; since the types above a given type
form a chain, there is one as soon as the final type lies below any public type at all. A
public final type belongs to itself.

Gathered from below upwards, what a tree hands up to its root are the final types with no
public type between them and the root, and a public root takes them all. The facades come
out in the order of the tree and are then sorted by name, so that an entry no longer shows
which type it was made for. The statements therefore name the owners in the order of the
entries.
-/
namespace Taxonomy

open Relation

namespace Registry

/-- The type is public under the given name. -/
def PublicAs (registry : Registry) (id : TypeId) (name : String) : Prop :=
  ∃ type, registry.type id = .ok type ∧ type.publicName = some name

/-- The type is public. -/
def Public (registry : Registry) (id : TypeId) : Prop :=
  ∃ name, registry.PublicAs id name

/-- The owner is a public type of the tree at or above the given type, and every other such
type is above the owner. -/
structure NearestPublic (registry : Registry) (tree : Tree) (owner id : TypeId) : Prop where
  within : owner ∈ tree.ids
  isPublic : registry.Public owner
  above : registry.isSubtype id owner = .ok true
  nearest : ∀ other ∈ tree.ids, registry.Public other → registry.isSubtype id other = .ok true →
    registry.isSubtype owner other = .ok true

/-- The facade is that of the owner: it has its public name and stands for the final types of
the tree to which the owner is nearest, in the order of the tree. -/
structure StandsFor (registry : Registry) (tree : Tree) (owner : TypeId) (facade : Facade) :
    Prop where
  named : registry.PublicAs owner facade.name
  ordered : facade.objects.Sublist tree.ids
  objects : ∀ id, id ∈ facade.objects ↔
    id ∈ tree.leaves ∧ registry.NearestPublic tree owner id

/-- The public name of a type, if it has one. -/
def publicName? (registry : Registry) (id : TypeId) : Option String :=
  (registry.type? id).bind TypeDef.publicName

/-- The public name is found exactly if the type is public under it. -/
theorem publicName?_some_iff (registry : Registry) (id : TypeId) (name : String) :
    registry.publicName? id = some name ↔ registry.PublicAs id name := by
  rw [publicName?, Option.bind_eq_some_iff, PublicAs]
  simp only [type_ok_iff, type?]

/-- A public name is found exactly for public types. -/
theorem publicName?_isSome_iff (registry : Registry) (id : TypeId) :
    (registry.publicName? id).isSome = true ↔ registry.Public id := by
  simp only [Option.isSome_iff_exists, publicName?_some_iff, Public]

/-- The name under which a type is public is the one that is found for it. -/
theorem publicName_getD (registry : Registry) {id : TypeId} {name : String}
    (publicAs : registry.PublicAs id name) : (registry.publicName? id).getD "" = name := by
  rw [(registry.publicName?_some_iff id name).mpr publicAs, Option.getD_some]

end Registry

namespace Bases

variable {bases : Bases} {marked : TypeId → Prop}

/-- The owner is marked and at or above the given type, and every other such type is above the
owner. -/
structure Nearest (bases : Bases) (marked : TypeId → Prop) (owner id : TypeId) : Prop where
  isMarked : marked owner
  above : bases.Below id owner
  nearest : ∀ other, marked other → bases.Below id other → bases.Below owner other

/-- On the way up from a type to the top there is no marked type before the top. -/
def FreeUpTo (bases : Bases) (marked : TypeId → Prop) (top id : TypeId) : Prop :=
  ∀ other, marked other → bases.Below id other → bases.Below other top → other = top

/-- A marked type is nearest to what lies below it with a free way up. -/
theorem nearest_iff_free (acyclic : bases.Acyclic) {top id : TypeId} (isMarked : marked top)
    (below : bases.Below id top) :
    bases.Nearest marked top id ↔ bases.FreeUpTo marked top id := by
  constructor
  · rintro ⟨_, _, nearest⟩ other otherMarked above underTop
    exact below_antisymm acyclic underTop (nearest other otherMarked above)
  · intro free
    refine ⟨isMarked, below, fun other otherMarked above => ?_⟩
    rcases below_chain below above with beyond | between
    · exact beyond
    · rw [free other otherMarked above between]
      exact ReflTransGen.refl

/-- The way up to a top is free exactly if the way up to the type before it is, and this type
is not marked itself. -/
theorem freeUpTo_step (acyclic : bases.Acyclic) {child top id : TypeId}
    (step : bases.Step child top) (under : bases.Below id child) :
    bases.FreeUpTo marked top id ↔ ¬ marked child ∧ bases.FreeUpTo marked child id := by
  -- Between the child and the top there is nothing.
  have never {other : TypeId} (underChild : bases.Below other child) : other ≠ top := by
    rintro rfl
    exact acyclic other (TransGen.tail' underChild step)
  constructor
  · intro free
    refine ⟨fun childMarked => ?_, fun other otherMarked above underChild => ?_⟩
    · exact never ReflTransGen.refl (free child childMarked under (ReflTransGen.single step))
    · exact absurd (free other otherMarked above (underChild.tail step)) (never underChild)
  · rintro ⟨childUnmarked, free⟩ other otherMarked above underTop
    have notChild : other ≠ child := fun same => childUnmarked (same ▸ otherMarked)
    rcases below_chain under above with beyond | between
    · rcases (below_of_step step).mp beyond with same | further
      · exact absurd same.symm notChild
      · exact below_antisymm acyclic underTop further
    · exact absurd (free other otherMarked above between) notChild

end Bases

namespace Facade

variable (publicName : TypeId → Option String)

/-- What a tree hands up to its root, before the root closes it. -/
def handedUp : Tree → List TypeId × List Facade
  | .leaf id => ([id], [])
  | .group _ eldest others =>
    ((eldest :: others).flatMap fun child => (harvest publicName child).1,
      (eldest :: others).flatMap fun child => (harvest publicName child).2)

/-- What is found in several trees is found in each. -/
theorem harvestAll_eq (trees : List Tree) :
    harvestAll publicName trees =
      (trees.flatMap fun tree => (harvest publicName tree).1,
        trees.flatMap fun tree => (harvest publicName tree).2) := by
  induction trees with
  | nil => rfl
  | cons tree trees inductionHypothesis => simp [harvestAll, inductionHypothesis]

/-- The root closes what is handed up to it. -/
theorem harvest_eq (tree : Tree) :
    harvest publicName tree = close (publicName tree.root) (handedUp publicName tree) := by
  cases tree with
  | leaf id => rfl
  | group id eldest others => simp [harvest, harvestAll_eq, handedUp, Tree.root]

/-- A final type is still without a facade if it was handed up and the root is not public. -/
theorem mem_left_iff (tree : Tree) (id : TypeId) :
    id ∈ (harvest publicName tree).1 ↔
      publicName tree.root = none ∧ id ∈ (handedUp publicName tree).1 := by
  rw [harvest_eq]
  cases publicName tree.root <;> simp [close]

/-- Final types are handed up in the order of the tree. -/
theorem handedUp_sublist (tree : Tree) :
    (handedUp publicName tree).1.Sublist tree.leaves := by
  induction tree using Tree.by_children with
  | leaf id => exact List.Sublist.refl _
  | group id eldest others inductionHypothesis =>
    rw [handedUp, Tree.leaves_group]
    refine List.Sublist.flatMap_right _ fun child member => ?_
    have whole := inductionHypothesis child member
    rw [harvest_eq]
    cases publicName child.root with
    | none => exact whole
    | some name => exact List.nil_sublist _

/-- Every facade of a tree stands for final types in the order of the tree. -/
theorem objects_sublist (tree : Tree) :
    ∀ facade ∈ (harvest publicName tree).2, facade.objects.Sublist tree.leaves := by
  -- The facade of the root takes what was handed up; the others come with it.
  have closed (tree : Tree) {facade : Facade} (member : facade ∈ (harvest publicName tree).2) :
      facade.objects.Sublist tree.leaves ∨ facade ∈ (handedUp publicName tree).2 := by
    rw [harvest_eq] at member
    cases named : publicName tree.root with
    | none => exact Or.inr (by simpa [named, close] using member)
    | some name =>
      rw [named, close, List.mem_cons] at member
      rcases member with rfl | member
      · exact Or.inl (handedUp_sublist publicName tree)
      · exact Or.inr member
  induction tree using Tree.by_children with
  | leaf id =>
    intro facade member
    rcases closed (.leaf id) member with sub | inner
    · exact sub
    · exact absurd inner List.not_mem_nil
  | group id eldest others inductionHypothesis =>
    intro facade member
    rcases closed (.group id eldest others) member with sub | inner
    · exact sub
    · obtain ⟨child, listed, inChild⟩ := List.mem_flatMap.mp inner
      have part : child.leaves.Sublist ((eldest :: others).flatMap Tree.leaves) := by
        simpa using (List.singleton_sublist.mpr listed).flatMap Tree.leaves
      rw [Tree.leaves_group]
      exact (inductionHypothesis child listed facade inChild).trans part

variable {registry : Registry} {links : Links} {tree : Tree}

/-- The final types that are handed up to the root are those with a free way up to it. -/
theorem mem_handedUp_iff (finished : registry.Finished links) (grown : tree.Grown registry links)
    (id : TypeId) :
    id ∈ (handedUp registry.publicName? tree).1 ↔
      id ∈ tree.leaves ∧ links.bases.FreeUpTo registry.Public tree.root id := by
  have acyclic := finished.faithful.acyclic
  induction grown with
  | @leaf top type found final =>
    refine (and_iff_left_of_imp ?_).symm
    intro member other _ above underTop
    obtain rfl : id = top := List.mem_singleton.mp member
    exact Bases.below_antisymm acyclic underTop above
  | @group top type eldest others found abstract derived grown inductionHypothesis =>
    have through {child : Tree} (listed : child ∈ eldest :: others) (under : id ∈ child.leaves) :
        links.bases.FreeUpTo registry.Public top id ↔
          registry.publicName? child.root = none ∧
            links.bases.FreeUpTo registry.Public child.root id := by
      have below := ((grown child listed).mem_ids_iff finished id).mp
        (child.leaves_sublist.subset under)
      rw [Bases.freeUpTo_step acyclic (Tree.Grown.child_step finished derived listed) below,
        ← registry.publicName?_isSome_iff, Option.not_isSome_iff_eq_none]
    rw [handedUp, Tree.leaves_group, List.mem_flatMap, List.mem_flatMap]
    constructor
    · rintro ⟨child, listed, left⟩
      obtain ⟨unnamed, handed⟩ := (mem_left_iff _ child id).mp left
      obtain ⟨under, free⟩ := (inductionHypothesis child listed).mp handed
      exact ⟨⟨child, listed, under⟩, (through listed under).mpr ⟨unnamed, free⟩⟩
    · rintro ⟨⟨child, listed, under⟩, free⟩
      obtain ⟨unnamed, childFree⟩ := (through listed under).mp free
      refine ⟨child, listed, (mem_left_iff _ child id).mpr ⟨unnamed, ?_⟩⟩
      exact (inductionHypothesis child listed).mpr ⟨under, childFree⟩

/-- The facade has the public name of the owner and stands for the final types to which the
owner is nearest among all public types. -/
structure Covers (registry : Registry) (links : Links) (owner : TypeId) (facade : Facade) :
    Prop where
  named : registry.PublicAs owner facade.name
  objects : ∀ id, id ∈ facade.objects ↔
    (∃ type, registry.types[id]? = some type ∧ type.isFinal = true) ∧
      links.bases.Nearest registry.Public owner id

/-- The facade of a public root covers what was handed up to the root. -/
theorem root_covers (finished : registry.Finished links) (grown : tree.Grown registry links)
    {name : String} (named : registry.publicName? tree.root = some name) :
    Covers registry links tree.root ⟨name, (handedUp registry.publicName? tree).1⟩ := by
  have publicAs := (registry.publicName?_some_iff tree.root name).mp named
  refine ⟨publicAs, fun id => ?_⟩
  rw [mem_handedUp_iff finished grown, grown.mem_leaves_iff, grown.mem_ids_iff finished]
  have nearest_iff (below : links.bases.Below id tree.root) :
      links.bases.Nearest registry.Public tree.root id ↔
        links.bases.FreeUpTo registry.Public tree.root id :=
    Bases.nearest_iff_free finished.faithful.acyclic ⟨name, publicAs⟩ below
  constructor
  · rintro ⟨⟨below, final⟩, free⟩
    exact ⟨final, (nearest_iff below).mpr free⟩
  · rintro ⟨final, nearest⟩
    exact ⟨⟨nearest.above, final⟩, (nearest_iff nearest.above).mp nearest⟩

/-- The facades of a tree cover the public types of the tree, each one, in the order of the
tree. -/
theorem harvest_covers (finished : registry.Finished links) (grown : tree.Grown registry links) :
    List.Forall₂ (Covers registry links)
      (tree.ids.filter fun id => (registry.publicName? id).isSome)
      (harvest registry.publicName? tree).2 := by
  -- With the facades below it, the root adds its own if it is public.
  have closed {tree : Tree} (grown : tree.Grown registry links) {owners : List TypeId}
      (below : List.Forall₂ (Covers registry links) owners
        (handedUp registry.publicName? tree).2) :
      List.Forall₂ (Covers registry links)
        (if (registry.publicName? tree.root).isSome then tree.root :: owners else owners)
        (harvest registry.publicName? tree).2 := by
    rw [harvest_eq]
    cases named : registry.publicName? tree.root with
    | none => exact below
    | some name => exact .cons (root_covers finished grown named) below
  induction grown with
  | @leaf top type found final =>
    rw [Tree.ids, List.filter_cons]
    exact closed (.leaf found final) .nil
  | @group top type eldest others found abstract derived grown inductionHypothesis =>
    rw [Tree.ids_group, List.filter_cons, List.filter_flatMap]
    exact closed (.group found abstract derived grown) (Outcome.forall₂_flatMap inductionHypothesis)

/-- The facades are those that are found from below upwards, in the order of their names. -/
theorem collect_eq (registry : Registry) (tree : Tree) :
    collect registry tree =
      (harvest registry.publicName? tree).2.mergeSort fun left right =>
        decide (left.name ≤ right.name) := by
  rw [← gather_eq]
  rfl

/-- No final type stands in two facades of a tree. -/
theorem collect_objects_nodup (finished : registry.Finished links)
    (grown : tree.Grown registry links) :
    ((collect registry tree).flatMap Facade.objects).Nodup := by
  have all : (allObjects (harvest registry.publicName? tree)).Nodup :=
    (harvest_perm _ tree).nodup_iff.mpr (grown.leaves_nodup finished)
  rw [collect_eq, ((List.mergeSort_perm _ _).flatMap_right _).nodup_iff]
  exact (List.nodup_append.mp all).2.1

/-- A final type that lies below a public type of the tree stands in some facade: it is not
handed up to the end. -/
theorem mem_collect_objects (finished : registry.Finished links)
    (grown : tree.Grown registry links) {id owner : TypeId} (leaf : id ∈ tree.leaves)
    (within : owner ∈ tree.ids) (isPublic : registry.Public owner)
    (above : links.bases.Below id owner) :
    id ∈ (collect registry tree).flatMap Facade.objects := by
  rw [collect_eq, ((List.mergeSort_perm _ _).flatMap_right _).mem_iff]
  have somewhere : id ∈ allObjects (harvest registry.publicName? tree) :=
    (harvest_perm _ tree).mem_iff.mpr leaf
  rcases List.mem_append.mp somewhere with left | object
  · obtain ⟨unnamed, handed⟩ := (mem_left_iff _ tree id).mp left
    have free := ((mem_handedUp_iff finished grown id).mp handed).2
    obtain rfl := free owner isPublic above ((grown.mem_ids_iff finished owner).mp within)
    rw [← registry.publicName?_isSome_iff, unnamed] at isPublic
    cases isPublic
  · exact object

end Facade

namespace Tree.Grown

variable {registry : Registry} {links : Links} {tree : Tree}

/-- The nearest public type within a tree is the nearest of all public types, since a public
type outside the tree is above the whole tree or not above the given type at all. -/
theorem nearestPublic_iff (finished : registry.Finished links) (grown : tree.Grown registry links)
    {owner : TypeId} (within : owner ∈ tree.ids) (id : TypeId) :
    registry.NearestPublic tree owner id ↔ links.bases.Nearest registry.Public owner id := by
  have subtype_iff {top : TypeId} (inTree : top ∈ tree.ids) (low : TypeId) :
      registry.isSubtype low top = .ok true ↔ links.bases.Below low top :=
    finished.isSubtype_below_iff (grown.declared top inTree) low
  constructor
  · rintro ⟨_, isPublic, above, nearest⟩
    rw [subtype_iff within] at above
    refine ⟨isPublic, above, fun other otherPublic otherAbove => ?_⟩
    rcases Bases.below_chain above otherAbove with beyond | between
    · exact beyond
    · have inTree : other ∈ tree.ids := by
        rw [grown.mem_ids_iff finished] at within ⊢
        exact between.trans within
      rw [← subtype_iff inTree] at otherAbove ⊢
      exact nearest other inTree otherPublic otherAbove
  · rintro ⟨isPublic, above, nearest⟩
    refine ⟨within, isPublic, (subtype_iff within id).mpr above, ?_⟩
    intro other inTree otherPublic otherAbove
    rw [subtype_iff inTree] at otherAbove ⊢
    exact nearest other otherPublic otherAbove

/-- A facade that covers a type of the tree is the facade of this type. -/
theorem standsFor_of_covers (finished : registry.Finished links)
    (grown : tree.Grown registry links) {owner : TypeId} (within : owner ∈ tree.ids)
    {facade : Facade} (covers : facade.Covers registry links owner)
    (ordered : facade.objects.Sublist tree.leaves) : registry.StandsFor tree owner facade := by
  refine ⟨covers.named, ordered.trans tree.leaves_sublist, fun id => ?_⟩
  rw [covers.objects, grown.nearestPublic_iff finished within, grown.mem_leaves_iff,
    grown.mem_ids_iff finished]
  constructor
  · rintro ⟨final, nearest⟩
    have underRoot := nearest.above.trans ((grown.mem_ids_iff finished owner).mp within)
    exact ⟨⟨underRoot, final⟩, nearest⟩
  · rintro ⟨⟨_, final⟩, nearest⟩
    exact ⟨final, nearest⟩

end Tree.Grown

namespace Tree

/-- The public types of a tree in the order of their public names, and of the tree where names
are equal. -/
def owners (registry : Registry) (tree : Tree) : List TypeId :=
  (tree.ids.filter fun id => (registry.publicName? id).isSome).mergeSort fun left right =>
    decide ((registry.publicName? left).getD "" ≤ (registry.publicName? right).getD "")

variable {registry : Registry} {links : Links} {tree : Tree}

/-- The owners of a tree are its public types. -/
theorem mem_owners_iff (registry : Registry) (tree : Tree) (id : TypeId) :
    id ∈ tree.owners registry ↔ id ∈ tree.ids ∧ registry.Public id := by
  rw [owners, List.mem_mergeSort, List.mem_filter, registry.publicName?_isSome_iff]

/-- The owners are sorted by their public names, and the order of the tree settles ties. -/
theorem owners_sorted (registry : Registry) (tree : Tree) :
    (tree.owners registry).Pairwise fun left right => ∃ first second,
      registry.PublicAs left first ∧ registry.PublicAs right second ∧
        (first < second ∨ first = second ∧ [left, right].Sublist tree.ids) := by
  refine (Ordering.mergeSort_stable (fun id => (registry.publicName? id).getD "") _).imp_of_mem ?_
  intro left right leftListed rightListed placed
  obtain ⟨first, leftPublic⟩ := ((tree.mem_owners_iff registry left).mp leftListed).2
  obtain ⟨second, rightPublic⟩ := ((tree.mem_owners_iff registry right).mp rightListed).2
  rw [registry.publicName_getD leftPublic, registry.publicName_getD rightPublic] at placed
  refine ⟨first, second, leftPublic, rightPublic, placed.imp_right ?_⟩
  exact fun tie => ⟨tie.1, tie.2.trans List.filter_sublist⟩

namespace Grown

/-- No owner is listed twice. -/
theorem owners_nodup (finished : registry.Finished links) (grown : tree.Grown registry links) :
    (tree.owners registry).Nodup := by
  rw [owners, (List.mergeSort_perm _ _).nodup_iff]
  exact (grown.ids_nodup finished).filter _

/-- Sorting the facades by name takes each along with its owner. -/
theorem owners_stand (finished : registry.Finished links) (grown : tree.Grown registry links) :
    List.Forall₂ (registry.StandsFor tree) (tree.owners registry)
      (Facade.collect registry tree) := by
  have covers : List.Forall₂ (Facade.Covers registry links) (tree.owners registry)
      (Facade.collect registry tree) := by
    rw [Facade.collect_eq]
    exact Ordering.forall₂_mergeSort (fun _ _ covers => registry.publicName_getD covers.named)
      (Facade.harvest_covers finished grown)
  rw [List.forall₂_iff_zip]
  refine ⟨covers.length_eq, fun {owner facade} paired => ?_⟩
  obtain ⟨ownerListed, facadeListed⟩ := List.of_mem_zip paired
  have within := ((tree.mem_owners_iff registry owner).mp ownerListed).1
  rw [Facade.collect_eq, List.mem_mergeSort] at facadeListed
  have ordered := Facade.objects_sublist _ tree facade facadeListed
  exact grown.standsFor_of_covers finished within (List.forall₂_zip covers paired) ordered

end Grown

end Tree

/-- A tree has one facade for each of its public types, in the order of their public names,
and of the tree where names are equal. A final type at or below a public type of the tree
stands in one facade, once, which is that of the nearest such type; every other final type
stands in none. Each facade lists its final types in the order of the tree.

Proof: gathering downwards agrees with gathering from below upwards, where a public type takes all
that is handed up to it. By induction on the tree, what is handed up are the final types without a
public type between them and the root, so a facade has those whose nearest public type is its owner.
Each final type is handed up or taken, never both, so none comes twice. Sorting is stable and by
public name, and the owners are sorted along with their facades. -/
theorem facades_stand_for_nearest (registry : Registry) (reachable : registry.Reachable)
    (name : String) (tree : Tree) (built : Tree.ofRoot registry name = .ok tree) :
    ∃ owners : List TypeId,
      owners.Nodup ∧ (∀ id, id ∈ owners ↔ id ∈ tree.ids ∧ registry.Public id) ∧
      List.Forall₂ (registry.StandsFor tree) owners (Facade.collect registry tree) ∧
      (owners.Pairwise fun left right => ∃ first second,
        registry.PublicAs left first ∧ registry.PublicAs right second ∧
          (first < second ∨ first = second ∧ [left, right].Sublist tree.ids)) ∧
      ∀ id ∈ tree.leaves,
        ((∃ owner ∈ tree.ids, registry.Public owner ∧ registry.isSubtype id owner = .ok true) →
          ((Facade.collect registry tree).flatMap Facade.objects).count id = 1) ∧
        ((¬ ∃ owner ∈ tree.ids,
            registry.Public owner ∧ registry.isSubtype id owner = .ok true) →
          id ∉ (Facade.collect registry tree).flatMap Facade.objects) := by
  obtain ⟨links, finished, _, grown⟩ := Tree.ofRoot_reachable reachable built
  have stands := grown.owners_stand finished
  refine ⟨tree.owners registry, grown.owners_nodup finished, tree.mem_owners_iff registry, stands,
    tree.owners_sorted registry, fun id leaf => ⟨?_, fun uncovered object => ?_⟩⟩
  · rintro ⟨owner, within, isPublic, above⟩
    rw [finished.isSubtype_below_iff (grown.declared owner within)] at above
    exact List.count_eq_one_of_mem (Facade.collect_objects_nodup finished grown)
      (Facade.mem_collect_objects finished grown leaf within isPublic above)
  · obtain ⟨facade, listed, member⟩ := List.mem_flatMap.mp object
    obtain ⟨owner, _, standsFor⟩ := Outcome.forall₂_mem stands.flip listed
    obtain ⟨_, nearest⟩ := (standsFor.objects id).mp member
    exact uncovered ⟨owner, nearest.within, nearest.isPublic, nearest.above⟩

/-- Boats and rafts are crafts. Canoes, ferries and yachts are boats, and a tender is a ferry.
Boats and yachts are public under one name, and ferries under another. -/
def crafts : Registry :=
  .holding [
    { name := "Craft", isFinal := false },
    { name := "Boat", base := some (.named "Craft"), isFinal := false, publicName := some "Ship" },
    { name := "Raft", base := some (.named "Craft") },
    { name := "Canoe", base := some (.named "Boat") },
    { name := "Ferry", base := some (.named "Boat"), isFinal := false,
      publicName := some "Liner" },
    { name := "Tender", base := some (.named "Ferry") },
    { name := "Yacht", base := some (.named "Boat"), publicName := some "Ship" }]
    (some {
      bases := [none, some 0, some 0, some 1, some 1, some 4, some 1]
      derived := [[1, 2], [3, 4, 6], [], [], [5], [], []]
      targets := [[], [], [], [], [], [], []] })

/-- The tree of the crafts. -/
def craftTree : Tree :=
  .group 0 (.group 1 (.leaf 3) [.group 4 (.leaf 5) [], .leaf 6]) [.leaf 2]

/-- The tender belongs to the ferries although it is a boat as well, the yacht to itself, and
the raft to nobody. The ship of the boats comes before that of the yachts. -/
theorem facades_of_crafts :
    Tree.ofRoot crafts "Craft" = .ok craftTree ∧
    Facade.collect crafts craftTree = [⟨"Liner", [5]⟩, ⟨"Ship", [3]⟩, ⟨"Ship", [6]⟩] ∧
    (∃ owners : List TypeId, (∀ id, id ∈ owners ↔ id ∈ craftTree.ids ∧ crafts.Public id) ∧
      List.Forall₂ (crafts.StandsFor craftTree) owners
        [⟨"Liner", [5]⟩, ⟨"Ship", [3]⟩, ⟨"Ship", [6]⟩]) ∧
    ((Facade.collect crafts craftTree).flatMap Facade.objects).count 5 = 1 := by
  have made : Registry.ofList crafts.types = .ok crafts :=
    Registry.ofList_of_linkedBy (by decide +kernel)
  have built : Tree.ofRoot crafts "Craft" = .ok craftTree := by rfl
  have collected : Facade.collect crafts craftTree =
      [⟨"Liner", [5]⟩, ⟨"Ship", [3]⟩, ⟨"Ship", [6]⟩] := by
    rw [Facade.collect, Ordering.mergeSort_by_insertion Facade.name]
    rfl
  obtain ⟨owners, _, listed, stands, _, objects⟩ := facades_stand_for_nearest crafts
    (Registry.ofList_reachable made) "Craft" craftTree built
  refine ⟨built, collected, ⟨owners, listed, collected ▸ stands⟩, ?_⟩
  refine (objects 5 (by decide)).1 ⟨1, by decide, ?_, by rfl⟩
  exact ⟨"Ship", _, rfl, rfl⟩

end Taxonomy
