import Mathlib.Data.Set.Card
import Taxonomy.Proofs.Compilation
import Taxonomy.Proofs.Labels
import Taxonomy.Proofs.Slots
import Taxonomy.Proofs.UnionAcceptance

/-!
# Which schemas are accepted

Compiling goes through many checks, each of which looks at what the earlier ones
have made: links, a tree, numbers under labels. What it accepts can be said about
the declarations alone. References mean declared types, no type derives from a
final one or from itself, and there is a type of the root's name below which every
abstract type has a derived type. The numbers of the final types below it fit, and
their names are not labels of abstract types.
-/
namespace Taxonomy

open Relation

/-- The first type is the second one, or derives from it in some steps. -/
def Beneath (types : List TypeDef) (id top : TypeId) : Prop :=
  ReflTransGen (Derives types) id top

/-- What lies beneath a declared type is declared. -/
theorem Beneath.inside {types : List TypeDef} {id top : TypeId} (beneath : Beneath types id top)
    (declared : top < types.length) : id < types.length := by
  rcases ReflTransGen.cases_head beneath with rfl | ⟨_, ⟨_, _, found, _⟩, _⟩
  · exact declared
  · exact (List.getElem?_eq_some_iff.mp found).1

/-- The final types at or below a type. -/
def finalsBeneath (types : List TypeDef) (top : TypeId) : Set TypeId :=
  { id | Beneath types id top ∧ ∃ type, types[id]? = some type ∧ type.isFinal = true }

/-- The type of the given number can be the root of a tree under the settings. -/
structure TreeWellFormed (types : List TypeDef) (settings : Settings) (top : TypeId) : Prop where
  root_named : ∃ type, types[top]? = some type ∧ type.name = settings.root
  inhabited : ∀ id type, Beneath types id top → types[id]? = some type → type.isFinal = false →
    ∃ child, Derives types child id
  start_positive : 1 ≤ settings.tagStart
  numbers_fit : settings.tagStart + (finalsBeneath types top).ncard - 1 ≤ settings.tagWidth.max
  labels_apart : LabelsApart types fun id => Beneath types id top

/-- A schema that can be compiled under the settings. -/
structure Schema.WellFormed (schema : Schema) (settings : Settings) : Prop where
  types : Registry.WellFormedTypes schema.types
  tree : schema.types ≠ [] → ∃ top, TreeWellFormed schema.types settings top
  unions_distinct : (schema.unions.map Union.name).Nodup
  tags_distinct : (schema.unions.map fun union => union.tag.name).Nodup
  unions : ∀ union ∈ schema.unions, union.WellFormed

variable {registry : Registry} {links : Links}

/-- In a finished registry the bases say which types lie beneath another one. -/
theorem Registry.Finished.below_iff (finished : registry.Finished links) (id top : TypeId) :
    links.bases.Below id top ↔ Beneath registry.types id top := by
  have same : links.bases.Step = Derives registry.types := by
    funext child base
    exact propext (finished.faithful.step_iff child base)
  rw [Bases.Below, Beneath, same]

/-- A grown tree has as many final types as lie beneath its root. -/
theorem Tree.Grown.leaves_length {tree : Tree} (finished : registry.Finished links)
    (grown : tree.Grown registry links) :
    tree.leaves.length = (finalsBeneath registry.types tree.root).ncard := by
  have same : finalsBeneath registry.types tree.root = ↑tree.leaves.toFinset := by
    ext id
    rw [List.coe_toFinset, Set.mem_ofPred_eq, grown.mem_leaves_iff, grown.mem_ids_iff finished,
      finished.below_iff]
    rfl
  rw [same, Set.ncard_coe_finset, List.toFinset_card_of_nodup (grown.leaves_nodup finished)]

/-- A hierarchy can be built exactly if some type can be the root of its tree. -/
theorem Hierarchy.build_succeeds_iff (finished : registry.Finished links) (settings : Settings) :
    (∃ hierarchy, Hierarchy.build registry settings = .ok hierarchy) ↔
      ∃ top, TreeWellFormed registry.types settings top := by
  have named (top : TypeId) := finished.inStep.find?_some_iff settings.root top
  have apart {tree : Tree} (grown : tree.Grown registry links) :
      LabelsApart registry.types (· ∈ tree.ids) ↔
        LabelsApart registry.types fun id => Beneath registry.types id tree.root := by
    simp only [LabelsApart, grown.mem_ids_iff finished, finished.below_iff]
  constructor
  · rintro ⟨hierarchy, built⟩
    obtain ⟨made, allocated, _, _⟩ := (Hierarchy.build_ok_iff registry settings _).mp built
    obtain ⟨found, grown⟩ := Tree.ofRoot_grown finished made
    obtain ⟨positive, fits, labels⟩ :=
      (grown.allocate_succeeds_iff finished _ _).mp ⟨_, allocated⟩
    refine ⟨hierarchy.tree.root, (named _).mp found, ?_, positive, ?_, (apart grown).mp labels⟩
    · intro id type beneath there abstract
      have member := (grown.mem_ids_iff finished id).mpr ((finished.below_iff _ _).mpr beneath)
      obtain ⟨child, step⟩ := grown.inhabited finished id member type there abstract
      exact ⟨child, (finished.faithful.step_iff child id).mp step⟩
    · rw [← grown.leaves_length finished]
      exact fits
  · rintro ⟨top, wellFormed⟩
    have found := (named top).mpr wellFormed.root_named
    have grows : ∃ tree, Tree.ofRoot registry settings.root = .ok tree := by
      refine (Tree.ofRoot_succeeds_iff finished _).mpr ⟨top, found, ?_⟩
      intro id type below there abstract
      obtain ⟨child, derives⟩ :=
        wellFormed.inhabited id type ((finished.below_iff _ _).mp below) there abstract
      exact ⟨child, (finished.faithful.step_iff child id).mpr derives⟩
    obtain ⟨tree, made⟩ := grows
    obtain ⟨sameFound, grown⟩ := Tree.ofRoot_grown finished made
    obtain rfl : top = tree.root := Option.some.inj (found.symm.trans sameFound)
    have numbers := wellFormed.numbers_fit
    rw [← grown.leaves_length finished] at numbers
    obtain ⟨tags, allocated⟩ := (grown.allocate_succeeds_iff finished _ _).mpr
      ⟨wellFormed.start_positive, numbers, (apart grown).mpr wellFormed.labels_apart⟩
    obtain ⟨slots, collected⟩ := Slot.collect_succeeds finished settings grown.declared
    refine ⟨⟨tree, tags, slots, Facade.collect registry tree⟩, ?_⟩
    exact (Hierarchy.build_ok_iff registry settings _).mpr ⟨made, allocated, collected, rfl⟩

/-- The types of a schema pass exactly if the registry can be made and, where there
are types, the hierarchy can be built on it. -/
theorem Model.types_accepted_iff (types : List TypeDef) (settings : Settings) :
    (∃ registry, Registry.ofList types = .ok registry ∧
      (types ≠ [] → ∃ hierarchy, Hierarchy.build registry settings = .ok hierarchy)) ↔
    Registry.WellFormedTypes types ∧
      (types ≠ [] → ∃ top, TreeWellFormed types settings top) := by
  constructor
  · rintro ⟨registry, made, built⟩
    obtain ⟨rfl, links, finished⟩ := Registry.ofList_finished made
    refine ⟨(Registry.ofList_succeeds_iff _).mp ⟨registry, made⟩, fun inhabited => ?_⟩
    exact (Hierarchy.build_succeeds_iff finished settings).mp (built inhabited)
  · rintro ⟨wellFormed, tree⟩
    obtain ⟨registry, made⟩ := (Registry.ofList_succeeds_iff types).mpr wellFormed
    obtain ⟨rfl, links, finished⟩ := Registry.ofList_finished made
    refine ⟨registry, made, fun inhabited => ?_⟩
    exact (Hierarchy.build_succeeds_iff finished settings).mpr (tree inhabited)

/-- A schema is compiled exactly if it is well formed.

Proof: compiling succeeds if each step does, and for each step there is a condition on
what the steps before it have made. The registry that they have made is known from the
declarations, the links are the declared bases, and the final types of the tree are the
final types below the root. Put in terms of these, the conditions are those of a well
formed schema. -/
theorem compile_accepts_iff_wellFormed (schema : Schema) (settings : Settings) :
    (∃ model, Model.compile schema settings = .ok model) ↔ schema.WellFormed settings := by
  rw [Model.compile_succeeds_iff, Model.types_accepted_iff]
  simp only [UnionSet.ofList_ok_iff]
  constructor
  · rintro ⟨⟨types, tree⟩, _, names, tags, unions, _⟩
    exact ⟨types, tree, names, tags, unions⟩
  · rintro ⟨types, tree, names, tags, unions⟩
    exact ⟨⟨types, tree⟩, _, names, tags, unions, rfl⟩

end Taxonomy
