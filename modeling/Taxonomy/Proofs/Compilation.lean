import Taxonomy.Proofs.Allocator

/-!
# The stages of a compilation

A compilation succeeds exactly if each of its stages does: the registry of the
types, the tree with its numbers and slots where there are types, and the set of
unions. A successful one can be taken apart into the results of its stages.

A given model can also be checked off against its schema stage by stage. For that its
links are compared with the declarations, and its slots and facades are sorted by
insertion, where every step evaluates.
-/
namespace Taxonomy

/-- What the middle stage gives: nothing without types, and otherwise the tree with
all that is derived from it. -/
def Hierarchy.Stage (registry : Registry) (settings : Settings) : Option Hierarchy → Prop
  | none => registry.types = []
  | some hierarchy => registry.types ≠ [] ∧ Hierarchy.build registry settings = .ok hierarchy

/-- The hierarchy is built exactly if the tree grows, its numbers are allocated and
its slots are collected. -/
theorem Hierarchy.build_ok_iff (registry : Registry) (settings : Settings)
    (hierarchy : Hierarchy) :
    Hierarchy.build registry settings = .ok hierarchy ↔
      Tree.ofRoot registry settings.root = .ok hierarchy.tree ∧
        TagTable.allocate registry hierarchy.tree settings.tagStart settings.tagWidth =
          .ok hierarchy.tags ∧
        Slot.collect registry hierarchy.tree settings = .ok hierarchy.slots ∧
        hierarchy.facades = Facade.collect registry hierarchy.tree := by
  simp only [Hierarchy.build, Outcome.bind_ok_iff, Outcome.pure_ok_iff]
  constructor
  · rintro ⟨tree, grown, tags, allocated, slots, collected, rfl⟩
    exact ⟨grown, allocated, collected, rfl⟩
  · rintro ⟨grown, allocated, collected, facades⟩
    refine ⟨_, grown, _, allocated, _, collected, ?_⟩
    rw [← facades]

/-- A hierarchy with its slots and facades sorted by insertion, which evaluates step by
step. -/
def Hierarchy.buildByInsertion (registry : Registry) (settings : Settings) :
    Except Fault Hierarchy := do
  let tree ← Tree.ofRoot registry settings.root
  let tags ← TagTable.allocate registry tree settings.tagStart settings.tagWidth
  let slots ← tree.ids.mapM (Slot.ofType registry settings)
  let publicName id := (registry.type? id).bind TypeDef.publicName
  return {
    tree := tree
    tags := tags
    slots := (Slot.firsts [] slots.flatten).insertionSort fun left right =>
      left.rendered ≤ right.rendered
    facades := (Facade.gather publicName tree none []).insertionSort fun left right =>
      left.name ≤ right.name }

/-- It makes no difference how slots and facades are sorted. -/
theorem Hierarchy.build_eq_buildByInsertion (registry : Registry) (settings : Settings) :
    Hierarchy.build registry settings = Hierarchy.buildByInsertion registry settings := by
  simp only [Hierarchy.build, Hierarchy.buildByInsertion, Slot.collect, Facade.collect, bind_assoc,
    pure_bind, Ordering.mergeSort_by_insertion Slot.rendered,
    Ordering.mergeSort_by_insertion Facade.name]

/-- A compilation succeeds exactly if its stages do, and puts their results
together. -/
theorem Model.compile_ok_iff (schema : Schema) (settings : Settings) (model : Model) :
    Model.compile schema settings = .ok model ↔
      Registry.ofList schema.types = .ok model.registry ∧
        Hierarchy.Stage model.registry settings model.hierarchy ∧
        UnionSet.ofList schema.unions = .ok model.unions ∧ model.settings = settings := by
  have stages (registry : Registry) : (do
        let hierarchy ←
          if registry.types.isEmpty then pure none
          else do pure (some (← Hierarchy.build registry settings))
        let unions ← UnionSet.ofList schema.unions
        return (⟨registry, hierarchy, unions, settings⟩ : Model)) = Except.ok model ↔
      ∃ found, Hierarchy.Stage registry settings found ∧
        ∃ unions, UnionSet.ofList schema.unions = .ok unions ∧
          ⟨registry, found, unions, settings⟩ = model := by
    cases types : registry.types with
    | nil =>
      simp only [List.isEmpty_nil, if_true, Outcome.bind_ok_iff, Outcome.pure_ok_iff]
      constructor
      · rintro ⟨_, rfl, rest⟩
        exact ⟨none, types, rest⟩
      · rintro ⟨found, staged, rest⟩
        cases found with
        | none => exact ⟨none, rfl, rest⟩
        | some hierarchy => exact absurd types staged.1
    | cons type others =>
      simp only [List.isEmpty_cons, Bool.false_eq_true, if_false, Outcome.bind_ok_iff,
        Outcome.pure_ok_iff]
      constructor
      · rintro ⟨hierarchy, built, _, rfl, rest⟩
        exact ⟨some hierarchy, ⟨by simp [types], built⟩, rest⟩
      · rintro ⟨found, staged, rest⟩
        cases found with
        | none => simp [Hierarchy.Stage, types] at staged
        | some hierarchy => exact ⟨hierarchy, staged.2, _, rfl, rest⟩
  rw [Model.compile, Outcome.bind_ok_iff]
  simp only [stages]
  constructor
  · rintro ⟨registry, registered, hierarchy, staged, unions, collected, rfl⟩
    exact ⟨registered, staged, collected, rfl⟩
  · rintro ⟨registered, staged, collected, rfl⟩
    exact ⟨_, registered, _, staged, _, collected, rfl⟩

/-- A schema with types compiles to a model if names are distinct, the links can be
checked off against the types, and the hierarchy and the set of unions come out as the
model has them. -/
theorem Model.compile_of_linkedBy {schema : Schema} {settings : Settings} {links : Links}
    {hierarchy : Hierarchy} {unions : UnionSet} (inhabited : schema.types ≠ [])
    (checked : (schema.types.map TypeDef.name).Nodup ∧
      (∀ type ∈ schema.types, (type.members.map Member.name).Nodup) ∧
        (Registry.holding schema.types none).LinkedBy links)
    (built : Hierarchy.buildByInsertion (.holding schema.types (some links)) settings =
      .ok hierarchy)
    (collected : UnionSet.ofList schema.unions = .ok unions) :
    Model.compile schema settings =
      .ok ⟨.holding schema.types (some links), some hierarchy, unions, settings⟩ := by
  rw [← Hierarchy.build_eq_buildByInsertion] at built
  exact (Model.compile_ok_iff schema settings _).mpr
    ⟨Registry.ofList_of_linkedBy checked, ⟨inhabited, built⟩, collected, rfl⟩

/-- A compilation succeeds exactly if the registry can be made, the hierarchy can be
built on it where there are types, and the set of unions can be made. -/
theorem Model.compile_succeeds_iff (schema : Schema) (settings : Settings) :
    (∃ model, Model.compile schema settings = .ok model) ↔
      (∃ registry, Registry.ofList schema.types = .ok registry ∧
        (schema.types ≠ [] → ∃ hierarchy, Hierarchy.build registry settings = .ok hierarchy)) ∧
      ∃ unions, UnionSet.ofList schema.unions = .ok unions := by
  simp only [Model.compile_ok_iff]
  constructor
  · rintro ⟨model, registered, staged, collected, _⟩
    have types := (Registry.ofList_finished registered).1
    refine ⟨⟨model.registry, registered, fun inhabited => ?_⟩, model.unions, collected⟩
    cases found : model.hierarchy with
    | none =>
      rw [found] at staged
      exact absurd (types.symm.trans staged) inhabited
    | some hierarchy =>
      rw [found] at staged
      exact ⟨hierarchy, staged.2⟩
  · rintro ⟨⟨registry, registered, built⟩, unions, collected⟩
    have types := (Registry.ofList_finished registered).1
    by_cases inhabited : schema.types = []
    · exact ⟨⟨registry, none, unions, settings⟩, registered, types.trans inhabited, collected, rfl⟩
    · obtain ⟨hierarchy, success⟩ := built inhabited
      refine ⟨⟨registry, some hierarchy, unions, settings⟩, registered, ⟨?_, success⟩, collected,
        rfl⟩
      rw [types]
      exact inhabited

/-- A model of a schema with types has a hierarchy, whose tree is grown from the
finished registry and whose ranges are those of the tree. -/
theorem Model.hierarchy_of_types {schema : Schema} {settings : Settings} {model : Model}
    (inhabited : schema.types ≠ []) (compiled : Model.compile schema settings = .ok model) :
    ∃ hierarchy links, model.hierarchy = some hierarchy ∧ model.registry.Finished links ∧
      hierarchy.tree.Grown model.registry links ∧
      hierarchy.tags.ranges = hierarchy.tree.ranges settings.tagStart := by
  obtain ⟨registered, staged, _, _⟩ := (Model.compile_ok_iff schema settings model).mp compiled
  obtain ⟨types, links, finished⟩ := Registry.ofList_finished registered
  cases found : model.hierarchy with
  | none =>
    rw [found] at staged
    exact absurd (types.symm.trans staged) inhabited
  | some hierarchy =>
    rw [found] at staged
    obtain ⟨built, allocated, _, _⟩ :=
      (Hierarchy.build_ok_iff model.registry settings hierarchy).mp staged.2
    have grown := (Tree.ofRoot_grown finished built).2
    exact ⟨hierarchy, links, rfl, finished, grown, grown.table_ranges finished allocated⟩

/-- The tree of a compiled model is grown from the finished registry, and its table is
allocated from the settings. -/
theorem Model.hierarchy_allocated {schema : Schema} {settings : Settings} {model : Model}
    (compiled : Model.compile schema settings = .ok model) {hierarchy : Hierarchy}
    (present : model.hierarchy = some hierarchy) :
    ∃ links, model.registry.Finished links ∧ hierarchy.tree.Grown model.registry links ∧
      TagTable.allocate model.registry hierarchy.tree settings.tagStart settings.tagWidth =
        .ok hierarchy.tags := by
  obtain ⟨registered, staged, _, _⟩ := (Model.compile_ok_iff schema settings model).mp compiled
  obtain ⟨_, links, finished⟩ := Registry.ofList_finished registered
  rw [present] at staged
  obtain ⟨success, allocated, _, _⟩ :=
    (Hierarchy.build_ok_iff model.registry settings hierarchy).mp staged.2
  exact ⟨links, finished, (Tree.ofRoot_grown finished success).2, allocated⟩

/-- The names of a compiled model are in step with its types. -/
theorem Model.registry_inStep {schema : Schema} {settings : Settings} {model : Model}
    (compiled : Model.compile schema settings = .ok model) : model.registry.InStep := by
  obtain ⟨made, _⟩ := (Model.compile_ok_iff schema settings model).mp compiled
  obtain ⟨_, _, finished⟩ := Registry.ofList_finished made
  exact finished.inStep

end Taxonomy
