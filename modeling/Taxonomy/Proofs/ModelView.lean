import Taxonomy.Proofs.Acceptance
import Taxonomy.Proofs.Facades
import Taxonomy.Proofs.Views

/-!
# What a model shows

A model is used through names: the labels of its tree, its slots with the names of
their types, its facades with the names of what they stand for, and its final types
with their numbers. Two models whose types agree, and whose trees have no further
types, show the same, whatever numbers the types have. They have the same outline
if their unions are the same as well.
-/
namespace Taxonomy

open Relation

/-- What a model shows, with names in the place of the numbers of types. -/
structure ModelView where
  /-- The labels with their numbers, if there is a tree. -/
  entries : Option (List TagEntry)
  /-- The kind of each slot, the name of its type, how it is written and what visits
  it. -/
  slots : List (SlotKind × Option String × String × String)
  /-- The name of each facade and the names of what it stands for. -/
  facades : List (String × List (Option String))
  /-- The name of each final type and its number. -/
  finalTypes : List (String × Nat)
deriving DecidableEq, Repr

/-- What the model shows. -/
def Model.view (model : Model) : ModelView where
  entries := model.hierarchy.map fun hierarchy => hierarchy.tags.entries
  slots := model.slots.map fun slot =>
    (slot.kind, model.registry.name? slot.target, slot.rendered, slot.visitor)
  facades := model.facades.map fun facade =>
    (facade.name, facade.objects.map model.registry.name?)
  finalTypes := model.finalTypes.map fun final => (final.name, final.tag)

/-- The lines of the tree of a model, if there is one. -/
def Model.treeLines (model : Model) : Option (List Line) :=
  model.hierarchy.map fun hierarchy =>
    Outline.treeLines model.registry hierarchy.tags 0 hierarchy.tree

/-- The second hierarchy is the first one with every number replaced. -/
structure Hierarchy.Renumbered (rename : TypeId → TypeId) (start : Nat)
    (first second : Hierarchy) : Prop where
  tree : second.tree = first.tree.map rename
  entries : second.tags.entries = first.tags.entries
  ranges : first.tags.ranges = first.tree.ranges start
  new_ranges : second.tags.ranges = second.tree.ranges start
  slots : second.slots = first.slots.map (Slot.map rename)
  facades : second.facades = first.facades.map (Facade.map rename)

variable {left right : Registry} {leftLinks rightLinks : Links} {settings : Settings}

/-- The root of the second tree is the type at the root of the first under its new
number. -/
theorem Included.find?_renumber (included : Included left.types right.types)
    (leftInStep : left.InStep) (rightInStep : right.InStep) {name : String} {top : TypeId}
    (found : left.find? name = some top) :
    right.find? name = some (renumber left.types right.types top) := by
  obtain ⟨type, declared, named⟩ := (leftInStep.find?_some_iff name top).mp found
  exact (rightInStep.find?_some_iff name _).mpr ⟨type, included.renumber_type declared, named⟩

/-- Types beneath another one are so under their new numbers. -/
theorem Included.beneath_renumber {first second : List TypeDef} (included : Included first second)
    {id top : TypeId} (beneath : Beneath first id top) :
    Beneath second (renumber first second id) (renumber first second top) :=
  ReflTransGen.lift (renumber first second) (fun _ _ => included.derives_renumber) _ _ beneath

/-- The hierarchies of two registries differ in numbers only if the second has no
further types in its tree. -/
theorem Included.hierarchy_renumbered (included : Included left.types right.types)
    (leftFinished : left.Finished leftLinks) (rightFinished : right.Finished rightLinks)
    {first second : Hierarchy} (firstBuilt : Hierarchy.build left settings = .ok first)
    (secondBuilt : Hierarchy.build right settings = .ok second)
    (covered : ∀ id, Beneath right.types id second.tree.root →
      ∃ source < left.types.length, renumber left.types right.types source = id) :
    Hierarchy.Renumbered (renumber left.types right.types) settings.tagStart first second := by
  obtain ⟨made, allocated, collected, facades⟩ :=
    (Hierarchy.build_ok_iff left settings first).mp firstBuilt
  obtain ⟨newMade, newAllocated, newCollected, newFacades⟩ :=
    (Hierarchy.build_ok_iff right settings second).mp secondBuilt
  obtain ⟨found, grown⟩ := Tree.ofRoot_grown leftFinished made
  obtain ⟨newFound, newGrown⟩ := Tree.ofRoot_grown rightFinished newMade
  have roots : second.tree.root = renumber left.types right.types first.tree.root :=
    Option.some.inj (newFound.symm.trans
      (included.find?_renumber leftFinished.inStep rightFinished.inStep found))
  -- What derives from a type of the moved tree lies beneath the root of the second one.
  have moved : (first.tree.map (renumber left.types right.types)).Grown right rightLinks := by
    apply included.grown_map leftFinished rightFinished grown
    intro id member child derives
    have beneath := (leftFinished.below_iff _ _).mp ((grown.mem_ids_iff leftFinished id).mp member)
    apply covered child
    rw [roots]
    exact ReflTransGen.head derives (included.beneath_renumber beneath)
  have tree : second.tree = first.tree.map (renumber left.types right.types) := by
    apply newGrown.unique moved
    rw [roots, Tree.root_map]
  refine ⟨tree, ?_, grown.table_ranges leftFinished allocated,
    newGrown.table_ranges rightFinished newAllocated, ?_, ?_⟩
  · rw [newGrown.table_entries rightFinished newAllocated,
      grown.table_entries leftFinished allocated, tree,
      included.entries_renumber leftFinished rightFinished.inStep grown]
  · rw [tree, included.slots_renumber leftFinished rightFinished settings grown.declared,
      collected] at newCollected
    exact (Except.ok.inj newCollected).symm
  · rw [newFacades, facades, tree, included.facades_renumber grown.declared]

namespace Hierarchy.Renumbered

variable {first second : Hierarchy}

/-- The slots show the same types. -/
theorem slots_shown (included : Included left.types right.types) (leftInStep : left.InStep)
    (rightInStep : right.InStep)
    (renumbered : Renumbered (renumber left.types right.types) settings.tagStart first second)
    (collected : Slot.collect left first.tree settings = .ok first.slots) :
    (second.slots.map fun slot =>
        (slot.kind, right.name? slot.target, slot.rendered, slot.visitor)) =
      first.slots.map fun slot =>
        (slot.kind, left.name? slot.target, slot.rendered, slot.visitor) := by
  rw [renumbered.slots, List.map_map]
  refine List.map_congr_left fun slot member => ?_
  have named := included.name?_renumber leftInStep rightInStep
    (Slot.collect_inside collected slot member)
  simp [Slot.map, named]

/-- The facades show the same final types. -/
theorem facades_shown (included : Included left.types right.types) (leftInStep : left.InStep)
    (rightInStep : right.InStep)
    (renumbered : Renumbered (renumber left.types right.types) settings.tagStart first second)
    (declared : ∀ id ∈ first.tree.ids, id < left.types.length)
    (collected : first.facades = Facade.collect left first.tree) :
    (second.facades.map fun facade => (facade.name, facade.objects.map right.name?)) =
      first.facades.map fun facade => (facade.name, facade.objects.map left.name?) := by
  rw [renumbered.facades, List.map_map]
  refine List.map_congr_left fun facade member => ?_
  rw [collected] at member
  have named : (facade.objects.map (renumber left.types right.types)).map right.name? =
      facade.objects.map left.name? := by
    rw [List.map_map]
    refine List.map_congr_left fun id object => ?_
    have leaf := Facade.collect_objects left first.tree facade member id object
    exact included.name?_renumber leftInStep rightInStep
      (declared id (first.tree.leaves_sublist.subset leaf))
  simp only [Function.comp_apply, Facade.map, named]

end Hierarchy.Renumbered

/-- Models that show the same, also in the lines of their trees, and have the same
unions have the same outline. -/
theorem Outline.lines_of_view {first second : Model} (shown : first.view = second.view)
    (trees : first.treeLines = second.treeLines)
    (unions : first.unions = second.unions) : lines first = lines second := by
  have hierarchies : (first.hierarchy.map (hierarchyLines first.registry)).getD [] =
      (second.hierarchy.map (hierarchyLines second.registry)).getD [] := by
    have entries := congrArg ModelView.entries shown
    simp only [Model.view] at entries
    simp only [Model.treeLines] at trees
    cases firstTree : first.hierarchy with
    | none =>
      cases secondTree : second.hierarchy with
      | none => rfl
      | some hierarchy => simp [firstTree, secondTree] at entries
    | some hierarchy =>
      cases secondTree : second.hierarchy with
      | none => simp [firstTree, secondTree] at entries
      | some other =>
        simp only [firstTree, secondTree, Option.map_some, Option.some.injEq] at entries trees
        simp only [Option.map_some, Option.getD_some, hierarchyLines, entries, trees]
  have slots : first.slots.map slotLine = second.slots.map slotLine := by
    have same := congrArg (fun view => view.slots.map fun slot =>
      (.text slot.2.2.1 :: Span.styled .dim ("  ; " ++ slot.2.2.2) : Line)) shown
    simp only [Model.view, List.map_map] at same
    exact same
  have facades : first.facades.map (facadeLine first.registry) =
      second.facades.map (facadeLine second.registry) := by
    have same := congrArg (fun view => view.facades.map fun facade =>
      (.text facade.1 :: Span.styled .dim
        ("  ; " ++ ", ".intercalate (facade.2.filterMap id)) : Line)) shown
    simp only [Model.view, List.map_map, Function.comp_def, List.filterMap_map] at same
    exact same
  rw [lines, lines, hierarchies, slots, facades, unions]

/-- Models with hierarchies that differ in numbers only show the same. -/
theorem Model.shown_of_hierarchies {first second : Model} {hierarchy other : Hierarchy}
    (firstTree : first.hierarchy = some hierarchy) (secondTree : second.hierarchy = some other)
    (included : Included first.registry.types second.registry.types)
    (leftFinished : first.registry.Finished leftLinks)
    (rightFinished : second.registry.Finished rightLinks)
    (firstBuilt : Hierarchy.build first.registry settings = .ok hierarchy)
    (secondBuilt : Hierarchy.build second.registry settings = .ok other)
    (covered : ∀ id, Beneath second.registry.types id other.tree.root →
      ∃ source < first.registry.types.length,
        renumber first.registry.types second.registry.types source = id) :
    first.view = second.view ∧ first.treeLines = second.treeLines := by
  obtain ⟨made, _, collected, facades⟩ := (Hierarchy.build_ok_iff _ _ _).mp firstBuilt
  have declared := (Tree.ofRoot_grown leftFinished made).2.declared
  have renumbered :=
    included.hierarchy_renumbered leftFinished rightFinished firstBuilt secondBuilt covered
  have newRanges := renumbered.new_ranges
  rw [renumbered.tree] at newRanges
  have leftInStep := leftFinished.inStep
  have rightInStep := rightFinished.inStep
  have finals :=
    included.finals_renumber leftInStep rightInStep declared renumbered.ranges newRanges
  have lines :=
    included.treeLines_renumber leftInStep rightInStep declared renumbered.ranges newRanges
  rw [← renumbered.tree] at finals lines
  constructor
  · simp only [Model.view, Model.slots, Model.facades, Model.finalTypes, firstTree, secondTree,
      Option.map_some, Option.getD_some, renumbered.entries,
      renumbered.slots_shown included leftInStep rightInStep collected,
      renumbered.facades_shown included leftInStep rightInStep declared facades, finals]
  · rw [Model.treeLines, Model.treeLines, firstTree, secondTree, Option.map_some, Option.map_some,
      lines]

/-- Two models show the same, and have the same outline if they have the same
unions, if all types of the first are types of the second and the tree of the
second has no further types. -/
theorem Model.same_view {leftSchema rightSchema : Schema} {first second : Model}
    (firstCompiled : Model.compile leftSchema settings = .ok first)
    (secondCompiled : Model.compile rightSchema settings = .ok second)
    (included : Included leftSchema.types rightSchema.types)
    (covered : ∀ top type, rightSchema.types[top]? = some type → type.name = settings.root →
      ∀ id, Beneath rightSchema.types id top →
        ∃ source < leftSchema.types.length,
          renumber leftSchema.types rightSchema.types source = id) :
    first.view = second.view ∧
      (first.unions = second.unions → Outline.lines first = Outline.lines second) := by
  obtain ⟨firstMade, firstStaged, _, _⟩ := (Model.compile_ok_iff _ _ _).mp firstCompiled
  obtain ⟨secondMade, secondStaged, _, _⟩ := (Model.compile_ok_iff _ _ _).mp secondCompiled
  obtain ⟨leftTypes, leftLinks, leftFinished⟩ := Registry.ofList_finished firstMade
  obtain ⟨rightTypes, rightLinks, rightFinished⟩ := Registry.ofList_finished secondMade
  rw [← leftTypes, ← rightTypes] at included covered
  have beneathRoot {hierarchy : Hierarchy}
      (built : Hierarchy.build second.registry settings = .ok hierarchy) :
      ∀ id, Beneath second.registry.types id hierarchy.tree.root →
        ∃ source < first.registry.types.length,
          renumber first.registry.types second.registry.types source = id := by
    obtain ⟨made, _, _, _⟩ := (Hierarchy.build_ok_iff _ _ _).mp built
    obtain ⟨found, _⟩ := Tree.ofRoot_grown rightFinished made
    obtain ⟨type, declared, named⟩ :=
      (rightFinished.inStep.find?_some_iff settings.root _).mp found
    exact covered _ type declared named
  have shown : first.view = second.view ∧ first.treeLines = second.treeLines := by
    cases firstTree : first.hierarchy with
    | none =>
      rw [firstTree] at firstStaged
      have empty : first.registry.types = [] := firstStaged
      cases secondTree : second.hierarchy with
      | none =>
        simp [Model.view, Model.slots, Model.facades, Model.finalTypes, Model.treeLines, firstTree,
          secondTree]
      | some other =>
        -- The root of the second tree would be a type of the first model.
        rw [secondTree] at secondStaged
        obtain ⟨source, inside, _⟩ := beneathRoot secondStaged.2 _ ReflTransGen.refl
        simp [empty] at inside
    | some hierarchy =>
      rw [firstTree] at firstStaged
      cases secondTree : second.hierarchy with
      | none =>
        rw [secondTree] at secondStaged
        have empty : second.registry.types = [] := secondStaged
        obtain ⟨type, member⟩ := List.exists_mem_of_ne_nil _ firstStaged.1
        have impossible := included.declared type member
        simp [empty] at impossible
      | some other =>
        rw [secondTree] at secondStaged
        exact Model.shown_of_hierarchies firstTree secondTree included leftFinished
          rightFinished firstStaged.2 secondStaged.2 (beneathRoot secondStaged.2)
  exact ⟨shown.1, Outline.lines_of_view shown.1 shown.2⟩

end Taxonomy
