import Taxonomy.Outline
import Taxonomy.Proofs.Compilation
import Taxonomy.Proofs.Facades
import Taxonomy.Proofs.Faults

/-!
# Every look-up finds what it looks for

A type is known by its number, and so are its base, its derived types, the types that
its members refer to and its range. A number that is not in one of these tables would
stop a compilation, or drop a member, a type or a line without a word. No schema leads
to such a number, whatever it refers to by name or by number and however late its
compilation fails.

Resolving references yields declared numbers only, also where a check then refuses
them. A finished registry has an entry for each declared number in each of its tables,
and only declared numbers in the entries. What is derived from a tree, and the outline
of a model, can therefore be read off total functions that agree with the tables: where
a look-up that finds nothing would be passed over, nothing is passed over.
-/
namespace Taxonomy

namespace Registry

/-- The resolved bases and targets of a registry are declared, and so is every type on
the way up from a declared one. -/
structure ResolvedInside (registry : Registry)
    (resolved : List (Option TypeId × List (Option TypeId))) : Prop where
  sizes : resolved.length = registry.types.length
  bases : ∀ entry ∈ resolved, ∀ base, entry.1 = some base → base < registry.types.length
  targets : ∀ entry ∈ resolved, ∀ target, some target ∈ entry.2 → target < registry.types.length
  ways : ∀ start < registry.types.length, ∀ length,
    ∀ id ∈ Bases.lineage (resolved.map (·.1)) length start, id < registry.types.length
  cycles : ∀ id, Bases.cycle? (resolved.map (·.1)) = some id → id < registry.types.length

/-- Every question about a declared number is answered from an entry of the tables, and
the answers are declared numbers. -/
structure Complete (registry : Registry) (links : Links) : Prop where
  linked : registry.links = some links
  types : ∀ id < registry.types.length, ∃ type,
    registry.type id = .ok type ∧ registry.name id = .ok type.name
  bases : ∀ id < registry.types.length, ∃ base,
    links.bases[id]? = some base ∧ registry.base id = .ok base ∧
      ∀ other, base = some other → other < registry.types.length
  derived : ∀ id < registry.types.length, ∃ children,
    links.derived[id]? = some children ∧ registry.derived id = .ok children ∧
      ∀ child ∈ children, child < registry.types.length
  targets : ∀ id < registry.types.length, ∃ targets,
    links.targets[id]? = some targets ∧ ∀ index,
      registry.memberTarget id index = .ok targets[index]?.join ∧
        ∀ target, targets[index]?.join = some target → target < registry.types.length

variable {registry : Registry} {links : Links}

/-- Whatever the references are, those that are resolved mean declared types. -/
theorem resolved_all_inside (inStep : registry.InStep)
    {resolved : List (Option TypeId × List (Option TypeId))}
    (each : registry.types.mapM registry.resolveType = .ok resolved) :
    registry.ResolvedInside resolved := by
  have sizes : resolved.length = registry.types.length :=
    ((Outcome.mapM_ok_iff _ _ _).mp each).length_eq.symm
  have bounded := resolved_bounded inStep each
  have length : (resolved.map (·.1)).length = registry.types.length := by
    rw [List.length_map, sizes]
  -- Each entry comes from one type, whose references it resolves.
  have entries (entry) (member : entry ∈ resolved) : ∃ type : TypeDef,
      Resolved registry.types type.base entry.1 ∧
        List.Forall₂ (fun member target => Resolved registry.types member.kind.target? target)
          type.members entry.2 := by
    obtain ⟨type, _, success⟩ := Outcome.mem_of_mapM each member
    exact ⟨type, (resolveType_ok_iff inStep type entry.1 entry.2).mp success⟩
  refine ⟨sizes, ?_, ?_, ?_, ?_⟩
  · intro entry member base same
    obtain ⟨type, resolvedBase, _⟩ := entries entry member
    rw [same] at resolvedBase
    exact resolved_inside resolvedBase
  · intro entry member target listed
    obtain ⟨type, _, aligned⟩ := entries entry member
    obtain ⟨position, place⟩ := List.mem_iff_getElem?.mp listed
    obtain ⟨_, _, resolvedTarget⟩ := Outcome.forall₂_at aligned.flip place
    exact resolved_inside resolvedTarget
  · intro start inside bound id member
    rw [← length] at inside ⊢
    exact Bases.below_inside bounded inside (Bases.lineage_below bound start id member)
  · intro id found
    rw [← length]
    exact Bases.cycle?_inside found

/-- A finished registry answers every question about a declared number. -/
theorem Finished.complete (finished : registry.Finished links) : registry.Complete links := by
  have sizes := finished.faithful.sizes
  refine ⟨finished.linked, ?_, ?_, ?_, ?_⟩
  · intro id inside
    have found : registry.types[id]? = some registry.types[id] := List.getElem?_eq_getElem inside
    exact ⟨_, (registry.type_ok_iff id _).mpr found,
      (registry.name_ok_iff id _).mpr (finished.inStep.name?_inside inside)⟩
  · intro id inside
    have there : id < links.bases.length := sizes ▸ inside
    have entry : links.bases[id]? = some links.bases[id] := List.getElem?_eq_getElem there
    have own : links.bases.base? id = links.bases[id] := by
      rw [Bases.base?, entry, Option.join_some]
    refine ⟨_, entry, ?_, ?_⟩
    · rw [base, Outcome.bind_ok_iff]
      exact ⟨links, finished.linksFor_ok inside, by rw [Outcome.pure_ok_iff, own]⟩
    · intro other same
      rw [← sizes]
      exact finished.bounded id other (own.trans same)
  · intro id inside
    refine ⟨registry.derivedFrom links.bases id, ?_, finished.derived_ok inside, ?_⟩
    · rw [finished.faithful.derived]
      simp [List.getElem?_range inside]
    · intro child member
      exact finished.step_declared ((finished.mem_derived_iff id child).mp member)
  · intro id inside
    have found : registry.types[id]? = some registry.types[id] := List.getElem?_eq_getElem inside
    obtain ⟨targets, entry, aligned⟩ := Outcome.forall₂_at finished.faithful.targets found
    refine ⟨targets, entry, fun index => ⟨?_, ?_⟩⟩
    · rw [memberTarget, Outcome.bind_ok_iff]
      exact ⟨links, finished.linksFor_ok inside, by rw [Outcome.pure_ok_iff, entry]; rfl⟩
    · intro target same
      obtain ⟨_, _, resolvedTarget⟩ :=
        Outcome.forall₂_at aligned.flip (Option.join_eq_some_iff.mp same)
      exact resolved_inside resolvedTarget

end Registry

/-- Total answers to the look-ups of a tree: the type of a number, the type that a
member refers to and the range of a type. -/
structure Reading where
  type : TypeId → TypeDef
  target : TypeId → Nat → TypeId
  range : TypeId → TagRange

namespace Reading

variable (reading : Reading)

/-- The name of a type. -/
def name (id : TypeId) : String :=
  (reading.type id).name

/-- The slot of a member, if it is held in one. -/
def slot (settings : Settings) (id : TypeId) (member : Member × Nat) : Option Slot :=
  member.1.kind.slot?.map fun kind =>
    .make settings kind (reading.target id member.2) (reading.type (reading.target id member.2))

/-- The slots of the members of a type, one for each member that is held in a slot. -/
def slotsOf (settings : Settings) (id : TypeId) : List Slot :=
  (reading.type id).members.zipIdx.filterMap (reading.slot settings id)

/-- The slots of a tree. -/
def slots (settings : Settings) (tree : Tree) : List Slot :=
  (Slot.firsts [] (tree.ids.flatMap (reading.slotsOf settings))).mergeSort fun left right =>
    decide (left.rendered ≤ right.rendered)

/-- The facades of a tree. -/
def facades (tree : Tree) : List Facade :=
  (Facade.gather (fun id => (reading.type id).publicName) tree none []).mergeSort
    fun left right => decide (left.name ≤ right.name)

/-- The final types of a tree, each with its number. -/
def finalTypes (tree : Tree) : List FinalType :=
  (tree.leaves.map fun id => ⟨id, reading.name id, (reading.range id).first⟩).mergeSort
    fun left right => decide (left.name ≤ right.name)

/-- The lines of a tree, one for each of its types. -/
def treeLines (tree : Tree) : List Line :=
  (tree.levels 0).map fun (depth, subtree) =>
    Outline.typeLine depth (reading.name subtree.root) subtree.isLeaf (reading.range subtree.root)

/-- The line of a facade, with all final types that it stands for. -/
def facadeLine (facade : Facade) : Line :=
  .text facade.name ::
    Span.styled .dim ("  ; " ++ ", ".intercalate (facade.objects.map reading.name))

/-- The lines of a model. -/
def lines (model : Model) : List Line :=
  (model.hierarchy.map fun hierarchy =>
      Outline.title "types" :: reading.treeLines hierarchy.tree ++ [[]] ++
        Outline.title "tags" :: hierarchy.tags.entries.map Outline.tagLine ++ [[]]).getD [] ++
    Outline.titled "slots" (model.slots.map Outline.slotLine) ++
    Outline.titled "public" (model.facades.map reading.facadeLine) ++
    model.unions.unions.flatMap Outline.unionLines

/-- The reading agrees with the tables on every number that is looked up for the tree,
and what is derived from the tree is what the reading gives. -/
structure Serves (registry : Registry) (settings : Settings) (tree : Tree) : Prop where
  types : ∀ id ∈ tree.ids, registry.type id = .ok (reading.type id)
  targets : ∀ id ∈ tree.ids, ∀ index member kind,
    (reading.type id).members[index]? = some member → member.kind.slot? = some kind →
      registry.memberTarget id index = .ok (some (reading.target id index)) ∧
        registry.type (reading.target id index) = .ok (reading.type (reading.target id index))
  ranges : ∀ tags, TagTable.allocate registry tree settings.tagStart settings.tagWidth = .ok tags →
    ∀ id ∈ tree.ids, tags.range? id = some (reading.range id)
  /-- Numbering finds no group without a child. -/
  inhabited : ∀ name, TagTable.allocate registry tree settings.tagStart settings.tagWidth ≠
    .error (.emptyHierarchy name)
  slots : Slot.collect registry tree settings = .ok (reading.slots settings tree)
  facades : Facade.collect registry tree = reading.facades tree

end Reading

/-- The reading of the tables of a registry and of given ranges, with answers made up
where a table has none. -/
def Registry.reading (registry : Registry) (ranges : List (TypeId × TagRange)) : Reading where
  type id := (registry.type? id).getD { name := "" }
  target id index :=
    match registry.memberTarget id index with
    | .ok (some target) => target
    | _ => id
  range id := (ranges.lookup id).getD (.single 0)

/-- A member that is held in a slot refers to a type. -/
theorem MemberKind.target?_of_slot? {kind : MemberKind} {slot : SlotKind}
    (held : kind.slot? = some slot) : ∃ ref, kind.target? = some ref := by
  cases kind with
  | node ref => exact ⟨ref, rfl⟩
  | nodeList ref => exact ⟨ref, rfl⟩
  | data _ _ => cases held
  | dataList _ => cases held

namespace Registry

variable {registry : Registry} {links : Links} (ranges : List (TypeId × TagRange))

/-- No answer is made up for a declared type. -/
theorem reading_type {id : TypeId} (inside : id < registry.types.length) :
    registry.types[id]? = some ((registry.reading ranges).type id) := by
  simp [reading, type?, List.getElem?_eq_getElem inside]

/-- A member of a declared type that is held in a slot has a target, which is
declared. -/
theorem Finished.reading_target (finished : registry.Finished links) {id : TypeId}
    (inside : id < registry.types.length) {index : Nat} {member : Member} {kind : SlotKind}
    (listed : ((registry.reading ranges).type id).members[index]? = some member)
    (held : member.kind.slot? = some kind) :
    registry.memberTarget id index = .ok (some ((registry.reading ranges).target id index)) ∧
      (registry.reading ranges).target id index < registry.types.length := by
  obtain ⟨target, given, resolved⟩ := finished.memberTarget_ok (reading_type ranges inside) listed
  obtain ⟨ref, refers⟩ := MemberKind.target?_of_slot? held
  rw [refers] at resolved
  obtain ⟨meant, rfl, means⟩ := resolved
  have answer : (registry.reading ranges).target id index = meant := by
    simp [reading, given]
  rw [answer]
  exact ⟨given, TypeRef.means_inside means⟩

/-- The slots of a declared type are those of the reading: no member is passed over. -/
theorem Finished.reading_slotsOf (finished : registry.Finished links) (settings : Settings)
    {id : TypeId} (inside : id < registry.types.length) :
    Slot.ofType registry settings id = .ok ((registry.reading ranges).slotsOf settings id) := by
  have each : ∀ entry ∈ ((registry.reading ranges).type id).members.zipIdx,
      Slot.ofMember registry settings id entry =
        .ok ((registry.reading ranges).slot settings id entry) := by
    rintro ⟨member, index⟩ listed
    rw [Slot.ofMember, Reading.slot]
    cases held : member.kind.slot? with
    | none => rfl
    | some kind =>
      obtain ⟨given, declared⟩ :=
        finished.reading_target ranges inside (List.mem_zipIdx_iff_getElem?.mp listed) held
      have known := (registry.type_ok_iff _ _).mpr (reading_type ranges declared)
      simp [given, known, bind, Except.bind, pure, Except.pure]
  rw [Slot.ofType_eq settings (reading_type ranges inside), Outcome.mapM_of_forall each,
    Reading.slotsOf]
  simp [Except.map, List.filterMap_map]

end Registry

namespace Tree.Grown

variable {registry : Registry} {links : Links} {tree : Tree}

/-- A grown tree is served by the reading of its registry and its ranges. -/
theorem served (finished : registry.Finished links) (grown : tree.Grown registry links)
    (settings : Settings) :
    (registry.reading (tree.ranges settings.tagStart)).Serves registry settings tree := by
  let ranges := tree.ranges settings.tagStart
  refine ⟨?_, ?_, ?_, ?_, ?_, ?_⟩
  · intro id member
    exact (registry.type_ok_iff id _).mpr (Registry.reading_type ranges (grown.declared id member))
  · intro id member index entry kind listed held
    obtain ⟨given, declared⟩ :=
      finished.reading_target ranges (grown.declared id member) listed held
    exact ⟨given, (registry.type_ok_iff _ _).mpr (Registry.reading_type ranges declared)⟩
  · intro tags allocated id member
    obtain ⟨_, _, _, _, _, _, found⟩ := grown.range_of_type finished settings.tagStart member
    simp [TagTable.range?, grown.table_ranges finished allocated, Registry.reading, found]
  · intro name failed
    rcases grown.allocate_fails finished _ _ _ failed with
      impossible | ⟨_, _, impossible⟩ | ⟨_, impossible⟩
    · cases impossible
    · cases impossible
    · cases impossible
  · have each : tree.ids.mapM (Slot.ofType registry settings) =
        .ok (tree.ids.map ((registry.reading ranges).slotsOf settings)) :=
      Outcome.mapM_of_forall fun id member =>
        finished.reading_slotsOf ranges settings (grown.declared id member)
    rw [Slot.collect, each, Reading.slots, List.flatMap_def]
    rfl
  · have same : (fun id => (registry.type? id).bind TypeDef.publicName) =
        fun id => ((registry.reading ranges).type id).publicName := by
      funext id
      cases found : registry.type? id <;> simp [Registry.reading, found]
    rw [Facade.collect, same, Reading.facades]

end Tree.Grown

/-- Where every look-up finds something, none is passed over. -/
theorem filterMap_found {α β : Type} {look : α → Option β} {answer : α → β} {elements : List α}
    (each : ∀ element ∈ elements, look element = some (answer element)) :
    elements.filterMap look = elements.map answer := by
  rw [← List.filterMap_eq_map, List.filterMap_congr each]
  rfl

namespace Outline

variable {registry : Registry} {tags : TagTable} {name : TypeId → String}
  {range : TypeId → TagRange}

mutual

/-- Where every type of a tree has a name and a range, no line is left out. -/
theorem treeLines_found (depth : Nat) : ∀ tree : Tree,
    (∀ id ∈ tree.ids, registry.name? id = some (name id) ∧ tags.range? id = some (range id)) →
    treeLines registry tags depth tree = (tree.levels depth).map fun (depth, subtree) =>
      typeLine depth (name subtree.root) subtree.isLeaf (range subtree.root)
  | .leaf id, found => by
    obtain ⟨named, ranged⟩ := found id List.mem_cons_self
    rw [treeLines, named, ranged]
    rfl
  | .group id eldest others, found => by
    rw [Tree.ids, List.forall_mem_cons, List.forall_mem_append] at found
    obtain ⟨⟨named, ranged⟩, inEldest, inOthers⟩ := found
    rw [treeLines, named, ranged, Tree.levels, List.map_cons, List.map_append,
      ← treeLines_found (depth + 1) eldest inEldest,
      ← treeLinesAll_found (depth + 1) others inOthers]
    rfl

/-- The same for several trees. -/
theorem treeLinesAll_found (depth : Nat) : ∀ trees : List Tree,
    (∀ id ∈ Tree.idsAll trees,
      registry.name? id = some (name id) ∧ tags.range? id = some (range id)) →
    treeLinesAll registry tags depth trees =
      (Tree.levelsAll depth trees).map fun (depth, subtree) =>
        typeLine depth (name subtree.root) subtree.isLeaf (range subtree.root)
  | [], _ => rfl
  | tree :: trees, found => by
    rw [Tree.idsAll, List.forall_mem_append] at found
    rw [treeLinesAll, Tree.levelsAll, List.map_append, treeLines_found depth tree found.1,
      treeLinesAll_found depth trees found.2]

end

end Outline

namespace Model

variable {schema : Schema} {settings : Settings} {model : Model}

/-- The reading of a model. -/
def reading (model : Model) : Reading :=
  model.registry.reading ((model.hierarchy.map fun hierarchy => hierarchy.tags.ranges).getD [])

/-- The hierarchy of a compiled model is served by the reading of the model, which also
has the ranges of its table. -/
theorem served (compiled : Model.compile schema settings = .ok model) {hierarchy : Hierarchy}
    (present : model.hierarchy = some hierarchy) :
    model.reading.Serves model.registry settings hierarchy.tree ∧
      ∀ id ∈ hierarchy.tree.ids, hierarchy.tags.range? id = some (model.reading.range id) := by
  obtain ⟨links, finished, grown, allocated⟩ := Model.hierarchy_allocated compiled present
  have same : model.reading = model.registry.reading (hierarchy.tree.ranges settings.tagStart) := by
    simp [reading, present, grown.table_ranges finished allocated]
  have serves := grown.served finished settings
  rw [same]
  exact ⟨serves, serves.ranges _ allocated⟩

end Model

namespace Reading

variable {reading : Reading} {registry : Registry} {settings : Settings}

/-- The names of the types of a tree are found. -/
theorem Serves.names {tree : Tree} (serves : reading.Serves registry settings tree)
    (inStep : registry.InStep) {id : TypeId} (member : id ∈ tree.ids) :
    registry.name? id = some (reading.name id) := by
  have typed := (registry.type_ok_iff id _).mp (serves.types id member)
  rw [inStep.name?_eq, typed]
  rfl

variable {hierarchy : Hierarchy}

/-- The line of a facade names all final types that it stands for. -/
theorem Serves.facadeLine (serves : reading.Serves registry settings hierarchy.tree)
    (inStep : registry.InStep)
    (gathered : hierarchy.facades = Facade.collect registry hierarchy.tree) :
    ∀ facade ∈ hierarchy.facades,
      Outline.facadeLine registry facade = reading.facadeLine facade := by
  intro facade member
  have names : facade.objects.filterMap registry.name? = facade.objects.map reading.name := by
    apply filterMap_found
    intro id object
    rw [gathered] at member
    have leaf := Facade.collect_objects registry hierarchy.tree facade member id object
    exact serves.names inStep (hierarchy.tree.leaves_sublist.subset leaf)
  rw [Outline.facadeLine, names, Reading.facadeLine]

/-- The tree has a line for each of its types. -/
theorem Serves.treeLines (serves : reading.Serves registry settings hierarchy.tree)
    (inStep : registry.InStep)
    (ranged : ∀ id ∈ hierarchy.tree.ids, hierarchy.tags.range? id = some (reading.range id)) :
    Outline.treeLines registry hierarchy.tags 0 hierarchy.tree =
      reading.treeLines hierarchy.tree :=
  Outline.treeLines_found 0 hierarchy.tree fun id member =>
    ⟨serves.names inStep member, ranged id member⟩

/-- Every final type of the tree is listed with its number. -/
theorem Serves.finalTypes (serves : reading.Serves registry settings hierarchy.tree)
    (inStep : registry.InStep)
    (ranged : ∀ id ∈ hierarchy.tree.ids, hierarchy.tags.range? id = some (reading.range id)) :
    FinalType.collect registry hierarchy.tree hierarchy.tags =
      reading.finalTypes hierarchy.tree := by
  have each : (hierarchy.tree.leaves.filterMap fun id => do
      let name ← registry.name? id
      let range ← hierarchy.tags.range? id
      return (⟨id, name, range.first⟩ : FinalType)) =
      hierarchy.tree.leaves.map fun id => ⟨id, reading.name id, (reading.range id).first⟩ := by
    apply filterMap_found
    intro id leaf
    have member := hierarchy.tree.leaves_sublist.subset leaf
    simp [serves.names inStep member, ranged id member]
  rw [FinalType.collect, each, Reading.finalTypes]

end Reading

namespace Model

variable {schema : Schema} {settings : Settings} {model : Model}

/-- The final types of a compiled model are those of its reading. -/
theorem finalTypes_read (compiled : Model.compile schema settings = .ok model) :
    model.finalTypes = (model.hierarchy.map fun hierarchy =>
      model.reading.finalTypes hierarchy.tree).getD [] := by
  rw [finalTypes]
  cases present : model.hierarchy with
  | none => rfl
  | some hierarchy =>
    obtain ⟨serves, ranged⟩ := served compiled present
    exact serves.finalTypes (registry_inStep compiled) ranged

/-- The lines of a compiled model are those of its reading. -/
theorem lines_read (compiled : Model.compile schema settings = .ok model) :
    Outline.lines model = model.reading.lines model := by
  rw [Outline.lines, Reading.lines]
  cases present : model.hierarchy with
  | none => simp [facades, present]
  | some hierarchy =>
    obtain ⟨serves, ranged⟩ := served compiled present
    have inStep := registry_inStep compiled
    obtain ⟨_, staged, _, _⟩ := (Model.compile_ok_iff schema settings model).mp compiled
    rw [present] at staged
    obtain ⟨_, _, _, gathered⟩ :=
      (Hierarchy.build_ok_iff model.registry settings hierarchy).mp staged.2
    have tree : Outline.hierarchyLines model.registry hierarchy =
        Outline.title "types" :: model.reading.treeLines hierarchy.tree ++ [[]] ++
          Outline.title "tags" :: hierarchy.tags.entries.map Outline.tagLine ++ [[]] := by
      rw [Outline.hierarchyLines, serves.treeLines inStep ranged]
    have facadeLines : model.facades.map (Outline.facadeLine model.registry) =
        model.facades.map model.reading.facadeLine := by
      apply List.map_congr_left
      intro facade member
      rw [facades, present] at member
      exact serves.facadeLine inStep gathered facade member
    rw [Option.map_some, Option.getD_some, Option.map_some, Option.getD_some, tree, facadeLines]

end Model

/-- No look-up of a compilation or of an outline goes wrong, whatever types the schema
declares and whatever they refer to.

A compilation that fails does not fail because of an unknown number or of missing links.
References are resolved to declared types, also if a check then fails. A registry that
has been made answers every question about its types. A tree that has been grown finds
everything that is derived from it, also if its numbers do not fit. A model that has
been compiled is read in full: no member, final type, line or name is left out of its
slots, its final types and its outline in any palette.

Proof: a reference is resolved by name to a position, or has been checked to be one, so
every number in the links is declared. The steps that follow ask for numbers from the
links only, and a table that is made with one entry for each type has an entry for each of
them. A total function that agrees with the tables on declared types then gives the same
lists as the look-ups, element by element. -/
theorem lookups_find_everything (schema : Schema) (settings : Settings) :
    (∀ id, Model.compile schema settings ≠ .error (.unknownId id)) ∧
    (∀ name, Model.compile schema settings ≠ .error (.notFinished name)) ∧
    (∀ ids registry resolved, Registry.registerAll {} schema.types = (.ok ids, registry) →
      registry.types.mapM registry.resolveType = .ok resolved → registry.ResolvedInside resolved) ∧
    (∀ registry, Registry.ofList schema.types = .ok registry →
      (∃ links, registry.Complete links) ∧
      ∀ tree, Tree.ofRoot registry settings.root = .ok tree →
        ∃ reading : Reading, reading.Serves registry settings tree) ∧
    ∀ model, Model.compile schema settings = .ok model → ∃ reading : Reading,
      (∀ hierarchy, model.hierarchy = some hierarchy →
        reading.Serves model.registry settings hierarchy.tree ∧
          ∀ id ∈ hierarchy.tree.ids, hierarchy.tags.range? id = some (reading.range id)) ∧
      model.finalTypes = (model.hierarchy.map fun hierarchy =>
        reading.finalTypes hierarchy.tree).getD [] ∧
      ∀ palette, Outline.render palette model =
        String.join ((reading.lines model).map (Outline.renderLine palette)) := by
  have told := Model.compile_noMiss schema settings
  refine ⟨?_, ?_, ?_, ?_, ?_⟩
  · intro id failed
    cases told _ failed
  · intro name failed
    cases told _ failed
  · intro ids registry resolved registered each
    have sound := (Registry.Reachable.empty.registerAll schema.types).sound
    rw [registered] at sound
    exact Registry.resolved_all_inside sound.inStep each
  · intro registry made
    obtain ⟨_, links, finished⟩ := Registry.ofList_finished made
    refine ⟨⟨links, finished.complete⟩, fun tree success => ?_⟩
    obtain ⟨_, grown⟩ := Tree.ofRoot_grown finished success
    exact ⟨_, grown.served finished settings⟩
  · intro model compiled
    refine ⟨model.reading, fun hierarchy present => Model.served compiled present,
      Model.finalTypes_read compiled, fun palette => ?_⟩
    rw [Outline.render, Model.lines_read compiled]

/-- A mail is a note, which mentions threads, or a thread, which begins with a note. All
references but one are by number, and one of them is to a type that comes later. -/
def mails : Schema where
  types := [
    { name := "Mail", isFinal := false, publicName := some "Mail" },
    { name := "Note", base := some (.numbered 0),
      members := [.data "text" "String", .nodeList "mentions" (.numbered 2)] },
    { name := "Thread", base := some (.named "Mail"), members := [.node "first" (.numbered 1)] }]

/-- The hierarchy of the mails. -/
def mailsHierarchy : Hierarchy where
  tree := .group 0 (.leaf 1) [.leaf 2]
  tags := .append {}
    [⟨"Note", 1⟩, ⟨"Thread", 2⟩, ⟨"FirstMail", 1⟩, ⟨"LastMail", 2⟩]
    [(1, ⟨1, 1⟩), (2, ⟨2, 2⟩), (0, ⟨1, 2⟩)]
  slots := [
    ⟨.list, 2, "NodeList<Thread>", "visit_thread_list"⟩,
    ⟨.single, 1, "NodePtr<Note>", "visit_note"⟩]
  facades := [⟨"Mail", [1, 2]⟩]

/-- The model of the mails. -/
def mailsModel : Model where
  registry := .holding mails.types (some {
    bases := [none, some 0, some 0]
    derived := [[1, 2], [], []]
    targets := [[], [none, some 2], [some 1]] })
  hierarchy := some mailsHierarchy
  unions := {}
  settings := { root := "Mail" }

/-- The model of the mails is read in full. -/
theorem lookups_find_mails :
    Model.compile mails { root := "Mail" } = .ok mailsModel ∧
      ∃ reading : Reading,
        reading.Serves mailsModel.registry { root := "Mail" } mailsHierarchy.tree ∧
        mailsModel.finalTypes = reading.finalTypes mailsHierarchy.tree ∧
        Outline.render .plain mailsModel =
          String.join ((reading.lines mailsModel).map (Outline.renderLine .plain)) := by
  have compiled : Model.compile mails { root := "Mail" } = .ok mailsModel :=
    Model.compile_of_linkedBy (by decide) (by decide +kernel) rfl rfl
  obtain ⟨_, _, _, _, read⟩ := lookups_find_everything mails { root := "Mail" }
  obtain ⟨reading, serves, finals, outline⟩ := read mailsModel compiled
  exact ⟨compiled, reading, (serves mailsHierarchy rfl).1, finals, outline .plain⟩

end Taxonomy
