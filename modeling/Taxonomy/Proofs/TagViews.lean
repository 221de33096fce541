import Taxonomy.Proofs.Lookups
import Taxonomy.Proofs.PostOrder

/-!
# Views of one numbering

The numbers of a compiled model can be seen in four ways: as entries of labels with numbers,
by looking a label up, as ranges of types, and as a list of final types ordered by name. All
four say the same. The entries are those of the subtrees from below upwards, with the numbers
that the ranges have; a label leads to the position of its entry, and so to the number there
and to no other; and a final type is listed with the number that its name leads to.
-/
namespace Taxonomy

/-- The entries of the root of a tree under the given name with the given range. -/
def Tree.ownEntries (name : String) (range : TagRange) : Tree → List TagEntry
  | .leaf _ => [⟨name, range.first⟩]
  | .group _ _ _ => [⟨"First" ++ name, range.first⟩, ⟨"Last" ++ name, range.last⟩]

namespace TagTable

/-- The entries are those of the root of the tree, under its name in the registry and with
its range in the table. -/
def Describes (registry : Registry) (table : TagTable) (tree : Tree) (entries : List TagEntry) :
    Prop :=
  ∃ name range, registry.name tree.root = .ok name ∧ table.range? tree.root = some range ∧
    entries = tree.ownEntries name range

variable {table : TagTable}

/-- Where each label leads to the position of its entry, no label stands twice: it would lead to
two positions. -/
theorem Indexed.labels_distinct (indexed : table.Indexed) :
    (table.entries.map TagEntry.label).Nodup := by
  rw [List.nodup_iff_getElem?_ne_getElem?]
  intro left right order inside same
  rw [List.length_map] at inside
  have first : table.entries[left]? = some table.entries[left] :=
    List.getElem?_eq_getElem (order.trans inside)
  have second : table.entries[right]? = some table.entries[right] :=
    List.getElem?_eq_getElem inside
  rw [List.getElem?_map, List.getElem?_map, first, second, Option.map_some, Option.map_some,
    Option.some.injEq] at same
  have leftward := (indexed table.entries[left].label left).mpr ⟨_, first⟩
  have rightward := (indexed table.entries[right].label right).mpr ⟨_, second⟩
  rw [← same, leftward] at rightward
  exact absurd (Option.some.inj rightward) (Nat.ne_of_lt order)

/-- Where each label leads to the position of its entry, looking a label up finds exactly the
number that is listed with it. -/
theorem Indexed.value?_some_iff (indexed : table.Indexed) (label : String) (value : Nat) :
    table.value? label = some value ↔ ⟨label, value⟩ ∈ table.entries := by
  simp only [value?, Option.bind_eq_bind, Option.bind_eq_some_iff, Option.pure_def,
    Option.some.injEq]
  constructor
  · rintro ⟨position, leads, entry, found, rfl⟩
    obtain ⟨other, there⟩ := (indexed label position).mp leads
    obtain rfl := Option.some.inj (there.symm.trans found)
    exact List.mem_of_getElem? found
  · intro member
    obtain ⟨position, found⟩ := List.mem_iff_getElem?.mp member
    exact ⟨position, (indexed label position).mpr ⟨value, found⟩, _, found, rfl⟩

end TagTable

namespace Tree

/-- The final types of a tree are the roots of its leaves. -/
theorem mem_leaves_iff_within (tree : Tree) (id : TypeId) :
    id ∈ tree.leaves ↔ (Tree.leaf id).Within tree := by
  induction tree using by_children with
  | leaf top =>
    rw [leaves, List.mem_singleton]
    constructor
    · rintro rfl
      exact .self
    · rintro ⟨⟩
      rfl
  | group top eldest others inductionHypothesis =>
    rw [leaves_group, List.mem_flatMap]
    constructor
    · rintro ⟨child, listed, member⟩
      exact .child listed ((inductionHypothesis child listed).mp member)
    · rintro (_ | ⟨listed, within⟩)
      exact ⟨_, listed, (inductionHypothesis _ listed).mpr within⟩

/-- The labels of the marks of a type are made from its name. -/
theorem ownMarks_entries {registry : Registry} {tree : Tree} {name : String}
    (named : registry.name? tree.root = some name) (range : TagRange) :
    ((tree.ownMarks range).map fun mark => (⟨mark.1.labelIn registry, mark.2⟩ : TagEntry)) =
      tree.ownEntries name range := by
  cases tree with
  | leaf id =>
    rw [root] at named
    simp [ownMarks, ownEntries, TagMark.labelIn, TagMark.type, TagMark.label, named]
  | group id eldest others =>
    rw [root] at named
    simp [ownMarks, ownEntries, TagMark.labelIn, TagMark.type, TagMark.label, named]

namespace Grown

variable {registry : Registry} {links : Links} {tree : Tree}

/-- The entries of a table are those of the subtrees, from below upwards. -/
theorem entries_described (finished : registry.Finished links) (grown : tree.Grown registry links)
    {start : Nat} {width : TagWidth} {table : TagTable}
    (allocated : TagTable.allocate registry tree start width = .ok table) :
    ∃ parts, List.Forall₂ (table.Describes registry) tree.postorder parts ∧
      table.entries = parts.flatten := by
  have listed := grown.table_entries finished allocated
  rw [entries, grown.marks_by_lookup finished, List.map_flatMap, List.flatMap_def] at listed
  refine ⟨_, ?_, listed⟩
  rw [List.forall₂_map_right_iff, List.forall₂_same]
  intro sub member
  have within := (mem_postorder_iff sub tree).mp member
  have inTree := (tree.mem_ids_iff_within sub.root).mpr ⟨sub, within, rfl⟩
  obtain ⟨name, answered, named⟩ := grown.name_within finished within
  obtain ⟨_, before, _, _, _, _, found⟩ := grown.range_of_type finished start inTree
  have ranged := found
  rw [← grown.table_ranges finished allocated, ← TagTable.range?] at ranged
  refine ⟨name, _, answered, ranged, ?_⟩
  rw [found, Option.getD_some, ownMarks_entries named]

/-- The name of a final type is a label, which leads to the first number of its range. -/
theorem value_of_leaf (finished : registry.Finished links) (grown : tree.Grown registry links)
    {start : Nat} {width : TagWidth} {table : TagTable}
    (allocated : TagTable.allocate registry tree start width = .ok table) {id : TypeId}
    (member : id ∈ tree.leaves) {name : String} (named : registry.name id = .ok name)
    {range : TagRange} (found : table.range? id = some range) :
    table.value? name = some range.first := by
  obtain ⟨parts, described, listed⟩ := grown.entries_described finished allocated
  have within := (mem_postorder_iff _ tree).mpr ((tree.mem_leaves_iff_within id).mp member)
  obtain ⟨_, inParts, other, same, answered, there, rfl⟩ := Outcome.forall₂_mem described within
  obtain rfl := Except.ok.inj (named.symm.trans answered)
  obtain rfl := Option.some.inj (found.symm.trans there)
  rw [(TagTable.allocate_indexed allocated).value?_some_iff, listed]
  exact List.mem_flatten.mpr ⟨_, inParts, List.mem_cons_self⟩

/-- The names of the final types of a tree are pairwise different. -/
theorem leaf_names_distinct (finished : registry.Finished links)
    (grown : tree.Grown registry links) {nameOf : TypeId → String}
    (named : ∀ id ∈ tree.leaves, registry.name? id = some (nameOf id)) :
    (tree.leaves.map nameOf).Nodup := by
  rw [List.nodup_map_iff_inj_on (grown.leaves_nodup finished)]
  intro left leftMember right rightMember same
  have leftNamed := named left leftMember
  have rightNamed := named right rightMember
  rw [finished.inStep.name?_eq, Option.map_eq_some_iff] at leftNamed rightNamed
  obtain ⟨first, atLeft, firstName⟩ := leftNamed
  obtain ⟨second, atRight, secondName⟩ := rightNamed
  exact name_unique finished.distinct atLeft atRight (firstName.trans (same.trans secondName.symm))

end Grown

end Tree

/-- The numbers of a compiled model are the same however they are looked at. The entries are
those of the subtrees from below upwards, with the numbers of their ranges. A label leads to a
position exactly if its entry stands there, and to a number exactly if it stands with it in an
entry. The ranges are listed from below upwards, one for each type of the tree. The final types
are listed once each, in the order of their names, with the numbers that their names lead to.

Proof: that labels lead to the positions of their entries is kept by every step of the
allocator, since a label is entered only if it was nowhere, with the position that its entry
gets; the look-up of numbers and the difference of labels follow from this alone. The entries
are known from the closed form of the visit, which goes through the tree children first. The
ranges are listed in the same order and no type comes twice in it, so that each range is also
the one that is found. The list of final types comes from the leaves by looking up name and
range, which never fails, and by sorting names that are pairwise different. -/
theorem tag_views_agree (schema : Schema) (settings : Settings) (model : Model)
    (compiled : Model.compile schema settings = .ok model) (hierarchy : Hierarchy)
    (present : model.hierarchy = some hierarchy) :
    (∃ parts,
      List.Forall₂ (hierarchy.tags.Describes model.registry) hierarchy.tree.postorder parts ∧
      hierarchy.tags.entries = parts.flatten) ∧
    (hierarchy.tags.entries.map TagEntry.label).Nodup ∧
    (∀ label position, hierarchy.tags.byLabel.lookup label = some position ↔
      ∃ value, hierarchy.tags.entries[position]? = some ⟨label, value⟩) ∧
    (∀ label value, hierarchy.tags.value? label = some value ↔
      ⟨label, value⟩ ∈ hierarchy.tags.entries) ∧
    (hierarchy.tags.ranges.map Prod.fst = hierarchy.tree.postorder.map Tree.root ∧
      (hierarchy.tags.ranges.map Prod.fst).Nodup ∧
      (∀ id, id ∈ hierarchy.tags.ranges.map Prod.fst ↔ id ∈ hierarchy.tree.ids) ∧
      ∀ entry ∈ hierarchy.tags.ranges, hierarchy.tags.range? entry.1 = some entry.2) ∧
    hierarchy.tree.leaves.Nodup ∧
    (model.finalTypes.map FinalType.id).Perm hierarchy.tree.leaves ∧
    (model.finalTypes.Pairwise fun left right => left.name < right.name) ∧
    ∀ final ∈ model.finalTypes, model.registry.name final.id = .ok final.name ∧
      hierarchy.tags.value? final.name = some final.tag := by
  obtain ⟨links, finished, grown, allocated⟩ := Model.hierarchy_allocated compiled present
  obtain ⟨serves, ranged⟩ := Model.served compiled present
  have indexed := TagTable.allocate_indexed allocated
  have keys := hierarchy.tree.ranges_keys settings.tagStart
  have ranges := grown.table_ranges finished allocated
  have inTree {id : TypeId} (leaf : id ∈ hierarchy.tree.leaves) : id ∈ hierarchy.tree.ids :=
    hierarchy.tree.leaves_sublist.subset leaf
  have finals : model.finalTypes = model.reading.finalTypes hierarchy.tree := by
    rw [Model.finalTypes_read compiled, present]
    rfl
  refine ⟨grown.entries_described finished allocated, indexed.labels_distinct, indexed,
    indexed.value?_some_iff, ?_, grown.leaves_nodup finished, ?_, ?_, ?_⟩
  · rw [ranges]
    refine ⟨hierarchy.tree.ranges_postorder _, ?_, fun id => keys.mem_iff, ?_⟩
    · exact keys.nodup_iff.mpr (grown.ids_nodup finished)
    · intro entry member
      rw [TagTable.range?, ranges]
      exact (grown.lookup_range_iff finished _ _ _).mpr member
  · rw [finals, Reading.finalTypes]
    refine ((List.mergeSort_perm _ _).map _).trans ?_
    simp [Function.comp_def]
  · rw [finals, Reading.finalTypes]
    apply Ordering.mergeSort_strict FinalType.name
    rw [List.map_map]
    exact grown.leaf_names_distinct finished fun id leaf =>
      serves.names finished.inStep (inTree leaf)
  · intro final member
    rw [finals, Reading.finalTypes, List.mem_mergeSort] at member
    obtain ⟨id, leaf, rfl⟩ := List.mem_map.mp member
    have named := (model.registry.name_ok_iff id _).mpr
      (serves.names finished.inStep (inTree leaf))
    exact ⟨named, grown.value_of_leaf finished allocated leaf named (ranged id (inTree leaf))⟩

/-- A card is the fool or one of a suit, which has an ace and a king. -/
def cards : Schema where
  types := [
    { name := "King", base := some (.named "Suit") },
    { name := "Card", isFinal := false },
    { name := "Suit", base := some (.named "Card"), isFinal := false },
    { name := "Fool", base := some (.named "Card") },
    { name := "Ace", base := some (.named "Suit") }]

/-- The tree of the cards with their numbers. -/
def cardHierarchy : Hierarchy where
  tree := .group 1 (.leaf 3) [.group 2 (.leaf 4) [.leaf 0]]
  tags := .append {}
    [⟨"Fool", 7⟩, ⟨"Ace", 8⟩, ⟨"King", 9⟩, ⟨"FirstSuit", 8⟩, ⟨"LastSuit", 9⟩,
      ⟨"FirstCard", 7⟩, ⟨"LastCard", 9⟩]
    [(3, ⟨7, 7⟩), (4, ⟨8, 8⟩), (0, ⟨9, 9⟩), (2, ⟨8, 9⟩), (1, ⟨7, 9⟩)]
  slots := []
  facades := []

/-- What compiling the cards gives if their numbers start at 7. -/
def cardModel : Model where
  registry := .holding cards.types (some {
    bases := [some 2, none, some 1, some 1, some 2]
    derived := [[], [3, 2], [4, 0], [], []]
    targets := [[], [], [], [], []] })
  hierarchy := some cardHierarchy
  unions := {}
  settings := { root := "Card", tagStart := 7, tagWidth := .u8 }

/-- The fool comes first among the cards by number and second by name. -/
theorem tag_views_cards :
    Model.compile cards { root := "Card", tagStart := 7, tagWidth := .u8 } = .ok cardModel ∧
      (∃ parts, List.Forall₂ (cardHierarchy.tags.Describes cardModel.registry)
          cardHierarchy.tree.postorder parts ∧ cardHierarchy.tags.entries = parts.flatten) ∧
      (∃ value, cardHierarchy.tags.entries[4]? = some ⟨"LastSuit", value⟩) ∧
      (cardHierarchy.tags.value? "LastSuit" = some 9 ↔
        ⟨"LastSuit", 9⟩ ∈ cardHierarchy.tags.entries) ∧
      [3, 4, 0, 2, 1] = cardHierarchy.tree.postorder.map Tree.root ∧
      (cardModel.finalTypes.map FinalType.id).Perm [3, 4, 0] ∧
      (cardModel.finalTypes.Pairwise fun left right => left.name < right.name) ∧
      ∀ final ∈ cardModel.finalTypes, cardModel.registry.name final.id = .ok final.name ∧
        cardHierarchy.tags.value? final.name = some final.tag := by
  have compiled : Model.compile cards { root := "Card", tagStart := 7, tagWidth := .u8 } =
      .ok cardModel :=
    Model.compile_of_linkedBy (by decide) (by decide +kernel) rfl rfl
  obtain ⟨described, _, positions, looked, ranges, _, listed, ordered, finals⟩ :=
    tag_views_agree cards _ cardModel compiled cardHierarchy rfl
  exact ⟨compiled, described, (positions "LastSuit" 4).mp rfl, looked _ _, ranges.1, listed,
    ordered, finals⟩

end Taxonomy
