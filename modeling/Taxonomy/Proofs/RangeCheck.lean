import Taxonomy.Proofs.Compilation

/-!
# The range check is the subtype test

In a compiled model, whether a value belongs to a type is a comparison with two
numbers. The comparison answers exactly whether the value is the number of a final
type that the registry calls a subtype of the type. The two sides know nothing of
each other: the registry follows bases upwards, the numbers come from a walk down
the tree.
-/
namespace Taxonomy

/-- In a compiled model with types, a value is in the range of a type of the tree
exactly if it is the number of a final type of the tree that is a subtype of this
type. No number belongs to two final types, and a type outside the tree has no
values.

Proof: the number of a final type is the start plus its place in the list of final types,
which holds each once, so that a number leads back to one of them. The final types of a
subtree are a run of this list, and the range of its root is the run of their numbers. A
value is therefore in the range exactly if the final type at its place is one of the
subtree, which is what the registry finds by going up. -/
theorem range_check_iff_subtype (schema : Schema) (settings : Settings) (model : Model)
    (inhabited : schema.types ≠ []) (compiled : Model.compile schema settings = .ok model) :
    ∃ hierarchy, model.hierarchy = some hierarchy ∧
      (∀ value, ∀ id ∈ hierarchy.tree.ids,
        (hierarchy.tags.isA value id = true ↔
          ∃ leaf ∈ hierarchy.tree.leaves, hierarchy.tags.range? leaf = some ⟨value, value⟩ ∧
            model.registry.isSubtype leaf id = .ok true)) ∧
      (∀ value, ∀ left ∈ hierarchy.tree.leaves, ∀ right ∈ hierarchy.tree.leaves,
        hierarchy.tags.range? left = some ⟨value, value⟩ →
        hierarchy.tags.range? right = some ⟨value, value⟩ → left = right) ∧
      ∀ value, ∀ id ∉ hierarchy.tree.ids, hierarchy.tags.isA value id = false := by
  obtain ⟨hierarchy, links, found, finished, grown, ranges⟩ :=
    Model.hierarchy_of_types inhabited compiled
  -- The number of a final type says at which place the tree lists it.
  have placed {value leaf} (member : leaf ∈ hierarchy.tree.leaves) :
      hierarchy.tags.range? leaf = some ⟨value, value⟩ ↔
        ∃ position, value = settings.tagStart + position ∧
          hierarchy.tree.leaves[position]? = some leaf := by
    obtain ⟨place, listed⟩ := List.mem_iff_getElem?.mp member
    rw [TagTable.range?, ranges, grown.range_of_leaf finished settings.tagStart listed]
    constructor
    · intro same
      obtain ⟨rfl, _⟩ := TagRange.mk.inj (Option.some.inj same)
      exact ⟨place, rfl, listed⟩
    · rintro ⟨position, rfl, there⟩
      have inside : place < hierarchy.tree.leaves.length := (List.getElem?_eq_some_iff.mp listed).1
      have same : place = position :=
        (List.getElem?_inj inside (grown.leaves_nodup finished)).mp (listed.trans there.symm)
      rw [same, TagRange.single]
  refine ⟨hierarchy, found, ?_, ?_, ?_⟩
  · intro value id member
    rw [TagTable.isA, TagTable.range?, ranges,
      grown.contains_iff_below finished settings.tagStart value member]
    constructor
    · rintro ⟨position, leaf, numbered, listed, below⟩
      have inLeaves : leaf ∈ hierarchy.tree.leaves := List.mem_of_getElem? listed
      have inside := grown.declared leaf (hierarchy.tree.leaves_sublist.subset inLeaves)
      refine ⟨leaf, inLeaves, (placed inLeaves).mpr ⟨position, numbered, listed⟩, ?_⟩
      exact (finished.isSubtype_iff inside id).mpr below
    · rintro ⟨leaf, inLeaves, range, subtype⟩
      have inside := grown.declared leaf (hierarchy.tree.leaves_sublist.subset inLeaves)
      obtain ⟨position, numbered, listed⟩ := (placed inLeaves).mp range
      exact ⟨position, leaf, numbered, listed, (finished.isSubtype_iff inside id).mp subtype⟩
  · intro value left leftMember right rightMember leftRange rightRange
    obtain ⟨position, rfl, atLeft⟩ := (placed leftMember).mp leftRange
    obtain ⟨other, same, atRight⟩ := (placed rightMember).mp rightRange
    obtain rfl : position = other := Nat.add_left_cancel same
    exact Option.some.inj (atLeft.symm.trans atRight)
  · intro value id outside
    rw [TagTable.isA, TagTable.range?, ranges, Tree.Grown.lookup_range_none _ _ _ outside]
    rfl

/-- A shape is a circle or a polygon, and the only polygons are squares. Another
type stands apart. -/
def shapes : Schema where
  types := [
    { name := "Square", base := some (.named "Polygon") },
    { name := "Circle", base := some (.named "Shape") },
    { name := "Colour" },
    { name := "Polygon", base := some (.named "Shape"), isFinal := false },
    { name := "Shape", isFinal := false }]

/-- What compiling the shapes gives if their numbers start at 254, the last but one
of their width. -/
def shapesModel : Model where
  registry := .holding shapes.types (some {
    bases := [some 3, some 4, none, some 4, none]
    derived := [[], [], [], [0], [1, 3]]
    targets := [[], [], [], [], []] })
  hierarchy := some {
    tree := .group 4 (.leaf 1) [.group 3 (.leaf 0) []]
    tags := .append {}
      [⟨"Circle", 254⟩, ⟨"Square", 255⟩, ⟨"FirstPolygon", 255⟩, ⟨"LastPolygon", 255⟩,
        ⟨"FirstShape", 254⟩, ⟨"LastShape", 255⟩]
      [(1, ⟨254, 254⟩), (0, ⟨255, 255⟩), (3, ⟨255, 255⟩), (4, ⟨254, 255⟩)]
    slots := []
    facades := [] }
  unions := {}
  settings := { root := "Shape", tagStart := 254, tagWidth := .u8 }

/-- Among the shapes the check finds that a square is a polygon and a circle is
none, and that nothing is a colour. -/
theorem range_check_shapes :
    Model.compile shapes { root := "Shape", tagStart := 254, tagWidth := .u8 } = .ok shapesModel ∧
      ∃ hierarchy, shapesModel.hierarchy = some hierarchy ∧
        (hierarchy.tags.isA 255 3 = true ↔
          ∃ leaf ∈ hierarchy.tree.leaves, hierarchy.tags.range? leaf = some ⟨255, 255⟩ ∧
            shapesModel.registry.isSubtype leaf 3 = .ok true) ∧
        hierarchy.tags.isA 255 3 = true ∧ hierarchy.tags.isA 254 3 = false ∧
        hierarchy.tags.isA 254 2 = false := by
  have compiled : Model.compile shapes
      { root := "Shape", tagStart := 254, tagWidth := .u8 } = .ok shapesModel :=
    Model.compile_of_linkedBy (by decide) (by decide +kernel) rfl rfl
  obtain ⟨hierarchy, found, inside, _, outside⟩ :=
    range_check_iff_subtype shapes _ shapesModel (by simp [shapes]) compiled
  obtain rfl := Option.some.inj found
  refine ⟨compiled, _, rfl, inside 255 3 (by decide), by decide, by decide, ?_⟩
  exact outside 254 2 (by decide)

end Taxonomy
