import Taxonomy.Outline
import Taxonomy.Proofs.Labels
import Taxonomy.Proofs.Renumbering
import Taxonomy.Proofs.Slots

/-!
# What a tree shows under other numbers

If every type of one registry is declared in another one too, a tree and the tree
with the new numbers show the same: the same labels with the same numbers, the
same slots, facades and final types with the same names, and the same lines of the
outline. Only the numbers of the types differ.
-/
namespace Taxonomy

variable {left right : Registry} {leftLinks rightLinks : Links}

namespace Included

/-- A mark with a new number has the label that it had. -/
theorem labelIn_renumber (included : Included left.types right.types)
    (leftInStep : left.InStep) (rightInStep : right.InStep) {mark : TagMark}
    (inside : mark.type < left.types.length) :
    (mark.map (renumber left.types right.types)).labelIn right = mark.labelIn left := by
  have kept : (mark.map (renumber left.types right.types)).labelIn right =
      mark.label ((right.name? (renumber left.types right.types mark.type)).getD "") := by
    cases mark <;> rfl
  rw [kept, included.name?_renumber leftInStep rightInStep inside, TagMark.labelIn]

/-- The labels of a tree and their numbers stay the same. -/
theorem entries_renumber (included : Included left.types right.types)
    (leftFinished : left.Finished leftLinks) (rightInStep : right.InStep) {tree : Tree}
    (grown : tree.Grown left leftLinks) (start : Nat) :
    (tree.map (renumber left.types right.types)).entries right start = tree.entries left start := by
  rw [Tree.entries, Tree.entries, Tree.marks_map, List.map_map]
  refine List.map_congr_left ?_
  intro mark member
  have marked : mark.1 ∈ tree.ids.flatMap left.marksOf :=
    (grown.marks_perm start).mem_iff.mp (List.mem_map_of_mem member)
  obtain ⟨_, inTree, _⟩ := grown.mark_declared leftFinished marked
  have same := included.labelIn_renumber leftFinished.inStep rightInStep (grown.declared _ inTree)
  simp [same]

end Included

/-- A key is found under its new name exactly as it was under its old one, if no
other key gets this name. -/
theorem lookup_map_key {β : Type} (rename : TypeId → TypeId) (entries : List (TypeId × β))
    (id : TypeId) (alone : ∀ entry ∈ entries, rename entry.1 = rename id → entry.1 = id) :
    (entries.map (Prod.map rename fun value => value)).lookup (rename id) = entries.lookup id := by
  induction entries with
  | nil => rfl
  | cons entry entries inductionHypothesis =>
    rw [List.forall_mem_cons] at alone
    obtain ⟨key, value⟩ := entry
    have tail := inductionHypothesis alone.2
    by_cases same : id = key
    · subst same
      simp
    · have differ : rename id ≠ rename key := fun equal => same (alone.1 equal.symm).symm
      simp [List.lookup_cons, beq_eq_false_iff_ne.mpr same, beq_eq_false_iff_ne.mpr differ, tail]

namespace Outline

variable {first second : TagTable} (rename : TypeId → TypeId)

mutual

/-- The lines of a tree are those of the tree with other numbers, if its types have the same names
and ranges under them. -/
theorem treeLines_map (depth : Nat) : ∀ tree : Tree,
    (∀ id ∈ tree.ids,
      right.name? (rename id) = left.name? id ∧ second.range? (rename id) = first.range? id) →
    treeLines right second depth (tree.map rename) = treeLines left first depth tree
  | .leaf id, same => by
    obtain ⟨name, range⟩ := same id List.mem_cons_self
    rw [Tree.map, treeLines, treeLines, name, range]
  | .group id eldest others, same => by
    simp only [Tree.ids, List.forall_mem_cons, List.forall_mem_append] at same
    obtain ⟨⟨name, range⟩, inEldest, inOthers⟩ := same
    rw [Tree.map, treeLines, treeLines, name, range, treeLines_map (depth + 1) eldest inEldest,
      treeLinesAll_map (depth + 1) others inOthers]

/-- The same for several trees. -/
theorem treeLinesAll_map (depth : Nat) : ∀ trees : List Tree,
    (∀ id ∈ Tree.idsAll trees,
      right.name? (rename id) = left.name? id ∧ second.range? (rename id) = first.range? id) →
    treeLinesAll right second depth (Tree.mapAll rename trees) =
      treeLinesAll left first depth trees
  | [], _ => rfl
  | tree :: trees, same => by
    simp only [Tree.idsAll, List.forall_mem_append] at same
    rw [Tree.mapAll, treeLinesAll, treeLinesAll, treeLines_map depth tree same.1,
      treeLinesAll_map depth trees same.2]

end

end Outline

namespace Included

/-- The range of a type stays the same. -/
theorem range?_renumber (included : Included left.types right.types) {tree : Tree}
    (declared : ∀ id ∈ tree.ids, id < left.types.length) {start : Nat} {first second : TagTable}
    (leftRanges : first.ranges = tree.ranges start)
    (rightRanges : second.ranges = (tree.map (renumber left.types right.types)).ranges start)
    {id : TypeId} (inside : id < left.types.length) :
    second.range? (renumber left.types right.types id) = first.range? id := by
  rw [TagTable.range?, TagTable.range?, rightRanges, leftRanges, Tree.ranges_map]
  apply lookup_map_key
  intro entry member
  have listed : entry.1 ∈ tree.ids :=
    (tree.ranges_keys start).mem_iff.mp (List.mem_map_of_mem member)
  exact included.renumber_injective (declared _ listed) inside

/-- The final types of a tree keep their names and numbers. -/
theorem finals_renumber (included : Included left.types right.types)
    (leftInStep : left.InStep) (rightInStep : right.InStep) {tree : Tree}
    (declared : ∀ id ∈ tree.ids, id < left.types.length) {start : Nat} {first second : TagTable}
    (leftRanges : first.ranges = tree.ranges start)
    (rightRanges : second.ranges = (tree.map (renumber left.types right.types)).ranges start) :
    (FinalType.collect right (tree.map (renumber left.types right.types)) second).map
        (fun final => (final.name, final.tag)) =
      (FinalType.collect left tree first).map fun final => (final.name, final.tag) := by
  have sorted (found : List FinalType) :=
    @Ordering.map_mergeSort_key _ _ (fun final : FinalType => (final.name, final.tag))
      FinalType.name Prod.fst (fun _ => rfl) found
  rw [FinalType.collect, FinalType.collect, sorted, sorted, Tree.leaves_map, List.filterMap_map,
    List.map_filterMap, List.map_filterMap]
  refine congrArg (List.mergeSort · _) (List.filterMap_congr ?_)
  intro id member
  have inside := declared id (tree.leaves_sublist.subset member)
  rw [Function.comp_apply, included.name?_renumber leftInStep rightInStep inside,
    included.range?_renumber declared leftRanges rightRanges inside]
  cases left.name? id with
  | none => rfl
  | some name =>
    cases first.range? id with
    | none => rfl
    | some range => rfl

/-- The lines of a tree stay the same. -/
theorem treeLines_renumber (included : Included left.types right.types)
    (leftInStep : left.InStep) (rightInStep : right.InStep) {tree : Tree}
    (declared : ∀ id ∈ tree.ids, id < left.types.length) {start : Nat} {first second : TagTable}
    (leftRanges : first.ranges = tree.ranges start)
    (rightRanges : second.ranges = (tree.map (renumber left.types right.types)).ranges start) :
    Outline.treeLines right second 0 (tree.map (renumber left.types right.types)) =
      Outline.treeLines left first 0 tree := by
  refine Outline.treeLines_map _ 0 tree fun id member => ⟨?_, ?_⟩
  · exact included.name?_renumber leftInStep rightInStep (declared id member)
  · exact included.range?_renumber declared leftRanges rightRanges (declared id member)

/-- The facades of a tree stand for the same final types. -/
theorem facades_renumber (included : Included left.types right.types) {tree : Tree}
    (declared : ∀ id ∈ tree.ids, id < left.types.length) :
    Facade.collect right (tree.map (renumber left.types right.types)) =
      (Facade.collect left tree).map (Facade.map (renumber left.types right.types)) := by
  have named : ∀ id ∈ tree.ids,
      (right.type? (renumber left.types right.types id)).bind TypeDef.publicName =
        (left.type? id).bind TypeDef.publicName := by
    intro id member
    have inside := declared id member
    have found : left.types[id]? = some left.types[id] := List.getElem?_eq_getElem inside
    rw [Registry.type?, Registry.type?, included.renumber_type found, found]
  rw [Facade.collect, Facade.collect, Facade.gather_map _ tree named]
  exact (Ordering.map_mergeSort_key (fun _ => rfl) _).symm

/-- A reference by name is resolved to the new number of what it was resolved to. -/
theorem resolved_renumber {first second : List TypeDef} (included : Included first second)
    {reference : Option TypeRef} (named : ∀ ref, reference = some ref → ref.IsNamed)
    {target other : Option TypeId} (resolved : Resolved first reference target)
    (otherResolved : Resolved second reference other) :
    other = target.map (renumber first second) := by
  cases reference with
  | none =>
    obtain rfl : target = none := resolved
    exact otherResolved
  | some ref =>
    obtain ⟨id, rfl, means⟩ := resolved
    obtain ⟨otherId, rfl, otherMeans⟩ := otherResolved
    have inside := TypeRef.means_inside means
    have same := (included.means_iff (named ref rfl) inside).mpr means
    rw [TypeRef.means_unique included.right_distinct otherMeans same, Option.map_some]

/-- The slot for a declared type goes to the slot for its new number. -/
theorem ofTarget_renumber (included : Included left.types right.types) (settings : Settings)
    (kind : Option SlotKind) (target : Option TypeId)
    (declared : ∀ id, target = some id → id < left.types.length) :
    Slot.ofTarget right settings kind (target.map (renumber left.types right.types)) =
      (Slot.ofTarget left settings kind target).map
        (Slot.map (renumber left.types right.types)) := by
  cases kind with
  | none => rfl
  | some kind =>
    cases target with
    | none => rfl
    | some id =>
      have inside := declared id rfl
      have found : left.types[id]? = some left.types[id] := List.getElem?_eq_getElem inside
      rw [Option.map_some, Slot.ofTarget_declared settings kind found,
        Slot.ofTarget_declared settings kind (included.renumber_type found), Option.map_some,
        Slot.make_map]

/-- The slot of a member goes to the slot for the new number. -/
theorem ofMember_renumber (included : Included left.types right.types)
    (leftFinished : left.Finished leftLinks) (rightFinished : right.Finished rightLinks)
    (settings : Settings) {id : TypeId} {type : TypeDef} (found : left.types[id]? = some type)
    {index : Nat} {member : Member} (listed : type.members[index]? = some member) :
    Slot.ofMember right settings (renumber left.types right.types id) (member, index) =
      (Slot.ofMember left settings id (member, index)).map
        (Option.map (Slot.map (renumber left.types right.types))) := by
  have named := (included.by_name type (List.mem_of_getElem? found)).2 member
    (List.mem_of_getElem? listed)
  obtain ⟨target, resolved, made⟩ := Slot.ofMember_ok leftFinished settings found listed
  obtain ⟨other, otherResolved, otherMade⟩ :=
    Slot.ofMember_ok rightFinished settings (included.renumber_type found) listed
  have declared : ∀ id, target = some id → id < left.types.length := by
    rintro id rfl
    exact resolved_inside resolved
  rw [made, otherMade, included.resolved_renumber named resolved otherResolved,
    included.ofTarget_renumber settings _ _ declared]
  rfl

/-- The slots of a type go to the slots for the new numbers. -/
theorem ofType_renumber (included : Included left.types right.types)
    (leftFinished : left.Finished leftLinks) (rightFinished : right.Finished rightLinks)
    (settings : Settings) {id : TypeId} (inside : id < left.types.length) :
    Slot.ofType right settings (renumber left.types right.types id) =
      (Slot.ofType left settings id).map
        (List.map (Slot.map (renumber left.types right.types))) := by
  have found : left.types[id]? = some left.types[id] := List.getElem?_eq_getElem inside
  have moved := included.renumber_type found
  have members := Outcome.mapM_renamed (fun entry => entry)
    (Option.map (Slot.map (renumber left.types right.types))) (Slot.ofMember left settings id)
    (Slot.ofMember right settings (renumber left.types right.types id))
    left.types[id].members.zipIdx fun entry listed =>
      included.ofMember_renumber leftFinished rightFinished settings found
        (List.mem_zipIdx_iff_getElem?.mp listed)
  rw [List.map_id'] at members
  rw [Slot.ofType_eq settings found, Slot.ofType_eq settings moved, members]
  cases left.types[id].members.zipIdx.mapM (Slot.ofMember left settings id) with
  | error fault => rfl
  | ok slots =>
    refine congrArg Except.ok ?_
    rw [List.filterMap_map, List.map_filterMap]
    rfl

/-- The slots of a tree go to the slots for the new numbers. -/
theorem slots_renumber (included : Included left.types right.types)
    (leftFinished : left.Finished leftLinks) (rightFinished : right.Finished rightLinks)
    (settings : Settings) {tree : Tree} (declared : ∀ id ∈ tree.ids, id < left.types.length) :
    Slot.collect right (tree.map (renumber left.types right.types)) settings =
      (Slot.collect left tree settings).map
        (List.map (Slot.map (renumber left.types right.types))) := by
  have each := Outcome.mapM_renamed (renumber left.types right.types)
    (List.map (Slot.map (renumber left.types right.types))) (Slot.ofType left settings)
    (Slot.ofType right settings) tree.ids fun id member =>
      included.ofType_renumber leftFinished rightFinished settings (declared id member)
  rw [Slot.collect, Slot.collect, Tree.ids_map, each]
  cases tree.ids.mapM (Slot.ofType left settings) with
  | error fault => rfl
  | ok slots =>
    refine congrArg Except.ok ?_
    rw [← List.map_flatten, Slot.firsts_map]
    exact (Ordering.map_mergeSort_key (fun _ => rfl) _).symm

end Included

end Taxonomy
