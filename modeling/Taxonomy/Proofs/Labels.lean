import Taxonomy.Proofs.Allocator

/-!
# Which trees can be numbered

A final type is marked once, under its name, and an abstract type twice, under two
labels that begin with fixed words. The largest number is that of the last final
type. Since the names of types are pairwise different and the two words begin with
different letters, a label can be there twice only if a final type has the name of
a label of an abstract type.
-/
namespace Taxonomy

open Relation

/-- The number is that of a declared final type. -/
def Registry.isFinalId (registry : Registry) (id : TypeId) : Bool :=
  (registry.type? id).any TypeDef.isFinal

/-- The marks of a type: one if it is final, and otherwise two. -/
def Registry.marksOf (registry : Registry) (id : TypeId) : List TagMark :=
  if registry.isFinalId id then [.only id] else [.first id, .last id]

/-- A mark of a type speaks of this type, and is a single one exactly if the type is
final. -/
theorem Registry.mem_marksOf_iff (registry : Registry) (id : TypeId) (mark : TagMark) :
    mark ∈ registry.marksOf id ↔
      mark.type = id ∧ (registry.isFinalId id = true ↔ mark = .only id) := by
  cases final : registry.isFinalId id with
  | true => cases mark <;> simp [marksOf, final, TagMark.type]
  | false => cases mark <;> simp [marksOf, final, TagMark.type]

/-- The label of a mark is made from the name of the declared type. -/
theorem TagMark.labelIn_eq {registry : Registry} (inStep : registry.InStep) (mark : TagMark)
    {type : TypeDef} (found : registry.types[mark.type]? = some type) :
    mark.labelIn registry = mark.label type.name := by
  simp [labelIn, inStep.name?_eq, found]

/-- The labels of an abstract type begin with different words. -/
theorem TagMark.first_ne_last (left right : String) : "First" ++ left ≠ "Last" ++ right := by
  intro same
  have letters := congrArg String.toList same
  simp at letters

/-- Two equal labels are of one kind and made from one name, or one of them is the
name of a final type and the other belongs to an abstract type. -/
theorem TagMark.label_eq_cases {left right : TagMark} {first second : String}
    (same : left.label first = right.label second) :
    (first = second ∧ (left.type = right.type → left = right)) ∨
      (left = .only left.type ∧ right ≠ .only right.type ∧
        (first = "First" ++ second ∨ first = "Last" ++ second)) ∨
      (right = .only right.type ∧ left ≠ .only left.type ∧
        (second = "First" ++ first ∨ second = "Last" ++ first)) := by
  cases left with
  | only leaf => cases right <;> simp_all [label, type]
  | first group =>
    cases right with
    | only leaf => simp_all [label, type]
    | first other => simp_all [label, type]
    | last other => exact absurd same (first_ne_last first second)
  | last group =>
    cases right with
    | only leaf => simp_all [label, type]
    | first other => exact absurd same.symm (first_ne_last second first)
    | last other => simp_all [label, type]

namespace Tree

namespace Grown

variable {registry : Registry} {links : Links} {tree : Tree}

/-- The marks of several trees are the marks of their types, in some order. -/
theorem marksAll_perm {trees : List Tree} (each : ∀ tree ∈ trees, ∀ next,
      ((tree.marks next).map Prod.fst).Perm (tree.ids.flatMap registry.marksOf)) (next : Nat) :
    ((marksAll next trees).map Prod.fst).Perm ((trees.flatMap ids).flatMap registry.marksOf) := by
  induction trees generalizing next with
  | nil => exact List.Perm.refl _
  | cons tree trees inductionHypothesis =>
    rw [List.forall_mem_cons] at each
    rw [marksAll, List.map_append, List.flatMap_cons, List.flatMap_append]
    exact (each.1 next).append (inductionHypothesis each.2 _)

/-- The marks of a grown tree are the marks of its types, in some order. -/
theorem marks_perm (grown : tree.Grown registry links) (next : Nat) :
    ((tree.marks next).map Prod.fst).Perm (tree.ids.flatMap registry.marksOf) := by
  induction grown generalizing next with
  | @leaf id type found final =>
    have isFinal : registry.isFinalId id = true := by
      simp [Registry.isFinalId, Registry.type?, found, final]
    simp [marks, ids, Registry.marksOf, isFinal]
  | @group id type eldest others found abstract derived _ inductionHypothesis =>
    have notFinal : registry.isFinalId id = false := by
      simp [Registry.isFinalId, Registry.type?, found, abstract]
    rw [marks_group, List.map_append, ids_group, List.flatMap_cons]
    have own : registry.marksOf id = [.first id, .last id] := by
      simp [Registry.marksOf, notFinal]
    rw [own]
    exact (List.perm_append_comm).trans ((marksAll_perm inductionHypothesis next).append_left _)

/-- No mark of a grown tree stands twice. -/
theorem marks_nodup (finished : registry.Finished links) (grown : tree.Grown registry links) :
    (tree.ids.flatMap registry.marksOf).Nodup := by
  rw [List.nodup_flatMap]
  constructor
  · intro id _
    rw [Registry.marksOf]
    split
    · exact List.nodup_singleton _
    · simp
  · refine (grown.ids_nodup finished).imp ?_
    intro left right different mark atLeft atRight
    rw [Registry.mem_marksOf_iff] at atLeft atRight
    exact different (atLeft.1.symm.trans atRight.1)

/-- A mark of a grown tree is labelled with the name of a declared type, which is
final exactly if the mark is a single one. -/
theorem mark_declared (finished : registry.Finished links) (grown : tree.Grown registry links)
    {mark : TagMark} (member : mark ∈ tree.ids.flatMap registry.marksOf) :
    ∃ type, mark.type ∈ tree.ids ∧ registry.types[mark.type]? = some type ∧
      mark.labelIn registry = mark.label type.name ∧
      (type.isFinal = true ↔ mark = .only mark.type) := by
  obtain ⟨id, inTree, marked⟩ := List.mem_flatMap.mp member
  obtain ⟨rfl, kind⟩ := (registry.mem_marksOf_iff id mark).mp marked
  have inside := grown.declared _ inTree
  have found := List.getElem?_eq_getElem inside
  refine ⟨_, inTree, found, TagMark.labelIn_eq finished.inStep _ found, ?_⟩
  rw [← kind, Registry.isFinalId, Registry.type?, found, Option.any_some]

/-- The types of a grown tree have the marks that go with their declarations. -/
theorem mem_marks {mark : TagMark} {type : TypeDef}
    (inTree : mark.type ∈ tree.ids) (found : registry.types[mark.type]? = some type)
    (kind : type.isFinal = true ↔ mark = .only mark.type) :
    mark ∈ tree.ids.flatMap registry.marksOf := by
  refine List.mem_flatMap.mpr ⟨mark.type, inTree, (registry.mem_marksOf_iff _ _).mpr ⟨rfl, ?_⟩⟩
  rw [← kind, Registry.isFinalId, Registry.type?, found, Option.any_some]

end Grown

end Tree

/-- None of the final types has the name of a label of one of the abstract types. -/
def LabelsApart (types : List TypeDef) (inside : TypeId → Prop) : Prop :=
  ∀ leaf group final abstract, inside leaf → inside group →
    types[leaf]? = some final → types[group]? = some abstract →
    final.isFinal = true → abstract.isFinal = false →
    final.name ≠ "First" ++ abstract.name ∧ final.name ≠ "Last" ++ abstract.name

/-- Labels of the tree are pairwise different exactly if no final type has the name
of a label. -/
theorem Tree.Grown.labels_distinct_iff {registry : Registry} {links : Links} {tree : Tree}
    (finished : registry.Finished links) (grown : tree.Grown registry links) :
    ((tree.ids.flatMap registry.marksOf).map (TagMark.labelIn registry)).Nodup ↔
      LabelsApart registry.types (· ∈ tree.ids) := by
  rw [List.nodup_map_iff_inj_on (grown.marks_nodup finished)]
  constructor
  · intro injective leaf group final abstract leafInside groupInside leafFound groupFound isFinal
      notFinal
    have single : TagMark.only leaf ∈ tree.ids.flatMap registry.marksOf :=
      mem_marks leafInside leafFound (by simp [isFinal, TagMark.type])
    -- Both labels of the abstract type are treated alike: each belongs to another mark.
    have labelled (mark : TagMark) (about : mark.type = group)
        (double : mark ≠ .only mark.type) : final.name ≠ mark.label abstract.name := by
      subst about
      have member : mark ∈ tree.ids.flatMap registry.marksOf :=
        mem_marks groupInside groupFound (by simp [notFinal, double])
      intro same
      have equal : TagMark.only leaf = mark := by
        apply injective _ single _ member
        rw [TagMark.labelIn_eq finished.inStep (.only leaf) leafFound,
          TagMark.labelIn_eq finished.inStep mark groupFound, ← same]
        rfl
      rw [← equal] at double
      exact double rfl
    exact ⟨labelled (.first group) rfl (by simp), labelled (.last group) rfl (by simp)⟩
  · intro apart left leftMember right rightMember same
    obtain ⟨first, leftInside, leftFound, leftLabel, leftKind⟩ :=
      grown.mark_declared finished leftMember
    obtain ⟨second, rightInside, rightFound, rightLabel, rightKind⟩ :=
      grown.mark_declared finished rightMember
    rw [leftLabel, rightLabel] at same
    rcases TagMark.label_eq_cases same with
      ⟨names, alike⟩ | ⟨single, double, clash⟩ | ⟨single, double, clash⟩
    · exact alike (name_unique finished.distinct leftFound rightFound names)
    · have abstract : second.isFinal = false := by simpa [double] using rightKind
      have differ := apart _ _ _ _ leftInside rightInside leftFound rightFound
        (leftKind.mpr single) abstract
      exact absurd clash (not_or.mpr differ)
    · have abstract : first.isFinal = false := by simpa [double] using leftKind
      have differ := apart _ _ _ _ rightInside leftInside rightFound leftFound
        (rightKind.mpr single) abstract
      exact absurd clash (not_or.mpr differ)

/-- The same for the labels in the order in which the tree marks its types. -/
theorem Tree.Grown.entry_labels_distinct_iff {registry : Registry} {links : Links} {tree : Tree}
    (finished : registry.Finished links) (grown : tree.Grown registry links) (start : Nat) :
    ((tree.entries registry start).map TagEntry.label).Nodup ↔
      LabelsApart registry.types (· ∈ tree.ids) := by
  have same : (tree.entries registry start).map TagEntry.label =
      ((tree.marks start).map Prod.fst).map (TagMark.labelIn registry) := by
    simp [Tree.entries]
  rw [same, ← grown.labels_distinct_iff finished]
  exact ((grown.marks_perm start).map _).nodup_iff

/-- The numbers of a tree fit exactly if the last of them does. -/
theorem Tree.entries_fit_iff (registry : Registry) (tree : Tree) (start : Nat) (width : TagWidth) :
    (∀ entry ∈ tree.entries registry start, entry.value ≤ width.max) ↔
      start + tree.leaves.length - 1 ≤ width.max := by
  rw [Tree.entries, List.forall_mem_map]
  constructor
  · intro each
    obtain ⟨mark, member, value⟩ := tree.marks_reach start
    rw [Tree.width] at value
    rw [← value]
    exact each mark member
  · intro largest mark member
    exact Nat.le_trans (tree.marks_within start mark member).2 largest

/-- A grown tree can be numbered exactly if the numbers start above zero, the last
of them fits, and no final type has the name of a label. -/
theorem Tree.Grown.allocate_succeeds_iff {registry : Registry} {links : Links} {tree : Tree}
    (finished : registry.Finished links) (grown : tree.Grown registry links) (start : Nat)
    (width : TagWidth) :
    (∃ table, TagTable.allocate registry tree start width = .ok table) ↔
      1 ≤ start ∧ start + tree.leaves.length - 1 ≤ width.max ∧
        LabelsApart registry.types (· ∈ tree.ids) := by
  simp only [grown.allocate_ok_iff finished, exists_and_left, exists_eq, and_true]
  rw [TagTable.defect?_none_iff, tree.entries_fit_iff, fresh_nil_iff,
    grown.entry_labels_distinct_iff finished, Nat.one_le_iff_ne_zero]

end Taxonomy
