import Taxonomy.Proofs.TreeMap

/-!
# The same types under other numbers

Types are numbered in the order of their declaration. If every type of one list is
declared in another list too, a number of the first list can be turned into the
number that the same type has in the second. Where references are by name, they
mean the same types in both lists, so the turned numbers are related as the given
ones were.

The second list may have more types, and these may derive from types of the first
list. A tree is the same in both, up to its numbers, if this does not happen in it.
-/
namespace Taxonomy

open Relation

/-- The reference is by name. -/
def TypeRef.IsNamed : TypeRef → Prop
  | .named _ => True
  | .numbered _ => False

/-- The type refers to its base and to the types of its members by their names. -/
def TypeDef.RefersByName (type : TypeDef) : Prop :=
  (∀ ref, type.base = some ref → ref.IsNamed) ∧
    ∀ member ∈ type.members, ∀ ref, member.kind.target? = some ref → ref.IsNamed

/-- All types of the first list are declared in the second one as well, and refer to
others by name. -/
structure Included (left right : List TypeDef) : Prop where
  left_distinct : (left.map TypeDef.name).Nodup
  right_distinct : (right.map TypeDef.name).Nodup
  declared : ∀ type ∈ left, type ∈ right
  by_name : ∀ type ∈ left, type.RefersByName

/-- The number in the second list of the type that has the given number in the
first. -/
def renumber (left right : List TypeDef) (id : TypeId) : TypeId :=
  match left[id]? with
  | some type => right.idxOf type
  | none => id

namespace Included

variable {left right : List TypeDef}

/-- The type under the new number is the type under the old one. -/
theorem renumber_type (included : Included left right) {id : TypeId} {type : TypeDef}
    (found : left[id]? = some type) : right[renumber left right id]? = some type := by
  have member : type ∈ right := included.declared type (List.mem_of_getElem? found)
  have inside : right.idxOf type < right.length := List.idxOf_lt_length_iff.mpr member
  rw [renumber, found]
  exact (List.getElem?_eq_getElem inside).trans (congrArg some (List.getElem_idxOf inside))

/-- Declared types have different new numbers. -/
theorem renumber_injective (included : Included left right) {first second : TypeId}
    (firstInside : first < left.length) (secondInside : second < left.length)
    (same : renumber left right first = renumber left right second) : first = second := by
  have firstFound : left[first]? = some left[first] := List.getElem?_eq_getElem firstInside
  have secondFound : left[second]? = some left[second] := List.getElem?_eq_getElem secondInside
  have atFirst := included.renumber_type firstFound
  rw [same, included.renumber_type secondFound] at atFirst
  have equal : left[second] = left[first] := Option.some.inj atFirst
  exact name_unique included.left_distinct firstFound secondFound (congrArg TypeDef.name equal).symm

/-- A reference by name means a type of the first list there exactly if it means the
same type in the second. -/
theorem means_iff (included : Included left right) {ref : TypeRef} (named : ref.IsNamed)
    {id : TypeId} (inside : id < left.length) :
    ref.Means right (renumber left right id) ↔ ref.Means left id := by
  have found : left[id]? = some left[id] := List.getElem?_eq_getElem inside
  cases ref with
  | named name =>
    change (∃ type, right[renumber left right id]? = some type ∧ type.name = name) ↔
      ∃ type, left[id]? = some type ∧ type.name = name
    rw [included.renumber_type found, found]
  | numbered number => exact named.elim

/-- A type derives from another one in the first list exactly if it does in the
second. -/
theorem derives_iff (included : Included left right) {id base : TypeId}
    (inside : id < left.length) (baseInside : base < left.length) :
    Derives right (renumber left right id) (renumber left right base) ↔ Derives left id base := by
  have found : left[id]? = some left[id] := List.getElem?_eq_getElem inside
  have named := (included.by_name left[id] (List.getElem_mem inside)).1
  constructor
  · rintro ⟨type, ref, sameFound, given, means⟩
    obtain rfl : left[id] = type :=
      Option.some.inj ((included.renumber_type found).symm.trans sameFound)
    exact ⟨_, ref, found, given, (included.means_iff (named ref given) baseInside).mp means⟩
  · rintro ⟨type, ref, sameFound, given, means⟩
    obtain rfl : left[id] = type := Option.some.inj (found.symm.trans sameFound)
    exact ⟨_, ref, included.renumber_type found, given,
      (included.means_iff (named ref given) baseInside).mpr means⟩

/-- What a type derives from in the first list it derives from in the second. -/
theorem derives_renumber (included : Included left right) {id base : TypeId}
    (derives : Derives left id base) :
    Derives right (renumber left right id) (renumber left right base) := by
  obtain ⟨type, ref, found, given, means⟩ := derives
  have inside : id < left.length := (List.getElem?_eq_some_iff.mp found).1
  have baseInside : base < left.length := TypeRef.means_inside means
  exact (included.derives_iff inside baseInside).mpr ⟨type, ref, found, given, means⟩

/-- A type of both lists has its number in the second from its number in the first. -/
theorem covers_common (included : Included left right) {id : TypeId} {type : TypeDef}
    (found : right[id]? = some type) (common : type ∈ left) :
    ∃ source < left.length, renumber left right source = id := by
  obtain ⟨source, inside, same⟩ := List.mem_iff_getElem.mp common
  have there : left[source]? = some type := by rw [List.getElem?_eq_getElem inside, same]
  refine ⟨source, inside, ?_⟩
  exact name_unique included.right_distinct (included.renumber_type there) found rfl

/-- If also every type of the second list is declared in the first, numbering back
gives the old number. -/
theorem renumber_back (included : Included left right) (back : Included right left) {id : TypeId}
    (inside : id < left.length) : renumber right left (renumber left right id) = id := by
  have found : left[id]? = some left[id] := List.getElem?_eq_getElem inside
  have again := back.renumber_type (included.renumber_type found)
  exact name_unique included.left_distinct again found rfl

end Included

variable {left right : Registry} {leftLinks rightLinks : Links}

/-- Renumbering keeps the names of declared types. -/
theorem Included.name?_renumber (included : Included left.types right.types)
    (leftInStep : left.InStep) (rightInStep : right.InStep) {id : TypeId}
    (inside : id < left.types.length) :
    right.name? (renumber left.types right.types id) = left.name? id := by
  have found : left.types[id]? = some left.types[id] := List.getElem?_eq_getElem inside
  rw [leftInStep.name?_eq, rightInStep.name?_eq, included.renumber_type found, found]

/-- The types derived from a type are listed under their new numbers if the second
registry derives no further types from it. Both lists are in the order of the
names, so it is enough that they have the same elements. -/
theorem Included.derivedFrom_renumber (included : Included left.types right.types)
    (leftFinished : left.Finished leftLinks) (rightFinished : right.Finished rightLinks)
    {base : TypeId} (inside : base < left.types.length)
    (covered : ∀ child, Derives right.types child (renumber left.types right.types base) →
      ∃ id < left.types.length, renumber left.types right.types id = child) :
    right.derivedFrom rightLinks.bases (renumber left.types right.types base) =
      (left.derivedFrom leftLinks.bases base).map (renumber left.types right.types) := by
  have declared {id : TypeId} (member : id ∈ left.derivedFrom leftLinks.bases base) :
      id < left.types.length :=
    leftFinished.step_declared ((leftFinished.mem_derived_iff base id).mp member)
  have kept {id : TypeId} (member : id ∈ left.derivedFrom leftLinks.bases base) :
      right.name? (renumber left.types right.types id) = left.name? id :=
    included.name?_renumber leftFinished.inStep rightFinished.inStep (declared member)
  apply Ordering.eq_of_same_members right.before_asymm (rightFinished.derived_sorted _)
  · rw [List.pairwise_map]
    refine (leftFinished.derived_sorted base).imp_of_mem ?_
    rintro first second firstMember secondMember ⟨firstName, secondName, atFirst, atSecond, less⟩
    refine ⟨firstName, secondName, ?_, ?_, less⟩
    · rw [kept firstMember, atFirst]
    · rw [kept secondMember, atSecond]
  · intro child
    rw [rightFinished.mem_derived_iff, rightFinished.faithful.step_iff, List.mem_map]
    constructor
    · intro derives
      obtain ⟨id, idInside, rfl⟩ := covered child derives
      have step := (leftFinished.faithful.step_iff id base).mpr
        ((included.derives_iff idInside inside).mp derives)
      exact ⟨id, (leftFinished.mem_derived_iff base id).mpr step, rfl⟩
    · rintro ⟨id, member, rfl⟩
      have step := (leftFinished.mem_derived_iff base id).mp member
      exact included.derives_renumber ((leftFinished.faithful.step_iff id base).mp step)

/-- The tree of a type is the same under the new numbers if the second registry
derives no further types in it. -/
theorem Included.grown_map (included : Included left.types right.types)
    (leftFinished : left.Finished leftLinks) (rightFinished : right.Finished rightLinks)
    {tree : Tree} (grown : tree.Grown left leftLinks)
    (covered : ∀ id ∈ tree.ids, ∀ child,
      Derives right.types child (renumber left.types right.types id) →
        ∃ source < left.types.length, renumber left.types right.types source = child) :
    (tree.map (renumber left.types right.types)).Grown right rightLinks := by
  induction grown with
  | leaf found final => exact .leaf (included.renumber_type found) final
  | @group id type eldest others found abstract derived grown inductionHypothesis =>
    rw [Tree.ids_group, List.forall_mem_cons] at covered
    have inside : id < left.types.length := (List.getElem?_eq_some_iff.mp found).1
    rw [Tree.map, Tree.mapAll_eq]
    refine .group (included.renumber_type found) abstract ?_ ?_
    · rw [included.derivedFrom_renumber leftFinished rightFinished inside covered.1, derived,
        ← List.map_cons, List.map_map, List.map_map]
      exact List.map_congr_left fun child _ => (Tree.root_map _ child).symm
    · rw [← List.map_cons, List.forall_mem_map]
      intro child member
      refine inductionHypothesis child member fun id inChild => ?_
      exact covered.2 id (List.mem_flatMap.mpr ⟨child, member, inChild⟩)

end Taxonomy
