import Taxonomy.Proofs.Descent
import Taxonomy.Proofs.PostOrder

/-!
# Which fault an allocation has

Numbers run out at a final type: an abstract type only repeats numbers that final types
below it have got. If labels are no problem, the fault therefore names the final type whose
place in the tree is one beyond what the width has room for. If numbers are no problem, the
fault names the first label that was there before, from below upwards.
-/
namespace Taxonomy

namespace TagTable

/-- Where all labels are fresh, the defect is the first number that does not fit. -/
theorem defect?_of_fresh (width : TagWidth) (seen : List String) (entries : List TagEntry)
    (fresh : Fresh seen (entries.map TagEntry.label)) :
    defect? width seen entries =
      (entries.find? fun entry => width.max < entry.value).map fun entry =>
        .tagOverflow entry.label (min entry.value maxTag) width := by
  induction entries generalizing seen with
  | nil => rfl
  | cons entry entries inductionHypothesis =>
    rw [List.map_cons, fresh_cons_iff] at fresh
    rw [defect?]
    by_cases large : width.max < entry.value
    · simp [large]
    · simp [large, fresh.1, inductionHypothesis _ fresh.2]

/-- Where all numbers fit, the defect is the first label that was there before. -/
theorem defect?_of_fitting (width : TagWidth) (seen : List String) (entries : List TagEntry)
    (fits : ∀ entry ∈ entries, entry.value ≤ width.max) :
    defect? width seen entries =
      (firstRepeated seen (entries.map TagEntry.label)).map (.duplicateName .tagLabel) := by
  induction entries generalizing seen with
  | nil => rfl
  | cons entry entries inductionHypothesis =>
    rw [List.forall_mem_cons] at fits
    rw [defect?, List.map_cons, firstRepeated, if_neg (Nat.not_lt.mpr fits.1)]
    by_cases met : entry.label ∈ seen
    · simp [met]
    · simp [met, inductionHypothesis _ fits.2]

end TagTable

namespace Tree

/-- The first number beyond a bound that several trees mark is that of the final type at
the place where the room ends, if this holds for each tree. -/
theorem marksAll_beyond {trees : List Tree} (bound : Nat)
    (each : ∀ tree ∈ trees, ∀ next, (tree.marks next).find? (fun mark => bound < mark.2) =
      tree.leaves[bound + 1 - next]?.map fun id => (.only id, next + (bound + 1 - next)))
    (next : Nat) :
    (marksAll next trees).find? (fun mark => bound < mark.2) =
      (trees.flatMap leaves)[bound + 1 - next]?.map fun id =>
        (.only id, next + (bound + 1 - next)) := by
  induction trees generalizing next with
  | nil => rfl
  | cons tree trees inductionHypothesis =>
    rw [List.forall_mem_cons] at each
    rw [marksAll, List.find?_append, each.1, inductionHypothesis each.2, List.flatMap_cons]
    by_cases here : bound + 1 - next < tree.leaves.length
    · simp [List.getElem?_append_left here, List.getElem?_eq_getElem here]
    · have passed : tree.leaves.length ≤ bound + 1 - next := Nat.not_lt.mp here
      have place : bound + 1 - (next + tree.width) = bound + 1 - next - tree.leaves.length := by
        rw [width, Nat.sub_add_eq]
      have number : next + tree.width + (bound + 1 - (next + tree.width)) =
          next + (bound + 1 - next) := by
        rw [width]
        omega
      rw [List.getElem?_append_right passed, List.getElem?_eq_none passed, number, place]
      rfl

/-- The first number beyond a bound that a tree marks is that of the final type at the
place where the room ends. The numbers of an abstract type come after those of its final
types, which they repeat. -/
theorem marks_beyond (bound : Nat) (tree : Tree) (next : Nat) :
    (tree.marks next).find? (fun mark => bound < mark.2) =
      tree.leaves[bound + 1 - next]?.map fun id => (.only id, next + (bound + 1 - next)) := by
  induction tree using by_children generalizing next with
  | leaf id =>
    by_cases large : bound < next
    · have none : bound + 1 - next = 0 := by omega
      simp [marks, leaves, large, none]
    · obtain ⟨room, more⟩ : ∃ room, bound + 1 - next = room + 1 := ⟨bound - next, by omega⟩
      simp [marks, leaves, large, more]
  | group id eldest others inductionHypothesis =>
    rw [marks_group, List.find?_append, marksAll_beyond bound inductionHypothesis,
      ← leaves_group id]
    cases found : (Tree.group id eldest others).leaves[bound + 1 - next]? with
    | some leaf => rfl
    | none =>
      have passed := List.getElem?_eq_none_iff.mp found
      have positive : 0 < (Tree.group id eldest others).leaves.length :=
        List.length_pos_iff.mpr (leaves_ne_nil _)
      have first : ¬ bound < next := by omega
      have last : ¬ bound < ((Tree.group id eldest others).range next).last := by
        change ¬ bound < next + (Tree.group id eldest others).leaves.length - 1
        omega
      simp [first, last]

/-- Some leaf of the tree has the name of a label of one of its groups. -/
def Clash (registry : Registry) (tree : Tree) : Prop :=
  ∃ leaf group : Tree, leaf.Within tree ∧ group.Within tree ∧
    leaf.isLeaf = true ∧ group.isLeaf = false ∧
    ∃ final abstract, registry.name leaf.root = .ok final ∧
      registry.name group.root = .ok abstract ∧
      (final = "First" ++ abstract ∨ final = "Last" ++ abstract)

namespace Grown

variable {registry : Registry} {links : Links} {tree : Tree}

/-- The root of a subtree is a declared type of the tree, which is final exactly if the
subtree is a leaf. -/
theorem type_within (finished : registry.Finished links) (grown : tree.Grown registry links)
    {sub : Tree} (within : sub.Within tree) :
    sub.root ∈ tree.ids ∧ ∃ type, registry.types[sub.root]? = some type ∧
      sub.isLeaf = type.isFinal ∧ registry.name sub.root = .ok type.name := by
  obtain ⟨type, known, kind, _⟩ := (grown.within within).node_shape finished
  have found := (registry.type_ok_iff _ type).mp known
  refine ⟨(tree.mem_ids_iff_within _).mpr ⟨sub, within, rfl⟩, type, found, kind, ?_⟩
  rw [Registry.name_ok_iff, finished.inStep.name?_eq, found, Option.map_some]

/-- Leaves and groups clash exactly if the names of final and abstract types do. -/
theorem clash_iff (finished : registry.Finished links) (grown : tree.Grown registry links) :
    tree.Clash registry ↔ ¬ LabelsApart registry.types (· ∈ tree.ids) := by
  constructor
  · rintro ⟨leaf, group, leafWithin, groupWithin, isLeaf, isGroup, final, abstract, leafName,
      groupName, same⟩ apart
    obtain ⟨leafInside, first, leafFound, leafKind, leafNamed⟩ :=
      grown.type_within finished leafWithin
    obtain ⟨groupInside, second, groupFound, groupKind, groupNamed⟩ :=
      grown.type_within finished groupWithin
    obtain rfl := Except.ok.inj (leafNamed.symm.trans leafName)
    obtain rfl := Except.ok.inj (groupNamed.symm.trans groupName)
    have differ := apart leaf.root group.root first second leafInside groupInside leafFound
      groupFound (leafKind ▸ isLeaf) (groupKind ▸ isGroup)
    exact not_or.mpr differ same
  · intro clash
    by_contra apart
    refine clash fun leaf group final abstract leafInside groupInside leafFound groupFound isFinal
      notFinal => not_or.mp fun same => apart ?_
    obtain ⟨leafTree, leafWithin, rfl⟩ := (tree.mem_ids_iff_within leaf).mp leafInside
    obtain ⟨groupTree, groupWithin, rfl⟩ := (tree.mem_ids_iff_within group).mp groupInside
    obtain ⟨_, first, leafThere, leafKind, leafNamed⟩ := grown.type_within finished leafWithin
    obtain ⟨_, second, groupThere, groupKind, groupNamed⟩ := grown.type_within finished groupWithin
    obtain rfl := Option.some.inj (leafThere.symm.trans leafFound)
    obtain rfl := Option.some.inj (groupThere.symm.trans groupFound)
    exact ⟨leafTree, groupTree, leafWithin, groupWithin, leafKind.trans isFinal,
      groupKind.trans notFinal, _, _, leafNamed, groupNamed, same⟩

/-- From a start above zero an allocation has the first defect of the entries, if any. -/
theorem allocate_fault? (finished : registry.Finished links) (grown : tree.Grown registry links)
    {start : Nat} (positive : 1 ≤ start) (width : TagWidth) :
    Outcome.fault? (TagTable.allocate registry tree start width) =
      TagTable.defect? width [] (tree.entries registry start) := by
  rw [grown.allocate_eq finished, if_neg (Nat.one_le_iff_ne_zero.mp positive)]
  cases TagTable.defect? width [] (tree.entries registry start) <;> rfl

/-- Where names are not in the way, an allocation fails at the final type for which there is
no room. -/
theorem allocate_fault?_of_apart (finished : registry.Finished links)
    (grown : tree.Grown registry links) {start : Nat} (positive : 1 ≤ start) (width : TagWidth)
    (apart : LabelsApart registry.types (· ∈ tree.ids)) :
    Outcome.fault? (TagTable.allocate registry tree start width) =
      tree.leaves[width.max + 1 - start]?.map fun id =>
        .tagOverflow ((TagMark.only id).labelIn registry)
          (min (start + (width.max + 1 - start)) maxTag) width := by
  have fresh := (grown.entry_labels_distinct_iff finished start).mpr apart
  rw [grown.allocate_fault? finished positive,
    TagTable.defect?_of_fresh width [] _ ((fresh_nil_iff _).mpr fresh), entries, List.find?_map,
    Option.map_map]
  have beyond := tree.marks_beyond width.max start
  simp only [Function.comp_def, beyond, Option.map_map]

/-- Where the numbers fit, an allocation fails at the first label that was there before. -/
theorem allocate_fault?_of_fitting (finished : registry.Finished links)
    (grown : tree.Grown registry links) {start : Nat} (positive : 1 ≤ start) (width : TagWidth)
    (fits : start + tree.leaves.length - 1 ≤ width.max) :
    Outcome.fault? (TagTable.allocate registry tree start width) =
      (firstRepeated [] ((tree.entries registry start).map TagEntry.label)).map
        (.duplicateName .tagLabel) := by
  rw [grown.allocate_fault? finished positive]
  exact TagTable.defect?_of_fitting width [] _
    ((tree.entries_fit_iff registry start width).mpr fits)

end Grown

end Tree

/-- From a start above zero the types of a tree can be numbered exactly if the last number
fits and no leaf has the name of a label of a group. If only the numbers are in the way, the
fault names the final type at the place where the room ends and the number it would have got,
or the largest of 64 bits where there is no such number. If only names are in the way, the
fault names the first label that repeats an earlier one, from below upwards.

Proof: the visit comes to one step for each entry of the tree, from below upwards, and its
fault is that of the first step with one. A step fails if its number is too large or its
label is there already. Only a final type takes a new number and abstract types repeat
those below them, so the first number that is too large is that of the final type at the
end of the room. Without that, what is left is the first repeated label; and since the
names of types are different, a label is repeated only where a leaf has the name of a
label of a group. -/
theorem allocation_fails_exactly (registry : Registry) (reachable : registry.Reachable)
    (name : String) (tree : Tree) (built : Tree.ofRoot registry name = .ok tree) (start : Nat)
    (positive : 1 ≤ start) (width : TagWidth) :
    ((∃ table, TagTable.allocate registry tree start width = .ok table) ↔
      start + tree.leaves.length - 1 ≤ width.max ∧ ¬ tree.Clash registry) ∧
    (¬ tree.Clash registry → width.max < start + tree.leaves.length - 1 →
      ∃ id final, tree.leaves[width.max + 1 - start]? = some id ∧ registry.name id = .ok final ∧
        TagTable.allocate registry tree start width =
          .error (.tagOverflow final (min (start + (width.max + 1 - start)) (2 ^ 64 - 1)) width)) ∧
    (start + tree.leaves.length - 1 ≤ width.max → tree.Clash registry →
      ∃ labels before label after, tree.labels registry = .ok labels ∧
        labels = before ++ label :: after ∧ before.Nodup ∧ label ∈ before ∧
        TagTable.allocate registry tree start width =
          .error (.duplicateName .tagLabel label)) := by
  obtain ⟨links, finished, _, grown⟩ := Tree.ofRoot_reachable reachable built
  have clash := grown.clash_iff finished
  refine ⟨?_, ?_, ?_⟩
  · rw [grown.allocate_succeeds_iff finished, and_iff_right positive, clash, not_not]
  · intro noClash full
    have apart := not_not.mp (clash.not.mp noClash)
    have inhabited : 0 < tree.leaves.length := List.length_pos_iff.mpr tree.leaves_ne_nil
    have room : width.max + 1 - start < tree.leaves.length := by omega
    have listed := List.getElem?_eq_getElem room
    have member := tree.leaves_sublist.subset (List.getElem_mem room)
    obtain ⟨final, named⟩ := grown.named finished _ member
    refine ⟨_, final, listed, (registry.name_ok_iff _ _).mpr named, ?_⟩
    rw [← Outcome.fault?_some_iff, grown.allocate_fault?_of_apart finished positive width apart,
      listed, Option.map_some, TagMark.labelIn, TagMark.type, named]
    rfl
  · intro fits isClash
    have repeated : firstRepeated [] ((tree.entries registry start).map TagEntry.label) ≠ none := by
      rw [Ne, firstRepeated_nil_iff, grown.entry_labels_distinct_iff finished]
      exact clash.mp isClash
    obtain ⟨label, met⟩ := Option.ne_none_iff_exists'.mp repeated
    obtain ⟨before, after, split, fresh, earlier⟩ := firstRepeated_split met
    refine ⟨_, before, label, after, grown.labels_ok finished start, split,
      (fresh_nil_iff before).mp fresh, earlier.resolve_left List.not_mem_nil, ?_⟩
    rw [← Outcome.fault?_some_iff, grown.allocate_fault?_of_fitting finished positive width fits,
      met]
    rfl

/-- Coins are cents and dimes. -/
def coins : Registry :=
  .holding [
    { name := "Dime", base := some (.named "Coin") },
    { name := "Coin", isFinal := false },
    { name := "Cent", base := some (.named "Coin") }]
    (some {
      bases := [some 1, none, some 1]
      derived := [[], [2, 0], []]
      targets := [[], [], []] })

/-- The tree of the coins. -/
def coinTree : Tree :=
  .group 1 (.leaf 2) [.leaf 0]

/-- Of three medals one has the name that the first number of the best medals goes by. -/
def medals : Registry :=
  .holding [
    { name := "Medal", isFinal := false },
    { name := "Best", base := some (.named "Medal"), isFinal := false },
    { name := "Gold", base := some (.named "Best") },
    { name := "Silver", base := some (.named "Best") },
    { name := "FirstBest", base := some (.named "Medal") }]
    (some {
      bases := [none, some 0, some 1, some 1, some 0]
      derived := [[1, 4], [2, 3], [], [], []]
      targets := [[], [], [], [], []] })

/-- The tree of the medals. -/
def medalTree : Tree :=
  .group 0 (.group 1 (.leaf 2) [.leaf 3]) [.leaf 4]

/-- From 255 on, eight bits have room for the cent but not for the dime, and so have 64 bits
from the largest number on. The medals cannot be numbered at all: one of them has a name that
is a label before its turn comes. -/
theorem allocation_fails_money :
    (¬ coinTree.Clash coins ∧
      (∃ id final, coinTree.leaves[1]? = some id ∧ coins.name id = .ok final ∧
        TagTable.allocate coins coinTree 255 .u8 = .error (.tagOverflow final 256 .u8)) ∧
      ∃ id final, coinTree.leaves[1]? = some id ∧ coins.name id = .ok final ∧
        TagTable.allocate coins coinTree 18446744073709551615 .u64 =
          .error (.tagOverflow final 18446744073709551615 .u64)) ∧
    medalTree.Clash medals ∧
      ∃ labels before label after, medalTree.labels medals = .ok labels ∧
        labels = before ++ label :: after ∧ before.Nodup ∧ label ∈ before ∧
        TagTable.allocate medals medalTree 1 .u8 = .error (.duplicateName .tagLabel label) := by
  have coinsMade : Registry.ofList coins.types = .ok coins :=
    Registry.ofList_of_linkedBy (by decide +kernel)
  have medalsMade : Registry.ofList medals.types = .ok medals :=
    Registry.ofList_of_linkedBy (by decide +kernel)
  have coinsBuilt : Tree.ofRoot coins "Coin" = .ok coinTree := by rfl
  have medalsBuilt : Tree.ofRoot medals "Medal" = .ok medalTree := by rfl
  have money := allocation_fails_exactly coins (Registry.ofList_reachable coinsMade) "Coin" coinTree
    coinsBuilt
  have honours := allocation_fails_exactly medals (Registry.ofList_reachable medalsMade) "Medal"
    medalTree medalsBuilt
  -- That the coins can be numbered from 1 on shows that their names are not in the way.
  have apart : ¬ coinTree.Clash coins :=
    ((money 1 (by decide) .u8).1.mp ⟨.append {}
      [⟨"Cent", 1⟩, ⟨"Dime", 2⟩, ⟨"FirstCoin", 1⟩, ⟨"LastCoin", 2⟩]
      [(2, ⟨1, 1⟩), (0, ⟨2, 2⟩), (1, ⟨1, 2⟩)], by rfl⟩).2
  have clash : medalTree.Clash medals :=
    ⟨.leaf 4, .group 1 (.leaf 2) [.leaf 3], .child (by simp) .self, .child (by simp) .self, rfl,
      rfl, "FirstBest", "Best", by rfl, by rfl, Or.inl (by decide)⟩
  exact ⟨⟨apart, (money 255 (by decide) .u8).2.1 apart (by decide),
    (money 18446744073709551615 (by decide) .u64).2.1 apart (by decide)⟩, clash,
    (honours 1 (by decide) .u8).2.2 (by decide) clash⟩

end Taxonomy
