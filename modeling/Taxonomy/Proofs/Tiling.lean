import Taxonomy.Proofs.Acceptance

/-!
# Ranges tile

The range of an abstract type is cut up by the ranges of the types derived from it:
the first of them starts where the range starts, each other one right behind the one
before it, and the last ends where the range ends. No number is lost between two
siblings and none belongs to both, at every level of the tree.

A range is as wide as there are final types at or below its type. Since numbers start
above zero and stay within the width of the tag, the width of a range can be computed
with 64 bits, even for a range that ends at the largest number.
-/
namespace Taxonomy

/-- The parts make up the range one after the other, without gap and overlap. -/
structure TagRange.Tiles (range : TagRange) (parts : List TagRange) : Prop where
  first : parts.head?.map TagRange.first = some range.first
  next : parts.IsChain fun left right => right.first = left.last + 1
  last : parts.getLast?.map TagRange.last = some range.last

namespace Tree

/-- The ranges of several trees that take their numbers one after the other. -/
def spans (next : Nat) : List Tree → List TagRange
  | [] => []
  | tree :: trees => tree.range next :: spans (next + tree.width) trees

/-- Every tree takes at least one number. -/
theorem width_pos (tree : Tree) : 0 < tree.width :=
  List.length_pos_iff.mpr tree.leaves_ne_nil

/-- Trees that take their numbers one after the other tile the run of all numbers. -/
theorem spans_tile (next : Nat) (eldest : Tree) (others : List Tree) :
    TagRange.Tiles ⟨next, next + ((eldest :: others).flatMap leaves).length - 1⟩
      (spans next (eldest :: others)) := by
  induction others generalizing next eldest with
  | nil => exact ⟨rfl, .singleton _, by simp [spans, range, width]⟩
  | cons second others inductionHypothesis =>
    have rest := inductionHypothesis (next + eldest.width) second
    have positive := eldest.width_pos
    refine ⟨rfl, .cons_cons ?_ rest.next, ?_⟩
    · dsimp only [range]
      omega
    · have last := rest.last
      rw [spans, spans, List.getLast?_cons_cons]
      rw [spans] at last
      rw [last, Option.some.injEq]
      simp only [width, List.flatMap_cons, List.length_append]
      omega

/-- The root of a tree has the range of the whole tree. -/
theorem root_range_mem (tree : Tree) (next : Nat) :
    (tree.root, tree.range next) ∈ tree.ranges next := by
  cases tree with
  | leaf id => simp [ranges, root, range, width, leaves, TagRange.single]
  | group id eldest others => simp [ranges, root]

/-- The roots of several trees have the ranges that come one after the other. -/
theorem spans_mem (next : Nat) (trees : List Tree) :
    List.Forall₂ (fun tree range => (root tree, range) ∈ rangesAll next trees) trees
      (spans next trees) := by
  induction trees generalizing next with
  | nil => exact .nil
  | cons tree trees inductionHypothesis =>
    refine .cons ?_ ((inductionHypothesis (next + tree.width)).imp ?_)
    · exact List.mem_append_left _ (tree.root_range_mem next)
    · intro other range member
      exact List.mem_append_right _ member

/-- The first tree, numbered from `first` on, takes up consecutive places in the second one,
numbered from `next` on. What it contributes depends on the rest of the second tree only through
the number it begins with. -/
structure Block (sub : Tree) (first : Nat) (tree : Tree) (next : Nat) : Prop where
  ranges : sub.ranges first <:+: tree.ranges next
  marks : sub.marks first <:+: tree.marks next
  low : next ≤ first
  high : first + sub.width ≤ next + tree.width

/-- The ranges of several trees can be listed in two parts. -/
theorem rangesAll_append (next : Nat) (front back : List Tree) :
    rangesAll next (front ++ back) =
      rangesAll next front ++ rangesAll (next + (front.flatMap leaves).length) back := by
  induction front generalizing next with
  | nil => rfl
  | cons tree front inductionHypothesis =>
    rw [List.cons_append, rangesAll, rangesAll, inductionHypothesis, List.append_assoc,
      List.flatMap_cons, List.length_append, width, Nat.add_assoc]

/-- The marks of several trees can be listed in two parts. -/
theorem marksAll_append (next : Nat) (front back : List Tree) :
    marksAll next (front ++ back) =
      marksAll next front ++ marksAll (next + (front.flatMap leaves).length) back := by
  induction front generalizing next with
  | nil => rfl
  | cons tree front inductionHypothesis =>
    rw [List.cons_append, marksAll, marksAll, inductionHypothesis, List.append_assoc,
      List.flatMap_cons, List.length_append, width, Nat.add_assoc]

/-- A block of a child is a block of the group. The child begins after the numbers of the
children before it. -/
theorem Block.of_child {sub child eldest : Tree} {others before after : List Tree} {id : TypeId}
    {first next : Nat} (split : eldest :: others = before ++ child :: after)
    (block : sub.Block first child (next + (before.flatMap leaves).length)) :
    sub.Block first (.group id eldest others) next := by
  refine ⟨?_, ?_, Nat.le_trans (Nat.le_add_right _ _) block.low, ?_⟩
  · rw [ranges_group, split, rangesAll_append, rangesAll, List.append_assoc, List.append_assoc]
    exact block.ranges.trans (List.infix_append' _ _ _)
  · rw [marks_group, split, marksAll_append, marksAll, List.append_assoc, List.append_assoc]
    exact block.marks.trans (List.infix_append' _ _ _)
  · have size : (Tree.group id eldest others).width =
        (before.flatMap leaves).length + (child.width + (after.flatMap leaves).length) := by
      rw [width, leaves_group, split, List.flatMap_append, List.length_append, List.flatMap_cons,
        List.length_append, width]
    have high := block.high
    omega

/-- A subtree is a block of the tree. -/
theorem Within.block {sub tree : Tree} (within : sub.Within tree) (next : Nat) :
    ∃ first, sub.Block first tree next := by
  induction within generalizing next with
  | self => exact ⟨next, List.infix_rfl, List.infix_rfl, Nat.le_refl _, Nat.le_refl _⟩
  | @child id eldest child others member _ inductionHypothesis =>
    obtain ⟨before, after, split⟩ := List.append_of_mem member
    obtain ⟨first, block⟩ := inductionHypothesis (next + (before.flatMap leaves).length)
    exact ⟨first, block.of_child split⟩

/-- Every entry has a number that its tree takes. -/
theorem entry_within {registry : Registry} {tree : Tree} {next : Nat} {entry : TagEntry}
    (member : entry ∈ tree.entries registry next) :
    next ≤ entry.value ∧ entry.value ≤ next + tree.width - 1 := by
  obtain ⟨mark, marked, rfl⟩ := List.mem_map.mp member
  exact tree.marks_within next mark marked

namespace Grown

variable {registry : Registry} {links : Links} {tree : Tree}

/-- A subtree is a leaf with a single number, or its range is tiled by those of its
children. -/
theorem subtree_tiled (finished : registry.Finished links) (grown : tree.Grown registry links)
    (next : Nat) {sub : Tree} (within : sub.Within tree) {range : TagRange}
    (found : (tree.ranges next).lookup sub.root = some range) :
    if sub.isLeaf then range.first = range.last
    else ∃ parts, sub.children.map (fun child => (tree.ranges next).lookup child.root) =
      parts.map some ∧ range.Tiles parts := by
  have looked (id : TypeId) (range : TagRange) (listed : (id, range) ∈ tree.ranges next) :
      (tree.ranges next).lookup id = some range :=
    (grown.lookup_range_iff finished next id range).mpr listed
  obtain ⟨first, block⟩ := within.block next
  have listed := block.ranges.subset
  obtain rfl : sub.range first = range :=
    Option.some.inj ((looked _ _ (listed (sub.root_range_mem first))).symm.trans found)
  cases sub with
  | leaf id => simp [isLeaf, Tree.range, width, leaves]
  | group id eldest others =>
    have inside : rangesAll first (eldest :: others) ⊆ tree.ranges next := by
      intro entry member
      apply listed
      rw [ranges_group]
      exact List.mem_append_left _ member
    refine ⟨spans first (eldest :: others), ?_, ?_⟩
    · rw [← List.forall₂_eq_eq_eq, List.forall₂_map_left_iff, List.forall₂_map_right_iff]
      refine (spans_mem first (eldest :: others)).imp ?_
      intro child part member
      exact looked _ _ (inside member)
    · have tiled := spans_tile first eldest others
      rwa [← leaves_group id] at tiled

/-- The range of a type starts and ends with numbers of the tree, and is as wide as
there are final types at or below the type. -/
theorem range_extent (finished : registry.Finished links) (grown : tree.Grown registry links)
    (next : Nat) {id : TypeId} (member : id ∈ tree.ids) :
    ∃ range, (tree.ranges next).lookup id = some range ∧ next ≤ range.first ∧
      range.first ≤ range.last ∧ range.last ≤ next + tree.leaves.length - 1 ∧
      range.width = (finalsBeneath registry.types id).ncard := by
  obtain ⟨sub, before, after, subGrown, rfl, split, found⟩ :=
    grown.range_of_type finished next member
  have size : tree.leaves.length = before.length + sub.width + after.length := by
    simp [split, width, Nat.add_assoc]
  have positive := sub.width_pos
  refine ⟨_, found, ?_, ?_, ?_, ?_⟩
  · dsimp only [Tree.range]
    omega
  · dsimp only [Tree.range]
    omega
  · dsimp only [Tree.range]
    omega
  · rw [← subGrown.leaves_length finished]
    change _ = sub.width
    dsimp only [Tree.range, TagRange.width]
    omega

/-- The visit behind a table answers with the run of numbers of the whole tree and leaves the
counter behind it. -/
theorem visit_ok (finished : registry.Finished links) (grown : tree.Grown registry links)
    {start : Nat} {width : TagWidth} {table : TagTable}
    (allocated : TagTable.allocate registry tree start width = .ok table) :
    Allocator.visit registry width tree { next := counter? start } =
      .ok (tree.range start, ⟨counter? (start + tree.width), table⟩) := by
  obtain ⟨_, sound, rfl⟩ := (grown.allocate_ok_iff finished start width table).mp allocated
  exact (Allocator.visit_ok_iff (grown.named finished) (grown.ids_nodup finished) start
    (fun _ _ => rfl) _).mpr ⟨sound, rfl⟩

end Grown

end Tree

/-- In a table of numbers exactly the types of the tree have a range. The visit that fills
the table answers with that of the root and leaves the counter behind its last number, or
used up. Ranges and labels stay between the start and the largest number of the width; the
width of a range is the number of final types at or below its type, and no step of
computing it leaves the numbers of 64 bits. A final type has a single number, and the range
of an abstract type is tiled by those of its children.

Proof: the visit comes to the closed form, in which the numbers of a subtree are the run from
the number it begins with, as long as its list of final types. The children of an abstract
type split this list, and their runs follow one another in it; so the smallest and the
largest number that the visit finds among them are the two ends of the run of their parent.
Every number of a run was taken by a final type and therefore fits into the width. -/
theorem ranges_tile (registry : Registry) (reachable : registry.Reachable) (name : String)
    (tree : Tree) (built : Tree.ofRoot registry name = .ok tree) (start : Nat) (width : TagWidth)
    (table : TagTable) (allocated : TagTable.allocate registry tree start width = .ok table) :
    (∀ id, (table.range? id).isSome = true ↔ id ∈ tree.ids) ∧
    (∃ range, table.range? tree.root = some range ∧
      Allocator.visit registry width tree { next := counter? start } =
        .ok (range, ⟨counter? (range.last + 1), table⟩)) ∧
    (∀ entry ∈ table.entries, start ≤ entry.value ∧ entry.value ≤ width.max) ∧
    (∀ id range, table.range? id = some range →
      start ≤ range.first ∧ range.last ≤ width.max ∧
      range.first ≤ range.last ∧ range.last - range.first + 1 ≤ maxTag ∧
      range.width = (finalsBeneath registry.types id).ncard) ∧
    ∀ (sub : Tree) (range : TagRange), sub.Within tree → table.range? sub.root = some range →
      if sub.isLeaf then range.first = range.last
      else ∃ parts, sub.children.map (fun child => table.range? child.root) = parts.map some ∧
        range.Tiles parts := by
  obtain ⟨links, finished, _, grown⟩ := Tree.ofRoot_reachable reachable built
  have visited := grown.visit_ok finished allocated
  obtain ⟨positive, fits, _⟩ := (grown.allocate_succeeds_iff finished start width).mp ⟨_, allocated⟩
  obtain ⟨_, sound, _⟩ := (grown.allocate_ok_iff finished start width table).mp allocated
  have ranged (id : TypeId) : table.range? id = (tree.ranges start).lookup id := by
    rw [TagTable.range?, grown.table_ranges finished allocated]
  have inTree (id : TypeId) : (table.range? id).isSome = true ↔ id ∈ tree.ids := by
    rw [ranged]
    constructor
    · intro found
      by_contra outside
      simp [Tree.Grown.lookup_range_none tree start id outside] at found
    · intro member
      obtain ⟨range, found, _⟩ := grown.range_extent finished start member
      simp [found]
  refine ⟨inTree, ⟨tree.range start, ?_, ?_⟩, ?_, ?_, ?_⟩
  · rw [ranged]
    exact (grown.lookup_range_iff finished start _ _).mpr (tree.root_range_mem start)
  · have behind : (tree.range start).last + 1 = start + tree.width := by
      have positive := tree.width_pos
      dsimp only [Tree.range]
      omega
    rw [behind, visited]
  · intro entry member
    rw [grown.table_entries finished allocated] at member
    refine ⟨(Tree.entry_within member).1, ?_⟩
    exact ((TagTable.defect?_none_iff width [] _).mp sound).1 entry member
  · intro id range found
    have member := (inTree id).mp (by rw [found]; rfl)
    rw [ranged] at found
    obtain ⟨other, there, low, ordered, high, wide⟩ := grown.range_extent finished start member
    obtain rfl := Option.some.inj (there.symm.trans found)
    have bound := width.max_le
    refine ⟨low, ?_, ordered, ?_, wide⟩ <;> omega
  · intro sub range within found
    simp only [ranged] at found ⊢
    exact grown.subtree_tiled finished start within found

/-- Lakes and salt waters are waters, and the salt waters are oceans and seas. -/
def waters : Registry :=
  .holding [
    { name := "Sea", base := some (.named "Salt") },
    { name := "Lake", base := some (.named "Water") },
    { name := "Salt", base := some (.named "Water"), isFinal := false },
    { name := "Water", isFinal := false },
    { name := "Ocean", base := some (.named "Salt") }]
    (some {
      bases := [some 2, some 3, some 3, none, some 2]
      derived := [[], [], [4, 0], [1, 2], []]
      targets := [[], [], [], [], []] })

/-- The tree of the waters. -/
def waterTree : Tree :=
  .group 3 (.leaf 1) [.group 2 (.leaf 4) [.leaf 0]]

/-- The numbers of the waters if they are the last three that 64 bits can hold. -/
def waterTags : TagTable :=
  .append {}
    [⟨"Lake", 18446744073709551613⟩, ⟨"Ocean", 18446744073709551614⟩,
    ⟨"Sea", 18446744073709551615⟩, ⟨"FirstSalt", 18446744073709551614⟩,
    ⟨"LastSalt", 18446744073709551615⟩, ⟨"FirstWater", 18446744073709551613⟩,
    ⟨"LastWater", 18446744073709551615⟩]
    [(1, ⟨18446744073709551613, 18446744073709551613⟩),
    (4, ⟨18446744073709551614, 18446744073709551614⟩),
    (0, ⟨18446744073709551615, 18446744073709551615⟩),
    (2, ⟨18446744073709551614, 18446744073709551615⟩),
    (3, ⟨18446744073709551613, 18446744073709551615⟩)]

/-- The lake and the salt waters tile the waters, up to the largest number there is. -/
theorem ranges_tile_waters :
    Tree.ofRoot waters "Water" = .ok waterTree ∧
      TagTable.allocate waters waterTree 18446744073709551613 .u64 = .ok waterTags ∧
      3 = (finalsBeneath waters.types 3).ncard ∧
      ∃ parts, [waterTags.range? 1, waterTags.range? 2] = parts.map some ∧
        TagRange.Tiles ⟨18446744073709551613, 18446744073709551615⟩ parts := by
  have made : Registry.ofList waters.types = .ok waters :=
    Registry.ofList_of_linkedBy (by decide +kernel)
  have built : Tree.ofRoot waters "Water" = .ok waterTree := by rfl
  have allocated : TagTable.allocate waters waterTree 18446744073709551613 .u64 =
      .ok waterTags := by rfl
  have found : waterTags.range? 3 = some ⟨18446744073709551613, 18446744073709551615⟩ := by rfl
  obtain ⟨_, _, _, extents, tiled⟩ := ranges_tile waters (Registry.ofList_reachable made) "Water"
    waterTree built 18446744073709551613 .u64 waterTags allocated
  exact ⟨built, allocated, (extents 3 _ found).2.2.2.2, tiled waterTree _ .self found⟩

end Taxonomy
