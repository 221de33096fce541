import Taxonomy.Proofs.PostOrder
import Taxonomy.Proofs.Tiling

/-!
# Numbering part of a tree

A type of a tree has a tree of its own, which is the node that stands for it in the larger
one. Numbered by itself, from the number on that the type begins with in the larger tree, it
comes out as it is there: with the same ranges and the same labels in the same order.

The visit of the larger tree comes to the part at some point, with a counter and with a table
in which everything before the part is entered. What the visit of the part then adds is what
it adds to an empty table, and to every other table in which its labels are free. So the part
depends on the rest of the tree through the counter alone.

Numbering the part cannot fail, since its labels were free when the larger tree was visited,
and no label is in the way if the table is empty.
-/
namespace Taxonomy

namespace Allocator

/-- The visit of a tree from a state comes to a subtree in the entry state. The subtree is the
tree itself, or it lies in a child, which is visited after the children before it. -/
inductive Visits (registry : Registry) (width : TagWidth) (sub : Tree) (entry : Allocator) :
    Tree → Allocator → Prop
  | self : Visits registry width sub entry sub entry
  | child {id : TypeId} {eldest child : Tree} {others before after : List Tree}
      {state middle : Allocator} {found : Option TagRange}
      (split : eldest :: others = before ++ child :: after)
      (earlier : visitAll registry width none before state = .ok (found, middle))
      (visits : Visits registry width sub entry child middle) :
      Visits registry width sub entry (.group id eldest others) state

/-- The part is what a subtree contributes to the visit of a tree. The visit comes to the
subtree with its counter at the first number of the range, adds the entries and ranges of the
part to the table, and goes on behind the last number. From the same counter the subtree does
the same to every table that has none of its ranges and labels. -/
structure Contributes (registry : Registry) (width : TagWidth) (tree : Tree) (start : Allocator)
    (sub : Tree) (range : TagRange) (part : TagTable) : Prop where
  visited : ∃ entry, Visits registry width sub entry tree start ∧ entry.next = some range.first ∧
    visit registry width sub entry =
      .ok (range, ⟨counter? (range.last + 1), entry.table.append part.entries part.ranges⟩)
  framed : ∀ table : TagTable, (∀ id ∈ sub.ids, table.range? id = none) →
    (∀ entry ∈ part.entries, entry.label ∉ table.labels) →
    visit registry width sub ⟨some range.first, table⟩ =
      .ok (range, ⟨counter? (range.last + 1), table.append part.entries part.ranges⟩)

variable {registry : Registry} {width : TagWidth}

/-- Several trees can be visited in two parts. -/
theorem visitAll_append (found : Option TagRange) (front back : List Tree) (state : Allocator) :
    visitAll registry width found (front ++ back) state =
      visitAll registry width found front state >>= fun reached =>
        visitAll registry width reached.1 back reached.2 := by
  induction front generalizing found state with
  | nil => rfl
  | cons tree front inductionHypothesis =>
    rw [List.cons_append, visitAll, visitAll, bind_assoc]
    exact bind_congr fun reached => inductionHypothesis _ _

/-- Where a group can be visited, so can each child, after the children before it. -/
theorem child_visited {id : TypeId} {eldest child : Tree} {others before after : List Tree}
    (split : eldest :: others = before ++ child :: after) {state : Allocator}
    {result : TagRange × Allocator}
    (visited : visit registry width (.group id eldest others) state = .ok result) :
    ∃ found middle own, visitAll registry width none before state = .ok (found, middle) ∧
      visit registry width child middle = .ok own := by
  rw [visit_group, Outcome.bind_ok_iff] at visited
  obtain ⟨children, below, _⟩ := visited
  rw [split, visitAll_append, Outcome.bind_ok_iff] at below
  obtain ⟨⟨found, middle⟩, earlier, rest⟩ := below
  rw [visitAll, Outcome.bind_ok_iff] at rest
  obtain ⟨own, first, _⟩ := rest
  exact ⟨found, middle, own, earlier, first⟩

/-- The state after visiting several trees has their entries and ranges added and the counter
behind their numbers. -/
theorem visitAll_state {trees : List Tree} (refined : ∀ tree ∈ trees, Refined registry width tree)
    (distinct : (trees.flatMap Tree.ids).Nodup) {next : Nat} {table : TagTable}
    (absent : ∀ id ∈ trees.flatMap Tree.ids, table.range? id = none) {found : Option TagRange}
    {middle : Allocator}
    (visited : visitAll registry width none trees ⟨counter? next, table⟩ = .ok (found, middle)) :
    middle = ⟨counter? (next + (trees.flatMap Tree.leaves).length),
      table.append (Tree.entriesAll registry next trees) (Tree.rangesAll next trees)⟩ := by
  cases trees with
  | nil =>
    obtain ⟨_, rfl⟩ := Prod.mk.inj (Except.ok.inj visited)
    simp [Tree.entriesAll, Tree.marksAll, Tree.rangesAll, TagTable.append]
  | cons eldest others =>
    rw [visitChildren_eq refined distinct next absent, outcome] at visited
    split at visited
    · cases visited
    · exact (Prod.mk.inj (Except.ok.inj visited)).2.symm

/-- A successful visit of a tree comes to each of its subtrees. The subtree is entered as the
block that it is in the tree, with a table that has none of its ranges.

Proof: by induction on the place of the subtree. The children before the one that leads to it
are visited first. They take the numbers before the child, and since no type stands twice they
leave no range of the child behind. -/
theorem exists_visits {sub tree : Tree} (within : sub.Within tree) (named : tree.Named registry)
    (distinct : tree.ids.Nodup) {next : Nat} {table : TagTable}
    (absent : ∀ id ∈ tree.ids, table.range? id = none) {result : TagRange × Allocator}
    (visited : visit registry width tree ⟨counter? next, table⟩ = .ok result) :
    ∃ first entered own,
      Visits registry width sub ⟨counter? first, entered⟩ tree ⟨counter? next, table⟩ ∧
      sub.Block first tree next ∧ (∀ id ∈ sub.ids, entered.range? id = none) ∧
      visit registry width sub ⟨counter? first, entered⟩ = .ok own := by
  induction within generalizing next table result with
  | self =>
    exact ⟨next, table, result, .self,
      ⟨List.infix_rfl, List.infix_rfl, Nat.le_refl _, Nat.le_refl _⟩, absent, visited⟩
  | @child id eldest child others member _ inductionHypothesis =>
    obtain ⟨before, after, split⟩ := List.append_of_mem member
    obtain ⟨found, middle, own, earlier, childVisited⟩ := child_visited split visited
    rw [Tree.Named, Tree.ids_group, List.forall_mem_cons, split, List.flatMap_append,
      List.flatMap_cons, List.forall_mem_append, List.forall_mem_append] at named
    rw [Tree.ids_group, List.forall_mem_cons, split, List.flatMap_append, List.flatMap_cons,
      List.forall_mem_append, List.forall_mem_append] at absent
    rw [Tree.ids_group, List.nodup_cons, split, List.flatMap_append, List.flatMap_cons,
      List.nodup_append, List.nodup_append] at distinct
    obtain ⟨_, beforeNamed, childNamed, _⟩ := named
    obtain ⟨_, beforeAbsent, childAbsent, _⟩ := absent
    obtain ⟨_, beforeDistinct, ⟨childDistinct, _⟩, apart⟩ := distinct
    have refined : ∀ tree ∈ before, Refined registry width tree := by
      intro tree listed
      refine visit_eq (fun other inside => ?_)
        ((List.nodup_flatMap.mp beforeDistinct).1 tree listed)
      exact beforeNamed other (List.mem_flatMap.mpr ⟨tree, listed, inside⟩)
    obtain rfl := visitAll_state refined beforeDistinct beforeAbsent earlier
    have childUnranged : ∀ id ∈ child.ids,
        (table.append (Tree.entriesAll registry next before)
          (Tree.rangesAll next before)).range? id = none := by
      intro id inside
      have outside : id ∉ before.flatMap Tree.ids := fun inBefore =>
        apart id inBefore id (List.mem_append_left _ inside) rfl
      rw [TagTable.range?_append, childAbsent id inside, lookup_rangesAll_none next outside]
      rfl
    obtain ⟨first, entered, answer, visits, block, unranged, entryVisited⟩ :=
      inductionHypothesis childNamed childDistinct childUnranged childVisited
    exact ⟨first, entered, answer, .child split earlier visits, block.of_child split, unranged,
      entryVisited⟩

/-- A tree that can be visited from some table adds the same to every table that has none of its
ranges and labels. -/
theorem visit_frame {tree : Tree} (named : tree.Named registry) (distinct : tree.ids.Nodup)
    {next : Nat} {table : TagTable} (absent : ∀ id ∈ tree.ids, table.range? id = none)
    {result : TagRange × Allocator}
    (visited : visit registry width tree ⟨counter? next, table⟩ = .ok result) {other : TagTable}
    (unranged : ∀ id ∈ tree.ids, other.range? id = none)
    (free : ∀ entry ∈ tree.entries registry next, entry.label ∉ other.labels) :
    visit registry width tree ⟨counter? next, other⟩ =
      .ok (tree.range next, ⟨counter? (next + tree.width),
        other.append (tree.entries registry next) (tree.ranges next)⟩) := by
  obtain ⟨clean, _⟩ := (visit_ok_iff named distinct next absent result).mp visited
  obtain ⟨fits, different, _⟩ := (TagTable.defect?_none_iff width _ _).mp clean
  refine (visit_ok_iff named distinct next unranged _).mpr ⟨?_, rfl⟩
  refine (TagTable.defect?_none_iff width _ _).mpr ⟨fits, different, ?_⟩
  rw [List.forall_mem_map]
  exact free

end Allocator

namespace Tree

namespace Grown

variable {registry : Registry} {links : Links} {tree : Tree}

/-- A grown tree is what grows from the type at its root, under the name of this type. -/
theorem ofRoot_name (finished : registry.Finished links) (grown : tree.Grown registry links)
    {name : String} (named : registry.name tree.root = .ok name) :
    ofRoot registry name = .ok tree := by
  have found : registry.find? name = some tree.root := by
    rw [registry.name_ok_iff, finished.inStep.name?_eq, Option.map_eq_some_iff] at named
    exact (finished.inStep.find?_some_iff name tree.root).mpr named
  obtain ⟨other, built⟩ := (ofRoot_succeeds_iff finished name).mpr ⟨tree.root, found, by
    intro id type below
    exact grown.inhabited finished id ((grown.mem_ids_iff finished id).mpr below) type⟩
  obtain ⟨otherFound, otherGrown⟩ := ofRoot_grown finished built
  have same : other.root = tree.root := Option.some.inj (otherFound.symm.trans found)
  rw [built, otherGrown.unique grown same]

/-- In a grown tree only one subtree stands for a type. -/
theorem within_unique (grown : tree.Grown registry links) {sub : Tree} (within : sub.Within tree)
    (node : Tree) : node.Within tree ∧ node.root = sub.root ↔ node = sub := by
  constructor
  · rintro ⟨nodeWithin, same⟩
    exact (grown.within nodeWithin).unique (grown.within within) same
  · rintro rfl
    exact ⟨within, rfl⟩

/-- A subtree contributes its own entries and ranges, and can be numbered by itself. -/
theorem contributes (finished : registry.Finished links) (grown : tree.Grown registry links)
    {sub : Tree} (within : sub.Within tree) {start : Nat} {width : TagWidth} {table : TagTable}
    (allocated : TagTable.allocate registry tree start width = .ok table) :
    ∃ (first : Nat) (part : TagTable), sub.Block first tree start ∧
      TagTable.allocate registry sub first width = .ok part ∧
      Allocator.Contributes registry width tree { next := counter? start } sub (sub.range first)
        part := by
  have named := (grown.within within).named finished
  have distinct := (grown.within within).ids_nodup finished
  obtain ⟨first, entered, own, visits, block, unranged, visited⟩ :=
    Allocator.exists_visits within (grown.named finished) (grown.ids_nodup finished)
      (fun _ _ => rfl) (grown.visit_ok finished allocated)
  obtain ⟨positive, fits, _⟩ :=
    (grown.allocate_succeeds_iff finished start width).mp ⟨_, allocated⟩
  have wide := sub.width_pos
  have counted : counter? first = some first := by
    have high : first + sub.width ≤ start + tree.leaves.length := block.high
    have bound := width.max_le
    exact if_pos (by omega)
  have behind : first + sub.width = (sub.range first).last + 1 := by
    dsimp only [Tree.range]
    omega
  have added := ((Allocator.visit_ok_iff named distinct first unranged own).mp visited).2
  rw [behind] at added
  have frame {other : TagTable} (absent : ∀ id ∈ sub.ids, other.range? id = none)
      (free : ∀ entry ∈ sub.entries registry first, entry.label ∉ other.labels) :=
    Allocator.visit_frame named distinct unranged visited absent free
  refine ⟨first, .append {} (sub.entries registry first) (sub.ranges first), block, ?_,
    ⟨⟨counter? first, entered⟩, visits, counted, added ▸ visited⟩, ?_⟩
  · have nonzero : first ≠ 0 := Nat.one_le_iff_ne_zero.mp (Nat.le_trans positive block.low)
    rw [TagTable.allocate, if_neg nonzero, frame (fun _ _ => rfl) fun _ _ => List.not_mem_nil]
    rfl
  · intro other absent free
    have alike := frame absent free
    rwa [counted, behind] at alike

/-- A type of a block has the range that it has in the tree. -/
theorem lookup_block (finished : registry.Finished links) (grown : tree.Grown registry links)
    {sub : Tree} (within : sub.Within tree) {first start : Nat} (block : sub.Block first tree start)
    {id : TypeId} (member : id ∈ sub.ids) :
    ∃ range, (sub.ranges first).lookup id = some range ∧
      (tree.ranges start).lookup id = some range := by
  obtain ⟨range, found, _⟩ := (grown.within within).range_extent finished first member
  refine ⟨range, found, ?_⟩
  rw [(grown.within within).lookup_range_iff finished] at found
  rw [grown.lookup_range_iff finished]
  exact block.ranges.subset found

end Grown

end Tree

/-- Numbering is compositional. Every type of a numbered tree has a tree of its own, the only
node that stands for the type in the larger tree. Numbered from the first number of the type on,
it gets a table, and this table is what the type contributes to the visit of the larger tree: the
visit comes to the type with its counter at this number, and whatever else is in its table, it
adds the same entries and ranges. So every type below has the range that it has in the larger
table, and the labels are consecutive labels of the larger table in the same order.

Proof: the visit of the larger tree reaches the node after the trees that come before it, which
have taken the numbers before its own and left none of its ranges behind. A visit is determined
by the counter, apart from labels that are there already. Since none was in the way in the
larger tree, none is in an empty table, and so the node can be numbered by itself and comes out
as a block of the larger numbering. -/
theorem subtree_numbered_alike (registry : Registry) (reachable : registry.Reachable)
    (name : String) (tree : Tree) (built : Tree.ofRoot registry name = .ok tree) (start : Nat)
    (width : TagWidth) (table : TagTable)
    (allocated : TagTable.allocate registry tree start width = .ok table) (id : TypeId)
    (member : id ∈ tree.ids) :
    ∃ (own : String) (sub : Tree) (range : TagRange) (part : TagTable),
      registry.name id = .ok own ∧ Tree.ofRoot registry own = .ok sub ∧
      (∀ node : Tree, node.Within tree ∧ node.root = id ↔ node = sub) ∧
      table.range? id = some range ∧
      TagTable.allocate registry sub range.first width = .ok part ∧
      Allocator.Contributes registry width tree { next := counter? start } sub range part ∧
      (∀ other ∈ sub.ids, ∃ both, part.range? other = some both ∧ table.range? other = some both) ∧
      part.entries <:+: table.entries := by
  obtain ⟨links, finished, _, grown⟩ := Tree.ofRoot_reachable reachable built
  obtain ⟨sub, within, rfl⟩ := (tree.mem_ids_iff_within id).mp member
  have subGrown := grown.within within
  obtain ⟨first, part, block, partAllocated, contributes⟩ :=
    grown.contributes finished within allocated
  obtain ⟨own, named, _⟩ := grown.name_within finished within
  have ranged : (tree.ranges start).lookup sub.root = some (sub.range first) := by
    rw [grown.lookup_range_iff finished]
    exact block.ranges.subset (sub.root_range_mem first)
  refine ⟨own, sub, sub.range first, part, named, subGrown.ofRoot_name finished named,
    grown.within_unique within, ?_, partAllocated, contributes, ?_, ?_⟩
  · rw [TagTable.range?, grown.table_ranges finished allocated, ranged]
  · intro other inside
    rw [TagTable.range?, TagTable.range?, grown.table_ranges finished allocated,
      subGrown.table_ranges finished partAllocated]
    exact grown.lookup_block finished within block inside
  · rw [grown.table_entries finished allocated, subGrown.table_entries finished partAllocated]
    exact block.marks.map _

/-- Tools are drills, and hand tools such as hammers and saws. -/
def tools : Registry :=
  .holding [
    { name := "Saw", base := some (.named "Hand") },
    { name := "Tool", isFinal := false },
    { name := "Drill", base := some (.named "Tool") },
    { name := "Hand", base := some (.named "Tool"), isFinal := false },
    { name := "Hammer", base := some (.named "Hand") }]
    (some {
      bases := [some 3, none, some 1, some 1, some 3]
      derived := [[], [2, 3], [], [4, 0], []]
      targets := [[], [], [], [], []] })

/-- The tree of the tools. -/
def toolTree : Tree :=
  .group 1 (.leaf 2) [.group 3 (.leaf 4) [.leaf 0]]

/-- The numbers of the tools if they are the last three that eight bits can hold. -/
def toolTags : TagTable :=
  .append {}
    [⟨"Drill", 253⟩, ⟨"Hammer", 254⟩, ⟨"Saw", 255⟩, ⟨"FirstHand", 254⟩, ⟨"LastHand", 255⟩,
    ⟨"FirstTool", 253⟩, ⟨"LastTool", 255⟩]
    [(2, ⟨253, 253⟩), (4, ⟨254, 254⟩), (0, ⟨255, 255⟩), (3, ⟨254, 255⟩), (1, ⟨253, 255⟩)]

/-- Numbered by themselves from 254 on, the hand tools come out as they do among all tools. -/
theorem hand_tools_numbered_alike :
    Tree.ofRoot tools "Tool" = .ok toolTree ∧
      TagTable.allocate tools toolTree 253 .u8 = .ok toolTags ∧ 3 ∈ toolTree.ids ∧
      ∃ (own : String) (sub : Tree) (range : TagRange) (part : TagTable),
        tools.name 3 = .ok own ∧ Tree.ofRoot tools own = .ok sub ∧
        (∀ node : Tree, node.Within toolTree ∧ node.root = 3 ↔ node = sub) ∧
        toolTags.range? 3 = some range ∧
        TagTable.allocate tools sub range.first .u8 = .ok part ∧
        Allocator.Contributes tools .u8 toolTree { next := counter? 253 } sub range part ∧
        (∀ other ∈ sub.ids,
          ∃ both, part.range? other = some both ∧ toolTags.range? other = some both) ∧
        part.entries <:+: toolTags.entries := by
  have made : Registry.ofList tools.types = .ok tools :=
    Registry.ofList_of_linkedBy (by decide +kernel)
  have built : Tree.ofRoot tools "Tool" = .ok toolTree := by rfl
  have allocated : TagTable.allocate tools toolTree 253 .u8 = .ok toolTags := by rfl
  have member : 3 ∈ toolTree.ids := by decide
  exact ⟨built, allocated, member, subtree_numbered_alike tools (Registry.ofList_reachable made)
    "Tool" toolTree built 253 .u8 toolTags allocated 3 member⟩

end Taxonomy
