import Taxonomy.Proofs.OutlineText
import Taxonomy.Proofs.Tiling

/-!
# Reading a tree back from its outline

The outline of a model shows no number of a type. What it shows of the tree is a tree of names
and ranges, listed from above downwards with one line for each type. The depth of a line says
where it belongs: the trees below a type are over as soon as a line comes that is not deeper than
they are. So the lines determine the tree, and the labels are listed as they are.

The two sections stand at the beginning of the text and each of them ends with an empty line.
Slots, facades and unions follow, which can be written in any way; they cannot make up for a
difference before them. An outline without a tree begins with a union, if with anything.
-/
namespace Taxonomy

/-- A tree of types with names and ranges in the place of numbers. -/
inductive NamedTree where
  | leaf (name : String) (range : TagRange)
  | group (name : String) (range : TagRange) (eldest : NamedTree) (others : List NamedTree)

namespace Tree

mutual

/-- The tree with the names and ranges of its types in the place of their numbers. There is none
if a name or a range is missing. -/
def named? (registry : Registry) (tags : TagTable) : Tree → Option NamedTree
  | .leaf id => do
    let name ← registry.name? id
    let range ← tags.range? id
    return .leaf name range
  | .group id eldest others => do
    let name ← registry.name? id
    let range ← tags.range? id
    let first ← eldest.named? registry tags
    let rest ← namedAll? registry tags others
    return .group name range first rest

/-- Several trees with the names and ranges of their types. -/
def namedAll? (registry : Registry) (tags : TagTable) : List Tree → Option (List NamedTree)
  | [] => some []
  | tree :: trees => do
    let first ← tree.named? registry tags
    let rest ← namedAll? registry tags trees
    return first :: rest

end

end Tree

namespace Outline

/-- What the line of a subtree at a depth says, if its name and its range are known. -/
def row? (registry : Registry) (tags : TagTable) (level : Nat × Tree) : Option Row := do
  let name ← registry.name? level.2.root
  let range ← tags.range? level.2.root
  return ⟨level.1, name, level.2.isLeaf, range⟩

/-- The rows do not go on with trees at the given depth or below it. -/
def Shallow (depth : Nat) (rows : List Row) : Prop :=
  ∀ row ∈ rows.head?, row.depth < depth

end Outline

namespace NamedTree

open Outline

mutual

/-- The rows of a tree, each type before those below it. -/
def rows (depth : Nat) : NamedTree → List Row
  | .leaf name range => [⟨depth, name, true, range⟩]
  | .group name range eldest others =>
    ⟨depth, name, false, range⟩ :: (eldest.rows (depth + 1) ++ rowsAll (depth + 1) others)

/-- The rows of several trees at one depth. -/
def rowsAll (depth : Nat) : List NamedTree → List Row
  | [] => []
  | tree :: trees => tree.rows depth ++ rowsAll depth trees

end

/-- The first row of a tree has the depth of the tree. -/
theorem rows_begin (depth : Nat) (tree : NamedTree) :
    ∃ row later, tree.rows depth = row :: later ∧ row.depth = depth := by
  cases tree with
  | leaf name range => exact ⟨_, _, rfl, rfl⟩
  | group name range eldest others => exact ⟨_, _, rfl, rfl⟩

/-- Behind a tree at a depth, its siblings and what follows these are not deeper. -/
theorem rowsAll_shallow {depth : Nat} (trees : List NamedTree) {rest : List Row}
    (shallow : Shallow depth rest) : Shallow (depth + 1) (rowsAll depth trees ++ rest) := by
  cases trees with
  | nil =>
    intro row first
    exact Nat.lt_succ_of_lt (shallow row first)
  | cons tree trees =>
    obtain ⟨row, later, same, deep⟩ := tree.rows_begin depth
    simp [Shallow, rowsAll, same, deep]

/-- A list of trees at a depth is over where the rows get shallower. -/
theorem rowsAll_ne_shallow {depth : Nat} (tree : NamedTree) (trees : List NamedTree)
    (tail : List Row) {rest : List Row} (shallow : Shallow depth rest) :
    rest ≠ rowsAll depth (tree :: trees) ++ tail := by
  rintro rfl
  obtain ⟨row, later, same, deep⟩ := tree.rows_begin depth
  have less := shallow row (by simp [rowsAll, same])
  omega

mutual

/-- A tree and what follows it can be told from their rows. The second tree is a leaf exactly if
the first is, as the first rows say so. -/
theorem rows_append_inj (depth : Nat) : ∀ (left right : NamedTree) {rest tail : List Row},
    Shallow (depth + 1) rest → Shallow (depth + 1) tail →
    left.rows depth ++ rest = right.rows depth ++ tail → left = right ∧ rest = tail
  | .leaf name range, .leaf other others, rest, tail, _, _, same => by
    simp only [rows, List.singleton_append, List.cons.injEq, Row.mk.injEq] at same
    obtain ⟨⟨_, rfl, _, rfl⟩, rfl⟩ := same
    exact ⟨rfl, rfl⟩
  | .leaf name range, .group _ _ _ _, rest, tail, _, _, same => by
    simp [rows] at same
  | .group name range eldest others, .leaf _ _, rest, tail, _, _, same => by
    simp [rows] at same
  | .group name range eldest others, .group other span second more, rest, tail, restShallow,
      tailShallow, same => by
    simp only [rows, List.cons_append, List.append_assoc, List.cons.injEq, Row.mk.injEq] at same
    obtain ⟨⟨_, rfl, _, rfl⟩, below⟩ := same
    -- The eldest is over where its siblings begin, and these where the group is.
    obtain ⟨rfl, later⟩ := rows_append_inj (depth + 1) eldest second
      (rowsAll_shallow others restShallow) (rowsAll_shallow more tailShallow) below
    obtain ⟨rfl, rfl⟩ := rowsAll_append_inj (depth + 1) others more restShallow tailShallow later
    exact ⟨rfl, rfl⟩

/-- Several trees and what follows them can be told from their rows. -/
theorem rowsAll_append_inj (depth : Nat) : ∀ (left right : List NamedTree) {rest tail : List Row},
    Shallow depth rest → Shallow depth tail →
    rowsAll depth left ++ rest = rowsAll depth right ++ tail → left = right ∧ rest = tail
  | [], [], rest, tail, _, _, same => ⟨rfl, same⟩
  | [], tree :: trees, rest, tail, restShallow, _, same =>
    absurd same (rowsAll_ne_shallow tree trees tail restShallow)
  | tree :: trees, [], rest, tail, _, tailShallow, same =>
    absurd same.symm (rowsAll_ne_shallow tree trees rest tailShallow)
  | tree :: trees, other :: others, rest, tail, restShallow, tailShallow, same => by
    simp only [rowsAll, List.append_assoc] at same
    obtain ⟨rfl, later⟩ := rows_append_inj depth tree other
      (rowsAll_shallow trees restShallow) (rowsAll_shallow others tailShallow) same
    obtain ⟨rfl, rfl⟩ := rowsAll_append_inj depth trees others restShallow tailShallow later
    exact ⟨rfl, rfl⟩

end

/-- A tree can be told from its rows. -/
theorem rows_inj {depth : Nat} {left right : NamedTree}
    (same : left.rows depth = right.rows depth) : left = right := by
  have ended : Shallow (depth + 1) [] := by simp [Shallow]
  exact (rows_append_inj depth left right ended ended (by simpa using same)).1

end NamedTree

namespace Tree

open Outline

variable {registry : Registry} {tags : TagTable}

mutual

/-- The rows of a tree are those of its names and ranges. -/
theorem levels_named (depth : Nat) : ∀ (tree : Tree) {shown : NamedTree},
    tree.named? registry tags = some shown →
    (tree.levels depth).filterMap (row? registry tags) = shown.rows depth
  | .leaf id, shown, named => by
    simp only [named?, Option.bind_eq_bind, Option.bind_eq_some_iff, pure,
      Option.some.injEq] at named
    obtain ⟨name, called, range, ranged, rfl⟩ := named
    simp [levels, row?, root, isLeaf, called, ranged, NamedTree.rows]
  | .group id eldest others, shown, named => by
    simp only [named?, Option.bind_eq_bind, Option.bind_eq_some_iff, pure,
      Option.some.injEq] at named
    obtain ⟨name, called, range, ranged, first, firstNamed, rest, restNamed, rfl⟩ := named
    have own : row? registry tags (depth, .group id eldest others) =
        some ⟨depth, name, false, range⟩ := by
      simp [row?, root, isLeaf, called, ranged]
    rw [levels, List.filterMap_cons_some own, List.filterMap_append,
      levels_named (depth + 1) eldest firstNamed, levelsAll_named (depth + 1) others restNamed,
      NamedTree.rows]

/-- The rows of several trees are those of their names and ranges. -/
theorem levelsAll_named (depth : Nat) : ∀ (trees : List Tree) {shown : List NamedTree},
    namedAll? registry tags trees = some shown →
    (levelsAll depth trees).filterMap (row? registry tags) = NamedTree.rowsAll depth shown
  | [], shown, named => by
    obtain rfl := Option.some.inj named
    rfl
  | tree :: trees, shown, named => by
    simp only [namedAll?, Option.bind_eq_bind, Option.bind_eq_some_iff, pure,
      Option.some.injEq] at named
    obtain ⟨first, firstNamed, rest, restNamed, rfl⟩ := named
    rw [levelsAll, List.filterMap_append, levels_named depth tree firstNamed,
      levelsAll_named depth trees restNamed, NamedTree.rowsAll]

end

mutual

/-- The lines of a tree are those of its rows. -/
theorem treeLines_named (depth : Nat) : ∀ (tree : Tree) {shown : NamedTree},
    tree.named? registry tags = some shown →
    treeLines registry tags depth tree = (shown.rows depth).map Row.line
  | .leaf id, shown, named => by
    simp only [named?, Option.bind_eq_bind, Option.bind_eq_some_iff, pure,
      Option.some.injEq] at named
    obtain ⟨name, called, range, ranged, rfl⟩ := named
    rw [treeLines, called, ranged]
    rfl
  | .group id eldest others, shown, named => by
    simp only [named?, Option.bind_eq_bind, Option.bind_eq_some_iff, pure,
      Option.some.injEq] at named
    obtain ⟨name, called, range, ranged, first, firstNamed, rest, restNamed, rfl⟩ := named
    rw [treeLines, called, ranged, treeLines_named (depth + 1) eldest firstNamed,
      treeLinesAll_named (depth + 1) others restNamed, NamedTree.rows, List.map_cons,
      List.map_append]
    rfl

/-- The lines of several trees are those of their rows. -/
theorem treeLinesAll_named (depth : Nat) : ∀ (trees : List Tree) {shown : List NamedTree},
    namedAll? registry tags trees = some shown →
    treeLinesAll registry tags depth trees = (NamedTree.rowsAll depth shown).map Row.line
  | [], shown, named => by
    obtain rfl := Option.some.inj named
    rfl
  | tree :: trees, shown, named => by
    simp only [namedAll?, Option.bind_eq_bind, Option.bind_eq_some_iff, pure,
      Option.some.injEq] at named
    obtain ⟨first, firstNamed, rest, restNamed, rfl⟩ := named
    rw [treeLinesAll, treeLines_named depth tree firstNamed,
      treeLinesAll_named depth trees restNamed, NamedTree.rowsAll, List.map_append]

end

mutual

/-- A tree has its names and ranges if each of its types has. -/
theorem exists_named : ∀ tree : Tree,
    (∀ id ∈ tree.ids, (registry.name? id).isSome ∧ (tags.range? id).isSome) →
    ∃ shown, tree.named? registry tags = some shown
  | .leaf id, known => by
    obtain ⟨called, ranged⟩ := known id (by simp [ids])
    obtain ⟨name, called⟩ := Option.isSome_iff_exists.mp called
    obtain ⟨range, ranged⟩ := Option.isSome_iff_exists.mp ranged
    exact ⟨.leaf name range, by simp [named?, called, ranged]⟩
  | .group id eldest others, known => by
    obtain ⟨called, ranged⟩ := known id (by simp [ids])
    obtain ⟨name, called⟩ := Option.isSome_iff_exists.mp called
    obtain ⟨range, ranged⟩ := Option.isSome_iff_exists.mp ranged
    obtain ⟨first, firstNamed⟩ := exists_named eldest fun other member =>
      known other (by simp [ids, member])
    obtain ⟨rest, restNamed⟩ := exists_namedAll others fun other member =>
      known other (by simp [ids, member])
    exact ⟨.group name range first rest, by simp [named?, called, ranged, firstNamed, restNamed]⟩

/-- Several trees have their names and ranges if each of their types has. -/
theorem exists_namedAll : ∀ trees : List Tree,
    (∀ id ∈ idsAll trees, (registry.name? id).isSome ∧ (tags.range? id).isSome) →
    ∃ shown, namedAll? registry tags trees = some shown
  | [], _ => ⟨[], rfl⟩
  | tree :: trees, known => by
    obtain ⟨first, firstNamed⟩ := exists_named tree fun other member =>
      known other (by simp [idsAll, member])
    obtain ⟨rest, restNamed⟩ := exists_namedAll trees fun other member =>
      known other (by simp [idsAll, member])
    exact ⟨first :: rest, by simp [namedAll?, firstNamed, restNamed]⟩

end

mutual

/-- What is listed with its depth is a subtree. -/
theorem within_of_mem_levels (depth : Nat) : ∀ (tree : Tree) {level : Nat × Tree},
    level ∈ tree.levels depth → level.2.Within tree
  | .leaf id, level, member => by
    obtain rfl := List.mem_singleton.mp member
    exact .self
  | .group id eldest others, level, member => by
    rw [levels, List.mem_cons, List.mem_append] at member
    rcases member with rfl | first | later
    · exact .self
    · exact .child List.mem_cons_self (within_of_mem_levels (depth + 1) eldest first)
    · obtain ⟨tree, listed, within⟩ := within_of_mem_levelsAll (depth + 1) others later
      exact .child (List.mem_cons_of_mem _ listed) within

/-- What is listed for several trees is a subtree of one of them. -/
theorem within_of_mem_levelsAll (depth : Nat) : ∀ (trees : List Tree) {level : Nat × Tree},
    level ∈ levelsAll depth trees → ∃ tree ∈ trees, level.2.Within tree
  | [], level, member => absurd member List.not_mem_nil
  | tree :: trees, level, member => by
    rw [levelsAll, List.mem_append] at member
    rcases member with first | later
    · exact ⟨tree, List.mem_cons_self, within_of_mem_levels depth tree first⟩
    · obtain ⟨other, listed, within⟩ := within_of_mem_levelsAll depth trees later
      exact ⟨other, List.mem_cons_of_mem _ listed, within⟩

end

end Tree

/-- The labels of a type whose name is a word are words. -/
theorem TagMark.label_word (mark : TagMark) {name : String} (word : IsWord name) :
    IsWord (mark.label name) := by
  have first : IsWord "First" := by simp [IsWord]
  have last : IsWord "Last" := by simp [IsWord]
  cases mark with
  | only id => exact word
  | first id => exact word.append first
  | last id => exact word.append last

namespace Tree.Grown

open Outline

variable {registry : Registry} {links : Links} {tree : Tree} {start : Nat} {width : TagWidth}
  {table : TagTable}

/-- A numbered tree has names and ranges. -/
theorem exists_shown (finished : registry.Finished links) (grown : tree.Grown registry links)
    (allocated : TagTable.allocate registry tree start width = .ok table) :
    ∃ shown, tree.named? registry table = some shown := by
  apply tree.exists_named
  intro id member
  obtain ⟨_, _, _, _, _, _, ranged⟩ := grown.range_of_type finished start member
  rw [finished.inStep.name?_inside (grown.declared id member), TagTable.range?,
    grown.table_ranges finished allocated, ranged]
  exact ⟨rfl, rfl⟩

/-- The rows of a numbered tree can be told from their lines if the names of types are words. A
final type has one number. -/
theorem rows_sound (finished : registry.Finished links) (grown : tree.Grown registry links)
    (allocated : TagTable.allocate registry tree start width = .ok table)
    (words : ∀ type ∈ registry.types, IsWord type.name) {shown : NamedTree}
    (named : tree.named? registry table = some shown) : ∀ row ∈ shown.rows 0, row.Sound := by
  intro row member
  rw [← tree.levels_named 0 named] at member
  obtain ⟨⟨depth, sub⟩, listed, shows⟩ := List.mem_filterMap.mp member
  simp only [row?, Option.bind_eq_bind, Option.bind_eq_some_iff, pure, Option.some.injEq] at shows
  obtain ⟨name, called, range, ranged, rfl⟩ := shows
  refine ⟨?_, fun leaf => ?_⟩
  · rw [finished.inStep.name?_eq] at called
    obtain ⟨type, found, rfl⟩ := Option.map_eq_some_iff.mp called
    exact words type (List.mem_of_getElem? found)
  · rw [TagTable.range?, grown.table_ranges finished allocated] at ranged
    have tiled := grown.subtree_tiled finished start (tree.within_of_mem_levels 0 listed) ranged
    rwa [if_pos leaf] at tiled

/-- The labels of a numbered tree are words if the names of types are. -/
theorem labels_words (finished : registry.Finished links) (grown : tree.Grown registry links)
    (allocated : TagTable.allocate registry tree start width = .ok table)
    (words : ∀ type ∈ registry.types, IsWord type.name) :
    ∀ entry ∈ table.entries, IsWord entry.label := by
  rw [grown.table_entries finished allocated, Tree.entries, List.forall_mem_map]
  intro mark listed
  have declared : mark.1 ∈ tree.ids.flatMap registry.marksOf :=
    (grown.marks_perm start).mem_iff.mp (List.mem_map_of_mem listed)
  obtain ⟨type, _, found, labelled, _⟩ := grown.mark_declared finished declared
  rw [labelled]
  exact mark.1.label_word (words type (List.mem_of_getElem? found))

end Tree.Grown

namespace Hierarchy

open Outline

/-- A hierarchy as it is shown: its tree has names and ranges, its rows can be told from their
lines, and its labels are words. -/
structure Legible (registry : Registry) (hierarchy : Hierarchy) (shown : NamedTree) : Prop where
  named : hierarchy.tree.named? registry hierarchy.tags = some shown
  rows : ∀ row ∈ shown.rows 0, row.Sound
  labels : ∀ entry ∈ hierarchy.tags.entries, IsWord entry.label

/-- The section of the tree. -/
def treeText (shown : NamedTree) : List (List Char) :=
  "[types]".toList :: (shown.rows 0).map fun row => plainChars row.line

/-- The section of the labels. -/
def tagText (entries : List TagEntry) : List (List Char) :=
  "[tags]".toList :: entries.map fun entry => plainChars (tagLine entry)

namespace Legible

variable {leftRegistry rightRegistry : Registry} {left right : Hierarchy} {shown other : NamedTree}

/-- The section of a legible tree is made of lines. -/
theorem treeText_isLine (legible : left.Legible leftRegistry shown) :
    ∀ line ∈ treeText shown, IsLine line := by
  rw [treeText, List.forall_mem_cons]
  refine ⟨by simp [IsLine], ?_⟩
  intro line member
  obtain ⟨row, listed, rfl⟩ := List.mem_map.mp member
  exact (legible.rows row listed).isLine

/-- The section of legible labels is made of lines. -/
theorem tagText_isLine (legible : left.Legible leftRegistry shown) :
    ∀ line ∈ tagText left.tags.entries, IsLine line := by
  rw [tagText, List.forall_mem_cons]
  refine ⟨by simp [IsLine], ?_⟩
  intro line member
  obtain ⟨entry, listed, rfl⟩ := List.mem_map.mp member
  exact tagLine_isLine (legible.labels entry listed)

/-- A legible tree can be told from its section. -/
theorem treeText_inj (first : left.Legible leftRegistry shown)
    (second : right.Legible rightRegistry other) (same : treeText shown = treeText other) :
    shown = other := by
  apply NamedTree.rows_inj
  apply eq_of_map_eq _ (List.cons.inj same).2
  intro row member twin listed
  exact (first.rows row member).line_inj (second.rows twin listed)

/-- Legible labels can be told from their section. -/
theorem tagText_inj (first : left.Legible leftRegistry shown)
    (second : right.Legible rightRegistry other)
    (same : tagText left.tags.entries = tagText right.tags.entries) :
    left.tags.entries = right.tags.entries := by
  apply eq_of_map_eq _ (List.cons.inj same).2
  intro entry member twin listed
  exact tagLine_inj (first.labels entry member) (second.labels twin listed)

end Legible

end Hierarchy

namespace Model

open Outline

variable {schema : Schema} {settings : Settings} {model : Model} {hierarchy : Hierarchy}

/-- The hierarchy of a compiled model is legible if the names of types are words. -/
theorem legible (compiled : Model.compile schema settings = .ok model)
    (words : ∀ type ∈ model.registry.types, IsWord type.name)
    (present : model.hierarchy = some hierarchy) :
    ∃ shown, hierarchy.Legible model.registry shown := by
  obtain ⟨links, finished, grown, allocated⟩ := Model.hierarchy_allocated compiled present
  obtain ⟨shown, named⟩ := grown.exists_shown finished allocated
  exact ⟨shown, named, grown.rows_sound finished allocated words named,
    grown.labels_words finished allocated words⟩

/-- The text of a model with a tree begins with the sections of the tree and of the labels, each
with an empty line behind it. -/
theorem text_of_hierarchy (present : model.hierarchy = some hierarchy) {shown : NamedTree}
    (named : hierarchy.tree.named? model.registry hierarchy.tags = some shown) :
    ∃ rest, (render .plain model).toList =
      unlines (Hierarchy.treeText shown) ++ '\n' ::
        (unlines (Hierarchy.tagText hierarchy.tags.entries) ++ '\n' :: rest) := by
  have types : plainChars (title "types") = "[types]".toList := by decide
  have labels : plainChars (title "tags") = "[tags]".toList := by decide
  have tree : (title "types" :: treeLines model.registry hierarchy.tags 0 hierarchy.tree).map
      plainChars = Hierarchy.treeText shown := by
    rw [List.map_cons, types, hierarchy.tree.treeLines_named 0 named, List.map_map]
    rfl
  have tags : (title "tags" :: hierarchy.tags.entries.map tagLine).map plainChars =
      Hierarchy.tagText hierarchy.tags.entries := by
    rw [List.map_cons, labels, List.map_map]
    rfl
  obtain ⟨others, sections⟩ : ∃ others, lines model =
      (title "types" :: treeLines model.registry hierarchy.tags 0 hierarchy.tree) ++ [] ::
        ((title "tags" :: hierarchy.tags.entries.map tagLine) ++ [] :: others) := by
    rw [lines, present, Option.map_some, Option.getD_some, hierarchyLines]
    simp only [List.append_assoc, List.cons_append, List.nil_append]
    exact ⟨_, rfl⟩
  refine ⟨unlines (others.map plainChars), ?_⟩
  rw [render_toList, sections, List.map_append, tree, List.map_cons, List.map_append, tags,
    List.map_cons, unlines_append, unlines_cons, unlines_append, unlines_cons]
  rfl

/-- A text that begins with a tree has a `t` in the second place. -/
theorem second_of_hierarchy (present : model.hierarchy = some hierarchy) {shown : NamedTree}
    (named : hierarchy.tree.named? model.registry hierarchy.tags = some shown) :
    (render .plain model).toList[1]? = some 't' := by
  obtain ⟨rest, text⟩ := text_of_hierarchy present named
  rw [text, Hierarchy.treeText, unlines_cons]
  simp

/-- A text without a tree has no `t` in the second place: it is empty or begins with a union. -/
theorem second_without_hierarchy (absent : model.hierarchy = none) :
    (render .plain model).toList[1]? ≠ some 't' := by
  have unions : lines model = model.unions.unions.flatMap unionLines := by
    simp [lines, slots, facades, absent, titled]
  rw [render_toList, unions]
  cases model.unions.unions with
  | nil => simp [unlines]
  | cons union others =>
    simp [unionLines, unlines_cons, plainChars, title, Span.renderAll, Span.render, Span.styled,
      Palette.mark, Palette.plain]

end Model

/-- The outline of a compiled model determines its tree up to the numbers of the types, and its
labels: models with the same outline both have no tree, or they have trees with the same names and
ranges in the same places, and the same labels.

Proof: whether there is a tree shows in the second character of the text. If both models have one,
the text begins with the section of the tree and that of the labels. A section consists of lines
that are not empty and ends with an empty one, so equal texts have equal sections, line by line. A
line gives depth, name and numbers back, as names are words. A tree is read back from its rows by
induction: the rows of the trees below a type are those up to the first that is not deeper than it.
-/
theorem outline_determines_tree (leftSchema rightSchema : Schema)
    (leftSettings rightSettings : Settings) (left right : Model)
    (leftCompiled : Model.compile leftSchema leftSettings = .ok left)
    (rightCompiled : Model.compile rightSchema rightSettings = .ok right)
    (leftWords : ∀ type ∈ left.registry.types, IsWord type.name)
    (rightWords : ∀ type ∈ right.registry.types, IsWord type.name)
    (same : Outline.render .plain left = Outline.render .plain right) :
    (left.hierarchy = none ∧ right.hierarchy = none) ∨
      ∃ first second shown, left.hierarchy = some first ∧ right.hierarchy = some second ∧
        first.tree.named? left.registry first.tags = some shown ∧
        second.tree.named? right.registry second.tags = some shown ∧
        first.tags.entries = second.tags.entries := by
  cases leftTree : left.hierarchy with
  | none =>
    cases rightTree : right.hierarchy with
    | none => exact .inl ⟨rfl, rfl⟩
    | some second =>
      obtain ⟨shown, legible⟩ := Model.legible rightCompiled rightWords rightTree
      have begun := Model.second_of_hierarchy rightTree legible.named
      exact absurd (same ▸ begun) (Model.second_without_hierarchy leftTree)
  | some first =>
    obtain ⟨shown, legible⟩ := Model.legible leftCompiled leftWords leftTree
    cases rightTree : right.hierarchy with
    | none =>
      have begun := Model.second_of_hierarchy leftTree legible.named
      exact absurd (same ▸ begun) (Model.second_without_hierarchy rightTree)
    | some second =>
      obtain ⟨other, otherLegible⟩ := Model.legible rightCompiled rightWords rightTree
      obtain ⟨rest, text⟩ := Model.text_of_hierarchy leftTree legible.named
      obtain ⟨tail, otherText⟩ := Model.text_of_hierarchy rightTree otherLegible.named
      rw [same, otherText] at text
      -- What follows the labels is not compared.
      obtain ⟨trees, later⟩ := Outline.paragraph_inj otherLegible.treeText_isLine
        legible.treeText_isLine text
      obtain ⟨labels, _⟩ := Outline.paragraph_inj otherLegible.tagText_isLine
        legible.tagText_isLine later
      obtain rfl := legible.treeText_inj otherLegible trees.symm
      exact .inr ⟨first, second, shown, rfl, rfl, legible.named, otherLegible.named,
        legible.tagText_inj otherLegible labels.symm⟩

/-- Expressions and statements, each type after its base. -/
def downward : Schema where
  types := [
    { name := "Node", isFinal := false },
    { name := "Expr", isFinal := false, base := some (.named "Node") },
    { name := "Call", base := some (.named "Expr") },
    { name := "Name", base := some (.named "Expr") },
    { name := "Stmt", base := some (.named "Node") }]

/-- The same types, each before its base. -/
def upward : Schema where
  types := [
    { name := "Call", base := some (.named "Expr") },
    { name := "Name", base := some (.named "Expr") },
    { name := "Expr", isFinal := false, base := some (.named "Node") },
    { name := "Stmt", base := some (.named "Node") },
    { name := "Node", isFinal := false }]

/-- The labels of the expressions and statements. -/
def programEntries : List TagEntry :=
  [⟨"Call", 1⟩, ⟨"Name", 2⟩, ⟨"FirstExpr", 1⟩, ⟨"LastExpr", 2⟩, ⟨"Stmt", 3⟩, ⟨"FirstNode", 1⟩,
    ⟨"LastNode", 3⟩]

/-- The model of the downward types. -/
def downwardModel : Model where
  registry := .holding downward.types (some {
    bases := [none, some 0, some 1, some 1, some 0]
    derived := [[1, 4], [2, 3], [], [], []]
    targets := [[], [], [], [], []] })
  hierarchy := some {
    tree := .group 0 (.group 1 (.leaf 2) [.leaf 3]) [.leaf 4]
    tags := .append {} programEntries
      [(2, ⟨1, 1⟩), (3, ⟨2, 2⟩), (1, ⟨1, 2⟩), (4, ⟨3, 3⟩), (0, ⟨1, 3⟩)]
    slots := []
    facades := [] }
  unions := {}
  settings := {}

/-- The model of the upward types, in which every number of a type is another one. -/
def upwardModel : Model where
  registry := .holding upward.types (some {
    bases := [some 2, some 2, some 4, some 4, none]
    derived := [[], [], [0, 1], [], [2, 3]]
    targets := [[], [], [], [], []] })
  hierarchy := some {
    tree := .group 4 (.group 2 (.leaf 0) [.leaf 1]) [.leaf 3]
    tags := .append {} programEntries
      [(0, ⟨1, 1⟩), (1, ⟨2, 2⟩), (2, ⟨1, 2⟩), (3, ⟨3, 3⟩), (4, ⟨1, 3⟩)]
    slots := []
    facades := [] }
  unions := {}
  settings := {}

/-- Downwards and upwards the outline is the same, and so are the tree of names and the labels. -/
theorem outline_of_programs :
    Model.compile downward {} = .ok downwardModel ∧ Model.compile upward {} = .ok upwardModel ∧
      (∀ type ∈ downwardModel.registry.types, IsWord type.name) ∧
      (∀ type ∈ upwardModel.registry.types, IsWord type.name) ∧
      Outline.render .plain downwardModel = Outline.render .plain upwardModel ∧
      ∃ first second shown, downwardModel.hierarchy = some first ∧
        upwardModel.hierarchy = some second ∧
        first.tree.named? downwardModel.registry first.tags = some shown ∧
        second.tree.named? upwardModel.registry second.tags = some shown ∧
        first.tags.entries = second.tags.entries := by
  have down : Model.compile downward {} = .ok downwardModel :=
    Model.compile_of_linkedBy (by decide) (by decide +kernel) rfl rfl
  have up : Model.compile upward {} = .ok upwardModel :=
    Model.compile_of_linkedBy (by decide) (by decide +kernel) rfl rfl
  have downWords : ∀ type ∈ downwardModel.registry.types, IsWord type.name := by
    simp [downwardModel, Registry.holding, downward, IsWord]
  have upWords : ∀ type ∈ upwardModel.registry.types, IsWord type.name := by
    simp [upwardModel, Registry.holding, upward, IsWord]
  have same : Outline.render .plain downwardModel = Outline.render .plain upwardModel := by
    decide +kernel
  refine ⟨down, up, downWords, upWords, same, ?_⟩
  obtain ⟨absent, _⟩ | told := outline_determines_tree downward upward {} {} downwardModel
    upwardModel down up downWords upWords same
  · cases absent
  · exact told

end Taxonomy
