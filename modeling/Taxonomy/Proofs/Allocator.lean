import Taxonomy.Proofs.Numbering

/-!
# The allocator at work

The allocator carries a counter, which may run out, and a table, which it fills as it
goes. Whatever adding an entry and recording a range preserve, a whole visit does; so
the positions under which a table finds its labels are always those of the entries.

A visit comes to the closed form. Its range is the run of numbers from the counter on,
found as the smallest and the largest number among the children, and the table gains
the entries and ranges that the tree has when it takes its numbers from there. A visit
fails with the first defect among these entries: a number that does not fit, or a label
that is there already. So a visit depends on what came before it through the counter
and the labels alone.
-/
namespace Taxonomy

/-- The label of a mark, made from the name of its type. -/
def TagMark.labelIn (registry : Registry) (mark : TagMark) : String :=
  mark.label ((registry.name? mark.type).getD "")

namespace Tree

/-- The entries of a tree that takes its numbers from `next` on. -/
def entries (registry : Registry) (next : Nat) (tree : Tree) : List TagEntry :=
  (tree.marks next).map fun mark => ⟨mark.1.labelIn registry, mark.2⟩

/-- The entries of several trees that take their numbers one after the other. -/
def entriesAll (registry : Registry) (next : Nat) (trees : List Tree) : List TagEntry :=
  (marksAll next trees).map fun mark => ⟨mark.1.labelIn registry, mark.2⟩

/-- The entries of a final type are its name and the next number. -/
theorem entries_leaf {registry : Registry} {id : TypeId} {name : String}
    (found : registry.name? id = some name) (next : Nat) :
    (leaf id).entries registry next = [⟨name, next⟩] := by
  simp [entries, marks, TagMark.labelIn, TagMark.type, TagMark.label, found]

/-- The entries of an abstract type follow those of its children. -/
theorem entries_group {registry : Registry} {id : TypeId} {name : String}
    (found : registry.name? id = some name) (next : Nat) (eldest : Tree) (others : List Tree) :
    (group id eldest others).entries registry next =
      entriesAll registry next (eldest :: others) ++
        [⟨"First" ++ name, ((group id eldest others).range next).first⟩,
          ⟨"Last" ++ name, ((group id eldest others).range next).last⟩] := by
  rw [entries, marks_group, List.map_append]
  simp [entriesAll, TagMark.labelIn, TagMark.type, TagMark.label, found, range]

/-- Every type of the tree has a name. -/
def Named (registry : Registry) (tree : Tree) : Prop :=
  ∀ id ∈ tree.ids, ∃ name, registry.name? id = some name

end Tree

namespace TagTable

variable {table : TagTable}

/-- The labels that the table can find. -/
def labels (table : TagTable) : List String :=
  table.byLabel.map Prod.fst

/-- The table with entries and ranges added, the labels under the positions that their
entries get. -/
def append (table : TagTable) (entries : List TagEntry) (ranges : List (TypeId × TagRange)) :
    TagTable where
  entries := table.entries ++ entries
  byLabel := ((entries.map TagEntry.label).zipIdx table.entries.length).reverse ++ table.byLabel
  ranges := table.ranges ++ ranges

/-- A label leads to a position exactly if the entry at this position has the label. -/
def Indexed (table : TagTable) : Prop :=
  ∀ label position, table.byLabel.lookup label = some position ↔
    ∃ value, table.entries[position]? = some ⟨label, value⟩

/-- Additions can be made in two parts. -/
theorem append_append (table : TagTable) (front back : List TagEntry)
    (first second : List (TypeId × TagRange)) :
    (table.append front first).append back second =
      table.append (front ++ back) (first ++ second) := by
  simp [append, List.zipIdx_append]

/-- The added labels come in front of those before them. -/
theorem labels_append (table : TagTable) (entries : List TagEntry)
    (ranges : List (TypeId × TagRange)) :
    (table.append entries ranges).labels =
      (entries.map TagEntry.label).reverse ++ table.labels := by
  rw [labels, append, List.map_append, List.map_reverse, List.zipIdx_map_fst, labels]

/-- A type has the range that it had, or else the one that was added. -/
theorem range?_append (table : TagTable) (entries : List TagEntry)
    (ranges : List (TypeId × TagRange)) (id : TypeId) :
    (table.append entries ranges).range? id = (table.range? id).or (ranges.lookup id) := by
  rw [range?, append, List.lookup_append, range?]

/-- A label can be found exactly if it is among the labels. -/
theorem lookup_isSome_iff (table : TagTable) (label : String) :
    (table.byLabel.lookup label).isSome = true ↔ label ∈ table.labels := by
  rw [← not_iff_not, Bool.not_eq_true, Option.isSome_eq_false_iff, Option.isNone_iff_eq_none,
    List.lookup_eq_none_iff, labels, List.mem_map]
  constructor
  · rintro absent ⟨entry, member, rfl⟩
    exact absurd rfl (bne_iff_ne.mp (absent entry member))
  · intro absent entry member
    exact bne_iff_ne.mpr fun same => absent ⟨entry, member, same.symm⟩

/-- An entry is added exactly if its label is new. -/
theorem push_eq (table : TagTable) (label : String) (value : Nat) :
    table.push label value =
      if label ∈ table.labels then .error (.duplicateName .tagLabel label)
      else .ok (table.append [⟨label, value⟩] []) := by
  rw [push]
  simp only [lookup_isSome_iff]
  congr 1
  simp [append]

/-- The range of a type without one is added at the end. -/
theorem record_eq {id : TypeId} (absent : table.range? id = none) (range : TagRange) :
    table.record id range = table.append [] [(id, range)] := by
  simp [record, absent, append]

/-- Adding an entry keeps every label at the position of its entry: the new label was
nowhere, and the new position is the next one. -/
theorem Indexed.push (indexed : table.Indexed) {label : String} {value : Nat} {next : TagTable}
    (pushed : table.push label value = .ok next) : next.Indexed := by
  rw [TagTable.push] at pushed
  split at pushed
  · cases pushed
  · next absent =>
    obtain rfl := Except.ok.inj pushed
    rw [Option.not_isSome_iff_eq_none] at absent
    intro other position
    dsimp only
    rw [List.getElem?_append, List.getElem?_singleton, List.lookup_cons]
    by_cases same : other = label
    · subst same
      have nowhere (earlier value : Nat) : table.entries[earlier]? ≠ some ⟨other, value⟩ := by
        intro found
        rw [(indexed other earlier).mpr ⟨value, found⟩] at absent
        cases absent
      by_cases early : position < table.entries.length
      · have notLast : table.entries.length ≠ position := by omega
        simp only [early, if_true, nowhere, exists_false, iff_false]
        simpa using notLast
      · by_cases last : table.entries.length = position
        · simp [last]
        · have beyond : position - table.entries.length ≠ 0 := by omega
          simp [early, last, beyond]
    · have different : (other == label) = false := beq_false_of_ne same
      rw [different, indexed]
      by_cases early : position < table.entries.length
      · simp [early]
      · simp [early, Ne.symm same]

/-- Recording a range touches neither labels nor entries. -/
theorem Indexed.record (indexed : table.Indexed) (id : TypeId) (range : TagRange) :
    (table.record id range).Indexed := by
  rw [TagTable.record]
  split
  · exact indexed
  · exact indexed

/-- The fault of the first entry that does not fit into the width or repeats a
label. -/
def defect? (width : TagWidth) (seen : List String) : List TagEntry → Option Fault
  | [] => none
  | entry :: entries =>
    if width.max < entry.value then
      some (.tagOverflow entry.label (min entry.value maxTag) width)
    else if entry.label ∈ seen then some (.duplicateName .tagLabel entry.label)
    else defect? width (entry.label :: seen) entries

/-- The first defect is in the front part, or else in the rest, for which the labels of the
front part were there before. -/
theorem defect?_append (width : TagWidth) (seen : List String) (front back : List TagEntry) :
    defect? width seen (front ++ back) =
      (defect? width seen front).or
        (defect? width ((front.map TagEntry.label).reverse ++ seen) back) := by
  induction front generalizing seen with
  | nil => rfl
  | cons entry front inductionHypothesis =>
    rw [List.cons_append, defect?, defect?]
    split
    · rfl
    · split
      · rfl
      · rw [inductionHypothesis]
        simp

/-- The labels have no defect exactly if every number fits and the labels are
fresh. -/
theorem defect?_none_iff (width : TagWidth) (seen : List String) (entries : List TagEntry) :
    defect? width seen entries = none ↔
      (∀ entry ∈ entries, entry.value ≤ width.max) ∧ Fresh seen (entries.map TagEntry.label) := by
  induction entries generalizing seen with
  | nil => simp [defect?, Fresh]
  | cons entry entries inductionHypothesis =>
    rw [defect?, List.forall_mem_cons, List.map_cons, fresh_cons_iff]
    by_cases large : width.max < entry.value
    · simp [large, Nat.not_le.mpr large]
    · by_cases met : entry.label ∈ seen
      · simp [large, met]
      · simp [large, met, Nat.not_lt.mp large, inductionHypothesis]

end TagTable

namespace Allocator

variable {registry : Registry} {width : TagWidth}

/-- The property of tables holds after the visit of the tree if it did before. -/
def Keeps (registry : Registry) (width : TagWidth) (kept : TagTable → Prop) (tree : Tree) : Prop :=
  ∀ state range after, visit registry width tree state = .ok (range, after) →
    kept state.table → kept after.table

/-- What the visits of several trees keep, visiting them one after the other keeps. -/
theorem visitAll_keeps {kept : TagTable → Prop} {trees : List Tree}
    (each : ∀ tree ∈ trees, Keeps registry width kept tree) {found joined : Option TagRange}
    {state after : Allocator}
    (visited : visitAll registry width found trees state = .ok (joined, after))
    (holds : kept state.table) : kept after.table := by
  induction trees generalizing found state with
  | nil =>
    obtain ⟨_, rfl⟩ := Prod.mk.inj (Except.ok.inj visited)
    exact holds
  | cons tree trees inductionHypothesis =>
    rw [List.forall_mem_cons] at each
    rw [visitAll, Outcome.bind_ok_iff] at visited
    obtain ⟨⟨range, middle⟩, first, rest⟩ := visited
    exact inductionHypothesis each.2 rest (each.1 _ _ _ first holds)

/-- What adding an entry and recording a range keep, every visit keeps. -/
theorem visit_keeps {kept : TagTable → Prop}
    (pushed : ∀ table label value next, kept table → table.push label value = .ok next → kept next)
    (recorded : ∀ table id range, kept table → kept (table.record id range)) (tree : Tree) :
    Keeps registry width kept tree := by
  have pushes {label : String} {value : Nat} {state next : Allocator}
      (success : state.push label value = .ok next) (holds : kept state.table) :
      kept next.table := by
    simp only [push, Outcome.bind_ok_iff, Outcome.pure_ok_iff] at success
    obtain ⟨table, added, rfl⟩ := success
    exact pushed _ _ _ _ holds added
  induction tree using Tree.by_children with
  | leaf id =>
    intro state range after visited holds
    simp only [visit, Outcome.bind_ok_iff] at visited
    obtain ⟨name, _, ⟨value, taken⟩, took, filled, added, closed⟩ := visited
    have same : taken.table = state.table := by
      rw [take] at took
      split at took
      · obtain ⟨_, rfl⟩ := Prod.mk.inj (Except.ok.inj took)
        rfl
      · cases took
    obtain ⟨_, rfl⟩ := Prod.mk.inj (Except.ok.inj closed)
    exact recorded _ _ _ (pushes added (same ▸ holds))
  | group id eldest others inductionHypothesis =>
    intro state range after visited holds
    rw [List.forall_mem_cons] at inductionHypothesis
    simp only [visit, Outcome.bind_ok_iff] at visited
    obtain ⟨⟨first, middle⟩, eldestVisited, ⟨found, last⟩, othersVisited, name, _, closed⟩ :=
      visited
    have below := visitAll_keeps inductionHypothesis.2 othersVisited
      (inductionHypothesis.1 _ _ _ eldestVisited holds)
    cases found with
    | none => cases closed
    | some range =>
      simp only [Outcome.bind_ok_iff] at closed
      obtain ⟨firstAdded, pushFirst, lastAdded, pushLast, closed⟩ := closed
      obtain ⟨_, rfl⟩ := Prod.mk.inj (Except.ok.inj closed)
      exact recorded _ _ _ (pushes pushLast (pushes pushFirst below))

/-- What becomes of a visit in closed form: the first defect of the entries, or else an
answer, the counter, and the table with the entries and ranges added. -/
def outcome {α : Type} (width : TagWidth) (table : TagTable) (entries : List TagEntry)
    (ranges : List (TypeId × TagRange)) (answer : α) (next : Nat) :
    Except Fault (α × Allocator) :=
  match TagTable.defect? width table.labels entries with
  | some fault => .error fault
  | none => .ok (answer, ⟨counter? next, table.append entries ranges⟩)

variable {table : TagTable}

/-- Two steps in closed form follow one another in closed form. -/
theorem bind_outcome {α β : Type} {first : Except Fault (α × Allocator)}
    {rest : α × Allocator → Except Fault (β × Allocator)} {front back : List TagEntry}
    {early late : List (TypeId × TagRange)} {answer : α} {final : β} {next last : Nat}
    (started : first = outcome width table front early answer next)
    (continued : TagTable.defect? width table.labels front = none →
      rest (answer, ⟨counter? next, table.append front early⟩) =
        outcome width (table.append front early) back late final last) :
    (first >>= rest) = outcome width table (front ++ back) (early ++ late) final last := by
  rw [started, outcome, outcome, TagTable.defect?_append]
  cases clean : TagTable.defect? width table.labels front with
  | some fault => rfl
  | none =>
    rw [Option.none_or]
    change rest _ = _
    rw [continued clean, outcome, TagTable.labels_append, TagTable.append_append]

/-- A number is taken if it fits; otherwise the fault has this number, or the largest one of
the counter if the counter has run out. -/
theorem take_eq (width : TagWidth) (name : String) (next : Nat) (table : TagTable) :
    take width name ⟨counter? next, table⟩ =
      if width.max < next then .error (.tagOverflow name (min next maxTag) width)
      else .ok (next, ⟨counter? (next + 1), table⟩) := by
  have bound := width.max_le
  by_cases large : width.max < next
  · rw [if_pos large]
    by_cases inside : next ≤ maxTag
    · simp [take, counter?, Option.filter_some, inside, Nat.not_le.mpr large]
    · simp [take, counter?, inside, Nat.le_of_not_le inside]
  · rw [if_neg large]
    have fits : next ≤ width.max := Nat.not_lt.mp large
    simp [take, counter?, Option.filter_some, fits, fits.trans bound]

/-- Visiting a final type takes one number and adds one entry and one range. -/
theorem visit_leaf_eq {id : TypeId} {name : String} (named : registry.name? id = some name)
    (next : Nat) (absent : table.range? id = none) :
    visit registry width (.leaf id) ⟨counter? next, table⟩ =
      outcome width table [⟨name, next⟩] [(id, .single next)] (.single next) (next + 1) := by
  have answered : registry.name id = .ok name := (registry.name_ok_iff id name).mpr named
  have added : (table.append [⟨name, next⟩] []).range? id = none := by
    rw [TagTable.range?_append, absent]
    rfl
  rw [visit, answered, outcome, TagTable.defect?]
  change (take width name ⟨counter? next, table⟩ >>= _) = _
  rw [take_eq]
  by_cases large : width.max < next
  · rw [if_pos large, if_pos large]
    rfl
  · rw [if_neg large, if_neg large]
    change (push name next ⟨counter? (next + 1), table⟩ >>= _) = _
    rw [push, TagTable.push_eq]
    by_cases met : name ∈ table.labels
    · rw [if_pos met, if_pos met]
      rfl
    · rw [if_neg met, if_neg met]
      change Except.ok (record id _ _) = _
      rw [record, TagTable.record_eq added, TagTable.append_append]
      rfl

/-- Closing an abstract type adds its two entries and its range. -/
theorem close_eq {id : TypeId} (name : String) {range : TagRange} (low : range.first ≤ width.max)
    (high : range.last ≤ width.max) (next : Nat) (absent : table.range? id = none) :
    (do
      let state ← push ("First" ++ name) range.first ⟨counter? next, table⟩
      let state ← push ("Last" ++ name) range.last state
      return record id range state) =
      outcome width table [⟨"First" ++ name, range.first⟩, ⟨"Last" ++ name, range.last⟩]
        [(id, range)] range next := by
  rw [outcome, TagTable.defect?, TagTable.defect?, TagTable.defect?, if_neg (Nat.not_lt.mpr low),
    if_neg (Nat.not_lt.mpr high), push, TagTable.push_eq]
  by_cases firstMet : "First" ++ name ∈ table.labels
  · rw [if_pos firstMet, if_pos firstMet]
    rfl
  · rw [if_neg firstMet, if_neg firstMet]
    change (push ("Last" ++ name) range.last ⟨counter? next, table.append _ []⟩ >>= _) = _
    have seen : (table.append [⟨"First" ++ name, range.first⟩] []).labels =
        ("First" ++ name) :: table.labels := TagTable.labels_append _ _ _
    rw [push, TagTable.push_eq, seen]
    by_cases lastMet : "Last" ++ name ∈ ("First" ++ name) :: table.labels
    · rw [if_pos lastMet, if_pos lastMet]
      rfl
    · rw [if_neg lastMet, if_neg lastMet]
      change Except.ok (record id range _) = _
      rw [record, TagTable.append_append, TagTable.record_eq, TagTable.append_append]
      · rfl
      · rw [TagTable.range?_append, absent]
        rfl

/-- Visiting the tree from any number on, with a table that has no range of its types, comes to
the closed form. -/
def Refined (registry : Registry) (width : TagWidth) (tree : Tree) : Prop :=
  ∀ next table, (∀ id ∈ tree.ids, table.range? id = none) →
    visit registry width tree ⟨counter? next, table⟩ =
      outcome width table (tree.entries registry next) (tree.ranges next) (tree.range next)
        (next + tree.width)

/-- Visiting the trees one after the other, with the numbers from `first` to the one before the
counter found already, comes to the closed form. The range that is found goes on from
`first`. -/
def Continued (registry : Registry) (width : TagWidth) (trees : List Tree) (first next : Nat)
    (table : TagTable) : Prop :=
  visitAll registry width (some ⟨first, next - 1⟩) trees ⟨counter? next, table⟩ =
    outcome width table (Tree.entriesAll registry next trees) (Tree.rangesAll next trees)
      (some ⟨first, next + (trees.flatMap Tree.leaves).length - 1⟩)
      (next + (trees.flatMap Tree.leaves).length)

/-- A type outside several trees has none of their ranges. -/
theorem lookup_rangesAll_none {trees : List Tree} {id : TypeId} (next : Nat)
    (outside : id ∉ trees.flatMap Tree.ids) : (Tree.rangesAll next trees).lookup id = none := by
  rw [List.lookup_eq_none_iff]
  intro entry member
  have keys := Tree.rangesAll_keys trees (fun tree _ => tree.ranges_keys) next
  rw [bne_iff_ne]
  rintro rfl
  exact outside (keys.mem_iff.mp (List.mem_map_of_mem member))

/-- Several trees of which the first goes on from the range found so far are visited in closed
form if the trees after it are: each tree begins where the one before it ended. -/
theorem visitAll_cons_eq {tree : Tree} {trees : List Tree} {found : Option TagRange}
    {first next : Nat} (refined : Refined registry width tree)
    (joined : TagRange.join found (tree.range next) = ⟨first, next + tree.width - 1⟩)
    (distinct : ((tree :: trees).flatMap Tree.ids).Nodup)
    (absent : ∀ id ∈ (tree :: trees).flatMap Tree.ids, table.range? id = none)
    (rest : ∀ reached : TagTable, (∀ id ∈ trees.flatMap Tree.ids, reached.range? id = none) →
      Continued registry width trees first (next + tree.width) reached) :
    visitAll registry width found (tree :: trees) ⟨counter? next, table⟩ =
      outcome width table (Tree.entriesAll registry next (tree :: trees))
        (Tree.rangesAll next (tree :: trees))
        (some ⟨first, next + ((tree :: trees).flatMap Tree.leaves).length - 1⟩)
        (next + ((tree :: trees).flatMap Tree.leaves).length) := by
  rw [List.flatMap_cons, List.nodup_append] at distinct
  simp only [List.flatMap_cons, List.forall_mem_append] at absent
  have size : next + tree.width + (trees.flatMap Tree.leaves).length =
      next + ((tree :: trees).flatMap Tree.leaves).length := by
    rw [List.flatMap_cons, List.length_append, Tree.width, Nat.add_assoc]
  have entries : Tree.entriesAll registry next (tree :: trees) =
      tree.entries registry next ++ Tree.entriesAll registry (next + tree.width) trees := by
    rw [Tree.entriesAll, Tree.marksAll, List.map_append]
    rfl
  rw [visitAll, entries, Tree.rangesAll, ← size]
  refine bind_outcome (refined next table absent.1) fun _ => ?_
  dsimp only
  rw [joined]
  refine rest _ fun id member => ?_
  have outside : id ∉ tree.ids := fun inTree => distinct.2.2 id inTree id member rfl
  rw [TagTable.range?_append, absent.2 id member,
    Tree.Grown.lookup_range_none tree next id outside]
  rfl

/-- Visiting several trees after the numbers from `first` on comes to the closed form. -/
theorem visitAll_eq {trees : List Tree} (refined : ∀ tree ∈ trees, Refined registry width tree)
    (distinct : (trees.flatMap Tree.ids).Nodup) {first next : Nat} (less : first < next)
    (absent : ∀ id ∈ trees.flatMap Tree.ids, table.range? id = none) :
    Continued registry width trees first next table := by
  induction trees generalizing next table with
  | nil =>
    simp [Continued, visitAll, outcome, Tree.entriesAll, Tree.marksAll, Tree.rangesAll,
      TagTable.defect?, TagTable.append, pure, Except.pure]
  | cons tree trees inductionHypothesis =>
    rw [List.forall_mem_cons] at refined
    have positive : 0 < tree.width := List.length_pos_iff.mpr tree.leaves_ne_nil
    have joined : TagRange.join (some ⟨first, next - 1⟩) (tree.range next) =
        ⟨first, next + tree.width - 1⟩ := by
      simp only [TagRange.join, Tree.range, TagRange.mk.injEq]
      omega
    have restDistinct := (List.nodup_append.mp (List.flatMap_cons ▸ distinct)).2.1
    exact visitAll_cons_eq refined.1 joined distinct absent fun reached unknown =>
      inductionHypothesis refined.2 restDistinct (by omega) unknown

/-- Visiting children of which there is at least one finds the whole run of their numbers. -/
theorem visitChildren_eq {eldest : Tree} {others : List Tree}
    (refined : ∀ child ∈ eldest :: others, Refined registry width child)
    (distinct : ((eldest :: others).flatMap Tree.ids).Nodup) (next : Nat)
    (absent : ∀ id ∈ (eldest :: others).flatMap Tree.ids, table.range? id = none) :
    visitAll registry width none (eldest :: others) ⟨counter? next, table⟩ =
      outcome width table (Tree.entriesAll registry next (eldest :: others))
        (Tree.rangesAll next (eldest :: others))
        (some ⟨next, next + ((eldest :: others).flatMap Tree.leaves).length - 1⟩)
        (next + ((eldest :: others).flatMap Tree.leaves).length) := by
  rw [List.forall_mem_cons] at refined
  have positive : 0 < eldest.width := List.length_pos_iff.mpr eldest.leaves_ne_nil
  have restDistinct := (List.nodup_append.mp (List.flatMap_cons ▸ distinct)).2.1
  exact visitAll_cons_eq refined.1 rfl distinct absent fun reached unknown =>
    visitAll_eq refined.2 restDistinct (by omega) unknown

/-- The children of an abstract type are visited before it is closed. -/
theorem visit_group (id : TypeId) (eldest : Tree) (others : List Tree) (state : Allocator) :
    visit registry width (.group id eldest others) state =
      (do
        let (found, state) ← visitAll registry width none (eldest :: others) state
        let name ← registry.name id
        match found with
        | none => .error (.emptyHierarchy name)
        | some range =>
          let state ← state.push ("First" ++ name) range.first
          let state ← state.push ("Last" ++ name) range.last
          return state.record id range) := by
  rw [visit, visitAll]
  exact (bind_assoc _ _ _).symm

/-- Where several trees have no defect, the last of their numbers fits. -/
theorem last_fits {trees : List Tree} (some : trees ≠ []) {next : Nat} {seen : List String}
    (clean : TagTable.defect? width seen (Tree.entriesAll registry next trees) = none) :
    next + (trees.flatMap Tree.leaves).length - 1 ≤ width.max := by
  obtain ⟨mark, member, value⟩ := Tree.marksAll_reach trees some next
  rw [← value]
  exact ((TagTable.defect?_none_iff width seen _).mp clean).1 _ (List.mem_map_of_mem member)

/-- Every visit of a tree in which no type stands twice and every type has a name comes to the
closed form.

Proof: by induction on the tree. A final type takes the counter. The children of an abstract
type are visited one after the other, so that their numbers follow on without a gap and the
smallest and largest of them are the two ends of the whole run. That the run ends within the
width is known by then, since the number of the last final type was taken; hence the two
entries of the abstract type can only fail for their labels. -/
theorem visit_eq {tree : Tree} (named : tree.Named registry) (distinct : tree.ids.Nodup) :
    Refined registry width tree := by
  induction tree using Tree.by_children with
  | leaf id =>
    intro next table absent
    obtain ⟨name, found⟩ := named id List.mem_cons_self
    rw [visit_leaf_eq found next (absent id List.mem_cons_self), Tree.entries_leaf found]
    simp [Tree.ranges, Tree.range, Tree.width, Tree.leaves, TagRange.single]
  | group id eldest others inductionHypothesis =>
    intro next table absent
    rw [Tree.Named, Tree.ids_group, List.forall_mem_cons] at named
    rw [Tree.ids_group, List.nodup_cons] at distinct
    rw [Tree.ids_group, List.forall_mem_cons] at absent
    obtain ⟨⟨name, found⟩, named⟩ := named
    obtain ⟨notBelow, distinct⟩ := distinct
    obtain ⟨absent, absentBelow⟩ := absent
    have refined : ∀ child ∈ eldest :: others, Refined registry width child := by
      intro child listed
      refine inductionHypothesis child listed (fun other member => ?_) ?_
      · exact named other (List.mem_flatMap.mpr ⟨child, listed, member⟩)
      · exact (List.nodup_flatMap.mp distinct).1 child listed
    have size : next + ((eldest :: others).flatMap Tree.leaves).length =
        next + (Tree.group id eldest others).width := by
      rw [Tree.width, Tree.leaves_group]
    have children := visitChildren_eq refined distinct next absentBelow
    rw [size] at children
    rw [visit_group, Tree.entries_group found, Tree.ranges_group]
    refine bind_outcome children fun clean => ?_
    have fits := last_fits (List.cons_ne_nil eldest others) clean
    rw [size] at fits
    have answered : registry.name id = .ok name := (registry.name_ok_iff id name).mpr found
    have positive : 0 < (Tree.group id eldest others).width :=
      List.length_pos_iff.mpr (Tree.leaves_ne_nil _)
    have low : ((Tree.group id eldest others).range next).first ≤ width.max := by
      dsimp only [Tree.range]
      omega
    dsimp only
    rw [answered]
    refine close_eq name low fits _ ?_
    rw [TagTable.range?_append, absent, lookup_rangesAll_none next notBelow]
    rfl

/-- A visit succeeds exactly if the entries have no defect after the labels that are there. It
then answers with the run of numbers and adds the entries and ranges to the table. -/
theorem visit_ok_iff {tree : Tree} (named : tree.Named registry) (distinct : tree.ids.Nodup)
    (next : Nat) (absent : ∀ id ∈ tree.ids, table.range? id = none)
    (result : TagRange × Allocator) :
    visit registry width tree ⟨counter? next, table⟩ = .ok result ↔
      TagTable.defect? width table.labels (tree.entries registry next) = none ∧
        result = (tree.range next, ⟨counter? (next + tree.width),
          table.append (tree.entries registry next) (tree.ranges next)⟩) := by
  have refined : Refined registry width tree := visit_eq named distinct
  rw [refined next table absent, outcome]
  cases TagTable.defect? width table.labels (tree.entries registry next) with
  | some fault => simp
  | none => simp [eq_comm]

end Allocator

/-- In every table that an allocation gives, each label leads to the position of its entry. -/
theorem TagTable.allocate_indexed {registry : Registry} {tree : Tree} {start : Nat}
    {width : TagWidth} {table : TagTable}
    (allocated : allocate registry tree start width = .ok table) : table.Indexed := by
  rw [allocate] at allocated
  split at allocated
  · cases allocated
  · simp only [Outcome.bind_ok_iff, Outcome.pure_ok_iff] at allocated
    obtain ⟨⟨range, state⟩, visited, rfl⟩ := allocated
    have empty : TagTable.Indexed {} := by simp [Indexed]
    exact Allocator.visit_keeps (fun _ _ _ _ indexed pushed => indexed.push pushed)
      (fun _ id range indexed => indexed.record id range) tree _ _ _ visited empty

namespace Tree.Grown

variable {registry : Registry} {links : Links} {tree : Tree}

/-- Every type of a grown tree has a name. -/
theorem named (finished : registry.Finished links) (grown : tree.Grown registry links) :
    tree.Named registry := by
  intro id member
  exact ⟨_, finished.inStep.name?_inside (grown.declared id member)⟩

/-- An allocation comes to the closed form. -/
theorem allocate_eq (finished : registry.Finished links) (grown : tree.Grown registry links)
    (start : Nat) (width : TagWidth) :
    TagTable.allocate registry tree start width =
      if start = 0 then .error (.invalidTagStart start)
      else
        match TagTable.defect? width [] (tree.entries registry start) with
        | some fault => .error fault
        | none => .ok (TagTable.append {} (tree.entries registry start) (tree.ranges start)) := by
  have refined : Allocator.Refined registry width tree :=
    Allocator.visit_eq (grown.named finished) (grown.ids_nodup finished)
  have unlabelled : TagTable.labels {} = [] := rfl
  rw [TagTable.allocate, refined start {} fun _ _ => rfl, Allocator.outcome, unlabelled]
  by_cases zero : start = 0
  · rw [if_pos zero, if_pos zero]
  · rw [if_neg zero, if_neg zero]
    cases TagTable.defect? width [] (tree.entries registry start) <;> rfl

/-- An allocation succeeds exactly if it starts above zero and the entries have no defect; the
table then has these entries and the ranges of the tree. -/
theorem allocate_ok_iff (finished : registry.Finished links) (grown : tree.Grown registry links)
    (start : Nat) (width : TagWidth) (table : TagTable) :
    TagTable.allocate registry tree start width = .ok table ↔
      start ≠ 0 ∧ TagTable.defect? width [] (tree.entries registry start) = none ∧
        table = TagTable.append {} (tree.entries registry start) (tree.ranges start) := by
  rw [grown.allocate_eq finished]
  by_cases zero : start = 0
  · simp [zero]
  · rw [if_neg zero, and_iff_right zero]
    cases TagTable.defect? width [] (tree.entries registry start) with
    | some fault => simp
    | none => simp [eq_comm]

/-- A table has the entries and the ranges of the tree. -/
theorem table_eq (finished : registry.Finished links) (grown : tree.Grown registry links)
    {start : Nat} {width : TagWidth} {table : TagTable}
    (allocated : TagTable.allocate registry tree start width = .ok table) :
    table = TagTable.append {} (tree.entries registry start) (tree.ranges start) :=
  ((grown.allocate_ok_iff finished start width table).mp allocated).2.2

/-- The ranges of a table are those of the tree. -/
theorem table_ranges (finished : registry.Finished links) (grown : tree.Grown registry links)
    {start : Nat} {width : TagWidth} {table : TagTable}
    (allocated : TagTable.allocate registry tree start width = .ok table) :
    table.ranges = tree.ranges start := by
  rw [grown.table_eq finished allocated]
  rfl

/-- The entries of a table are those of the tree. -/
theorem table_entries (finished : registry.Finished links) (grown : tree.Grown registry links)
    {start : Nat} {width : TagWidth} {table : TagTable}
    (allocated : TagTable.allocate registry tree start width = .ok table) :
    table.entries = tree.entries registry start := by
  rw [grown.table_eq finished allocated]
  rfl

end Tree.Grown

end Taxonomy
