import Taxonomy.Tree.Growth
import Taxonomy.Union

/-!
# Tag tables

The final types of a tree are numbered in the order in which the tree lists them,
so that the types below any one type have consecutive numbers. A table keeps the
numbers under labels: a final type under its own name, and the first and the last
number below an abstract type under two labels made from its name. That a value
belongs to a type is then a comparison with two numbers.

The allocator goes through the tree once, children before their parent. It carries
the next number, which is gone once the numbers of 64 bits are used up, and the
table so far. The range of an abstract type is found while its children are
visited, from the smallest and the largest number among them.
-/
namespace Taxonomy

/-- The numbers from `first` to `last`. -/
structure TagRange where
  first : Nat
  last : Nat
deriving DecidableEq, Repr

namespace TagRange

/-- The range of one number. -/
def single (value : Nat) : TagRange :=
  ⟨value, value⟩

/-- Whether a number lies in the range. -/
def contains (range : TagRange) (value : Nat) : Bool :=
  range.first ≤ value && value ≤ range.last

/-- How many numbers the range has. -/
def width (range : TagRange) : Nat :=
  range.last - range.first + 1

/-- The range widened by the one found before it, if there was one. -/
def join (found : Option TagRange) (range : TagRange) : TagRange :=
  match found with
  | none => range
  | some before => ⟨min before.first range.first, max before.last range.last⟩

end TagRange

/-- Labels with their numbers, and the ranges of the types. -/
structure TagTable where
  entries : List TagEntry := []
  /-- The position of the entry of each label. -/
  byLabel : List (String × Nat) := []
  ranges : List (TypeId × TagRange) := []
deriving DecidableEq, Repr

namespace TagTable

/-- The number under a label. -/
def value? (table : TagTable) (label : String) : Option Nat := do
  let entry ← table.entries[← table.byLabel.lookup label]?
  return entry.value

/-- The range of a type. -/
def range? (table : TagTable) (id : TypeId) : Option TagRange :=
  table.ranges.lookup id

/-- Whether a number belongs to a type or to one below it. -/
def isA (table : TagTable) (value : Nat) (id : TypeId) : Bool :=
  (table.range? id).any fun range => range.contains value

/-- Whether two tables have the same entries in the same order, and the same
positions and ranges in any order. -/
def same (left right : TagTable) : Bool :=
  left.entries = right.entries &&
    left.byLabel.length = right.byLabel.length &&
    (left.byLabel.all fun entry => right.byLabel.lookup entry.1 = some entry.2) &&
    left.ranges.length = right.ranges.length &&
    left.ranges.all fun entry => right.range? entry.1 = some entry.2

/-- Adds an entry at the end. A label that is there already is refused. -/
def push (table : TagTable) (label : String) (value : Nat) : Except Fault TagTable :=
  if (table.byLabel.lookup label).isSome then .error (.duplicateName .tagLabel label)
  else .ok { table with
    byLabel := (label, table.entries.length) :: table.byLabel
    entries := table.entries ++ [⟨label, value⟩] }

/-- Enters the range of a type. A type that has a range gets the new one in its
place. -/
def record (table : TagTable) (id : TypeId) (range : TagRange) : TagTable :=
  if (table.range? id).isSome then
    { table with
      ranges := table.ranges.map fun entry => if entry.1 = id then (id, range) else entry }
  else { table with ranges := table.ranges ++ [(id, range)] }

end TagTable

/-- The number as a counter of 64 bits, if it is not too large for one. -/
def counter? (value : Nat) : Option Nat :=
  if value ≤ maxTag then some value else none

/-- A table that is being filled. -/
structure Allocator where
  /-- The next number, unless all are used up. -/
  next : Option Nat
  table : TagTable := {}
deriving DecidableEq, Repr

namespace Allocator

/-- Takes the next number for the type of the given name. -/
def take (width : TagWidth) (name : String) (state : Allocator) : Except Fault (Nat × Allocator) :=
  match state.next.filter fun value => value ≤ width.max with
  | some value => .ok (value, { state with next := counter? (value + 1) })
  | none => .error (.tagOverflow name (state.next.getD maxTag) width)

/-- Adds an entry to the table. -/
def push (label : String) (value : Nat) (state : Allocator) : Except Fault Allocator := do
  return { state with table := ← state.table.push label value }

/-- Enters the range of a type, which is also the answer of a visit. -/
def record (id : TypeId) (range : TagRange) (state : Allocator) : TagRange × Allocator :=
  (range, { state with table := state.table.record id range })

mutual

/-- Numbers the types of a tree and gives the range of its root. -/
def visit (registry : Registry) (width : TagWidth) :
    Tree → Allocator → Except Fault (TagRange × Allocator)
  | .leaf id, state => do
    let name ← registry.name id
    let (value, state) ← state.take width name
    let state ← state.push name value
    return state.record id (.single value)
  | .group id eldest others, state => do
    let (first, state) ← visit registry width eldest state
    let (found, state) ← visitAll registry width (some (.join none first)) others state
    let name ← registry.name id
    match found with
    | none => .error (.emptyHierarchy name)
    | some range =>
      let state ← state.push ("First" ++ name) range.first
      let state ← state.push ("Last" ++ name) range.last
      return state.record id range

/-- Numbers the types of several trees one after the other, and gives the smallest
range that has theirs and the one found before. -/
def visitAll (registry : Registry) (width : TagWidth) (found : Option TagRange) :
    List Tree → Allocator → Except Fault (Option TagRange × Allocator)
  | [], state => return (found, state)
  | tree :: trees, state => do
    let (range, state) ← visit registry width tree state
    visitAll registry width (some (.join found range)) trees state

end

end Allocator

/-- Numbers the types of a tree from `start` on. -/
def TagTable.allocate (registry : Registry) (tree : Tree) (start : Nat) (width : TagWidth) :
    Except Fault TagTable :=
  if start = 0 then .error (.invalidTagStart start)
  else do
    let (_, state) ← Allocator.visit registry width tree { next := counter? start }
    return state.table

end Taxonomy
