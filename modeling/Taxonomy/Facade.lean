import Taxonomy.TagTable

/-!
# Facades and final types

A public type is a facade: it stands for the final types below it, except for
those below another public type that is nearer to them. Facades are listed in the
order of their names, and of the tree where names are equal.

The final types of a tree can be listed with their numbers, in the order of their
names.
-/
namespace Taxonomy

/-- A public name and the final types that it stands for. -/
structure Facade where
  name : String
  objects : List TypeId
deriving DecidableEq, Repr

namespace Facade

/-- Opens the facade of a public type, and makes it the current one by its place in
the list. -/
def enter (publicName : Option String) (current : Option Nat) (out : List Facade) :
    Option Nat × List Facade :=
  match publicName with
  | none => (current, out)
  | some name => (some out.length, out ++ [⟨name, []⟩])

/-- Adds a final type to the current facade, if there is one. -/
def assign (id : TypeId) (current : Option Nat) (out : List Facade) : List Facade :=
  match current with
  | none => out
  | some index => out.modify index fun facade =>
    { facade with objects := facade.objects ++ [id] }

mutual

/-- The facades so far with those of a tree added. A final type goes to the current
facade, which is that of the nearest public type on the way down. -/
def gather (publicName : TypeId → Option String) :
    Tree → Option Nat → List Facade → List Facade
  | .leaf id, current, out =>
    let (current, out) := enter (publicName id) current out
    assign id current out
  | .group id eldest others, current, out =>
    let (current, out) := enter (publicName id) current out
    gatherAll publicName others current (gather publicName eldest current out)

/-- The same for several trees below one type, one tree after the other. -/
def gatherAll (publicName : TypeId → Option String) :
    List Tree → Option Nat → List Facade → List Facade
  | [], _, out => out
  | tree :: trees, current, out =>
    gatherAll publicName trees current (gather publicName tree current out)

end

/-- The facades of a tree. -/
def collect (registry : Registry) (tree : Tree) : List Facade :=
  let publicName id := (registry.type? id).bind TypeDef.publicName
  (gather publicName tree none []).mergeSort fun left right => decide (left.name ≤ right.name)

end Facade

/-- A final type with its number. -/
structure FinalType where
  id : TypeId
  name : String
  tag : Nat
deriving DecidableEq, Repr

/-- The final types of a tree that have a number in a table. -/
def FinalType.collect (registry : Registry) (tree : Tree) (table : TagTable) : List FinalType :=
  let found := tree.leaves.filterMap fun id => do
    let name ← registry.name? id
    let range ← table.range? id
    return ⟨id, name, range.first⟩
  found.mergeSort fun left right => decide (left.name ≤ right.name)

end Taxonomy
