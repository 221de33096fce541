import Taxonomy.Registry
import Taxonomy.Tree.Basic

/-!
# Growing trees from a registry

The tree of a type has a child for each type derived from it. In a finished
registry no way down is longer than the number of types, which bounds how deep a
tree is grown.

The same types can be listed without growing a tree, by working off a list of
types of which the first is replaced by those derived from it.
-/
namespace Taxonomy

namespace Tree

/-- The tree of a type, at most `depth` types deep. Deeper than that, some type
would be below itself. -/
def grow (registry : Registry) : (depth : Nat) → TypeId → Except Fault Tree
  | 0, id => do .error (.inheritanceCycle (← registry.name id))
  | depth + 1, id => do
    let type ← registry.type id
    if type.isFinal then return .leaf id
    let derived ← registry.derived id
    match ← derived.mapM (grow registry depth) with
    | [] => .error (.emptyHierarchy type.name)
    | eldest :: others => return .group id eldest others

/-- The tree of the type of a name. -/
def ofRoot (registry : Registry) (name : String) : Except Fault Tree :=
  if registry.isFinished then do
    grow registry registry.types.length (← registry.id name)
  else .error (.notFinished name)

end Tree

namespace Registry

/-- Works off a list of types within the given number of rounds. -/
def walkFrom (registry : Registry) : (rounds : Nat) → List TypeId → Except Fault (List TypeId)
  | _, [] => .ok []
  | 0, id :: _ => do .error (.inheritanceCycle (← registry.name id))
  | rounds + 1, id :: pending => do
    let derived ← registry.derived id
    let rest ← walkFrom registry rounds (derived ++ pending)
    return id :: rest

/-- The given types and all below them, each before those below it. -/
def walk (registry : Registry) (bases : List TypeId) : Except Fault (List TypeId) :=
  registry.walkFrom (bases.length * registry.types.length) bases

/-- The final types among the given ones and those below them. -/
def walkFinal (registry : Registry) (bases : List TypeId) : Except Fault (List TypeId) := do
  let ids ← registry.walk bases
  return ids.filter fun id => (registry.type? id).any TypeDef.isFinal

end Registry

end Taxonomy
