import Taxonomy.Facade
import Taxonomy.Schema
import Taxonomy.Slot
import Taxonomy.UnionSet

/-!
# Models

Compiling a schema registers its types, grows and numbers the tree below the root
type, and collects the unions. A schema without types has no tree. The first stage
that fails decides the fault.
-/
namespace Taxonomy

/-- The tree of a model with all that is derived from it. -/
structure Hierarchy where
  tree : Tree
  tags : TagTable
  slots : List Slot
  facades : List Facade

/-- A compiled schema. -/
structure Model where
  registry : Registry
  hierarchy : Option Hierarchy
  unions : UnionSet
  settings : Settings

/-- The registry of all given types, finished. -/
def Registry.ofList (types : List TypeDef) : Except Fault Registry :=
  match Registry.registerAll {} types with
  | (.error fault, _) => .error fault
  | (.ok _, registry) =>
    match registry.finish with
    | (.error fault, _) => .error fault
    | (.ok (), finished) => .ok finished

/-- The tree of a finished registry with all that is derived from it. -/
def Hierarchy.build (registry : Registry) (settings : Settings) : Except Fault Hierarchy := do
  let tree ← Tree.ofRoot registry settings.root
  let tags ← TagTable.allocate registry tree settings.tagStart settings.tagWidth
  let slots ← Slot.collect registry tree settings
  return ⟨tree, tags, slots, Facade.collect registry tree⟩

namespace Model

/-- Compiles a schema. -/
def compile (schema : Schema) (settings : Settings) : Except Fault Model := do
  let registry ← Registry.ofList schema.types
  let hierarchy ←
    if registry.types.isEmpty then pure none
    else do pure (some (← Hierarchy.build registry settings))
  let unions ← UnionSet.ofList schema.unions
  return ⟨registry, hierarchy, unions, settings⟩

/-- The slots of the tree, if there is one. -/
def slots (model : Model) : List Slot :=
  (model.hierarchy.map Hierarchy.slots).getD []

/-- The facades of the tree, if there is one. -/
def facades (model : Model) : List Facade :=
  (model.hierarchy.map Hierarchy.facades).getD []

/-- The numbered final types of the tree, if there is one. -/
def finalTypes (model : Model) : List FinalType :=
  (model.hierarchy.map fun hierarchy =>
    FinalType.collect model.registry hierarchy.tree hierarchy.tags).getD []

end Model

end Taxonomy
