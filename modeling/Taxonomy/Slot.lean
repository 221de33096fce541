import Taxonomy.Settings
import Taxonomy.Tree.Growth

/-!
# Slots

A member that refers to a type of the schema is held in a slot, one for a single
node or one for a list of nodes. A tree needs each slot once, however many members
use it; slots that are written alike are one slot, that of the first member which
uses it. Slots are listed in the order of how they are written.
-/
namespace Taxonomy

/-- Whether a slot holds one node or a list of nodes. -/
inductive SlotKind where
  | single
  | list
deriving DecidableEq, Repr

/-- The kind of slot that a member is held in; data is held in none. -/
def MemberKind.slot? : MemberKind → Option SlotKind
  | .node _ => some .single
  | .nodeList _ => some .list
  | .data _ _ | .dataList _ => none

/-- A slot for nodes of one type. -/
structure Slot where
  kind : SlotKind
  target : TypeId
  /-- How the slot is written. -/
  rendered : String
  /-- The function that visits the slot. -/
  visitor : String
deriving DecidableEq, Repr

namespace Slot

/-- The slot of a kind for a type. -/
def make (settings : Settings) (kind : SlotKind) (id : TypeId) (type : TypeDef) : Slot :=
  let wrap (wrapper : String) := wrapper ++ "<" ++ type.rendered settings.nodeStem ++ ">"
  match kind with
  | .single => ⟨kind, id, wrap settings.singleSlot, type.visitor⟩
  | .list => ⟨kind, id, wrap settings.listSlot, type.visitor ++ "_list"⟩

/-- The slot of the member with the given index, if it is held in one. -/
def ofMember (registry : Registry) (settings : Settings) (id : TypeId) (member : Member × Nat) :
    Except Fault (Option Slot) :=
  match member.1.kind.slot? with
  | none => .ok none
  | some kind => do
    match ← registry.memberTarget id member.2 with
    | none => return none
    | some target => return some (make settings kind target (← registry.type target))

/-- The slots of the members of a type, in the order of the members. -/
def ofType (registry : Registry) (settings : Settings) (id : TypeId) :
    Except Fault (List Slot) := do
  let type ← registry.type id
  let slots ← type.members.zipIdx.mapM (ofMember registry settings id)
  return slots.filterMap fun slot => slot

/-- The first slot of each way of writing. -/
def firsts (seen : List String) : List Slot → List Slot
  | [] => []
  | slot :: slots =>
    if slot.rendered ∈ seen then firsts seen slots
    else slot :: firsts (slot.rendered :: seen) slots

/-- The slots of a tree. -/
def collect (registry : Registry) (tree : Tree) (settings : Settings) :
    Except Fault (List Slot) := do
  let slots ← tree.ids.mapM (ofType registry settings)
  return (firsts [] slots.flatten).mergeSort fun left right =>
    decide (left.rendered ≤ right.rendered)

end Slot

end Taxonomy
