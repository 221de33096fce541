import Taxonomy.Mode
import Taxonomy.Palette

/-!
# Settings

What is chosen outside a schema: the type at the root of the tree, how tags are
numbered, and how names of nodes and of the slots that hold them are made.
-/
namespace Taxonomy

/-- The settings of a compilation. -/
structure Settings where
  /-- The name of the type at the root. -/
  root : String := "Node"
  /-- The number of the first final type. -/
  tagStart : Nat := 1
  tagWidth : TagWidth := .u32
  /-- What the names of nodes begin with. -/
  nodeStem : String := ""
  /-- What holds one node. -/
  singleSlot : String := "NodePtr"
  /-- What holds a list of nodes. -/
  listSlot : String := "NodeList"
  palette : Palette := .plain
deriving DecidableEq, Repr

end Taxonomy
