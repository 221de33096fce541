import Taxonomy.Member

/-!
# Types

A type is final, and then objects of it exist, or abstract, and then it stands
for the types derived from it.
-/
namespace Taxonomy

/-- The declaration of a type. -/
structure TypeDef where
  name : String
  base : Option TypeRef := none
  isFinal : Bool := true
  /-- The name in the generated program, if it is not derived. -/
  renderedName : Option String := none
  doc : Option String := none
  members : List Member := []
  walkOrder : WalkOrder := .baseFirst
  /-- The name under which the type is public, if it is. -/
  publicName : Option String := none
deriving DecidableEq, Repr

namespace TypeDef

/-- The name in the generated program: the one given, or else the name of the type
behind the stem that all such names share. -/
def rendered (type : TypeDef) (stem : String) : String :=
  type.renderedName.getD (stem ++ type.name)

/-- The function that visits objects of the type. -/
def visitor (type : TypeDef) : String :=
  visitName type.name

/-- The members that have to be given. -/
def requiredMembers (type : TypeDef) : List Member :=
  type.members.filter Member.isRequired

/-- Whether the type is public. -/
def isPublic (type : TypeDef) : Bool :=
  type.publicName.isSome

end TypeDef

end Taxonomy
