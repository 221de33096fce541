import Taxonomy.Naming
import Taxonomy.Mode

/-!
# Members

A member of a type is data, which the schema does not look into, or a node, which
is another type of the schema. Both come alone or as a list.
-/
namespace Taxonomy

/-- The number of a type, in the order of registration. -/
abbrev TypeId := Nat

/-- A reference to a type: by its name, or by its number. -/
inductive TypeRef where
  | named (name : String)
  | numbered (id : TypeId)
deriving DecidableEq, Repr

/-- How a reference is written. -/
def TypeRef.text : TypeRef → String
  | .named name => name
  | .numbered id => "#" ++ toString id

/-- What a member holds. -/
inductive MemberKind where
  | data (type : String) (simple : Bool)
  | dataList (element : String)
  | node (type : TypeRef)
  | nodeList (element : TypeRef)
deriving DecidableEq, Repr

namespace MemberKind

/-- Whether the member is a list. -/
def isList : MemberKind → Bool
  | .dataList _ | .nodeList _ => true
  | .data _ _ | .node _ => false

/-- The type of the schema that the member refers to. -/
def target? : MemberKind → Option TypeRef
  | .node type => some type
  | .nodeList element => some element
  | .data _ _ | .dataList _ => none

/-- Whether the member holds types of the schema. -/
def isChild (kind : MemberKind) : Bool :=
  kind.target?.isSome

/-- The word for the kind of member. -/
def text : MemberKind → String
  | .data _ _ => "data"
  | .dataList _ => "data_list"
  | .node _ => "node"
  | .nodeList _ => "node_list"

end MemberKind

/-- A member of a type or of a variant. -/
structure Member where
  name : String
  kind : MemberKind
  required : Bool := true
  passing : Passing := .copy
  doc : Option String := none
deriving DecidableEq, Repr

namespace Member

/-- A member that holds data. -/
def data (name type : String) : Member :=
  { name, kind := .data type false }

/-- A member that holds data which is cheap to hand around. -/
def simple (name type : String) : Member :=
  { name, kind := .data type true }

/-- A member that holds a list of data. -/
def dataList (name element : String) : Member :=
  { name, kind := .dataList element }

/-- A member that holds a type of the schema. -/
def node (name : String) (type : TypeRef) : Member :=
  { name, kind := .node type }

/-- A member that holds a list of types of the schema. -/
def nodeList (name : String) (element : TypeRef) : Member :=
  { name, kind := .nodeList element }

/-- The member, which need not be given. -/
def optional (member : Member) : Member :=
  { member with required := false }

/-- The member, passed in the given way. -/
def passed (member : Member) (passing : Passing) : Member :=
  { member with passing }

/-- The member with its documentation. -/
def documented (member : Member) (doc : String) : Member :=
  { member with doc := some doc }

/-- Whether the member has to be given. A list never has to be, since it may be
empty. -/
def isRequired (member : Member) : Bool :=
  member.required && !member.kind.isList

/-- The field that holds the member. -/
def field (member : Member) : String :=
  fieldName member.name

end Member

end Taxonomy
