import Taxonomy.Fault
import Taxonomy.Member

/-!
# Unions

A union holds one of several variants and a tag that says which. The variants are
numbered in their order from the first value of the tag on. A union is accepted
if its variants can be told apart, hold data only, and their numbers fit into the
tag.
-/
namespace Taxonomy

/-- The tag of a union. -/
structure Tag where
  name : String
  width : TagWidth
  start : Option Nat := none
  doc : Option String := none
deriving DecidableEq, Repr

/-- The value of the first variant. -/
def Tag.first (tag : Tag) : Nat :=
  tag.start.getD 0

/-- What a variant holds: members of its own, or a value of another type. -/
inductive VariantBody where
  | record (members : List Member)
  | wrapped (target : String) (passing : Passing)
deriving DecidableEq, Repr

/-- A variant of a union. -/
structure Variant where
  name : String
  body : VariantBody
  doc : Option String := none
  names : VariantNames := VariantNames.ofName name
deriving DecidableEq, Repr

namespace Variant

/-- A variant with members of its own. -/
def record (name : String) (members : List Member) : Variant :=
  { name, body := .record members }

/-- A variant that holds nothing. -/
def unit (name : String) : Variant :=
  record name []

/-- A variant that holds a value of another type. -/
def wrapped (name target : String) : Variant :=
  { name, body := .wrapped target .copy }

/-- The variant with its documentation. -/
def documented (variant : Variant) (doc : String) : Variant :=
  { variant with doc := some doc }

/-- The variant, passed in the given way if it is an alias. -/
def passed (variant : Variant) (passing : Passing) : Variant :=
  match variant.body with
  | .record _ => variant
  | .wrapped target _ => { variant with body := .wrapped target passing }

end Variant

/-- The members of a variant; an alias has none. -/
def Variant.members (variant : Variant) : List Member :=
  match variant.body with
  | .record members => members
  | .wrapped _ _ => []

/-- What a generated union can do. -/
structure Capabilities where
  storage : Storage := .trivial
  formatting : Formatting := .none
  equality : Equality := .none
  hashing : Hashing := .none
  docPlace : DocPlace := .member
deriving DecidableEq, Repr

/-- The declaration of a union. -/
structure Union where
  name : String
  tag : Tag
  doc : Option String := none
  variants : List Variant := []
  capabilities : Capabilities := {}
  isFinal : Bool := true
deriving DecidableEq, Repr

/-- A label and its number. -/
structure TagEntry where
  label : String
  value : Nat
deriving DecidableEq, Repr

namespace Union

/-- The name of a variant in messages. -/
def qualify (union : Union) (variant : String) : String :=
  union.name ++ "::" ++ variant

/-- The numbers of the variants. A number beyond the largest tag is written as
the largest tag. -/
def tagValues (union : Union) : List TagEntry :=
  union.variants.mapIdx fun index variant =>
    ⟨variant.name, min (union.tag.first + index) maxTag⟩

/-- The variant of a name. -/
def variant? (union : Union) (name : String) : Option Variant :=
  union.variants.find? fun variant => variant.name == name

/-- Checks that members are data and have names of their own. -/
def checkMembers (union : Union) (variant : String) (seen : List String) :
    List Member → Except Fault Unit
  | [] => .ok ()
  | member :: members =>
    if member.kind.isChild then .error (.childInUnion union.name variant member.name)
    else if member.name ∈ seen then .error (.duplicateMember (union.qualify variant) member.name)
    else checkMembers union variant (member.name :: seen) members

/-- Checks what a variant holds. -/
def checkBody (union : Union) (variant : Variant) : Except Fault Unit :=
  match variant.body with
  | .wrapped target _ =>
    if target = union.name then .error (.selfAlias union.name variant.name) else .ok ()
  | .record members => union.checkMembers variant.name [] members

/-- Checks that variants have names of their own, and what they hold. -/
def checkVariants (union : Union) (seen : List String) : List Variant → Except Fault Unit
  | [] => .ok ()
  | variant :: variants =>
    if variant.name ∈ seen then .error (.duplicateVariant union.name variant.name)
    else do
      union.checkBody variant
      checkVariants union (variant.name :: seen) variants

/-- Checks that the number of the last variant fits into the tag. -/
def checkWidth (union : Union) : Except Fault Unit :=
  match union.variants.getLast? with
  | none => .ok ()
  | some last =>
    let value := union.tag.first + (union.variants.length - 1)
    if value ≤ union.tag.width.max then .ok ()
    else
      .error (.tagOverflow (union.tag.name ++ "::" ++ last.name) (min value maxTag) union.tag.width)

/-- Accepts a union, or reports its first defect. -/
def validate (union : Union) : Except Fault Unit := do
  if union.capabilities.docPlace = .tag ∧ union.tag.doc = none then
    .error (.missingDoc union.name union.tag.name)
  union.checkVariants [] union.variants
  union.checkWidth

end Union

end Taxonomy
