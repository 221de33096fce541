import Taxonomy.Union

/-!
# Sets of unions

A set lists its unions in the order in which they came. No two of them share a
name or a tag, and each is valid. A union that would break this is refused.

Beside the unions the set keeps which union each tag belongs to. A step gives an
answer and the set after it, also where it is refused.
-/
namespace Taxonomy

/-- Unions in the order of their insertion, and the owners of their tags. -/
structure UnionSet where
  unions : List Union := []
  /-- The name of the union that each tag belongs to. -/
  owners : List (String × String) := []
deriving DecidableEq, Repr

namespace UnionSet

/-- The union of a name. -/
def get? (set : UnionSet) (name : String) : Option Union :=
  set.unions.find? fun union => union.name == name

/-- The name of the union that has the given tag. -/
def tagOwner? (set : UnionSet) (tag : String) : Option String :=
  set.owners.lookup tag

/-- Adds a union at the end and enters it as the owner of its tag. -/
def insert (set : UnionSet) (union : Union) : Except Fault Unit × UnionSet :=
  if (set.get? union.name).isSome then (.error (.duplicateName .union union.name), set)
  else
    match set.tagOwner? union.tag.name with
    | some owner => (.error (.tagTaken union.tag.name union.name owner), set)
    | none =>
      match union.validate with
      | .error fault => (.error fault, set)
      | .ok () =>
        (.ok (), {
          unions := set.unions ++ [union]
          owners := (union.tag.name, union.name) :: set.owners })

/-- Adds unions one after the other up to the first that is refused, and gives
the set so far. -/
def insertAll (set : UnionSet) : List Union → Except Fault Unit × UnionSet
  | [] => (.ok (), set)
  | union :: unions =>
    match set.insert union with
    | (.ok (), next) => next.insertAll unions
    | (.error fault, next) => (.error fault, next)

/-- The set of all given unions. -/
def ofList (unions : List Union) : Except Fault UnionSet :=
  match insertAll {} unions with
  | (.ok (), set) => .ok set
  | (.error fault, _) => .error fault

end UnionSet

end Taxonomy
