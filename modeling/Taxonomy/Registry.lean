import Taxonomy.Fault
import Taxonomy.Registry.Lineage
import Taxonomy.Repetition
import Taxonomy.Symbols
import Taxonomy.TypeDef

/-!
# Registries

A registry takes type declarations in, one after the other, and numbers them.
Once it is finished it takes no more: every reference has been resolved, no type
derives from a final one, and no type is above itself. Only then can it answer
how its types are related.

The names of the types are kept in a symbol table beside the declarations. Only
taking a type in adds a name, so that the symbol of a name serves as the number of
the type: names are looked up in the table, and declarations by position.

A step gives an answer and the registry after it, also where it is refused.
-/
namespace Taxonomy

/-- How the types of a finished registry are related. Each list has one entry for
each type. -/
structure Links where
  /-- The base of a type. -/
  bases : Bases
  /-- The types derived from a type directly, ordered by name. -/
  derived : List (List TypeId)
  /-- The type that each member refers to. -/
  targets : List (List (Option TypeId))
deriving DecidableEq, Repr

/-- Declared types with their names, and their relations once the registry is
finished. -/
structure Registry where
  /-- The names of the types; the symbol of a name is the number of its type. -/
  names : SymbolTable := {}
  types : List TypeDef := []
  links : Option Links := none
deriving DecidableEq, Repr

namespace Registry

/-- Whether the registry takes no more types. -/
def isFinished (registry : Registry) : Bool :=
  registry.links.isSome

/-- The number of the type of a name. -/
def find? (registry : Registry) (name : String) : Option TypeId :=
  registry.names.lookup? name

/-- The type of a number. -/
def type? (registry : Registry) (id : TypeId) : Option TypeDef :=
  registry.types[id]?

/-- The name of the type of a number. -/
def name? (registry : Registry) (id : TypeId) : Option String :=
  registry.names.resolve? id

/-- The number of the type of a name. -/
def id (registry : Registry) (name : String) : Except Fault TypeId :=
  match registry.find? name with
  | some id => .ok id
  | none => .error (.unknownType name none)

/-- The type of a number. -/
def type (registry : Registry) (id : TypeId) : Except Fault TypeDef :=
  match registry.type? id with
  | some type => .ok type
  | none => .error (.unknownId id)

/-- The type of a name. -/
def get (registry : Registry) (name : String) : Except Fault TypeDef := do
  registry.type (← registry.id name)

/-- The name of the type of a number. -/
def name (registry : Registry) (id : TypeId) : Except Fault String :=
  match registry.name? id with
  | some name => .ok name
  | none => .error (.unknownId id)

/-- Takes a type in. Its number is the symbol of its name. -/
def register (registry : Registry) (type : TypeDef) : Except Fault TypeId × Registry :=
  if registry.isFinished then (.error (.alreadyFinished type.name), registry)
  else if (registry.find? type.name).isSome then
    (.error (.duplicateName .type type.name), registry)
  else
    match firstRepeated [] (type.members.map Member.name) with
    | some member => (.error (.duplicateMember type.name member), registry)
    | none =>
      let (id, names) := registry.names.intern type.name
      (.ok id, { registry with names := names, types := registry.types ++ [type] })

/-- Takes types in one after the other up to the first that is refused, and gives
the registry so far. -/
def registerAll (registry : Registry) : List TypeDef → Except Fault (List TypeId) × Registry
  | [] => (.ok [], registry)
  | type :: types =>
    match registry.register type with
    | (.error fault, next) => (.error fault, next)
    | (.ok id, next) =>
      let (ids, last) := next.registerAll types
      (ids.map (id :: ·), last)

/-- The type that a reference of the given type means. -/
def resolve (registry : Registry) (referrer : String) (ref : TypeRef) : Except Fault TypeId :=
  let found :=
    match ref with
    | .named name => registry.find? name
    | .numbered id => if id < registry.types.length then some id else none
  match found with
  | some id => .ok id
  | none => .error (.unknownType ref.text (some referrer))

/-- The type that an optional reference means. -/
def resolve? (registry : Registry) (referrer : String) :
    Option TypeRef → Except Fault (Option TypeId)
  | none => .ok none
  | some ref => do return some (← registry.resolve referrer ref)

/-- The base of a type and the types that its members refer to. -/
def resolveType (registry : Registry) (type : TypeDef) :
    Except Fault (Option TypeId × List (Option TypeId)) := do
  let base ← registry.resolve? type.name type.base
  let targets ← type.members.mapM fun member =>
    registry.resolve? type.name member.kind.target?
  return (base, targets)

/-- The fault of the first type that derives from a final one. -/
def finalDerivation? (registry : Registry) (bases : Bases) : Option Fault :=
  (registry.types.zip bases).findSome? fun (type, base?) => do
    let base ← registry.type? (← base?)
    if base.isFinal then some (.finalDerivation base.name type.name) else none

/-- The fault that some type is above itself. -/
def inheritanceCycle? (registry : Registry) (bases : Bases) : Option Fault := do
  let type ← registry.type? (← bases.cycle?)
  return .inheritanceCycle type.name

/-- The types whose base is the given one, ordered by name. -/
def derivedFrom (registry : Registry) (bases : Bases) (base : TypeId) : List TypeId :=
  let derived := (registry.names.texts.zip bases).zipIdx.filter fun entry => entry.1.2 = some base
  let ordered := derived.mergeSort fun left right => decide (left.1.1 ≤ right.1.1)
  ordered.map (·.2)

/-- Resolves all references. -/
def link (registry : Registry) : Except Fault Links := do
  let resolved ← registry.types.mapM registry.resolveType
  let bases := resolved.map (·.1)
  if let some fault := registry.finalDerivation? bases then .error fault
  if let some fault := registry.inheritanceCycle? bases then .error fault
  return {
    bases := bases
    derived := (List.range registry.types.length).map (registry.derivedFrom bases)
    targets := resolved.map (·.2) }

/-- Finishes the registry. A finished one stays as it is. -/
def finish (registry : Registry) : Except Fault Unit × Registry :=
  match registry.links with
  | some _ => (.ok (), registry)
  | none =>
    match registry.link with
    | .error fault => (.error fault, registry)
    | .ok links => (.ok (), { registry with links := some links })

/-- The relations of the types, asked for on behalf of one type. -/
def linksFor (registry : Registry) (id : TypeId) : Except Fault Links := do
  let name ← registry.name id
  match registry.links with
  | some links => .ok links
  | none => .error (.notFinished name)

/-- The base of a type. -/
def base (registry : Registry) (id : TypeId) : Except Fault (Option TypeId) := do
  return (← registry.linksFor id).bases.base? id

/-- The types derived from a type directly, ordered by name. -/
def derived (registry : Registry) (id : TypeId) : Except Fault (List TypeId) := do
  return ((← registry.linksFor id).derived[id]?).getD []

/-- The type that a member refers to; a member that refers to none, or that does
not exist, has no target. -/
def memberTarget (registry : Registry) (id : TypeId) (index : Nat) :
    Except Fault (Option TypeId) := do
  let links ← registry.linksFor id
  return (links.targets[id]?.bind fun targets => targets[index]?).join

/-- Whether a type is another one or lies below it. -/
def isSubtype (registry : Registry) (id ancestor : TypeId) : Except Fault Bool :=
  if id = ancestor then .ok true
  else do
    let links ← registry.linksFor id
    return (links.bases.ancestors id).contains ancestor

end Registry

end Taxonomy
