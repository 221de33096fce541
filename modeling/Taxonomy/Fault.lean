import Taxonomy.Document.Fault
import Taxonomy.Mode

/-!
# What can be wrong with a schema

Every operation on a schema that can fail reports one fault, which names the
things that are at odds.
-/
namespace Taxonomy

/-- The places in which a name may be taken only once. -/
inductive NameSpace where
  | type
  | union
  | tagLabel
deriving DecidableEq, Repr

/-- How a message names the place. -/
def NameSpace.title : NameSpace → String
  | .type => "type"
  | .union => "union"
  | .tagLabel => "tag label"

/-- The capabilities of a union that a document spells out, storage apart. -/
inductive Capability where
  | format
  | equality
  | hash
  | doc
deriving DecidableEq, Repr

/-- How a message names the capability. -/
def Capability.title : Capability → String
  | .format => "format"
  | .equality => "equality"
  | .hash => "hash"
  | .doc => "doc"

/-- A reason to refuse a schema, or a question about one. -/
inductive Fault where
  | duplicateName (space : NameSpace) (name : String)
  | unknownType (name : String) (referrer : Option String)
  | finalDerivation (base derived : String)
  | emptyHierarchy (name : String)
  | notFinished (name : String)
  | alreadyFinished (name : String)
  | inheritanceCycle (name : String)
  | duplicateMember (owner member : String)
  | invalidStorage (union value : String)
  | invalidCapability (union : String) (capability : Capability) (value : String)
  | invalidWalkOrder (type value : String)
  | invalidPassing (owner value : String)
  | invalidTagWidth (tag value : String)
  | invalidTagStart (value : Nat)
  | missingDoc (union tag : String)
  | duplicateVariant (union variant : String)
  | selfAlias (union variant : String)
  | childInUnion (union variant member : String)
  | tagTaken (tag union owner : String)
  | tagOverflow (name : String) (value : Nat) (width : TagWidth)
  | malformed (cause : Document.Fault)
  /-- A type is asked for by an id that was never handed out. -/
  | unknownId (id : Nat)
deriving DecidableEq, Repr

open Document in
/-- The wording of a fault. A text that is not JSON has none. -/
def Fault.message? : Fault → Option String
  | .duplicateName space name => some ("duplicate " ++ space.title ++ " name " ++ ticked name)
  | .unknownType name none => some ("type " ++ ticked name ++ " is not defined")
  | .unknownType name (some referrer) =>
    some ("type " ++ ticked name ++ " is not defined (referenced by " ++ ticked referrer ++ ")")
  | .finalDerivation base derived =>
    some ("cannot derive " ++ ticked derived ++ " from final type " ++ ticked base)
  | .emptyHierarchy name => some ("abstract type " ++ ticked name ++ " has no derived types")
  | .notFinished name => some ("type registry is not finished (queried " ++ ticked name ++ ")")
  | .alreadyFinished name =>
    some ("cannot register " ++ ticked name ++ ": type registry is already finished")
  | .inheritanceCycle name => some ("inheritance cycle through type " ++ ticked name)
  | .duplicateMember owner member =>
    some ("member " ++ ticked member ++ " is declared twice in " ++ ticked owner)
  | .invalidStorage union value =>
    some ("invalid storage mode " ++ ticked value ++ " for union " ++ ticked union ++
      " (expected trivial or movable)")
  | .invalidCapability union capability value =>
    some ("invalid " ++ capability.title ++ " mode " ++ ticked value ++ " for union " ++
      ticked union)
  | .invalidWalkOrder type value =>
    some ("invalid walk order " ++ ticked value ++ " for type " ++ ticked type)
  | .invalidPassing owner value =>
    some ("invalid passing convention " ++ ticked value ++ " in " ++ ticked owner ++
      " (expected copy or move)")
  | .invalidTagWidth tag value =>
    some ("invalid underlying type " ++ ticked value ++ " for tag " ++ ticked tag)
  | .invalidTagStart value => some ("tag start value must be positive, got " ++ toString value)
  | .missingDoc union tag =>
    some ("union " ++ ticked union ++ " documents its tag but tag " ++ ticked tag ++ " has no doc")
  | .duplicateVariant union variant =>
    some ("variant " ++ ticked variant ++ " is declared twice in union " ++ ticked union)
  | .selfAlias union variant =>
    some ("alias variant " ++ ticked variant ++ " of union " ++ ticked union ++
      " wraps the union itself")
  | .childInUnion union variant member =>
    some ("member " ++ ticked member ++ " of " ++ ticked (union ++ "::" ++ variant) ++
      " is a node member; unions hold data only")
  | .tagTaken tag union owner =>
    some ("tag " ++ ticked tag ++ " of union " ++ ticked union ++ " already belongs to union " ++
      ticked owner)
  | .tagOverflow name value width =>
    some ("tag value " ++ toString value ++ " for " ++ ticked name ++ " does not fit in " ++
      spelling width)
  | .malformed cause => cause.message?.map ("malformed schema document: " ++ ·)
  | .unknownId id => some ("type id " ++ toString id ++ " was never handed out")

/-- A choice read from its spelling, or the fault that it has none. -/
def readChoice {α : Type} [Spelled α] (fault : String → Fault) (text : String) : Except Fault α :=
  match Spelled.read? text with
  | some value => .ok value
  | none => .error (fault text)

/-- Reads the width of a tag. -/
def TagWidth.read (tag : String) : String → Except Fault TagWidth :=
  readChoice (.invalidTagWidth tag)

/-- Reads the walk order of a type. -/
def WalkOrder.read (type : String) : String → Except Fault WalkOrder :=
  readChoice (.invalidWalkOrder type)

/-- Reads how a member or an alias is passed. -/
def Passing.read (owner : String) : String → Except Fault Passing :=
  readChoice (.invalidPassing owner)

/-- Reads the storage of a union. -/
def Storage.read (union : String) : String → Except Fault Storage :=
  readChoice (.invalidStorage union)

/-- Reads the formatting of a union. -/
def Formatting.read (union : String) : String → Except Fault Formatting :=
  readChoice (.invalidCapability union .format)

/-- Reads the equality of a union. -/
def Equality.read (union : String) : String → Except Fault Equality :=
  readChoice (.invalidCapability union .equality)

/-- Reads the hashing of a union. -/
def Hashing.read (union : String) : String → Except Fault Hashing :=
  readChoice (.invalidCapability union .hash)

/-- Reads where a union documents its variants. -/
def DocPlace.read (union : String) : String → Except Fault DocPlace :=
  readChoice (.invalidCapability union .doc)

end Taxonomy
