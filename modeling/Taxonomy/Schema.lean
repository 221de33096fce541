import Taxonomy.Document.Reader
import Taxonomy.TypeDef
import Taxonomy.Union

/-!
# Schemas

A schema is a list of types and a list of unions. It is made from a document by
reading the words of the document as the choices they spell out; what the
document leaves out gets its default. The first word that spells nothing out, in
the order of the document, is reported together with its owner.
-/
namespace Taxonomy

/-- Types and unions in the order of their declaration. -/
structure Schema where
  types : List TypeDef := []
  unions : List Union := []
deriving DecidableEq, Repr

/-- The choice that a word spells out, or the default if there is no word. -/
def choiceOr {α : Type} (default : α) (read : String → Except Fault α) :
    Option String → Except Fault α
  | none => .ok default
  | some word => read word

/-- What a member of a document holds. -/
def MemberKind.ofDocument (member : Document.Member) : MemberKind :=
  match member.kind with
  | .data => .data member.type member.simple
  | .dataList => .dataList member.type
  | .node => .node (.named member.type)
  | .nodeList => .nodeList (.named member.type)

/-- A member of a document. -/
def Member.ofDocument (owner : String) (member : Document.Member) : Except Fault Member := do
  let passing ← choiceOr .copy (Passing.read owner) member.passAs
  return {
    name := member.name
    kind := .ofDocument member
    required := member.required
    passing := passing
    doc := member.doc }

/-- The public name of a type of a document. -/
def publicNameOf (type : Document.TypeDef) : Option String :=
  match type.publicity with
  | some (.flag true) => some type.name
  | some (.named name) => some name
  | some (.flag false) | none => none

/-- A type of a document. -/
def TypeDef.ofDocument (type : Document.TypeDef) : Except Fault TypeDef := do
  let walkOrder ← choiceOr .baseFirst (WalkOrder.read type.name) type.walkOrder
  let members ← type.members.mapM (Member.ofDocument type.name)
  return {
    name := type.name
    base := type.base.map .named
    isFinal := type.isFinal
    renderedName := type.renderedName
    doc := type.doc
    members := members
    walkOrder := walkOrder
    publicName := publicNameOf type }

/-- The tag of a union of a document. -/
def Tag.ofDocument (tag : Document.Tag) : Except Fault Tag := do
  let width ← TagWidth.read tag.name tag.underlying
  return {
    name := tag.name
    width := width
    start := tag.start
    doc := tag.doc }

/-- What a variant of a document holds. -/
def VariantBody.ofDocument (owner : String) :
    Document.VariantBody → Except Fault VariantBody
  | .record members => do return .record (← members.mapM (Member.ofDocument owner))
  | .wrapped target passAs => do
    return .wrapped target (← choiceOr .copy (Passing.read owner) passAs)

/-- The names of a variant, some of which may be given in place of derived ones. -/
def VariantNames.ofOverrides (name : String) (argument accessor : Option String) : VariantNames :=
  let derived := VariantNames.ofName name
  { derived with
    argument := argument.getD derived.argument
    accessor := accessor.getD derived.accessor }

/-- A variant of a document. -/
def Variant.ofDocument (union : String) (variant : Document.Variant) : Except Fault Variant := do
  let body ← VariantBody.ofDocument (union ++ "::" ++ variant.name) variant.body
  return {
    name := variant.name
    body := body
    doc := variant.doc
    names := .ofOverrides variant.name variant.argumentName variant.accessorName }

/-- A union of a document. -/
def Union.ofDocument (union : Document.Union) : Except Fault Union := do
  let tag ← Tag.ofDocument union.tag
  let storage ← choiceOr .trivial (Storage.read union.name) union.storage
  let formatting ← choiceOr .none (Formatting.read union.name) union.format
  let equality ← choiceOr .none (Equality.read union.name) union.equality
  let hashing ← choiceOr .none (Hashing.read union.name) union.hash
  let docPlace ← choiceOr .member (DocPlace.read union.name) union.docMode
  let variants ← union.variants.mapM (Variant.ofDocument union.name)
  return {
    name := union.name
    tag := tag
    doc := union.doc
    variants := variants
    capabilities := ⟨storage, formatting, equality, hashing, docPlace⟩
    isFinal := union.isFinal }

namespace Schema

/-- The schema that a document describes. -/
def ofDocument (document : Document) : Except Fault Schema := do
  let types ← document.types.mapM TypeDef.ofDocument
  let unions ← document.unions.mapM Union.ofDocument
  return ⟨types, unions⟩

/-- The schema that a text describes. -/
def parse (text : String) : Except Fault Schema :=
  match Document.parse text with
  | .ok document => ofDocument document
  | .error cause => .error (.malformed cause)

end Schema

end Taxonomy
