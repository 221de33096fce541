import Taxonomy.Document.Record

/-!
# Reading a schema document

Each record of a document has a table of its fields, from which it is both
checked and put together. A variant is the exception: its kind is read as soon as
it is met, all else once the whole object has been read, and fields it does not
know are passed over.
-/
namespace Taxonomy.Document

/-- The value that a word spells out. -/
def chosen {α : Type} [Spelled α] (word : String) : Except Fault α :=
  match Spelled.read? word with
  | some value => .ok value
  | none => .error (.unknownChoice word ((Spelled.values : List α).map spelling))

/-- The null that stands for no content, while its text is read. -/
def unitReading : Decoder Unit
  | .null => .ok ()
  | value => refuse .unit value

/-- The value that stands for no content, once it is held: null or an empty object. -/
def unitHeld : Decoder Unit
  | .null => .ok ()
  | .object [] _ => .ok ()
  | value => refuse .unit value

/-- The kind of a member while its text is read: a word, or an object with that
word as its only key. -/
def memberKindReading : Decoder MemberKind
  | .text word => chosen word
  | .object [] (.cut _ why) => .error (.notJson why)
  | .object ((word, content) :: entries) ending => do
    let kind ← chosen word
    unitReading content
    if entries.isEmpty then
      liftBreak ending.checkLast
      return kind
    else .error (.notJson .malformed)
  | .broken why => .error (.notJson why)
  | _ => .error (.notJson .malformed)

/-- The kind of a member once its text is held. -/
def memberKindHeld : Decoder MemberKind
  | .text word => chosen word
  | .object [(word, content)] _ => do
    let kind ← chosen word
    unitHeld content
    return kind
  | .object _ _ => .error .notOneEntry
  | value => refuse .textOrMap value

/-- The kind of a member. -/
def memberKind : Phase → Decoder MemberKind
  | .reading => memberKindReading
  | .held => memberKindHeld

namespace Member

def nameColumn : Column String := .mandatory "name" text
def kindColumn (phase : Phase) : Column MemberKind := .mandatory "kind" (memberKind phase)
def typeColumn : Column String := .mandatory "type" text
def requiredColumn : Column Bool := .defaulted "required" true flag
def simpleColumn : Column Bool := .defaulted "simple" false flag
def passAsColumn : Column (Option String) := .optional "pass_as" text
def docColumn : Column (Option String) := .optional "doc" text

/-- The fields of a member. -/
def fields (phase : Phase) : List Field :=
  [nameColumn.field, (kindColumn phase).field, typeColumn.field, requiredColumn.field,
   simpleColumn.field, passAsColumn.field, docColumn.field]

/-- A member. -/
def decode (phase : Phase) : Decoder Member := fun value => do
  let entries ← record phase .member (fields phase) value
  return {
    name := ← nameColumn.get entries
    kind := ← (kindColumn phase).get entries
    type := ← typeColumn.get entries
    required := ← requiredColumn.get entries
    simple := ← simpleColumn.get entries
    passAs := ← passAsColumn.get entries
    doc := ← docColumn.get entries }

end Member

/-- A flag or a name. The whole value is read before it is refused. -/
def Publicity.decode : Decoder Publicity
  | .boolean value => .ok (.flag value)
  | .text name => .ok (.named name)
  | value => do
    liftBreak value.whole
    .error .unclearPublicity

namespace TypeDef

def nameColumn : Column String := .mandatory "name" text
def baseColumn : Column (Option String) := .optional "base" text
def finalColumn : Column Bool := .defaulted "final" true flag
def renderedNameColumn : Column (Option String) := .optional "rendered_name" text
def docColumn : Column (Option String) := .optional "doc" text
def membersColumn : Column (List Member) := .defaulted "members" [] (list (Member.decode .reading))
def walkOrderColumn : Column (Option String) := .optional "walk_order" text
def publicColumn : Column (Option Publicity) := .optional "public" Publicity.decode

/-- The fields of a type. -/
def fields : List Field :=
  [nameColumn.field, baseColumn.field, finalColumn.field, renderedNameColumn.field,
   docColumn.field, membersColumn.field, walkOrderColumn.field, publicColumn.field]

/-- A type. -/
def decode : Decoder TypeDef := fun value => do
  let entries ← record .reading .type fields value
  return {
    name := ← nameColumn.get entries
    base := ← baseColumn.get entries
    isFinal := ← finalColumn.get entries
    renderedName := ← renderedNameColumn.get entries
    doc := ← docColumn.get entries
    members := ← membersColumn.get entries
    walkOrder := ← walkOrderColumn.get entries
    publicity := ← publicColumn.get entries }

end TypeDef

namespace Tag

def nameColumn : Column String := .mandatory "name" text
def underlyingColumn : Column String := .mandatory "underlying" text
def startColumn : Column (Option Nat) := .optional "start" count
def docColumn : Column (Option String) := .optional "doc" text

/-- The fields of a tag. -/
def fields : List Field :=
  [nameColumn.field, underlyingColumn.field, startColumn.field, docColumn.field]

/-- A tag. -/
def decode : Decoder Tag := fun value => do
  let entries ← record .reading .tag fields value
  return {
    name := ← nameColumn.get entries
    underlying := ← underlyingColumn.get entries
    start := ← startColumn.get entries
    doc := ← docColumn.get entries }

end Tag

namespace Variant

def kindKey : String := "kind"
def nameColumn : Column String := .mandatory "name" text
def membersColumn : Column (List Member) := .defaulted "members" [] (list (Member.decode .held))
def targetColumn : Column String := .mandatory "target" text
def passAsColumn : Column (Option String) := .optional "pass_as" text
def docColumn : Column (Option String) := .optional "doc" text
def argumentColumn : Column (Option String) := .optional "argument_name" text
def accessorColumn : Column (Option String) := .optional "accessor_name" text

/-- The fields of a variant with members of its own. -/
def recordFields : List Field :=
  [nameColumn.field, membersColumn.field, docColumn.field]

/-- The fields of a variant that holds another type. -/
def wrappedFields : List Field :=
  [nameColumn.field, targetColumn.field, passAsColumn.field, docColumn.field]

/-- The fields that replace derived names. -/
def namingFields : List Field :=
  [argumentColumn.field, accessorColumn.field]

/-- The kind of a variant. -/
def kind : Decoder VariantKind
  | .text word => chosen word
  | value => refuse .choice value

/-- The kind of the variant that an object describes. All other entries are read
to their ends. -/
def findKind (found : Option VariantKind) :
    List (String × Json.Value) → Except Fault (Option VariantKind)
  | [] => .ok found
  | (key, value) :: entries =>
    if key = kindKey then
      if found.isSome then .error (.duplicateField kindKey)
      else do
        let here ← kind value
        findKind (some here) entries
    else do
      liftBreak value.whole
      findKind found entries

/-- What a variant of the given kind holds, with its name and documentation. -/
def decodeBody (kind : VariantKind) (entries : List (String × Json.Value)) :
    Except Fault (String × VariantBody × Option String) :=
  match kind with
  | .record => do
    checkEntries recordFields false [] entries
    let name ← nameColumn.get entries
    let members ← membersColumn.get entries
    let doc ← docColumn.get entries
    return (name, .record members, doc)
  | .wrapped => do
    checkEntries wrappedFields false [] entries
    let name ← nameColumn.get entries
    let target ← targetColumn.get entries
    let passAs ← passAsColumn.get entries
    let doc ← docColumn.get entries
    return (name, .wrapped target passAs, doc)

/-- A variant. An array is never one, even if it begins with a kind. -/
def decode : Decoder Variant
  | .object entries ending => do
    let found ← findKind none entries
    liftBreak ending.check
    let some kind := found | .error (.missingField kindKey)
    let (name, body, doc) ← decodeBody kind entries
    checkEntries namingFields false [] entries
    return {
      name := name
      body := body
      doc := doc
      argumentName := ← argumentColumn.get entries
      accessorName := ← accessorColumn.get entries }
  | .array [] ending => do
    liftBreak ending.check
    .error (.missingField kindKey)
  | .array (first :: items) ending => do
    let kind ← kind first
    liftBreak (Json.wholeItems items)
    liftBreak ending.check
    .error (.wrongType .array (.variantBody kind))
  | value => refuse .variant value

end Variant

namespace Union

def nameColumn : Column String := .mandatory "name" text
def tagColumn : Column Tag := .mandatory "tag" Tag.decode
def docColumn : Column (Option String) := .optional "doc" text
def variantsColumn : Column (List Variant) := .defaulted "variants" [] (list Variant.decode)
def storageColumn : Column (Option String) := .optional "storage" text
def formatColumn : Column (Option String) := .optional "format" text
def equalityColumn : Column (Option String) := .optional "equality" text
def hashColumn : Column (Option String) := .optional "hash" text
def docModeColumn : Column (Option String) := .optional "doc_mode" text
def finalColumn : Column Bool := .defaulted "final" true flag

/-- The fields of a union. -/
def fields : List Field :=
  [nameColumn.field, tagColumn.field, docColumn.field, variantsColumn.field,
   storageColumn.field, formatColumn.field, equalityColumn.field, hashColumn.field,
   docModeColumn.field, finalColumn.field]

/-- A union. -/
def decode : Decoder Union := fun value => do
  let entries ← record .reading .union fields value
  return {
    name := ← nameColumn.get entries
    tag := ← tagColumn.get entries
    doc := ← docColumn.get entries
    variants := ← variantsColumn.get entries
    storage := ← storageColumn.get entries
    format := ← formatColumn.get entries
    equality := ← equalityColumn.get entries
    hash := ← hashColumn.get entries
    docMode := ← docModeColumn.get entries
    isFinal := ← finalColumn.get entries }

end Union

def typesColumn : Column (List TypeDef) := .defaulted "types" [] (list TypeDef.decode)
def unionsColumn : Column (List Union) := .defaulted "unions" [] (list Union.decode)

/-- The fields of a document. -/
def fields : List Field :=
  [typesColumn.field, unionsColumn.field]

/-- A document. -/
def decode : Decoder Document := fun value => do
  let entries ← record .reading .schema fields value
  return {
    types := ← typesColumn.get entries
    unions := ← unionsColumn.get entries }

/-- The document that a text says, which ends with the text. -/
def parse (text : String) : Except Fault Document := do
  let (value, rest) := Json.Value.ofText text
  let document ← decode value
  if rest.isEmpty then return document else .error (.notJson .malformed)

end Taxonomy.Document
