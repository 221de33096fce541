import Taxonomy.Document.Fault

/-!
# Records of a document

A record is written as an object or as an array. In an object the fields come in
any order, each at most once; in an array they come in the order of the record's
table. Either way the fields are checked in the order of the text, and the table
says which of them may be left out.

A value may be decoded while its text is still being read, or after a larger
value around it was read to its end. The two differ in how they speak of an
array with too many items: in a text being read a further item is simply out of
place.
-/
namespace Taxonomy.Document

/-- Whether a value is decoded while its text is read, or once it is held. -/
inductive Phase where
  | reading
  | held
deriving DecidableEq, Repr

/-- A decoder of values. -/
abbrev Decoder (α : Type) := Json.Value → Except Fault α

/-- Reports a break of the text. -/
def liftBreak {α : Type} : Except Json.Break α → Except Fault α
  | .ok value => .ok value
  | .error why => .error (.notJson why)

/-- Reports a value that is not of the kind asked for. -/
def refuse {α : Type} (wanted : Wanted) (value : Json.Value) : Except Fault α :=
  match value.found with
  | .ok found => .error (.wrongType found wanted)
  | .error why => .error (.notJson why)

/-- A string. -/
def text : Decoder String
  | .text content => .ok content
  | value => refuse .text value

/-- A truth value. -/
def flag : Decoder Bool
  | .boolean value => .ok value
  | value => refuse .flag value

/-- A number from 0 to 2⁶⁴ - 1. -/
def count : Decoder Nat
  | .number (.natural value) => .ok value
  | .number (.negative magnitude) => .error (.negativeCount magnitude)
  | value => refuse .count value

/-- An array of things of one kind. -/
def list {α : Type} (item : Decoder α) : Decoder (List α)
  | .array items ending => do
    let values ← items.mapM item
    liftBreak ending.check
    return values
  | value => refuse .list value

/-- A thing, or null for none. -/
def nullable {α : Type} (decode : Decoder α) : Decoder (Option α)
  | .null => .ok none
  | value => do return some (← decode value)

/-- A field of a record, as the table of the record lists it. -/
structure Field where
  name : String
  /-- Whether an array may end before the field. -/
  isDefaulted : Bool
  check : Json.Value → Except Fault Unit

/-- A field of a record together with what it holds. -/
structure Column (α : Type) where
  name : String
  decode : Decoder α
  /-- What the field holds if it is left out; nothing if it has to be given. -/
  absent : Option α
  /-- Whether an array may end before the field. -/
  isDefaulted : Bool

namespace Column

/-- A field that has to be given. -/
def mandatory {α : Type} (name : String) (decode : Decoder α) : Column α where
  name := name
  decode := decode
  absent := none
  isDefaulted := false

/-- A field that may be null or left out. -/
def optional {α : Type} (name : String) (decode : Decoder α) : Column (Option α) where
  name := name
  decode := nullable decode
  absent := some none
  isDefaulted := false

/-- A field that has a default. -/
def defaulted {α : Type} (name : String) (default : α) (decode : Decoder α) : Column α where
  name := name
  decode := decode
  absent := some default
  isDefaulted := true

/-- The entry of the field in the table of its record. -/
def field {α : Type} (column : Column α) : Field where
  name := column.name
  isDefaulted := column.isDefaulted
  check value := do
    let _ ← column.decode value

/-- What a record holds in the field. -/
def get {α : Type} (column : Column α) (entries : List (String × Json.Value)) : Except Fault α :=
  match entries.lookup column.name with
  | some value => column.decode value
  | none =>
    match column.absent with
    | some default => .ok default
    | none => .error (.missingField column.name)

end Column

/-- Checks the entries of an object in their order. An entry that the table does
not list is refused by a strict record and passed over by any other. -/
def checkEntries (fields : List Field) (strict : Bool) (seen : List String) :
    List (String × Json.Value) → Except Fault Unit
  | [] => .ok ()
  | (key, value) :: entries =>
    match fields.find? fun field => field.name == key with
    | none =>
      if strict then .error (.unknownField key (fields.map Field.name))
      else checkEntries fields strict seen entries
    | some field =>
      if key ∈ seen then .error (.duplicateField key)
      else do
        field.check value
        checkEntries fields strict (key :: seen) entries

/-- Checks the items of an array against the fields from `index` on. -/
def checkItems (phase : Phase) (kind : RecordKind) (width : Nat) (ending : Json.Ending) :
    (index : Nat) → List Field → List Json.Value → Except Fault Unit
  | _, [], [] => liftBreak ending.checkLast
  | index, [], item :: items =>
    match phase with
    | .reading => .error (.notJson .malformed)
    | .held => .error (.tooManyItems (index + (item :: items).length) width)
  | index, field :: fields, [] => do
    liftBreak ending.check
    match (field :: fields).findIdx? fun field => !field.isDefaulted with
    | none => .ok ()
    | some offset => .error (.tooFewItems (index + offset) kind width)
  | index, field :: fields, item :: items => do
    field.check item
    checkItems phase kind width ending (index + 1) fields items

/-- The entries of a record, whose fields are all known and fit the table. -/
def record (phase : Phase) (kind : RecordKind) (fields : List Field) :
    Decoder (List (String × Json.Value))
  | .object entries ending => do
    checkEntries fields true [] entries
    liftBreak ending.check
    return entries
  | .array items ending => do
    checkItems phase kind fields.length ending 0 fields items
    return (fields.map Field.name).zip items
  | value => refuse (.record kind) value

end Taxonomy.Document
