import Taxonomy.Document.Basic
import Taxonomy.Json.Value
import Taxonomy.Text.Quoted

/-!
# What can be wrong with a document

A text is refused because it is not JSON, or because its content is not that of
a schema document. The first fault by position is the one that counts.
-/
namespace Taxonomy.Document

/-- The records of a document. -/
inductive RecordKind where
  | schema
  | type
  | member
  | tag
  | union
deriving DecidableEq, Repr

/-- The name of a record in messages. -/
def RecordKind.title : RecordKind → String
  | .schema => "RawSchema"
  | .type => "RawTypeDef"
  | .member => "RawMember"
  | .tag => "RawTag"
  | .union => "RawUnion"

/-- What a place of a document asks for. -/
inductive Wanted where
  | text
  | flag
  | list
  | count
  | record (kind : RecordKind)
  | variant
  | variantBody (kind : VariantKind)
  | choice
  | unit
  | textOrMap
deriving DecidableEq, Repr

/-- How a message names what is asked for. -/
def Wanted.title : Wanted → String
  | .text => "a string"
  | .flag => "a boolean"
  | .list => "a sequence"
  | .count => "u64"
  | .record kind => "struct " ++ kind.title
  | .variant => "internally tagged enum RawVariant"
  | .variantBody .record => "struct variant RawVariant::Struct"
  | .variantBody .wrapped => "struct variant RawVariant::Alias"
  | .choice => "variant identifier"
  | .unit => "unit"
  | .textOrMap => "string or map"

/-- A reason to refuse a text. -/
inductive Fault where
  /-- The text is not JSON. -/
  | notJson (why : Json.Break)
  /-- Something else stands where a certain kind of value is asked for. -/
  | wrongType (found : Json.Found) (wanted : Wanted)
  /-- A number that counts is negative. -/
  | negativeCount (magnitude : Nat)
  /-- A record has no field of that name. -/
  | unknownField (key : String) (known : List String)
  /-- A field is given twice. -/
  | duplicateField (key : String)
  /-- A mandatory field is not given. -/
  | missingField (key : String)
  /-- A record that is written as an array ends before the field of that index. -/
  | tooFewItems (index : Nat) (kind : RecordKind) (fields : Nat)
  /-- A record that is written as an array has more items than fields. -/
  | tooManyItems (items fields : Nat)
  /-- A word is none of those to choose from. -/
  | unknownChoice (word : String) (known : List String)
  /-- A choice is written as an object that has not exactly one entry. -/
  | notOneEntry
  /-- A type is public neither by a flag nor by a name. -/
  | unclearPublicity
deriving DecidableEq, Repr

/-- A word between backticks. -/
def ticked (word : String) : String :=
  "`" ++ word ++ "`"

/-- The words to choose from. -/
def oneOf : List String → String
  | [only] => ticked only
  | [first, second] => ticked first ++ " or " ++ ticked second
  | words => "one of " ++ ", ".intercalate (words.map ticked)

/-- How a message names what was found. -/
def foundTitle : Json.Found → String
  | .null => "null"
  | .boolean value => "boolean " ++ ticked (if value then "true" else "false")
  | .number (.natural value) => "integer " ++ ticked (toString value)
  | .number (.negative magnitude) => "integer " ++ ticked ("-" ++ toString magnitude)
  | .number .real => "floating point"
  | .text content => "string " ++ Text.quoted content
  | .array => "sequence"
  | .object => "map"

/-- The wording of a fault. A text that is not JSON has none. -/
def Fault.message? : Fault → Option String
  | .notJson _ => none
  | .wrongType found wanted =>
    some ("invalid type: " ++ foundTitle found ++ ", expected " ++ wanted.title)
  | .negativeCount magnitude =>
    some ("invalid value: integer " ++ ticked ("-" ++ toString magnitude) ++
      ", expected " ++ Wanted.count.title)
  | .unknownField key known =>
    some ("unknown field " ++ ticked key ++ ", expected " ++ oneOf known)
  | .duplicateField key => some ("duplicate field " ++ ticked key)
  | .missingField key => some ("missing field " ++ ticked key)
  | .tooFewItems index kind fields =>
    some ("invalid length " ++ toString index ++ ", expected struct " ++ kind.title ++
      " with " ++ toString fields ++ " elements")
  | .tooManyItems items fields =>
    some ("invalid length " ++ toString items ++ ", expected " ++ toString fields ++
      " elements in sequence")
  | .unknownChoice word known =>
    some ("unknown variant " ++ ticked word ++ ", expected " ++ oneOf known)
  | .notOneEntry => some "invalid value: map, expected map with a single key"
  | .unclearPublicity => some "data did not match any variant of untagged enum RawPublic"

end Taxonomy.Document
