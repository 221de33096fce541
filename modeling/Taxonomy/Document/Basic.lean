import Taxonomy.Mode

/-!
# Schema documents

A document is what a schema text says, before any of it is checked against the
rest: choices are still the words of the text, and everything that may be left
out is absent or has its default.
-/
namespace Taxonomy.Document

/-- The four kinds of members. -/
inductive MemberKind where
  | data
  | dataList
  | node
  | nodeList
deriving DecidableEq, Repr

instance : Spelled MemberKind where
  values := [.data, .dataList, .node, .nodeList]
  spelling
    | .data => "data"
    | .dataList => "data_list"
    | .node => "node"
    | .nodeList => "node_list"
  values_complete value := by cases value <;> decide
  spelling_injective left right := by cases left <;> cases right <;> decide

/-- A member of a type or of a variant. -/
structure Member where
  name : String
  kind : MemberKind
  type : String
  required : Bool := true
  simple : Bool := false
  passAs : Option String := none
  doc : Option String := none
deriving DecidableEq, Repr

/-- Whether a type is public, and under which name. -/
inductive Publicity where
  | flag (isPublic : Bool)
  | named (name : String)
deriving DecidableEq, Repr

/-- A type. -/
structure TypeDef where
  name : String
  base : Option String := none
  isFinal : Bool := true
  renderedName : Option String := none
  doc : Option String := none
  members : List Member := []
  walkOrder : Option String := none
  publicity : Option Publicity := none
deriving DecidableEq, Repr

/-- The tag of a union. -/
structure Tag where
  name : String
  underlying : String
  start : Option Nat := none
  doc : Option String := none
deriving DecidableEq, Repr

/-- The two kinds of variants. -/
inductive VariantKind where
  | record
  | wrapped
deriving DecidableEq, Repr

instance : Spelled VariantKind where
  values := [.record, .wrapped]
  spelling
    | .record => "struct"
    | .wrapped => "alias"
  values_complete value := by cases value <;> decide
  spelling_injective left right := by cases left <;> cases right <;> decide

/-- What a variant holds: members of its own, or a value of another type. -/
inductive VariantBody where
  | record (members : List Member)
  | wrapped (target : String) (passAs : Option String)
deriving DecidableEq, Repr

/-- A variant of a union. -/
structure Variant where
  name : String
  body : VariantBody
  doc : Option String := none
  argumentName : Option String := none
  accessorName : Option String := none
deriving DecidableEq, Repr

/-- A union. -/
structure Union where
  name : String
  tag : Tag
  doc : Option String := none
  variants : List Variant := []
  storage : Option String := none
  format : Option String := none
  equality : Option String := none
  hash : Option String := none
  docMode : Option String := none
  isFinal : Bool := true
deriving DecidableEq, Repr

end Taxonomy.Document

namespace Taxonomy

/-- A schema as a text says it. -/
structure Document where
  types : List Document.TypeDef := []
  unions : List Document.Union := []
deriving DecidableEq, Repr

end Taxonomy
