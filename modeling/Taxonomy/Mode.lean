/-!
# Closed choices

Several properties of a declaration are chosen from a fixed list, and a document
spells the choice out. A choice is read back from its spelling alone: every value
is listed, and no two values are spelled alike.
-/
namespace Taxonomy

/-- A closed choice whose values have spellings that tell them apart. -/
class Spelled (α : Type) where
  /-- All values. -/
  values : List α
  /-- How a value is written. -/
  spelling : α → String
  values_complete : ∀ value, value ∈ values
  spelling_injective : ∀ left right, spelling left = spelling right → left = right

export Spelled (spelling)

/-- The value with the given spelling. -/
def Spelled.read? {α : Type} [Spelled α] (text : String) : Option α :=
  (Spelled.values : List α).find? fun value => spelling value == text

/-- A text is read as a value exactly if it is how the value is written. -/
theorem Spelled.read?_some_iff {α : Type} [Spelled α] (text : String) (value : α) :
    Spelled.read? text = some value ↔ spelling value = text := by
  constructor
  · intro found
    simpa using List.find?_some found
  · rintro rfl
    cases found : (Spelled.read? (spelling value) : Option α) with
    | none =>
      have missed := List.find?_eq_none.mp found value (Spelled.values_complete value)
      simp at missed
    | some other =>
      have same : spelling other = spelling value := by simpa using List.find?_some found
      rw [Spelled.spelling_injective other value same]

/-- The integer that holds the tags of a tree or of a union. -/
inductive TagWidth where
  | u8
  | u16
  | u32
  | u64
deriving DecidableEq, Repr

instance : Spelled TagWidth where
  values := [.u8, .u16, .u32, .u64]
  spelling
    | .u8 => "u8"
    | .u16 => "u16"
    | .u32 => "u32"
    | .u64 => "u64"
  values_complete value := by cases value <;> decide
  spelling_injective left right := by cases left <;> cases right <;> decide

/-- The number of bits of a width. -/
def TagWidth.bits : TagWidth → Nat
  | .u8 => 8
  | .u16 => 16
  | .u32 => 32
  | .u64 => 64

/-- The largest tag that a width can hold. -/
def TagWidth.max (width : TagWidth) : Nat :=
  1 <<< width.bits - 1

/-- The largest tag that any width can hold. -/
def maxTag : Nat :=
  TagWidth.u64.max

/-- No width goes beyond 64 bits. -/
theorem TagWidth.max_le (width : TagWidth) : width.max ≤ maxTag := by
  cases width <;> decide

/-- Whether a visitor sees the members of the base before those of the type. -/
inductive WalkOrder where
  | baseFirst
  | derivedFirst
deriving DecidableEq, Repr

instance : Spelled WalkOrder where
  values := [.baseFirst, .derivedFirst]
  spelling
    | .baseFirst => "base_first"
    | .derivedFirst => "derived_first"
  values_complete value := by cases value <;> decide
  spelling_injective left right := by cases left <;> cases right <;> decide

/-- How a value is handed to a function that stores it. -/
inductive Passing where
  | copy
  | move
deriving DecidableEq, Repr

instance : Spelled Passing where
  values := [.copy, .move]
  spelling
    | .copy => "copy"
    | .move => "move"
  values_complete value := by cases value <;> decide
  spelling_injective left right := by cases left <;> cases right <;> decide

/-- How the payload of a union is stored. -/
inductive Storage where
  | trivial
  | movable
deriving DecidableEq, Repr

instance : Spelled Storage where
  values := [.trivial, .movable]
  spelling
    | .trivial => "trivial"
    | .movable => "movable"
  values_complete value := by cases value <;> decide
  spelling_injective left right := by cases left <;> cases right <;> decide

/-- Whether printing a union is left out, declared only, or defined. -/
inductive Formatting where
  | none
  | declare
  | define
deriving DecidableEq, Repr

instance : Spelled Formatting where
  values := [.none, .declare, .define]
  spelling
    | .none => "none"
    | .declare => "declare"
    | .define => "define"
  values_complete value := by cases value <;> decide
  spelling_injective left right := by cases left <;> cases right <;> decide

/-- Whether comparing two unions is defined. -/
inductive Equality where
  | none
  | define
deriving DecidableEq, Repr

instance : Spelled Equality where
  values := [.none, .define]
  spelling
    | .none => "none"
    | .define => "define"
  values_complete value := by cases value <;> decide
  spelling_injective left right := by cases left <;> cases right <;> decide

/-- Whether hashing a union is defined. -/
inductive Hashing where
  | none
  | define
deriving DecidableEq, Repr

instance : Spelled Hashing where
  values := [.none, .define]
  spelling
    | .none => "none"
    | .define => "define"
  values_complete value := by cases value <;> decide
  spelling_injective left right := by cases left <;> cases right <;> decide

/-- Where the documentation of a variant is printed. -/
inductive DocPlace where
  | member
  | tag
deriving DecidableEq, Repr

instance : Spelled DocPlace where
  values := [.member, .tag]
  spelling
    | .member => "member"
    | .tag => "tag"
  values_complete value := by cases value <;> decide
  spelling_injective left right := by cases left <;> cases right <;> decide

end Taxonomy
