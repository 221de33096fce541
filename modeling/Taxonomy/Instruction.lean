import Taxonomy.Union

/-!
# Instruction sets

An instruction has a name and operands. A list of instructions becomes a union
with one variant for each instruction, whose members are the operands. An operand
that is named by a reserved word gets an underscore, as members cannot be.
-/
namespace Taxonomy

/-- What an operand refers to. -/
inductive OperandKind where
  | register
  | parameter
  | moduleMember
  | offset
  | integer (type : String)
  | float
deriving DecidableEq, Repr

namespace OperandKind

/-- The type of the member that holds the operand. -/
def memberType : OperandKind → String
  | .register => "BytecodeRegister"
  | .parameter => "BytecodeParam"
  | .moduleMember => "BytecodeMemberID"
  | .offset => "BytecodeOffset"
  | .integer type => type
  | .float => "f64"

/-- The type in which the operand is encoded. -/
def encodedType : OperandKind → String
  | .register | .parameter | .moduleMember | .offset => "u32"
  | .integer type => type
  | .float => "f64"

/-- The word for the kind of operand. -/
def description : OperandKind → String
  | .register => "local"
  | .parameter => "param"
  | .moduleMember => "module"
  | .offset => "offset"
  | .integer _ | .float => "constant"

/-- Whether the operand is an integer constant. -/
def isInteger : OperandKind → Bool
  | .integer _ => true
  | _ => false

end OperandKind

/-- An operand of an instruction. -/
structure Operand where
  name : String
  kind : OperandKind
  doc : Option String := none
deriving DecidableEq, Repr

/-- An instruction. -/
structure Instruction where
  name : String
  doc : String
  operands : List Operand := []
deriving DecidableEq, Repr

/-- The member that holds an operand. -/
def Operand.member (operand : Operand) : Member where
  name := escapeReserved operand.name
  kind := .data operand.kind.memberType false
  doc := operand.doc

namespace Instruction

/-- The line of documentation for an operand. -/
def operandDoc (operand : Operand) : String :=
  "\n  - " ++ operand.name ++ " (" ++ operand.kind.description ++ ", " ++
    operand.kind.encodedType ++ ")"

/-- The documentation of an instruction together with that of its operands. -/
def fullDoc (instruction : Instruction) : String :=
  if instruction.operands.isEmpty then instruction.doc
  else instruction.doc ++ "\n\nArguments:" ++ String.join (instruction.operands.map operandDoc)

/-- The variant of an instruction. -/
def variant (instruction : Instruction) : Variant where
  name := instruction.name
  body := .record (instruction.operands.map Operand.member)
  doc := some instruction.fullDoc

/-- The union of a list of instructions. -/
def lower (name : String) (tag : Tag) (instructions : List Instruction) : Union where
  name := name
  tag := tag
  variants := instructions.map variant

end Instruction

end Taxonomy
