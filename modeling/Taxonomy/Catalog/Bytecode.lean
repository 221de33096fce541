import Taxonomy.Instruction
import Taxonomy.Schema

/-!
# Bytecode

The bundled schema of bytecode: its instructions in the order of their numbers,
and the members of a compiled module.
-/
namespace Taxonomy.Catalog.Bytecode

/-- An operand that names a register. -/
def register (name : String) : Operand := ⟨name, .register, none⟩

/-- An operand that names a parameter of the function. -/
def parameter (name : String) : Operand := ⟨name, .parameter, none⟩

/-- An operand that names a member of the module. -/
def moduleMember (name : String) : Operand := ⟨name, .moduleMember, none⟩

/-- An operand that is a place in the code. -/
def offset (name : String) : Operand := ⟨name, .offset, none⟩

/-- An operand that is an integer constant. -/
def integer (name type : String) : Operand := ⟨name, .integer type, none⟩

/-- An operand that is a floating point constant. -/
def float (name : String) : Operand := ⟨name, .float, none⟩

/-- An instruction with its operands. -/
def instruction (name doc : String) (operands : List Operand) : Instruction := ⟨name, doc, operands⟩

/-- An instruction that loads a constant. -/
def loadConstant (name what : String) : Instruction :=
  instruction name ("Load " ++ what ++ " into the target.") [register "target"]

/-- An instruction that computes something from two registers. -/
def binary (name expression : String) : Instruction :=
  instruction name ("Store " ++ expression ++ " into target.")
    [register "lhs", register "rhs", register "target"]

/-- An instruction that computes something from one register. -/
def unary (name expression : String) : Instruction :=
  instruction name ("Store " ++ expression ++ " into target.")
    [register "value", register "target"]

/-- An instruction that makes a container of the values on the stack. -/
def container (name what : String) : Instruction :=
  instruction name
    ("Construct " ++ what ++ " with the count topmost values\n" ++
      "from the stack and store it into target.")
    [integer "count" "u32", register "target"]

/-- All instructions in the order of their numbers. -/
def instructions : List Instruction :=
  [loadConstant "LoadNull" "null",
   loadConstant "LoadFalse" "false",
   loadConstant "LoadTrue" "true",
   instruction "LoadInt" "Load the given integer constant into the target."
     [integer "constant" "i64", register "target"],
   instruction "LoadFloat" "Load the given floating point constant into the target."
     [float "constant", register "target"],
   instruction "LoadParam" "Load the given parameter into the target."
     [parameter "source", register "target"],
   instruction "StoreParam" "Store the given local into the parameter."
     [register "source", parameter "target"],
   instruction "LoadModule" "Load the module variable source into target."
     [moduleMember "source", register "target"],
   instruction "StoreModule" "Store the source local into the target module variable."
     [register "source", moduleMember "target"],
   instruction "LoadMember" "Load `object.name` into target."
     [register "object", moduleMember "name", register "target"],
   instruction "StoreMember" "Store source into `object.name`."
     [register "source", register "object", moduleMember "name"],
   instruction "LoadTupleMember" "Load `tuple.index` into target."
     [register "tuple", integer "index" "u32", register "target"],
   instruction "StoreTupleMember" "Store source into `tuple.index`."
     [register "source", register "tuple", integer "index" "u32"],
   instruction "LoadIndex" "Load `array[index]` into target."
     [register "array", register "index", register "target"],
   instruction "StoreIndex" "Store source into `array[index]`."
     [register "source", register "array", register "index"],
   instruction "LoadClosure" "Load the function's closure environment into the target."
     [register "target"],
   instruction "LoadEnv"
     ("Load a value from a closure environment. `level` is the number of parent links to " ++
       "follow\n" ++
       "to reach the target environment (0 is `env` itself). `index` is the index of the " ++
       "value\n" ++
       "in the target environment.")
     [register "env", integer "level" "u32", integer "index" "u32", register "target"],
   instruction "StoreEnv" "Store a value into a closure environment. Analog to LoadEnv."
     [register "source", register "env", integer "level" "u32", integer "index" "u32"],
   binary "Add" "lhs + rhs",
   binary "Sub" "lhs - rhs",
   binary "Mul" "lhs * rhs",
   binary "Div" "lhs / rhs",
   binary "Mod" "lhs % rhs",
   binary "Pow" "pow(lhs, rhs)",
   unary "UAdd" "+value",
   unary "UNeg" "-value",
   binary "LSh" "lhs << rhs",
   binary "RSh" "lhs >> rhs",
   binary "BAnd" "lhs & rhs",
   binary "BOr" "lhs | rhs",
   binary "BXor" "lhs ^ rhs",
   unary "BNot" "~value",
   binary "Gt" "lhs > rhs",
   binary "Gte" "lhs >= rhs",
   binary "Lt" "lhs < rhs",
   binary "Lte" "lhs <= rhs",
   binary "Eq" "lhs == rhs",
   binary "NEq" "lhs != rhs",
   unary "LNot" "!value",
   container "Array" "an array",
   container "Tuple" "a tuple",
   container "Set" "a set",
   instruction "Map"
     ("Construct a map with the count topmost keys and values\n" ++
       "from the stack and store it into target.\n" ++
       "The count must be even.")
     [integer "count" "u32", register "target"],
   instruction "Env"
     "Construct an environment with the given parent and size and\nstore it into target."
     [register "parent", integer "size" "u32", register "target"],
   instruction "Closure"
     ("Construct a closure with the given function template and environment and\n" ++
       "store it into target.")
     [register "template", register "env", register "target"],
   instruction "Formatter" "Construct a new string formatter and store it into target."
     [register "target"],
   instruction "AppendFormat" "Format a value and append it to the formatter."
     [register "value", register "formatter"],
   instruction "FormatResult" "Store the formatted string into target."
     [register "formatter", register "target"],
   instruction "Copy" "Copy source to target."
     [register "source", register "target"],
   instruction "Swap" "Swap the values of the two locals."
     [register "a", register "b"],
   instruction "Push" "Push value on the stack."
     [register "value"],
   instruction "Pop" "Pop the top (written by most recent push) from the stack."
     [],
   instruction "PopTo"
     "Pop the top (written by most recent push) from the stack and store it into target."
     [register "target"],
   instruction "Jmp" "Unconditional jump to the given offset."
     [offset "offset"],
   instruction "JmpTrue"
     ("Jump to the given offset if the condition evaluates to true,\n" ++
       "otherwise continue with the next instruction.")
     [register "condition", offset "offset"],
   instruction "JmpFalse"
     ("Jump to the given offset if the condition evaluates to false,\n" ++
       "otherwise continue with the next instruction.")
     [register "condition", offset "offset"],
   instruction "Call"
     ("Call the given function with the topmost count arguments on the stack.\n" ++
       "After the call, a single return value will be left on the stack.")
     [register "function", integer "count" "u32"],
   instruction "LoadMethod"
     ("Load the method called name from the given object.\n\n" ++
       "The appropriate this pointer (possibly null) will be stored into `this`.\n" ++
       "The method handle will be stored into `method`.")
     [register "object", moduleMember "name", register "this", register "method"],
   instruction "CallMethod"
     ("Call the given method on an object with `count` additional arguments on the stack.\n" ++
       "The arguments `this` and `method` must be the results\n" ++
       "of a previously executed LoadMethod instruction.")
     [register "method", integer "count" "u32"],
   instruction "Return" "Returns the value to the calling function."
     [register "value"],
   instruction "AssertFail"
     ("Signals an assertion error and aborts the program.\n" ++
       "`expr` should contain the string representation of the failed assertion.\n" ++
       "`message` can hold a user defined error message string or null.")
     [register "expr", register "message"]]

/-- The union of all instructions, which are numbered from 1 on. -/
def instructionUnion : Union :=
  let tag : Tag :=
    { name := "BytecodeOp", width := .u8, start := some 1,
      doc := some "Represents the type of an instruction." }
  { Instruction.lower "BytecodeInstr" tag instructions with
    doc := some "Represents a bytecode instruction."
    capabilities := { formatting := .define, docPlace := .tag } }

/-- A member that refers to a string constant. -/
def stringRef (name : String) : Member :=
  (Member.data name "BytecodeMemberID").documented "References a string constant."

/-- The constants and declarations of a compiled module. -/
def memberUnion : Union where
  name := "BytecodeMember"
  tag :=
    { name := "BytecodeMemberType", width := .u8,
      doc := some "Represents the type of a module member." }
  doc := some "Represents a member of a compiled module."
  variants :=
    [(Variant.record "Integer" [.data "value" "i64"]).documented
       "Represents an integer constant.",
     (Variant.record "Float" [.data "value" "f64"]).documented
       "Represents a floating point constant.",
     (Variant.record "String" [.data "value" "InternedString"]).documented
       "Represents a string constant.",
     (Variant.record "Symbol" [stringRef "name"]).documented "Represents a symbol constant.",
     (Variant.record "Import" [stringRef "module_name"]).documented "Represents an import.",
     (Variant.record "Variable"
       [stringRef "name",
        (Member.data "initial_value" "BytecodeMemberID").documented
          "References a constant. Can be invalid (meaning: initially null)."]).documented
       "Represents a variable.",
     (Variant.record "Function"
       [(Member.data "id" "BytecodeFunctionID").documented
          "References the compiled function."]).documented
       "Represents a function."]
  capabilities := { formatting := .define, equality := .define, hashing := .define }

/-- The schema of bytecode. -/
def schema : Schema where
  unions := [instructionUnion, memberUnion]

end Taxonomy.Catalog.Bytecode
