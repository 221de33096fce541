import Taxonomy.Schema

/-!
# Intermediate representation

The bundled schema of the data of a program between its syntax tree and its
bytecode. It has unions only.
-/
namespace Taxonomy.Catalog.Ir

/-- The members of a module. -/
def moduleMemberData : Union where
  name := "ModuleMemberData"
  tag := { name := "ModuleMemberType", width := .u8 }
  variants :=
    [(Variant.record "Import"
        [(Member.data "name" "InternedString").documented
           "The name of the imported module."]).documented
       "Represents an import of another module.",
     (Variant.record "Variable"
        [(Member.data "name" "InternedString").documented "The name of the variable."]).documented
       "Represents a variable at module scope.",
     (Variant.record "Function"
        [(Member.data "id" "FunctionId").documented
           "The Id of the function within this module."]).documented
       "Represents a function of this module, in IR form."]
  capabilities := { formatting := .define }

/-- The edges out of a basic block. -/
def terminator : Union where
  name := "Terminator"
  tag := { name := "TerminatorType", width := .u8 }
  doc := some "Represents edges connecting different basic blocks."
  variants :=
    [(Variant.unit "None").documented
       ("The block has no outgoing edge. This is the initial value after a new block has " ++
         "been created.\n" ++
         "Must be changed to one of the valid edge types when construction is complete."),
     (Variant.record "Entry"
        [(Member.data "body" "BlockId").documented
           "The start of the function under normal control flow.",
         ((Member.data "handlers" "std::vector<BlockId>").passed .move).documented
           "Exception handler blocks."]).documented
       "Contains the actual entry points into the function.",
     (Variant.unit "Exit").documented "Marks the exit block of the function.",
     (Variant.record "Jump"
        [(Member.data "target" "BlockId").documented "The jump target."]).documented
       "A single successor block, reached through an unconditional jump.",
     (Variant.record "Branch"
        [(Member.data "type" "BranchType").documented "The kind of conditional jump.",
         (Member.data "value" "InstId").documented "The value that is being tested.",
         (Member.data "target" "BlockId").documented "The jump target for successful tests.",
         (Member.data "fallthrough" "BlockId").documented
            "The jump target for failed tests."]).documented
       "A conditional jump with two successor blocks.",
     (Variant.record "Return"
        [(Member.data "value" "InstId").documented "The value that is being returned.",
         (Member.data "target" "BlockId").documented
           "The successor block. This must be the exit block."]).documented
       "Returns a value from the function.",
     (Variant.record "Rethrow"
        [(Member.data "target" "BlockId").documented
           "The successor block. This must be the exit block."]).documented
       ("Throws the currently active exception. Only legal when used in exceptional control " ++
         "flow."),
     (Variant.record "AssertFail"
        [(Member.data "expr" "InstId").documented
           "The string representation of the failed assertion.",
         (Member.data "message" "InstId").documented
           "The message that will be printed when the assertion fails.",
         (Member.data "target" "BlockId").documented
           "The successor block. This must be the exit block."]).documented
       "An assertion failure is an unconditional hard exit.",
     (Variant.record "Never"
        [(Member.data "target" "BlockId").documented
           "The successor block. This must be the exit block."]).documented
       "The block never returns (e.g. contains a statement that never terminates)."]
  capabilities := { storage := .movable, formatting := .declare }

/-- The places that can be assigned to. -/
def lValue : Union where
  name := "LValue"
  tag := { name := "LValueType", width := .u8 }
  doc := some ("LValues can appear as the left hand side of an assignment.\n" ++
                "They are associated with a mutable storage location.")
  variants :=
    [(Variant.record "Param"
        [(Member.data "target" "ParamId").documented
           "Argument index in parameter list."]).documented
       "Reference to a function argument.",
     (Variant.record "Closure"
        [(Member.data "env" "InstId").documented "The environment to search.",
         (Member.data "levels" "u32").documented "Levels to go up the environment hierarchy.",
         (Member.data "index" "u32").documented "Index into the environment."]).documented
       "Reference to a variable captured from an outer scope.",
     (Variant.record "Module"
        [(Member.data "member" "ModuleMemberId").documented
           "Id of the module level variable."]).documented
       "Reference to a variable at module scope.",
     (Variant.record "Field"
        [(Member.data "object" "InstId").documented "Dereferenced object.",
         (Member.data "name" "InternedString").documented "Field name to access."]).documented
       "Reference to the field of an object (i.e. `object.foo`).",
     (Variant.record "TupleField"
        [(Member.data "object" "InstId").documented "Dereferenced tuple object.",
         (Member.data "index" "u32").documented "Index of the tuple member."]).documented
       "Reference to a tuple field of a tuple (i.e. `tuple.3`).",
     (Variant.record "Index"
        [(Member.data "object" "InstId").documented "Dereferenced arraylike object.",
         (Member.data "index" "InstId").documented "Index into the array."]).documented
       "Reference to an index of an array (or a map), i.e. `thing[foo]`."]
  capabilities := { formatting := .define }

/-- The constants known at compile time. -/
def constant : Union where
  name := "Constant"
  tag := { name := "ConstantType", width := .u8 }
  doc := some "Represents a compile time constant."
  variants :=
    [Variant.record "Integer"
       [Member.data "value" "i64"],
     Variant.wrapped "Float" "FloatConstant",
     Variant.record "String"
       [Member.data "value" "InternedString"],
     Variant.record "Symbol"
       [Member.data "value" "InternedString"],
     Variant.unit "Null",
     Variant.unit "True",
     Variant.unit "False"]
  capabilities := { formatting := .define, equality := .define, hashing := .define }

/-- The values that are made of several others. -/
def aggregate : Union where
  name := "Aggregate"
  tag := { name := "AggregateType", width := .u8 }
  doc := some "Represents the compile time type of an aggregate value."
  variants :=
    [(Variant.record "Method"
        [Member.data "instance" "InstId",
         Member.data "function" "InternedString"]).documented
       "Represents a method invocation (returns instance, method pointer).",
     (Variant.record "IteratorNext"
        [Member.data "iterator" "InstId"]).documented
       "Represents the result of advancing an iterator (returns valid, value)."]
  capabilities := { formatting := .define, equality := .define, hashing := .define }

/-- The schema of the intermediate representation. -/
def schema : Schema where
  unions := [moduleMemberData, terminator, lValue, constant, aggregate]

end Taxonomy.Catalog.Ir
