import Taxonomy.Catalog.Ast
import Taxonomy.Catalog.Bytecode
import Taxonomy.Catalog.Ir
import Taxonomy.Catalog.Values
import Taxonomy.Model

/-!
# The catalogue of bundled schemas

Four generations of data of a language come with the library, each with the
settings that it is compiled under.
-/
namespace Taxonomy

/-- A bundled schema. -/
inductive Generation where
  | ast
  | ir
  | bytecode
  | values
deriving DecidableEq, Repr

instance : Spelled Generation where
  values := [.ast, .ir, .bytecode, .values]
  spelling
    | .ast => "ast"
    | .ir => "ir"
    | .bytecode => "bytecode"
    | .values => "values"
  values_complete value := by cases value <;> decide
  spelling_injective left right := by cases left <;> cases right <;> decide

namespace Generation

/-- The schema of a generation. -/
def schema : Generation → Schema
  | .ast => Catalog.Ast.schema
  | .ir => Catalog.Ir.schema
  | .bytecode => Catalog.Bytecode.schema
  | .values => Catalog.Values.schema

/-- The settings of a generation. -/
def settings : Generation → Settings
  | .ast => { nodeStem := "Ast", singleSlot := "AstPtr", listSlot := "AstNodeList" }
  | .values => { root := "Value" }
  | .ir | .bytecode => {}

/-- The model of a generation. -/
def compile (generation : Generation) : Except Fault Model :=
  Model.compile generation.schema generation.settings

end Generation

end Taxonomy
