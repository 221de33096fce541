import Taxonomy.Catalog.Basic
import Taxonomy.Schema

/-!
# Syntax trees

The bundled schema of the nodes of a syntax tree, and of the data of a token.
-/
namespace Taxonomy.Catalog.Ast

/-- The type of all nodes. -/
def node : TypeDef :=
  { name := "Node", isFinal := false, renderedName := some "AstNode",
    doc := some "Base type of all syntax tree nodes." }

/-- The statements. -/
def statements : List TypeDef :=
  [abstractType "Node" "Stmt" "Represents a statement.",
   finalType "Stmt" "EmptyStmt" "Represents an empty statement.",
   finalType "Stmt" "AssertStmt" "Represents an assert statement with an optional message."
     [(child "cond" "Expr").optional,
      (child "message" "Expr").optional],
   finalType "Stmt" "WhileStmt" "Represents a while loop."
     [(child "cond" "Expr").optional,
      (child "body" "Expr").optional],
   finalType "Stmt" "ForStmt" "Represents a for loop."
     [(child "decl" "VarDecl").optional,
      (child "cond" "Expr").optional,
      (child "step" "Expr").optional,
      (child "body" "Expr").optional],
   finalType "Stmt" "ForEachStmt" "Represents a for each loop."
     [(child "spec" "BindingSpec").optional,
      (child "expr" "Expr").optional,
      (child "body" "Expr").optional],
   finalType "Stmt" "DeclStmt" "Represents a declaration in a statement context."
     [(child "decl" "Decl").optional],
   finalType "Stmt" "DeferStmt" "Represents an expression that will be evaluated on scope exit."
     [(child "expr" "Expr").optional],
   finalType "Stmt" "ExprStmt" "Represents an expression in a statement context."
     [(child "expr" "Expr").optional]]

/-- The declarations. -/
def declarations : List TypeDef :=
  [abstractType "Node" "Decl" "Represents a declaration."
     [((children "modifiers" "Modifier").optional).documented
        "A set of modifiers for this declaration."],
   finalType "Decl" "ImportDecl" "Represents a module import."
     [(Member.simple "name" "InternedString").optional,
      (Member.dataList "path" "InternedString").optional],
   finalType "Decl" "VarDecl" "Represents the declaration of a number of variables."
     [(children "bindings" "Binding").optional],
   finalType "Decl" "FuncDecl" "Represents a function declaration."
     [(Member.simple "name" "InternedString").optional,
      (Member.simple "body_is_value" "bool").optional,
      (children "params" "ParamDecl").optional,
      (child "body" "Expr").optional],
   finalType "Decl" "ParamDecl" "Represents a function parameter declaration."
     [(Member.simple "name" "InternedString").optional]]

/-- Modifiers and bindings of declarations. -/
def bindings : List TypeDef :=
  [abstractType "Node" "Modifier" "Represents an item modifier.",
   finalType "Modifier" "ExportModifier" "Represents an export modifier.",
   finalType "Node" "Binding" "Represents a binding of one or more variables to a value."
     [Member.simple "is_const" "bool",
      (child "spec" "BindingSpec").optional,
      (child "init" "Expr").optional],
   abstractType "Node" "BindingSpec"
     "Represents the variable specifiers in the left hand side of a binding.",
   finalType "BindingSpec" "VarBindingSpec"
     "Represents a variable name bound to an (optional) value."
     [(child "name" "StringIdentifier").optional],
   finalType "BindingSpec" "TupleBindingSpec"
     "Represents a tuple that is being unpacked into a number of variables."
     [(children "names" "StringIdentifier").optional]]

/-- The expressions, literals apart. -/
def expressions : List TypeDef :=
  [abstractType "Node" "Expr" "Represents a single expression.",
   finalType "Expr" "BlockExpr" "Represents a block expression containing multiple statements."
     [(children "stmts" "Stmt").optional],
   finalType "Expr" "UnaryExpr" "Represents a unary expression."
     [Member.simple "operation" "UnaryOperator",
      (child "inner" "Expr").optional],
   finalType "Expr" "BinaryExpr" "Represents a binary expression."
     [Member.simple "operation" "BinaryOperator",
      (child "left" "Expr").optional,
      (child "right" "Expr").optional],
   finalType "Expr" "StringGroupExpr" "Represents a sequence of adjacent string expressions."
     [(children "strings" "StringExpr").optional],
   finalType "Expr" "StringExpr"
     ("Represents a string expression consisting of literal strings and formatted sub " ++
       "expressions.")
     [(children "items" "Expr").optional],
   finalType "Expr" "FuncExpr" "Represents a function expression."
     [(child "decl" "FuncDecl").optional],
   finalType "Expr" "VarExpr" "Represents a reference to a variable."
     [Member.simple "name" "InternedString"],
   finalType "Expr" "PropertyExpr" "Represents an access to an object property."
     [Member.simple "access_type" "AccessType",
      (child "instance" "Expr").optional,
      (child "property" "Identifier").optional],
   finalType "Expr" "ElementExpr" "Represents an access to a container element."
     [Member.simple "access_type" "AccessType",
      (child "instance" "Expr").optional,
      (child "element" "Expr").optional],
   finalType "Expr" "CallExpr" "Represents a function call expression."
     [Member.simple "access_type" "AccessType",
      (child "func" "Expr").optional,
      (children "args" "Expr").optional],
   finalType "Expr" "IfExpr" "Represents an if expression."
     [(child "cond" "Expr").optional,
      (child "then_branch" "Expr").optional,
      (child "else_branch" "Expr").optional],
   finalType "Expr" "ReturnExpr" "Represents a return expression with an optional return value."
     [(child "value" "Expr").optional],
   finalType "Expr" "BreakExpr" "Represents a break expression within a loop.",
   finalType "Expr" "ContinueExpr" "Represents a continue expression within a loop."]

/-- The literals. -/
def literals : List TypeDef :=
  [abstractType "Expr" "Literal" "Represents a literal value.",
   finalType "Literal" "NullLiteral" "Represents a null literal.",
   finalType "Literal" "BooleanLiteral" "Represents a boolean literal."
     [Member.simple "value" "bool"],
   finalType "Literal" "IntegerLiteral" "Represents an integer literal."
     [Member.simple "value" "i64"],
   finalType "Literal" "FloatLiteral" "Represents a floating point literal."
     [Member.simple "value" "f64"],
   finalType "Literal" "StringLiteral" "Represents a string literal."
     [Member.simple "value" "InternedString"],
   finalType "Literal" "SymbolLiteral" "Represents a symbol."
     [Member.simple "value" "InternedString"],
   finalType "Literal" "ArrayLiteral" "Represents an array expression."
     [(children "items" "Expr").optional],
   finalType "Literal" "TupleLiteral" "Represents a tuple expression."
     [(children "items" "Expr").optional],
   finalType "Literal" "SetLiteral" "Represents a set expression."
     [(children "items" "Expr").optional],
   finalType "Literal" "MapLiteral" "Represents a map expression."
     [(children "items" "MapItem").optional]]

/-- Files, items of maps, and identifiers. -/
def remainder : List TypeDef :=
  [finalType "Node" "File" "Represents the contents of a file."
     [((children "items" "Stmt").optional).documented "The top level statements in this file."],
   finalType "Node" "MapItem" "Represents a key-value pair in a map expression."
     [(child "key" "Expr").optional,
      (child "value" "Expr").optional],
   abstractType "Node" "Identifier" "Represents an identifier in a property access expression.",
   finalType "Identifier" "StringIdentifier" "Represents the name of a variable or a field."
     [Member.simple "value" "InternedString"],
   finalType "Identifier" "NumericIdentifier"
     "Represents an integer in an identifier context, such as a tuple member expression."
     [Member.simple "value" "u32"]]

/-- The data of a token. -/
def tokenData : Union where
  name := "TokenData"
  tag := { name := "TokenDataType", width := .u8 }
  doc := some "Represents data associated with a token."
  variants :=
    [(Variant.unit "None").documented "No additional value at all (the most common case).",
     (Variant.wrapped "Integer" "i64").documented "An integer value.",
     (Variant.wrapped "Float" "f64").documented "A floating point value.",
     (Variant.wrapped "String" "InternedString").documented "A string value (e.g. an identifier)."]

/-- The schema of syntax trees. -/
def schema : Schema where
  types := node :: (statements ++ declarations ++ bindings ++ expressions ++ literals ++ remainder)
  unions := [tokenData]

end Taxonomy.Catalog.Ast
