/-!
# Names derived from names

A declaration has one name, from which the names of its functions and fields are
derived. The derived names are in snake case: words in lower case with an
underscore before each word but the first. A name that a generated program could
not use because the target languages reserve it gets an underscore at its end.
Only the letters A to Z count as upper case.
-/
namespace Taxonomy

/-- Adds one character of a name to its snake case, which is held in reverse
order. A capital begins a new word unless nothing stands before it or an
underscore separates it already. -/
def snakeStep (written : List Char) (c : Char) : List Char :=
  if c.isUpper then
    match written with
    | [] => [c.toLower]
    | '_' :: _ => c.toLower :: written
    | _ => c.toLower :: '_' :: written
  else c :: written

/-- A name in snake case. -/
def snakeCase (name : String) : String :=
  String.ofList (name.toList.foldl snakeStep []).reverse

/-- The words that cannot name anything in a generated program. -/
def reservedWords : List String :=
  ["alignas", "alignof", "and", "as", "auto", "bool", "break", "case", "catch", "char",
   "class", "const", "constexpr", "continue", "default", "delete", "do", "double", "else",
   "enum", "explicit", "export", "extern", "false", "float", "fn", "for", "friend", "goto",
   "if", "impl", "import", "inline", "int", "let", "long", "loop", "match", "mod", "move",
   "mut", "namespace", "new", "not", "operator", "or", "private", "protected", "pub",
   "public", "register", "return", "self", "short", "signed", "sizeof", "static", "struct",
   "switch", "template", "this", "throw", "trait", "true", "try", "type", "typedef",
   "typename", "union", "unsigned", "use", "using", "virtual", "void", "volatile", "where",
   "while"]

/-- Whether a word is reserved. -/
def isReserved (word : String) : Bool :=
  reservedWords.contains word

/-- The word itself, or the word and an underscore if it is reserved. -/
def escapeReserved (word : String) : String :=
  if isReserved word then word ++ "_" else word

/-- The function that visits a thing of the given name. -/
def visitName (name : String) : String :=
  "visit_" ++ snakeCase name

/-- The field that holds a member of the given name. -/
def fieldName (name : String) : String :=
  name ++ "_"

/-- The names that a variant of a union goes by. -/
structure VariantNames where
  /-- A parameter that takes the variant. -/
  argument : String
  /-- The function that reads the variant out of a union. -/
  accessor : String
  /-- The function that makes a union of the variant. -/
  factory : String
  /-- The field that stores the variant. -/
  field : String
  /-- The function that visits the variant. -/
  visit : String
deriving DecidableEq, Repr

/-- The names of a variant, derived from the one it is declared with. -/
def VariantNames.ofName (name : String) : VariantNames where
  argument := escapeReserved (snakeCase name)
  accessor := "as_" ++ snakeCase name
  factory := "make_" ++ snakeCase name
  field := fieldName (snakeCase name)
  visit := visitName name

end Taxonomy
