import Taxonomy.Schema

/-!
# Values

The bundled schema of the values that a running program handles. Many of the types
are public, some under another name than their own.
-/
namespace Taxonomy.Catalog.Values

/-- A final type below another that is not public. -/
def hidden (base name : String) : TypeDef :=
  { name, base := some (.named base) }

/-- A final type below another that is public under its own name. -/
def shown (base name : String) : TypeDef :=
  { name, base := some (.named base), publicName := some name }

/-- A final type below another that is public under a given name. -/
def shownAs (base name publicName : String) : TypeDef :=
  { name, base := some (.named base), publicName := some publicName }

/-- A public abstract type below another. -/
def shownGroup (base name : String) : TypeDef :=
  { name, base := some (.named base), isFinal := false, publicName := some name }

/-- The types of values. -/
def types : List TypeDef :=
  [{ name := "Value", isFinal := false },
   shown "Value" "Null",
   shown "Value" "Boolean",
   shown "Value" "Float",
   shown "Value" "Symbol",
   shownGroup "Value" "Integer",
   hidden "Integer" "HeapInteger",
   hidden "Integer" "SmallInteger",
   shownGroup "Value" "Function",
   hidden "Function" "BoundMethod",
   hidden "Function" "CodeFunction",
   hidden "Function" "MagicFunction",
   hidden "Function" "NativeFunction",
   shown "Value" "String",
   shown "Value" "StringSlice",
   shown "Value" "StringIterator",
   shown "Value" "StringBuilder",
   hidden "Value" "Code",
   hidden "Value" "Environment",
   hidden "Value" "CodeFunctionTemplate",
   hidden "Value" "HandlerTable",
   shown "Value" "Type",
   hidden "Value" "Method",
   hidden "Value" "InternalType",
   shown "Value" "Array",
   shown "Value" "ArrayIterator",
   hidden "Value" "ArrayStorage",
   shown "Value" "Buffer",
   shownAs "Value" "HashTable" "Map",
   shownAs "Value" "HashTableIterator" "MapIterator",
   shownAs "Value" "HashTableKeyView" "MapKeyView",
   shownAs "Value" "HashTableKeyIterator" "MapKeyIterator",
   shownAs "Value" "HashTableValueView" "MapValueView",
   shownAs "Value" "HashTableValueIterator" "MapValueIterator",
   hidden "Value" "HashTableStorage",
   shown "Value" "Record",
   hidden "Value" "RecordTemplate",
   shown "Value" "Set",
   shown "Value" "SetIterator",
   shown "Value" "Tuple",
   shown "Value" "TupleIterator",
   shown "Value" "NativeObject",
   shown "Value" "NativePointer",
   shown "Value" "Exception",
   shown "Value" "Result",
   shown "Value" "Coroutine",
   hidden "Value" "CoroutineStack",
   shown "Value" "CoroutineToken",
   shown "Value" "Module",
   hidden "Value" "Undefined",
   hidden "Value" "UnresolvedImport"]

/-- The schema of values. -/
def schema : Schema where
  types := types

end Taxonomy.Catalog.Values
