import Taxonomy.TypeDef

/-!
# Building blocks of bundled schemas

Short forms for the declarations that the bundled schemas are made of.
-/
namespace Taxonomy.Catalog

/-- A member that refers to one type by its name. -/
def child (name type : String) : Member :=
  .node name (.named type)

/-- A member that refers to a list of a type by its name. -/
def children (name element : String) : Member :=
  .nodeList name (.named element)

/-- An abstract type below another. -/
def abstractType (base name doc : String) (members : List Member := []) : TypeDef :=
  { name, base := some (.named base), isFinal := false, doc := some doc, members }

/-- A final type below another. -/
def finalType (base name doc : String) (members : List Member := []) : TypeDef :=
  { name, base := some (.named base), doc := some doc, members }

end Taxonomy.Catalog
