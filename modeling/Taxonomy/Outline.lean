import Taxonomy.Model

/-!
# Outlines

The outline of a model is a text for people: the tree with its numbers, the
labels, the slots, the facades, and the unions. A section is there only if it has
content, and ends with an empty line. The outline is made of lines of spans, so
that it can be printed with any palette.
-/
namespace Taxonomy

/-- A line of coloured text. -/
abbrev Line := List Span

namespace Outline

/-- The first line of a section. -/
def title (name : String) : Line :=
  Span.styled .blue ("[" ++ name ++ "]")

/-- A section with content, or nothing. -/
def titled (name : String) (lines : List Line) : List Line :=
  if lines.isEmpty then [] else title name :: lines ++ [[]]

/-- The line of a type of the tree: two blanks for each level, the name, and the
number or the range of numbers. -/
def typeLine (depth : Nat) (name : String) (isLeaf : Bool) (range : TagRange) : Line :=
  let indent := "".pushn ' ' (2 * depth)
  let numbers :=
    if isLeaf then Span.styled .green (toString range.first)
    else Span.styled .dim (toString range.first ++ ".." ++ toString range.last)
  .text (indent ++ name ++ " ") :: numbers

mutual

/-- The lines of a tree whose root has the given depth. A type without numbers has
no line, and neither have the types below it. -/
def treeLines (registry : Registry) (tags : TagTable) (depth : Nat) : Tree → List Line
  | .leaf id =>
    match registry.name? id, tags.range? id with
    | some name, some range => [typeLine depth name true range]
    | _, _ => []
  | .group id eldest others =>
    match registry.name? id, tags.range? id with
    | some name, some range =>
      typeLine depth name false range ::
        (treeLines registry tags (depth + 1) eldest ++
          treeLinesAll registry tags (depth + 1) others)
    | _, _ => []

/-- The lines of several trees at one depth. -/
def treeLinesAll (registry : Registry) (tags : TagTable) (depth : Nat) : List Tree → List Line
  | [] => []
  | tree :: trees =>
    treeLines registry tags depth tree ++ treeLinesAll registry tags depth trees

end

/-- The line of a label. -/
def tagLine (entry : TagEntry) : Line :=
  .text (entry.label ++ " = ") :: Span.styled .green (toString entry.value)

/-- The line of a slot. -/
def slotLine (slot : Slot) : Line :=
  .text slot.rendered :: Span.styled .dim ("  ; " ++ slot.visitor)

/-- The line of a facade. -/
def facadeLine (registry : Registry) (facade : Facade) : Line :=
  let objects := facade.objects.filterMap registry.name?
  .text facade.name :: Span.styled .dim ("  ; " ++ ", ".intercalate objects)

/-- The sections of a tree, which are there even if they are empty. -/
def hierarchyLines (registry : Registry) (hierarchy : Hierarchy) : List Line :=
  title "types" :: treeLines registry hierarchy.tags 0 hierarchy.tree ++ [[]] ++
    title "tags" :: hierarchy.tags.entries.map tagLine ++ [[]]

/-- How a member of a variant is written. -/
def memberText (member : Member) : String :=
  let mark := if member.isRequired || member.kind.isList then "" else "?"
  let type :=
    match member.kind with
    | .data type _ => type
    | .dataList element => "[" ++ element ++ "]"
    | .node type => type.text
    | .nodeList element => "[" ++ element.text ++ "]"
  member.name ++ mark ++ ": " ++ type

/-- How the content of a variant is written. -/
def bodyText : VariantBody → String
  | .record [] => ""
  | .record members => " \x7b " ++ ", ".intercalate (members.map memberText) ++ " \x7d"
  | .wrapped target .copy => " = " ++ target
  | .wrapped target .move => " = " ++ target ++ " (move)"

/-- The line of a variant with its number. -/
def variantLine (variant : Variant) (entry : TagEntry) : Line :=
  Span.styled .green (toString entry.value) ++
    [.text (" " ++ variant.name ++ bodyText variant.body)]

/-- The line of the capabilities of a union. -/
def capabilitiesLine (capabilities : Capabilities) : Line :=
  Span.styled .dim
    ("; storage=" ++ spelling capabilities.storage ++
      " format=" ++ spelling capabilities.formatting ++
      " equality=" ++ spelling capabilities.equality ++
      " hash=" ++ spelling capabilities.hashing ++
      " doc=" ++ spelling capabilities.docPlace)

/-- The section of a union. -/
def unionLines (union : Union) : List Line :=
  let kind := if union.isFinal then "" else " (non-final)"
  let head := title ("union " ++ union.name) ++
    [.text (" " ++ union.tag.name ++ ": " ++ spelling union.tag.width ++ kind)]
  head :: List.zipWith variantLine union.variants union.tagValues ++
    [capabilitiesLine union.capabilities, []]

/-- The lines of a model. -/
def lines (model : Model) : List Line :=
  (model.hierarchy.map (hierarchyLines model.registry)).getD [] ++
    titled "slots" (model.slots.map slotLine) ++
    titled "public" (model.facades.map (facadeLine model.registry)) ++
    model.unions.unions.flatMap unionLines

/-- How a line is printed. -/
def renderLine (palette : Palette) (line : Line) : String :=
  Span.renderAll palette line ++ "\n"

/-- The printed outline of a model. -/
def render (palette : Palette) (model : Model) : String :=
  String.join ((lines model).map (renderLine palette))

end Outline

end Taxonomy
