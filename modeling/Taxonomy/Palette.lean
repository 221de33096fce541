/-!
# Palettes

Coloured text is a sequence of spans: plain text and marks that switch a style
on or everything off. A palette says how each mark is written. The plain palette
writes no mark at all, so the same spans print with and without colours.
-/
namespace Taxonomy

/-- What is written for each mark. -/
structure Palette where
  blue : String
  green : String
  dim : String
  reset : String
deriving DecidableEq, Repr

namespace Palette

/-- Terminal escape sequences. -/
def colored : Palette where
  blue := "\x1b[34m"
  green := "\x1b[32m"
  dim := "\x1b[2m"
  reset := "\x1b[0m"

/-- No mark is written. -/
def plain : Palette where
  blue := ""
  green := ""
  dim := ""
  reset := ""

/-- The coloured palette or the plain one. -/
def ofFlag (enabled : Bool) : Palette :=
  if enabled then colored else plain

/-- Whether the palette writes its marks. -/
def isColored (palette : Palette) : Bool :=
  !palette.blue.isEmpty

end Palette

/-- The marks of coloured text. -/
inductive Style where
  | blue
  | green
  | dim
  | reset
deriving DecidableEq, Repr

/-- What a palette writes for a mark. -/
def Palette.mark (palette : Palette) : Style → String
  | .blue => palette.blue
  | .green => palette.green
  | .dim => palette.dim
  | .reset => palette.reset

/-- A piece of coloured text. -/
inductive Span where
  | text (content : String)
  | mark (style : Style)
deriving DecidableEq, Repr

namespace Span

/-- A text in one style, after which the style is switched off. -/
def styled (style : Style) (content : String) : List Span :=
  [.mark style, .text content, .mark .reset]

/-- How a span is written. -/
def render (palette : Palette) : Span → String
  | .text content => content
  | .mark style => palette.mark style

/-- How a sequence of spans is written. -/
def renderAll (palette : Palette) (spans : List Span) : String :=
  String.join (spans.map (render palette))

end Span

end Taxonomy
