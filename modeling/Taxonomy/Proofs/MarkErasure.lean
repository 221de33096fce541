import Mathlib.Data.List.Basic
import Taxonomy.Palette

/-!
# Taking marks out of coloured text

Marks are taken out of a text from left to right: where one of them stands, it is left out as a
whole. In general this can go wrong in two ways. A mark could begin inside another one, or with
a character of the text around it, and what stands before and behind a mark that was taken out
could make up a new one.

Neither can happen to marks that begin with a character which is nowhere else, neither in the
marks nor in the text, if no mark is the beginning of another one. Then each mark is found where
it was written and nowhere else. So it makes no difference whether all marks are taken out at
once or one kind after the other, and in which order.
-/
namespace Taxonomy

/-- The mark, which is not empty, stands at the beginning of the characters. -/
def standsFirst (chars mark : List Char) : Bool :=
  !mark.isEmpty && mark.isPrefixOf chars

/-- The characters without the given marks. Where one of them stands, it is left out. -/
def eraseChars (marks : List (List Char)) : List Char → List Char
  | [] => []
  | c :: rest =>
    match marks.find? (standsFirst (c :: rest)) with
    | some mark => eraseChars marks (rest.drop (mark.length - 1))
    | none => c :: eraseChars marks rest
termination_by chars => chars.length
decreasing_by all_goals simp only [List.length_drop, List.length_cons]; omega

/-- The text without the given marks. -/
def eraseMarks (marks : List String) (text : String) : String :=
  String.ofList (eraseChars (marks.map String.toList) text.toList)

/-- Marks that are found where they are written: each begins with the given character and does
not have it again, and none is the beginning of another one. -/
structure SelfDelimiting (start : Char) (marks : List (List Char)) : Prop where
  begins : ∀ mark ∈ marks, ∃ tail, mark = start :: tail ∧ start ∉ tail
  apart : ∀ left ∈ marks, ∀ right ∈ marks, left <+: right → left = right

namespace SelfDelimiting

variable {start : Char} {marks erased : List (List Char)}

/-- Where a mark is written, no other one stands. -/
theorem eq_of_standsFirst (code : SelfDelimiting start marks) {left right rest : List Char}
    (leftMember : left ∈ marks) (rightMember : right ∈ marks)
    (stands : standsFirst (right ++ rest) left = true) : left = right := by
  rw [standsFirst, Bool.and_eq_true, List.isPrefixOf_iff_prefix] at stands
  rcases List.prefix_or_prefix_of_prefix stands.2 (List.prefix_append right rest) with
    shorter | longer
  · exact code.apart left leftMember right rightMember shorter
  · exact (code.apart right rightMember left leftMember longer).symm

/-- Text in which no mark can begin is kept. -/
theorem erase_text (code : SelfDelimiting start marks) (among : erased ⊆ marks)
    {text : List Char} (free : start ∉ text) (rest : List Char) :
    eraseChars erased (text ++ rest) = text ++ eraseChars erased rest := by
  induction text with
  | nil => rfl
  | cons c text inductionHypothesis =>
    rw [List.mem_cons, not_or] at free
    have nowhere : erased.find? (standsFirst (c :: (text ++ rest))) = none := by
      rw [List.find?_eq_none]
      intro mark member
      obtain ⟨tail, rfl, _⟩ := code.begins mark (among member)
      simp [standsFirst, free.1]
    rw [List.cons_append, eraseChars, nowhere, inductionHypothesis free.2, List.cons_append]

/-- A mark that is to be taken out is taken out. -/
theorem erase_mark (code : SelfDelimiting start marks) (among : erased ⊆ marks)
    {mark : List Char} (member : mark ∈ erased) (rest : List Char) :
    eraseChars erased (mark ++ rest) = eraseChars erased rest := by
  obtain ⟨tail, rfl, _⟩ := code.begins mark (among member)
  have found : erased.find? (standsFirst (start :: tail ++ rest)) = some (start :: tail) := by
    cases search : erased.find? (standsFirst (start :: tail ++ rest)) with
    | none =>
      have missed := List.find?_eq_none.mp search _ member
      simp [standsFirst] at missed
    | some other =>
      have listed := among (List.mem_of_find?_eq_some search)
      rw [code.eq_of_standsFirst listed (among member) (List.find?_some search)]
  rw [List.cons_append] at found ⊢
  rw [eraseChars, found]
  simp

/-- A mark that is not to be taken out is kept. -/
theorem erase_other (code : SelfDelimiting start marks) (among : erased ⊆ marks)
    {mark : List Char} (member : mark ∈ marks) (kept : mark ∉ erased) (rest : List Char) :
    eraseChars erased (mark ++ rest) = mark ++ eraseChars erased rest := by
  obtain ⟨tail, rfl, free⟩ := code.begins mark member
  have nowhere : erased.find? (standsFirst (start :: tail ++ rest)) = none := by
    rw [List.find?_eq_none]
    intro other listed stands
    exact kept (code.eq_of_standsFirst (among listed) member stands ▸ listed)
  rw [List.cons_append] at nowhere ⊢
  rw [eraseChars, nowhere, code.erase_text among free, List.cons_append]

end SelfDelimiting

/-- The character that begins every escape sequence. -/
def escapeChar : Char :=
  '\x1b'

/-- The text has no escape sequence in it, nor the beginning of one. -/
def IsUnescaped (text : String) : Prop :=
  escapeChar ∉ text.toList

instance (text : String) : Decidable (IsUnescaped text) :=
  inferInstanceAs (Decidable (_ ∉ _))

namespace Palette

/-- What the palette writes for the single marks. -/
def marks (palette : Palette) : List String :=
  [palette.blue, palette.green, palette.dim, palette.reset]

/-- What is left of a mark. -/
def leftOf (erased : List String) (mark : String) : String :=
  if mark ∈ erased then "" else mark

/-- The palette that writes nothing for the given marks. -/
def without (palette : Palette) (erased : List String) : Palette where
  blue := leftOf erased palette.blue
  green := leftOf erased palette.green
  dim := leftOf erased palette.dim
  reset := leftOf erased palette.reset

/-- The palette writes some marks in colour and nothing for the others. -/
def PartlyColored (palette : Palette) : Prop :=
  ∀ style, palette.mark style = "" ∨ palette.mark style ∈ colored.marks

/-- The escape sequences for colours are found where they are written. -/
theorem selfDelimiting_colored :
    SelfDelimiting escapeChar (colored.marks.map String.toList) := by
  refine ⟨?_, by decide⟩
  intro mark member
  have each : ∀ mark ∈ colored.marks.map String.toList,
      mark.head? = some escapeChar ∧ escapeChar ∉ mark.tail := by decide
  obtain ⟨first, free⟩ := each mark member
  exact ⟨mark.tail, (List.cons_head?_tail first).symm, free⟩

/-- What is written without some marks. -/
theorem mark_without (palette : Palette) (erased : List String) (style : Style) :
    (palette.without erased).mark style = leftOf erased (palette.mark style) := by
  cases style <;> rfl

/-- A palette without no marks is the palette itself. -/
theorem without_nil (palette : Palette) : palette.without [] = palette := by
  simp [without, leftOf]

/-- Marks can be left out one after the other. -/
theorem without_cons (palette : Palette) (mark : String) (erased : List String) :
    (palette.without [mark]).without erased = palette.without (mark :: erased) := by
  have each (written : String) :
      leftOf erased (leftOf [mark] written) = leftOf (mark :: erased) written := by
    by_cases same : written = mark
    · simp [leftOf, same]
    · simp [leftOf, same]
  simp only [without, each]

/-- A palette without some marks is still partly coloured. -/
theorem PartlyColored.without {palette : Palette} (partly : palette.PartlyColored)
    (erased : List String) : (palette.without erased).PartlyColored := by
  intro style
  rw [mark_without, leftOf]
  split
  · exact Or.inl rfl
  · exact partly style

/-- Without all its marks the coloured palette is the plain one. -/
theorem without_all {erased : List String} (all : colored.marks ⊆ erased) :
    colored.without erased = plain := by
  have gone (mark : String) (member : mark ∈ colored.marks) : leftOf erased mark = "" :=
    if_pos (all member)
  rw [without, gone _ (by decide), gone _ (by decide), gone _ (by decide), gone _ (by decide)]
  rfl

end Palette

namespace Span

/-- The span is a mark, or a text without escape sequences. -/
def IsUnescaped : Span → Prop
  | .text content => Taxonomy.IsUnescaped content
  | .mark _ => True

variable {palette : Palette} {erased : List String} {spans : List Span}

/-- Taking marks out of what is written for spans is the same as not writing them. -/
theorem eraseChars_renderAll (partly : palette.PartlyColored)
    (among : erased ⊆ Palette.colored.marks) (unescaped : ∀ span ∈ spans, span.IsUnescaped) :
    eraseChars (erased.map String.toList) (renderAll palette spans).toList =
      (renderAll (palette.without erased) spans).toList := by
  have code := Palette.selfDelimiting_colored
  have listed : erased.map String.toList ⊆ Palette.colored.marks.map String.toList :=
    List.map_subset _ among
  induction spans with
  | nil => simp [renderAll, eraseChars]
  | cons span spans inductionHypothesis =>
    rw [List.forall_mem_cons] at unescaped
    have split (given : Palette) : (renderAll given (span :: spans)).toList =
        (render given span).toList ++ (renderAll given spans).toList := by
      simp [renderAll]
    rw [split, split, ← inductionHypothesis unescaped.2]
    cases span with
    | text content => exact code.erase_text listed unescaped.1 _
    | mark style =>
      rw [render, render, Palette.mark_without, Palette.leftOf]
      by_cases gone : palette.mark style ∈ erased
      · rw [if_pos gone, code.erase_mark listed (List.mem_map_of_mem gone)]
        rfl
      · rw [if_neg gone]
        rcases partly style with unwritten | written
        · rw [unwritten]
          rfl
        · apply code.erase_other listed (List.mem_map_of_mem written)
          rwa [List.mem_map_of_injective fun _ _ => String.toList_inj.mp]

/-- The same of texts. -/
theorem eraseMarks_renderAll (partly : palette.PartlyColored)
    (among : erased ⊆ Palette.colored.marks) (unescaped : ∀ span ∈ spans, span.IsUnescaped) :
    eraseMarks erased (renderAll palette spans) = renderAll (palette.without erased) spans := by
  rw [eraseMarks, eraseChars_renderAll partly among unescaped, String.ofList_toList]

/-- Taking marks out one kind after the other is the same as writing none of them. -/
theorem foldl_eraseMarks_renderAll (partly : palette.PartlyColored)
    (among : erased ⊆ Palette.colored.marks) (unescaped : ∀ span ∈ spans, span.IsUnescaped) :
    erased.foldl (fun text mark => eraseMarks [mark] text) (renderAll palette spans) =
      renderAll (palette.without erased) spans := by
  induction erased generalizing palette with
  | nil => rw [List.foldl_nil, Palette.without_nil]
  | cons mark erased inductionHypothesis =>
    rw [List.cons_subset] at among
    have single : [mark] ⊆ Palette.colored.marks := List.cons_subset.mpr ⟨among.1, by simp⟩
    rw [List.foldl_cons, eraseMarks_renderAll partly single unescaped,
      inductionHypothesis (partly.without [mark]) among.2, Palette.without_cons]

end Span

end Taxonomy
