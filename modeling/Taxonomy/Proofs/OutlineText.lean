import Mathlib.Logic.Basic
import Taxonomy.Outline

/-!
# The text of an outline

A line of the tree or of the labels can be read back from its text. The blanks before the name of
a type are its depth, the next blank ends the name, and the numbers show whether there is a range:
only a range has points in it. A line of a label is read likewise. This needs names that are words,
that is, not empty and without whitespace.

Lines that are not empty and have no line break inside make up a paragraph, which an empty line
ends. A paragraph can be read back from any text that begins with it and the empty line, whatever
follows.
-/
namespace Taxonomy

/-- The text has a character, and none of its characters is a blank, a tab or a line end. -/
def IsWord (text : String) : Prop :=
  text ≠ "" ∧ ∀ c ∈ text.toList, c.isWhitespace = false

instance (text : String) : Decidable (IsWord text) :=
  inferInstanceAs (Decidable (_ ∧ _))

namespace IsWord

variable {text : String}

/-- A word has no whitespace. -/
theorem not_mem (word : IsWord text) {c : Char} (space : c.isWhitespace = true) :
    c ∉ text.toList := by
  intro member
  simp [word.2 c member] at space

/-- A word begins with a character that is no blank. -/
theorem exists_first (word : IsWord text) :
    ∃ first rest, text.toList = first :: rest ∧ first ≠ ' ' := by
  have nonempty : text.toList ≠ [] := by simpa using word.1
  obtain ⟨first, rest, chars⟩ := List.exists_cons_of_ne_nil nonempty
  refine ⟨first, rest, chars, ?_⟩
  rintro rfl
  exact word.not_mem rfl (chars ▸ List.mem_cons_self)

/-- Two words make a word. -/
theorem append (word : IsWord text) {front : String} (frontWord : IsWord front) :
    IsWord (front ++ text) := by
  refine ⟨?_, ?_⟩
  · simp [frontWord.1]
  · intro c member
    rw [String.toList_append, List.mem_append] at member
    exact member.elim (frontWord.2 c) (word.2 c)

end IsWord

/-- Lists with the same images are the same, if their members can be told from their images. -/
theorem eq_of_map_eq {α β : Type} {image : α → β} {left right : List α}
    (apart : ∀ first ∈ left, ∀ second ∈ right, image first = image second → first = second)
    (same : left.map image = right.map image) : left = right := by
  induction left generalizing right with
  | nil => exact (List.map_eq_nil_iff.mp same.symm).symm
  | cons first left inductionHypothesis =>
    cases right with
    | nil => cases same
    | cons second right =>
      rw [List.map_cons, List.map_cons] at same
      obtain ⟨images, later⟩ := List.cons.inj same
      obtain rfl := apart first List.mem_cons_self second List.mem_cons_self images
      rw [inductionHypothesis (fun a member b listed =>
        apart a (List.mem_cons_of_mem _ member) b (List.mem_cons_of_mem _ listed)) later]

/-- The part before the first mark and the part behind it can be told from the whole. -/
theorem append_mark_inj {mark : Char} {front other rest tail : List Char}
    (frontFree : mark ∉ front) (otherFree : mark ∉ other)
    (same : front ++ mark :: rest = other ++ mark :: tail) : front = other ∧ rest = tail := by
  induction front generalizing other with
  | nil =>
    cases other with
    | nil => exact ⟨rfl, (List.cons.inj same).2⟩
    | cons c other =>
      have first : mark = c := (List.cons.inj same).1
      exact absurd (first ▸ List.mem_cons_self) otherFree
  | cons c front inductionHypothesis =>
    cases other with
    | nil =>
      have first : c = mark := (List.cons.inj same).1
      exact absurd (first ▸ List.mem_cons_self) frontFree
    | cons d other =>
      obtain ⟨rfl, later⟩ := List.cons.inj same
      obtain ⟨rfl, tails⟩ := inductionHypothesis (mt (List.mem_cons_of_mem _) frontFree)
        (mt (List.mem_cons_of_mem _) otherFree) later
      exact ⟨rfl, tails⟩

/-- The blanks before a text that begins with something else can be told from the whole. -/
theorem indent_inj {left right : Nat} {first second : Char} {rest tail : List Char}
    (firstChar : first ≠ ' ') (secondChar : second ≠ ' ')
    (same : List.replicate left ' ' ++ first :: rest = List.replicate right ' ' ++ second :: tail) :
    left = right ∧ first :: rest = second :: tail := by
  induction left generalizing right with
  | zero =>
    cases right with
    | zero => exact ⟨rfl, same⟩
    | succ right => exact absurd (List.cons.inj same).1 firstChar
  | succ left inductionHypothesis =>
    cases right with
    | zero => exact absurd (List.cons.inj same).1.symm secondChar
    | succ right =>
      obtain ⟨rfl, texts⟩ := inductionHypothesis (List.cons.inj same).2
      exact ⟨rfl, texts⟩

/-- An indent is made of blanks. -/
theorem toList_indent (size : Nat) : ("".pushn ' ' size).toList = List.replicate size ' ' := by
  induction size with
  | zero => rfl
  | succ size inductionHypothesis =>
    rw [String.pushn] at inductionHypothesis ⊢
    simp [Nat.repeat, inductionHypothesis, List.replicate_succ']

/-- A number is written in digits only. -/
theorem not_mem_toDigits {c : Char} (other : c.isDigit = false) (value : Nat) :
    c ∉ Nat.toDigits 10 value := by
  intro member
  rw [Nat.isDigit_of_mem_toDigits (by decide) (by decide) member] at other
  cases other

/-- A number can be told from its digits. -/
theorem toDigits_inj {left right : Nat} (same : Nat.toDigits 10 left = Nat.toDigits 10 right) :
    left = right := by
  rw [← Nat.ofDigitChars_ten_toDigits (n := left), same, Nat.ofDigitChars_ten_toDigits]

namespace Outline

/-- The characters of a line without colours. -/
def plainChars (line : Line) : List Char :=
  (Span.renderAll .plain line).toList

/-- The lines one after the other, each with a line break behind it. -/
def unlines (lines : List (List Char)) : List Char :=
  lines.flatMap fun line => line ++ ['\n']

/-- The line is not empty and has no line break inside. -/
def IsLine (line : List Char) : Prop :=
  line ≠ [] ∧ '\n' ∉ line

/-- The outline without colours is written line by line. -/
theorem render_toList (model : Model) :
    (render .plain model).toList = unlines ((lines model).map plainChars) := by
  simp [render, renderLine, unlines, plainChars, List.flatMap_map]

/-- Lines are written after those before them. -/
theorem unlines_append (front back : List (List Char)) :
    unlines (front ++ back) = unlines front ++ unlines back :=
  List.flatMap_append

/-- The first line stands first. -/
theorem unlines_cons (line : List Char) (lines : List (List Char)) :
    unlines (line :: lines) = line ++ '\n' :: unlines lines := by
  simp [unlines]

/-- A paragraph and what follows it can be told from a text that begins with the paragraph and an
empty line. -/
theorem paragraph_inj {left right : List (List Char)} (leftLines : ∀ line ∈ left, IsLine line)
    (rightLines : ∀ line ∈ right, IsLine line) {rest tail : List Char}
    (same : unlines left ++ '\n' :: rest = unlines right ++ '\n' :: tail) :
    left = right ∧ rest = tail := by
  induction left generalizing right with
  | nil =>
    cases right with
    | nil => exact ⟨rfl, (List.cons.inj same).2⟩
    | cons line right =>
      obtain ⟨nonempty, unbroken⟩ := rightLines line List.mem_cons_self
      rw [unlines_cons, List.append_assoc, List.cons_append] at same
      exact absurd (append_mark_inj List.not_mem_nil unbroken same).1.symm nonempty
  | cons line left inductionHypothesis =>
    obtain ⟨nonempty, unbroken⟩ := leftLines line List.mem_cons_self
    rw [unlines_cons, List.append_assoc, List.cons_append] at same
    cases right with
    | nil =>
      exact absurd (append_mark_inj unbroken List.not_mem_nil same).1 nonempty
    | cons other right =>
      rw [List.forall_mem_cons] at leftLines rightLines
      rw [unlines_cons, List.append_assoc, List.cons_append] at same
      obtain ⟨rfl, later⟩ := append_mark_inj unbroken rightLines.1.2 same
      obtain ⟨rfl, tails⟩ := inductionHypothesis leftLines.2 rightLines.2 later
      exact ⟨rfl, tails⟩

/-- What the line of a type says. -/
structure Row where
  depth : Nat
  name : String
  isLeaf : Bool
  range : TagRange

namespace Row

/-- The line of a type. -/
def line (row : Row) : Line :=
  typeLine row.depth row.name row.isLeaf row.range

/-- The row can be told from its line: its name is a word, and a leaf, for which one number is
written, has one number. -/
structure Sound (row : Row) : Prop where
  word : IsWord row.name
  single : row.isLeaf = true → row.range.first = row.range.last

/-- How the numbers of a row are written. -/
def numberChars (row : Row) : List Char :=
  if row.isLeaf then Nat.toDigits 10 row.range.first
  else Nat.toDigits 10 row.range.first ++ '.' :: '.' :: Nat.toDigits 10 row.range.last

/-- A line is the blanks of its depth, the name, a blank and the numbers. -/
theorem plainChars_line (row : Row) :
    plainChars row.line =
      List.replicate (2 * row.depth) ' ' ++ (row.name.toList ++ ' ' :: row.numberChars) := by
  cases leaf : row.isLeaf with
  | true =>
    simp [plainChars, line, typeLine, numberChars, leaf, Span.renderAll, Span.render, Span.styled,
      Palette.mark, Palette.plain, toList_indent]
  | false =>
    simp [plainChars, line, typeLine, numberChars, leaf, Span.renderAll, Span.render, Span.styled,
      Palette.mark, Palette.plain, toList_indent]

/-- The numbers are written in one line. -/
theorem numberChars_unbroken (row : Row) : '\n' ∉ row.numberChars := by
  have digits := not_mem_toDigits (c := '\n') (by decide)
  rw [numberChars]
  cases row.isLeaf with
  | true => simp [digits]
  | false => simp [digits]

/-- The numbers of a row show whether it is a leaf, and what they are. -/
theorem numberChars_inj {left right : Row} (same : left.numberChars = right.numberChars) :
    left.isLeaf = right.isLeaf ∧ left.range.first = right.range.first ∧
      (left.isLeaf = false → left.range.last = right.range.last) := by
  have point := not_mem_toDigits (c := '.') (by decide)
  rw [numberChars, numberChars] at same
  cases leftLeaf : left.isLeaf with
  | true =>
    cases rightLeaf : right.isLeaf with
    | true =>
      rw [if_pos leftLeaf, if_pos rightLeaf] at same
      exact ⟨rfl, toDigits_inj same, fun impossible => by cases impossible⟩
    | false =>
      -- Only a range has points in it.
      rw [if_pos leftLeaf, if_neg (by simp [rightLeaf])] at same
      exact absurd (same ▸ by simp) (point left.range.first)
  | false =>
    cases rightLeaf : right.isLeaf with
    | true =>
      rw [if_neg (by simp [leftLeaf]), if_pos rightLeaf] at same
      exact absurd (same.symm ▸ by simp) (point right.range.first)
    | false =>
      rw [if_neg (by simp [leftLeaf]), if_neg (by simp [rightLeaf])] at same
      obtain ⟨firsts, lasts⟩ := append_mark_inj (point _) (point _) same
      exact ⟨rfl, toDigits_inj firsts, fun _ => toDigits_inj (List.cons.inj lasts).2⟩

namespace Sound

variable {left right row : Row}

/-- The text of a sound row is one line. -/
theorem isLine (sound : row.Sound) : IsLine (plainChars row.line) := by
  rw [plainChars_line]
  refine ⟨by simp, ?_⟩
  have name : '\n' ∉ row.name.toList := sound.word.not_mem rfl
  simp [name, row.numberChars_unbroken]

/-- Sound rows with the same text are the same. -/
theorem line_inj (leftSound : left.Sound) (rightSound : right.Sound)
    (same : plainChars left.line = plainChars right.line) : left = right := by
  rw [plainChars_line, plainChars_line] at same
  obtain ⟨first, rest, leftChars, firstChar⟩ := leftSound.word.exists_first
  obtain ⟨second, tail, rightChars, secondChar⟩ := rightSound.word.exists_first
  rw [leftChars, rightChars, List.cons_append, List.cons_append] at same
  obtain ⟨indents, texts⟩ := indent_inj firstChar secondChar same
  rw [← List.cons_append, ← List.cons_append, ← leftChars, ← rightChars] at texts
  obtain ⟨names, numbers⟩ := append_mark_inj (leftSound.word.not_mem rfl)
    (rightSound.word.not_mem rfl) texts
  obtain ⟨leaves, firsts, lasts⟩ := numberChars_inj numbers
  have ends : left.range.last = right.range.last := by
    cases leaf : left.isLeaf with
    | true => rw [← leftSound.single leaf, ← rightSound.single (leaves ▸ leaf), firsts]
    | false => exact lasts leaf
  have depths : left.depth = right.depth := by omega
  cases left with
  | mk leftDepth leftName leftLeaf leftRange =>
    cases right with
    | mk rightDepth rightName rightLeaf rightRange =>
      obtain rfl : leftDepth = rightDepth := depths
      obtain rfl : leftName = rightName := String.toList_inj.mp names
      obtain rfl : leftLeaf = rightLeaf := leaves
      obtain rfl : leftRange = rightRange := by
        cases leftRange
        cases rightRange
        exact congrArg₂ TagRange.mk firsts ends
      rfl

end Sound

end Row

/-- A line of a label is the label, an equals sign between blanks, and the number. -/
theorem plainChars_tagLine (entry : TagEntry) :
    plainChars (tagLine entry) =
      entry.label.toList ++ ' ' :: '=' :: ' ' :: Nat.toDigits 10 entry.value := by
  simp [plainChars, tagLine, Span.renderAll, Span.render, Span.styled, Palette.mark, Palette.plain]

/-- The text of a label that is a word is one line. -/
theorem tagLine_isLine {entry : TagEntry} (word : IsWord entry.label) :
    IsLine (plainChars (tagLine entry)) := by
  rw [plainChars_tagLine]
  refine ⟨by simp, ?_⟩
  have label : '\n' ∉ entry.label.toList := word.not_mem rfl
  simp [label, not_mem_toDigits (c := '\n') (by decide)]

/-- Labels that are words have the same text only if they and their numbers are the same. -/
theorem tagLine_inj {left right : TagEntry} (leftWord : IsWord left.label)
    (rightWord : IsWord right.label)
    (same : plainChars (tagLine left) = plainChars (tagLine right)) : left = right := by
  rw [plainChars_tagLine, plainChars_tagLine] at same
  obtain ⟨labels, rest⟩ := append_mark_inj (leftWord.not_mem rfl) (rightWord.not_mem rfl) same
  have values : left.value = right.value := toDigits_inj (by simpa using rest)
  cases left
  cases right
  exact congrArg₂ TagEntry.mk (String.toList_inj.mp labels) values

end Outline

end Taxonomy
