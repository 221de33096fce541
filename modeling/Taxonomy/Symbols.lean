/-!
# Symbol tables

A symbol table numbers texts by the order of their first appearance. A text
keeps its number, and a number its text, however the table grows. The table can
be asked from both sides: for the symbol of a text, and for the text of a symbol.
-/
namespace Taxonomy

/-- As long as there are no texts, no text has a symbol and no symbol has a text. -/
theorem SymbolTable.empty_inverse (text : String) (symbol : Nat) :
    ([] : List (String × Nat)).lookup text = some symbol ↔
      ([] : List String)[symbol]? = some text := by
  simp

/-- Texts with their symbols. -/
structure SymbolTable where
  /-- The symbol of each text. -/
  symbols : List (String × Nat) := []
  /-- The texts in the order of their symbols. -/
  texts : List String := []
  /-- The two sides agree. -/
  inverse : ∀ text symbol, symbols.lookup text = some symbol ↔ texts[symbol]? = some text := by
    exact SymbolTable.empty_inverse
deriving DecidableEq, Repr

namespace SymbolTable

/-- The symbol of a text, if the text is in the table. -/
def lookup? (table : SymbolTable) (text : String) : Option Nat :=
  table.symbols.lookup text

/-- The text of a symbol, if the symbol was handed out. -/
def resolve? (table : SymbolTable) (symbol : Nat) : Option String :=
  table.texts[symbol]?

/-- The table with a new text, which gets the next symbol. -/
def extend (table : SymbolTable) (text : String) (unknown : table.lookup? text = none) :
    SymbolTable where
  symbols := (text, table.texts.length) :: table.symbols
  texts := table.texts ++ [text]
  inverse other symbol := by
    have absent : table.texts[symbol]? ≠ some text := by
      intro found
      rw [lookup?, (table.inverse text symbol).mpr found] at unknown
      cases unknown
    rw [List.getElem?_append, List.getElem?_singleton]
    by_cases same : other = text
    · rw [same, List.lookup_cons_self]
      grind
    · rw [List.lookup_cons, beq_false_of_ne same, table.inverse]
      grind

/-- The symbol of a text and the table that holds it. A text that is new gets
the next symbol. -/
def intern (table : SymbolTable) (text : String) : Nat × SymbolTable :=
  match unknown : table.lookup? text with
  | some symbol => (symbol, table)
  | none => (table.texts.length, table.extend text unknown)

end SymbolTable

end Taxonomy
