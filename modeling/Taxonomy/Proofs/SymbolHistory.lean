import Mathlib.Algebra.Group.Nat.Defs
import Mathlib.Data.Finset.Card
import Taxonomy.Proofs.Repetition
import Taxonomy.Symbols

/-!
# The history of a symbol table

A symbol table begins empty and is only changed by interning texts, the same text any
number of times. Its two sides agree from the start, so each of them can be told from the
other one. What interning does is therefore said of the list of texts alone: a text that is
in it changes nothing, and any other text goes to its end.

At every point of every history the list holds each text that was interned once, in the
order of the first calls. The symbol of a text is the number of texts that stand before
it. Since the list only grows at its end, no symbol and no text ever changes.
-/
namespace Taxonomy

namespace SymbolTable

variable {table : SymbolTable} {text : String}

/-- The table after interning texts in their order. -/
def internAll (table : SymbolTable) (texts : List String) : SymbolTable :=
  texts.foldl (fun reached text => (reached.intern text).2) table

/-- A text has a symbol exactly if the symbol has the text. -/
theorem lookup?_some_iff (table : SymbolTable) (text : String) (symbol : Nat) :
    table.lookup? text = some symbol ↔ table.resolve? symbol = some text :=
  table.inverse text symbol

/-- The texts without a symbol are those that are not listed. -/
theorem lookup?_none_iff (table : SymbolTable) (text : String) :
    table.lookup? text = none ↔ text ∉ table.texts := by
  rw [Option.eq_none_iff_forall_ne_some, List.mem_iff_getElem?, not_exists]
  exact forall_congr' fun symbol => not_congr (table.lookup?_some_iff text symbol)

/-- No text is listed twice, since it would have two symbols. -/
theorem texts_nodup (table : SymbolTable) : table.texts.Nodup := by
  rw [List.nodup_iff_getElem?_ne_getElem?]
  intro left right order inside same
  have found : table.texts[left]? = some table.texts[left] :=
    List.getElem?_eq_getElem (order.trans inside)
  have first := (table.lookup?_some_iff _ left).mpr found
  have second := (table.lookup?_some_iff _ right).mpr (same ▸ found)
  exact absurd (Option.some.inj (first.symm.trans second)) (Nat.ne_of_lt order)

/-- A listed text keeps its symbol, and the table stays as it is. -/
theorem intern_known {symbol : Nat} (known : table.lookup? text = some symbol) :
    table.intern text = (symbol, table) := by
  unfold intern
  split
  · next found => rw [Option.some.inj (found.symm.trans known)]
  · next unknown => simp [known] at unknown

/-- A new text extends the table. -/
theorem intern_new (fresh : text ∉ table.texts) :
    table.intern text =
      (table.texts.length, table.extend text ((table.lookup?_none_iff text).mpr fresh)) := by
  unfold intern
  split
  · next known => simp [(table.lookup?_none_iff text).mpr fresh] at known
  · rfl

/-- A new text gets the next symbol. -/
theorem intern_symbol (fresh : text ∉ table.texts) :
    (table.intern text).1 = table.texts.length := by
  rw [intern_new fresh]

/-- Interning adds a text to the list only if it is new, and then at the end. -/
theorem intern_texts (table : SymbolTable) (text : String) :
    (table.intern text).2.texts =
      if text ∈ table.texts then table.texts else table.texts ++ [text] := by
  by_cases listed : text ∈ table.texts
  · obtain ⟨symbol, found⟩ := List.mem_iff_getElem?.mp listed
    rw [intern_known ((table.lookup?_some_iff text symbol).mpr found), if_pos listed]
  · rw [intern_new listed, if_neg listed, extend]

/-- The symbol that interning gives is the one that the text has from then on. -/
theorem lookup?_intern (table : SymbolTable) (text : String) :
    (table.intern text).2.lookup? text = some (table.intern text).1 := by
  by_cases listed : text ∈ table.texts
  · obtain ⟨symbol, found⟩ := List.mem_iff_getElem?.mp listed
    have known := (table.lookup?_some_iff text symbol).mpr found
    rw [intern_known known, known]
  · rw [intern_new listed, lookup?, extend, List.lookup_cons_self]

/-- Interning goes on with the table that it has reached. -/
theorem internAll_append (table : SymbolTable) (front back : List String) :
    table.internAll (front ++ back) = (table.internAll front).internAll back :=
  List.foldl_append

/-- What one call leaves listed, all calls do. -/
theorem internAll_prefix (table : SymbolTable) (calls : List String) :
    table.texts <+: (table.internAll calls).texts := by
  induction calls generalizing table with
  | nil => exact List.prefix_rfl
  | cons text calls inductionHypothesis =>
    refine List.IsPrefix.trans ?_ (inductionHypothesis (table.intern text).2)
    rw [intern_texts]
    split
    · exact List.prefix_rfl
    · exact List.prefix_append _ _

/-- The listed texts are those that were there and those that were interned. -/
theorem mem_internAll_iff (table : SymbolTable) (calls : List String) (text : String) :
    text ∈ (table.internAll calls).texts ↔ text ∈ table.texts ∨ text ∈ calls := by
  induction calls generalizing table with
  | nil => simp [internAll]
  | cons first calls inductionHypothesis =>
    have step : text ∈ (table.intern first).2.texts ↔ text ∈ table.texts ∨ text = first := by
      rw [intern_texts]
      split
      · next listed => exact ⟨Or.inl, fun known => known.elim id fun same => same ▸ listed⟩
      · rw [List.mem_append, List.mem_singleton]
    have rest := inductionHypothesis (table.intern first).2
    rw [internAll, List.foldl_cons, ← internAll, rest, step, List.mem_cons, or_assoc]

/-- A text keeps its symbol whatever is interned later. -/
theorem lookup?_internAll {symbol : Nat} (known : table.lookup? text = some symbol)
    (calls : List String) : (table.internAll calls).lookup? text = some symbol := by
  rw [lookup?_some_iff, resolve?] at known ⊢
  obtain ⟨inside, entry⟩ := List.getElem?_eq_some_iff.mp known
  rw [List.prefix_iff_getElem?.mp (table.internAll_prefix calls) symbol inside, entry]

/-- A table that began empty lists as many texts as there are different ones among the calls. -/
theorem length_internAll (calls : List String) :
    (internAll {} calls).texts.length = calls.toFinset.card := by
  have same : (internAll {} calls).texts.toFinset = calls.toFinset := by
    ext text
    simp [mem_internAll_iff]
  rw [← same, List.toFinset_card_of_nodup (texts_nodup _)]

/-- Texts that are new and pairwise different stand last, in their order. -/
theorem internAll_new (table : SymbolTable) (texts : List String)
    (fresh : Fresh table.texts texts) :
    (table.internAll texts).texts = table.texts ++ texts := by
  induction texts generalizing table with
  | nil => simp [internAll]
  | cons text texts inductionHypothesis =>
    rw [fresh_cons_iff_append] at fresh
    have step : (table.intern text).2.texts = table.texts ++ [text] := by
      rw [intern_texts, if_neg fresh.1]
    have rest := inductionHypothesis (table.intern text).2 (step ▸ fresh.2)
    rw [internAll, List.foldl_cons, ← internAll, rest, step, List.append_assoc,
      List.singleton_append]

/-- A text gets the number of different texts before its first call. -/
theorem lookup?_first {front : List String} (first : text ∉ front) (back : List String) :
    (internAll {} (front ++ text :: back)).lookup? text = some front.toFinset.card := by
  have fresh : text ∉ (internAll {} front).texts := by
    simpa [mem_internAll_iff] using first
  have given : ((internAll {} front).intern text).1 = front.toFinset.card := by
    rw [intern_symbol fresh, length_internAll]
  rw [internAll_append, ← given]
  exact lookup?_internAll (lookup?_intern _ text) back

end SymbolTable

/-- In every history of a table, interning a text gives the number of different texts that
were interned before the first call with this text. After all further calls the symbol
still has the text and the text the symbol. A text that was never interned has no symbol,
and exactly the numbers below the number of different texts are symbols. As long as there
are fewer than `2 ^ 32` different texts, no symbol takes more than 32 bits.

Proof: interning leaves a list that has the text alone and puts the text at its end
otherwise. So the list holds the different texts of the calls in the order of their first
calls, and has as many elements as there are different texts. The symbol of a text is its
place, which is given at the first call with the text and never changes, as lists are
extended at the end only. -/
theorem symbols_are_first_occurrences (calls : List String) :
    (∀ before text after, calls = before ++ text :: after →
      ∃ symbol, ((SymbolTable.internAll {} before).intern text).1 = symbol ∧
        symbol = (calls.takeWhile (· ≠ text)).toFinset.card ∧
        (SymbolTable.internAll {} calls).resolve? symbol = some text ∧
        (SymbolTable.internAll {} calls).lookup? text = some symbol) ∧
    (∀ text, text ∉ calls → (SymbolTable.internAll {} calls).lookup? text = none) ∧
    (∀ symbol, (∃ text, (SymbolTable.internAll {} calls).resolve? symbol = some text) ↔
      symbol < calls.toFinset.card) ∧
    (calls.toFinset.card < 2 ^ 32 → ∀ text symbol,
      (SymbolTable.internAll {} calls).lookup? text = some symbol → symbol < 2 ^ 32) := by
  have symbols (symbol : Nat) :
      (∃ text, (SymbolTable.internAll {} calls).resolve? symbol = some text) ↔
        symbol < calls.toFinset.card := by
    rw [← SymbolTable.length_internAll]
    constructor
    · rintro ⟨text, found⟩
      exact (List.getElem?_eq_some_iff.mp found).1
    · intro inside
      exact ⟨_, List.getElem?_eq_getElem inside⟩
  refine ⟨?_, ?_, symbols, ?_⟩
  · rintro before text after split
    refine ⟨_, rfl, ?_⟩
    have listed : text ∈ calls := split ▸ List.mem_append_right before List.mem_cons_self
    have kept : (SymbolTable.internAll {} calls).lookup? text =
        some ((SymbolTable.internAll {} before).intern text).1 := by
      rw [split, SymbolTable.internAll_append]
      exact SymbolTable.lookup?_internAll (SymbolTable.lookup?_intern _ text) after
    -- The first call with the text is this one or an earlier one.
    obtain ⟨front, back, firstSplit, first⟩ := List.eq_append_cons_of_mem listed
    have earlier : calls.takeWhile (· ≠ text) = front := by
      have others : ∀ other ∈ front, decide (other ≠ text) = true := by
        intro other member
        exact decide_eq_true fun same => first (same ▸ member)
      rw [firstSplit, List.takeWhile_append_of_pos others, List.takeWhile_cons_of_neg (by simp),
        List.append_nil]
    have counted : (SymbolTable.internAll {} calls).lookup? text =
        some front.toFinset.card := by
      rw [firstSplit]
      exact SymbolTable.lookup?_first first back
    refine ⟨?_, (SymbolTable.lookup?_some_iff _ text _).mp kept, kept⟩
    rw [earlier]
    exact Option.some.inj (kept.symm.trans counted)
  · intro text absent
    rw [SymbolTable.lookup?_none_iff, SymbolTable.mem_internAll_iff]
    simpa using absent
  · intro few text symbol known
    have found := (SymbolTable.lookup?_some_iff _ text symbol).mp known
    exact ((symbols symbol).mp ⟨text, found⟩).trans few

/-- A tune of three different notes, one of which comes back. -/
def tuneCalls : List String :=
  ["re", "do", "re", "mi", "do"]

/-- The last note of the tune has the symbol of its first appearance, which is also that of
the second call. A note that is not played has no symbol, and there are three symbols. -/
theorem symbols_of_tune :
    ((SymbolTable.internAll {} ["re", "do", "re", "mi"]).intern "do").1 = 1 ∧
      (SymbolTable.internAll {} tuneCalls).resolve? 1 = some "do" ∧
      (SymbolTable.internAll {} tuneCalls).lookup? "do" = some 1 ∧
      (SymbolTable.internAll {} tuneCalls).lookup? "fa" = none ∧
      (∃ text, (SymbolTable.internAll {} tuneCalls).resolve? 2 = some text) ∧
      1 < 2 ^ 32 := by
  obtain ⟨calls, unknown, symbols, narrow⟩ := symbols_are_first_occurrences tuneCalls
  obtain ⟨symbol, given, earlier, text, known⟩ := calls ["re", "do", "re", "mi"] "do" [] rfl
  have count : tuneCalls.toFinset.card = 3 := by decide
  obtain rfl : symbol = 1 := earlier.trans (by decide)
  exact ⟨given, text, known, unknown "fa" (by decide), (symbols 2).mpr (by omega),
    narrow (by omega) "do" 1 known⟩

end Taxonomy
