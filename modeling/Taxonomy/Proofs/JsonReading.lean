import Taxonomy.Proofs.JsonText

/-!
# What the reader accepts

A JSON text says a value, in which any numeral may stand for a number and containers may nest as
deep as they like. The reader has two limits: it takes no number that a double cannot hold, and no
container beyond a certain depth. A text that keeps within them is readable.

If a text is readable, then its tokens are those of the value that was read, and if it says a
value, then that value was read.
-/
namespace Taxonomy.Json

/-- The ways to spell a token, among them all numerals of a number. -/
inductive Token.Spelled : Token → List Char → Prop
  | written {token : Token} {spelled : List Char} (written : token.Written spelled) :
      Spelled token spelled
  | numeral (numeral : Numeral) : Spelled (.number numeral.number) numeral.text

/-- The ways to spell tokens one after the other, with blanks around them. -/
inductive TokensSpelled : List Token → List Char → Prop
  | nil {blanks : List Char} (blank : Blank blanks) : TokensSpelled [] blanks
  | cons {token : Token} {rest : List Token} {blanks spelled tail : List Char}
      (blank : Blank blanks) (first : token.Spelled spelled) (more : TokensSpelled rest tail) :
      TokensSpelled (token :: rest) (blanks ++ (spelled ++ tail))

/-- The text says the value. -/
structure Value.SaidBy (value : Value) (text : String) : Prop where
  whole : value.whole = .ok ()
  spelled : TokensSpelled value.toTokens text.toList

/-- The reader gets through the text without a break. -/
def Readable (text : String) : Prop :=
  ∃ value, Value.ofText text = (value, []) ∧ value.whole = .ok ()

/-! ## Tokens -/

/-- A spelled token begins with a character that is no blank. It is read back, unless it is a
number that no double can hold. -/
theorem Token.Spelled.read {token : Token} {spelled tail : List Char}
    (isSpelled : token.Spelled spelled) (stops : token.isNumber = true → StopsNumber tail) :
    ∃ c more, spelled = c :: more ∧ isBlank c = false ∧
      (Token.read c (more ++ tail) = (token, tail) ∨
        ∃ why, Token.read c (more ++ tail) = (.broken why, [])) := by
  cases isSpelled with
  | written written =>
    obtain ⟨c, more, begins, notBlank, read⟩ := written.read stops
    exact ⟨c, more, begins, notBlank, .inl read⟩
  | numeral numeral =>
    obtain ⟨c, more, begins, notBlank, read⟩ := numeral.read_token (stops rfl)
    refine ⟨c, more, begins, notBlank, ?_⟩
    rw [read]
    rcases numeral.parts_number with parts | parts
    · exact .inl (by rw [parts])
    · exact .inr ⟨.malformed, by rw [parts]⟩

/-- A number ends before any spelling of another token. -/
theorem Token.Spelled.stops {token : Token} {spelled : List Char}
    (isSpelled : token.Spelled spelled) (notNumber : token.isNumber = false) (tail : List Char) :
    StopsNumber (spelled ++ tail) := by
  cases isSpelled with
  | written written => exact written.stops notNumber tail
  | numeral numeral => exact absurd notNumber (by simp [Token.isNumber])

/-- A number ends before other tokens, unless they begin with a number. -/
theorem TokensSpelled.stops {ts : List Token} {cs : List Char} (spelled : TokensSpelled ts cs)
    (notNumber : ∀ token ∈ ts.head?, token.isNumber = false) : StopsNumber cs := by
  cases spelled with
  | nil blank => exact blank.stops_end
  | cons blank first more => exact blank.stops (first.stops (notNumber _ rfl) _)

/-- What is written is spelled. -/
theorem TokensWritten.spelled {ts : List Token} {cs : List Char} (written : TokensWritten ts cs) :
    TokensSpelled ts cs := by
  induction written with
  | nil blank => exact .nil blank
  | cons blank first _ inductionHypothesis => exact .cons blank (.written first) inductionHypothesis

/-- The tokens of a text are those that it spells, unless there is a break among them. -/
theorem TokensSpelled.read {ts : List Token} {cs : List Char} (spelled : TokensSpelled ts cs)
    (detached : Detached ts) : tokens cs = ts ∨ ∃ why, Token.broken why ∈ tokens cs := by
  induction spelled with
  | @nil blanks blank =>
    have skipped := tokens_blank blank []
    rw [List.append_nil, tokens] at skipped
    exact .inl skipped
  | @cons token rest blanks spelled tail blank first more inductionHypothesis =>
    obtain ⟨apart, restDetached⟩ := List.isChain_cons.mp detached
    obtain ⟨c, others, rfl, notBlank, read⟩ := first.read fun isNumber =>
      more.stops fun next member => apart next member isNumber
    rw [List.cons_append, tokens_begin blank notBlank]
    rcases read with whole | ⟨why, broken⟩
    · rw [whole]
      rcases inductionHypothesis restDetached with same | ⟨why, member⟩
      · exact .inl (by rw [same])
      · exact .inr ⟨why, List.mem_cons_of_mem token member⟩
    · exact .inr ⟨why, by simp [broken]⟩

/-! ## Values -/

namespace Value

/-- A container that is whole is closed. -/
theorem check_ok_iff (ending : Ending) : ending.check = .ok () ↔ ending = .closed := by
  cases ending <;> simp [Ending.check]

/-- An array is whole if it is closed and its items are whole. -/
theorem whole_array_iff (items : List Value) (ending : Ending) :
    (Value.array items ending).whole = .ok () ↔
      (∀ item ∈ items, item.whole = .ok ()) ∧ ending = .closed := by
  rw [whole, Outcome.check_ok_iff, wholeItems_ok_iff, check_ok_iff]

/-- An object is whole if it is closed and its values are whole. -/
theorem whole_object_iff (entries : List (String × Value)) (ending : Ending) :
    (Value.object entries ending).whole = .ok () ↔
      (∀ entry ∈ entries, entry.2.whole = .ok ()) ∧ ending = .closed := by
  rw [whole, Outcome.check_ok_iff, wholeEntries_ok_iff, check_ok_iff]

/-- More room does no harm. -/
theorem Held.mono {room more : Nat} {value : Value} (held : value.Held room)
    (larger : room ≤ more) : value.Held more := by
  induction held generalizing more with
  | null => exact .null
  | boolean value => exact .boolean value
  | number value => exact .number value
  | text content => exact .text content
  | array _ inductionHypothesis =>
    obtain ⟨more, rfl⟩ : ∃ inner, more = inner + 1 := ⟨more - 1, by omega⟩
    exact .array fun item member => inductionHypothesis item member (by omega)
  | object _ inductionHypothesis =>
    obtain ⟨more, rfl⟩ : ∃ inner, more = inner + 1 := ⟨more - 1, by omega⟩
    exact .object fun entry member => inductionHypothesis entry member (by omega)

/-- There is enough room for several values if there is for each of them. -/
theorem exists_room {values : List Value} (each : ∀ value ∈ values, ∃ room, value.Held room) :
    ∃ room, ∀ value ∈ values, value.Held room := by
  induction values with
  | nil => exact ⟨0, by simp⟩
  | cons value values inductionHypothesis =>
    obtain ⟨⟨room, held⟩, others⟩ := List.forall_mem_cons.mp each
    obtain ⟨more, othersHeld⟩ := inductionHypothesis others
    refine ⟨max room more, List.forall_mem_cons.mpr ⟨held.mono (Nat.le_max_left ..), ?_⟩⟩
    exact fun other member => (othersHeld other member).mono (Nat.le_max_right ..)

/-- There is enough room for a value without a break. -/
theorem exists_held (value : Value) (whole : value.whole = .ok ()) : ∃ room, value.Held room := by
  match value, whole with
  | .null, _ => exact ⟨0, .null⟩
  | .boolean value, _ => exact ⟨0, .boolean value⟩
  | .number value, _ => exact ⟨0, .number value⟩
  | .text content, _ => exact ⟨0, .text content⟩
  | .array items ending, whole =>
    obtain ⟨each, rfl⟩ := (whole_array_iff items ending).mp whole
    obtain ⟨room, held⟩ := exists_room fun item member => exists_held item (each item member)
    exact ⟨room + 1, .array held⟩
  | .object entries ending, whole =>
    obtain ⟨each, rfl⟩ := (whole_object_iff entries ending).mp whole
    obtain ⟨room, held⟩ : ∃ room, ∀ value ∈ entries.map Prod.snd, value.Held room := by
      refine exists_room fun value member => ?_
      obtain ⟨entry, listed, rfl⟩ := List.mem_map.mp member
      exact exists_held entry.2 (each entry listed)
    exact ⟨room + 1, .object fun entry member => held entry.2 (List.mem_map_of_mem member)⟩
termination_by sizeOf value
decreasing_by
  · have smaller := List.sizeOf_lt_of_mem member
    simp only [Value.array.sizeOf_spec]
    omega
  · have smaller := List.sizeOf_lt_of_mem listed
    obtain ⟨key, value⟩ := entry
    simp only [Prod.mk.sizeOf_spec, Value.object.sizeOf_spec] at smaller ⊢
    omega

/-- Whole values with the same tokens are the same. -/
theorem Held.toTokens_injective {room other : Nat} {left right : Value} (held : left.Held room)
    (heldRight : right.Held other) (same : left.toTokens = right.toTokens) : left = right := by
  have readLeft := (held.mono (Nat.le_max_left room other)).taken []
  have readRight := (heldRight.mono (Nat.le_max_right room other)).taken []
  rw [same, readRight] at readLeft
  exact (Prod.mk.inj readLeft).1.symm

/-- There is no break among the tokens of a whole value. -/
theorem Held.unbroken {room : Nat} {value : Value} (held : value.Held room) (why : Break) :
    ∀ token ∈ value.toTokens, token ≠ .broken why := by
  induction held with
  | null | boolean | number | text => simp [toTokens]
  | @array room items _ inductionHypothesis =>
    cases items with
    | nil => simp [toTokens]
    | cons item items =>
      obtain ⟨first, others⟩ := List.forall_mem_cons.mp inductionHypothesis
      rw [toTokens, List.forall_mem_cons, List.forall_mem_append]
      exact ⟨by simp, first, forall_moreItems (by simp) (by simp) others⟩
  | @object room entries _ inductionHypothesis =>
    cases entries with
    | nil => simp [toTokens]
    | cons entry entries =>
      obtain ⟨first, others⟩ := List.forall_mem_cons.mp inductionHypothesis
      simp only [toTokens, List.forall_mem_cons, List.forall_mem_append]
      refine ⟨by simp, by simp, by simp, first, ?_⟩
      exact forall_moreEntries (by simp) (by simp) (by simp) (by simp) others

/-- If the reader takes a whole value off some tokens, then they begin with the tokens of the
value, and the value nests at most as deep as the given number. -/
def Faithful (reader : Reader) (room : Nat) : Prop :=
  ∀ {ts value rest}, reader ts = (value, rest) → value.whole = .ok () →
    ts = value.toTokens ++ rest ∧ value.Held room

section Faithful

variable {reader : Reader} {room : Nat}

/-- Whole items of a closed array have been read from their own tokens. The induction is on the
rounds: each one takes an item and what separates it from the next. -/
theorem readItems_faithful (faithful : Faithful reader room) {rounds : Nat} {ts : List Token}
    {items : List Value} {rest : List Token}
    (read : readItems reader rounds ts = (items, .closed, rest))
    (whole : ∀ item ∈ items, item.whole = .ok ()) :
    ∃ item others, items = item :: others ∧ ts = item.toTokens ++ (moreItems others ++ rest) ∧
      ∀ item ∈ items, item.Held room := by
  induction rounds generalizing ts items with
  | zero => simp [readItems] at read
  | succ rounds inductionHypothesis =>
    obtain ⟨value, behind, first⟩ : ∃ value behind, reader ts = (value, behind) := ⟨_, _, rfl⟩
    simp only [readItems, first] at read
    split at read
    · -- The item is the last one.
      obtain ⟨rfl, _, rfl⟩ : [value] = items ∧ True ∧ _ = rest := by simpa using read
      obtain ⟨begins, held⟩ := faithful first (whole value List.mem_cons_self)
      exact ⟨value, [], rfl, by rw [begins]; rfl, by simpa using held⟩
    · simp at read
    · simp at read
    · rename_i later _ _
      obtain ⟨values, ending, last, more⟩ :
          ∃ values ending last, readItems reader rounds later = (values, ending, last) :=
        ⟨_, _, _, rfl⟩
      simp only [more, Prod.mk.injEq] at read
      obtain ⟨rfl, rfl, rfl⟩ := read
      obtain ⟨firstWhole, othersWhole⟩ := List.forall_mem_cons.mp whole
      obtain ⟨begins, held⟩ := faithful first firstWhole
      obtain ⟨next, others, rfl, rfl, othersHeld⟩ := inductionHypothesis more othersWhole
      refine ⟨value, next :: others, rfl, ?_, List.forall_mem_cons.mpr ⟨held, othersHeld⟩⟩
      rw [begins, moreItems, List.cons_append, List.append_assoc]
    · simp at read

/-- A whole array has been read from its own tokens, and has room for one more level than its items.
-/
theorem readArray_faithful (faithful : Faithful reader room) {ts : List Token}
    {items : List Value} {rest : List Token} (read : readArray reader ts = (items, .closed, rest))
    (whole : ∀ item ∈ items, item.whole = .ok ()) :
    .openArray :: ts = (Value.array items .closed).toTokens ++ rest ∧
      (Value.array items .closed).Held (room + 1) := by
  unfold readArray at read
  split at read
  · simp at read
  · obtain ⟨rfl, _, rfl⟩ : [] = items ∧ True ∧ _ = rest := by simpa using read
    exact ⟨rfl, .array fun _ member => absurd member List.not_mem_nil⟩
  · obtain ⟨item, others, rfl, rfl, held⟩ := readItems_faithful faithful read whole
    exact ⟨by rw [toTokens, List.cons_append, List.append_assoc], .array held⟩

/-- A whole value of an entry stands behind a colon. -/
theorem readEntryValue_faithful (faithful : Faithful reader room) {ts : List Token} {value : Value}
    {rest : List Token} (read : readEntryValue reader ts = (value, rest))
    (whole : value.whole = .ok ()) :
    ts = .colon :: (value.toTokens ++ rest) ∧ value.Held room := by
  unfold readEntryValue at read
  split at read
  · obtain ⟨rfl, held⟩ := faithful read whole
    exact ⟨rfl, held⟩
  · obtain ⟨rfl, _⟩ := Prod.mk.inj read
    simp [Value.whole] at whole

/-- Whole entries of a closed object have been read from their own tokens, like the items of an
array. The first key has been read before. -/
theorem readEntries_faithful (faithful : Faithful reader room) {rounds : Nat} {key : String}
    {ts : List Token} {entries : List (String × Value)} {rest : List Token}
    (read : readEntries reader rounds key ts = (entries, .closed, rest))
    (whole : ∀ entry ∈ entries, entry.2.whole = .ok ()) :
    ∃ value others, entries = (key, value) :: others ∧
      ts = .colon :: (value.toTokens ++ (moreEntries others ++ rest)) ∧
        ∀ entry ∈ entries, entry.2.Held room := by
  induction rounds generalizing key ts entries with
  | zero => simp [readEntries] at read
  | succ rounds inductionHypothesis =>
    obtain ⟨value, behind, first⟩ :
      ∃ value behind, readEntryValue reader ts = (value, behind) := ⟨_, _, rfl⟩
    simp only [readEntries, first] at read
    split at read
    · -- The entry is the last one.
      obtain ⟨rfl, _, rfl⟩ : [(key, value)] = entries ∧ True ∧ _ = rest := by simpa using read
      obtain ⟨begins, held⟩ := readEntryValue_faithful faithful first (whole _ List.mem_cons_self)
      exact ⟨value, [], rfl, by rw [begins]; rfl, by simpa using held⟩
    · rename_i next later
      obtain ⟨others, ending, last, more⟩ :
          ∃ others ending last, readEntries reader rounds next later = (others, ending, last) :=
        ⟨_, _, _, rfl⟩
      simp only [more, Prod.mk.injEq] at read
      obtain ⟨rfl, rfl, rfl⟩ := read
      obtain ⟨firstWhole, othersWhole⟩ := List.forall_mem_cons.mp whole
      obtain ⟨begins, held⟩ := readEntryValue_faithful faithful first firstWhole
      obtain ⟨content, others, rfl, rfl, othersHeld⟩ := inductionHypothesis more othersWhole
      refine ⟨value, (next, content) :: others, rfl, ?_,
        List.forall_mem_cons.mpr ⟨held, othersHeld⟩⟩
      rw [begins, moreEntries]
      simp only [List.cons_append, List.append_assoc]
    · simp at read
    · simp at read
    · simp at read

/-- A whole object has been read from its own tokens, like an array. -/
theorem readObject_faithful (faithful : Faithful reader room) {ts : List Token}
    {entries : List (String × Value)} {rest : List Token}
    (read : readObject reader ts = (entries, .closed, rest))
    (whole : ∀ entry ∈ entries, entry.2.whole = .ok ()) :
    .openObject :: ts = (Value.object entries .closed).toTokens ++ rest ∧
      (Value.object entries .closed).Held (room + 1) := by
  unfold readObject at read
  split at read
  · simp at read
  · obtain ⟨rfl, _, rfl⟩ : [] = entries ∧ True ∧ _ = rest := by simpa using read
    exact ⟨rfl, .object fun _ member => absurd member List.not_mem_nil⟩
  · obtain ⟨value, others, rfl, rfl, held⟩ := readEntries_faithful faithful read whole
    exact ⟨by simp [toTokens], .object held⟩
  · simp at read
  · simp at read

end Faithful

/-- A reader of values is faithful if the one that it reads parts with is, with less room. -/
theorem readValue_faithful {inner : Option Reader} {room : Nat}
    (parts : ∀ reader ∈ inner, ∃ less, room = less + 1 ∧ Faithful reader less) :
    Faithful (readValue inner) room := by
  intro ts value rest read whole
  unfold readValue at read
  -- The cases that are not named end in a break, which is not whole.
  split at read
  case h_2 | h_3 | h_4 | h_5 =>
    obtain ⟨rfl, rfl⟩ := Prod.mk.inj read
    exact ⟨rfl, by constructor⟩
  case h_6 later =>
    cases inner with
    | none =>
      obtain ⟨rfl, _⟩ := Prod.mk.inj read
      simp [whole_array_iff] at whole
    | some reader =>
      obtain ⟨less, rfl, faithful⟩ := parts reader rfl
      obtain ⟨items, ending, last, array⟩ :
        ∃ items ending last, readArray reader later = (items, ending, last) := ⟨_, _, _, rfl⟩
      simp only [array, Prod.mk.injEq] at read
      obtain ⟨rfl, rfl⟩ := read
      obtain ⟨each, rfl⟩ := (whole_array_iff items ending).mp whole
      exact readArray_faithful faithful array each
  case h_7 later =>
    cases inner with
    | none =>
      obtain ⟨rfl, _⟩ := Prod.mk.inj read
      simp [whole_object_iff] at whole
    | some reader =>
      obtain ⟨less, rfl, faithful⟩ := parts reader rfl
      obtain ⟨entries, ending, last, object⟩ :
        ∃ entries ending last, readObject reader later = (entries, ending, last) := ⟨_, _, _, rfl⟩
      simp only [object, Prod.mk.injEq] at read
      obtain ⟨rfl, rfl⟩ := read
      obtain ⟨each, rfl⟩ := (whole_object_iff entries ending).mp whole
      exact readObject_faithful faithful object each
  all_goals
    obtain ⟨rfl, _⟩ := Prod.mk.inj read
    simp [Value.whole] at whole

/-- The reader of values is faithful. -/
theorem read_faithful (room : Nat) : Faithful (Value.read room) room := by
  induction room with
  | zero => exact readValue_faithful (by simp)
  | succ room inductionHypothesis =>
    refine readValue_faithful fun reader member => ?_
    obtain rfl : Value.read room = reader := Option.some.inj member
    exact ⟨room, rfl, inductionHypothesis⟩

/-- If a text that says a value is readable, then that value is read. -/
theorem SaidBy.read {value : Value} {text : String} (said : value.SaidBy text)
    (readable : Readable text) : Value.ofText text = (value, []) := by
  obtain ⟨found, read, whole⟩ := readable
  obtain ⟨begins, held⟩ := read_faithful maxDepth read whole
  rw [List.append_nil] at begins
  -- The value that the text says may nest deeper than the reader goes, as far as is known here.
  obtain ⟨room, valueHeld⟩ := exists_held value said.whole
  have same : value.toTokens = found.toTokens := by
    rcases said.spelled.read valueHeld.detached with same | ⟨why, broken⟩
    · rw [← same, begins]
    · exact absurd rfl (held.unbroken why _ (begins ▸ broken))
  rw [read, valueHeld.toTokens_injective held same]

end Value

end Taxonomy.Json
