import Mathlib.Data.List.Chain
import Mathlib.Tactic.FinCases
import Taxonomy.Json.Value
import Taxonomy.Proofs.JsonNumerals
import Taxonomy.Proofs.Outcome

/-!
# Texts of JSON values

How a value is written is said here without a reader. A value is a sequence of tokens,
a token is spelled in one of several ways, and blanks may stand before, between and
behind the tokens. Strings have the most freedom: a character may stand for itself, be
escaped by a letter, or be given by its code units.

Whatever spelling is chosen, the reader finds the tokens and then the value. Only whole
values are considered, whose arrays and objects are closed. Of numbers, only natural ones are
written here: a document has no others.
-/
namespace Taxonomy.Json

/-- The hexadecimal digit of a value, in either case. -/
def IsHexDigit (digit : Char) (value : Nat) : Prop :=
  value < 16 ∧ (digit = value.digitChar ∨ digit = value.digitChar.toUpper)

instance (digit : Char) (value : Nat) : Decidable (IsHexDigit digit value) :=
  inferInstanceAs (Decidable (_ ∧ _))

/-- Four hexadecimal digits write a code unit. -/
inductive UnitWritten : Nat → List Char → Prop
  | digits {a b c d : Char} {first second third fourth : Nat} (one : IsHexDigit a first)
      (two : IsHexDigit b second) (three : IsHexDigit c third) (four : IsHexDigit d fourth) :
      UnitWritten (((first * 16 + second) * 16 + third) * 16 + fourth) [a, b, c, d]

/-- The letters that follow a backslash, with the characters they stand for. -/
def escapeLetters : List (Char × Char) :=
  [('"', '"'), ('\\', '\\'), ('/', '/'), ('b', '\x08'), ('f', '\x0c'), ('n', '\n'), ('r', '\r'),
    ('t', '\t')]

/-- The ways to write a character of a string. -/
inductive CharWritten (c : Char) : List Char → Prop
  /-- As itself, if it is no control character, quote or backslash. -/
  | plain (printable : ' ' ≤ c) (noQuote : c ≠ '"') (noBackslash : c ≠ '\\') : CharWritten c [c]
  /-- By a letter. -/
  | letter {letter : Char} (listed : (letter, c) ∈ escapeLetters) : CharWritten c ['\\', letter]
  /-- By its code unit. -/
  | unit {digits : List Char} (written : UnitWritten c.toNat digits) :
      CharWritten c ('\\' :: 'u' :: digits)
  /-- By a pair of code units, if one is not enough. -/
  | pair {high low : List Char} (beyond : 0x10000 ≤ c.toNat)
      (first : UnitWritten (0xd800 + (c.toNat - 0x10000) / 0x400) high)
      (second : UnitWritten (0xdc00 + (c.toNat - 0x10000) % 0x400) low) :
      CharWritten c ('\\' :: 'u' :: high ++ '\\' :: 'u' :: low)

/-- The ways to write the characters of a string one after the other. -/
inductive CharsWritten : List Char → List Char → Prop
  | nil : CharsWritten [] []
  | cons {c : Char} {content spelled body : List Char} (first : CharWritten c spelled)
      (rest : CharsWritten content body) : CharsWritten (c :: content) (spelled ++ body)

/-- The ways to write a token. -/
inductive Token.Written : Token → List Char → Prop
  | openArray : Written .openArray ['[']
  | closeArray : Written .closeArray [']']
  | openObject : Written .openObject ['\x7b']
  | closeObject : Written .closeObject ['\x7d']
  | colon : Written .colon [':']
  | comma : Written .comma [',']
  | null : Written .null ['n', 'u', 'l', 'l']
  | yes : Written (.boolean true) ['t', 'r', 'u', 'e']
  | no : Written (.boolean false) ['f', 'a', 'l', 's', 'e']
  /-- A number has one decimal writing. -/
  | number {value : Nat} (bounded : value < 2 ^ 64) :
      Written (.number (.natural value)) (Nat.toDigits 10 value)
  | text {content : String} {body : List Char} (written : CharsWritten content.toList body) :
      Written (.text content) ('"' :: body ++ ['"'])

/-- Spaces, tabs and ends of lines. -/
def Blank (cs : List Char) : Prop :=
  ∀ c ∈ cs, c ∈ [' ', '\t', '\n', '\r']

/-- There may be no blanks at all. -/
theorem Blank.nil : Blank [] :=
  fun _ member => absurd member List.not_mem_nil

/-- The ways to write tokens one after the other, with blanks around them. -/
inductive TokensWritten : List Token → List Char → Prop
  | nil {blanks : List Char} (blank : Blank blanks) : TokensWritten [] blanks
  | cons {token : Token} {rest : List Token} {blanks spelled tail : List Char}
      (blank : Blank blanks) (first : token.Written spelled) (more : TokensWritten rest tail) :
      TokensWritten (token :: rest) (blanks ++ (spelled ++ tail))

mutual

/-- The tokens of a value whose arrays and objects are closed. -/
def Value.toTokens : Value → List Token
  | .null => [.null]
  | .boolean value => [.boolean value]
  | .number value => [.number value]
  | .text content => [.text content]
  | .array [] _ => [.openArray, .closeArray]
  | .array (item :: items) _ => .openArray :: (item.toTokens ++ moreItems items)
  | .object [] _ => [.openObject, .closeObject]
  | .object ((key, value) :: entries) _ =>
    .openObject :: .text key :: .colon :: (value.toTokens ++ moreEntries entries)
  | .garbled _ => []
  | .broken _ => []

/-- The tokens behind an item of an array, given the items that follow. -/
def moreItems : List Value → List Token
  | [] => [.closeArray]
  | item :: items => .comma :: (item.toTokens ++ moreItems items)

/-- The tokens behind an entry of an object, given the entries that follow. -/
def moreEntries : List (String × Value) → List Token
  | [] => [.closeObject]
  | (key, value) :: entries =>
    .comma :: .text key :: .colon :: (value.toTokens ++ moreEntries entries)

end

/-- The text writes the value. -/
def Value.WrittenAs (value : Value) (text : String) : Prop :=
  TokensWritten value.toTokens text.toList

/-- The value is whole, and its containers nest at most as deep as the given number. -/
inductive Value.Held : Nat → Value → Prop
  | null {room : Nat} : Held room .null
  | boolean {room : Nat} (value : Bool) : Held room (.boolean value)
  | number {room : Nat} (value : Number) : Held room (.number value)
  | text {room : Nat} (content : String) : Held room (.text content)
  | array {room : Nat} {items : List Value} (each : ∀ item ∈ items, Held room item) :
      Held (room + 1) (.array items .closed)
  | object {room : Nat} {entries : List (String × Value)}
      (each : ∀ entry ∈ entries, Held room entry.2) : Held (room + 1) (.object entries .closed)

/-- The value is whole, its numbers are natural and fit into 64 bits, and its containers nest
at most as deep as the given number. -/
inductive Value.Fits : Nat → Value → Prop
  | null {room : Nat} : Fits room .null
  | boolean {room : Nat} (value : Bool) : Fits room (.boolean value)
  | number {room value : Nat} (bounded : value < 2 ^ 64) : Fits room (.number (.natural value))
  | text {room : Nat} (content : String) : Fits room (.text content)
  | array {room : Nat} {items : List Value} (each : ∀ item ∈ items, Fits room item) :
      Fits (room + 1) (.array items .closed)
  | object {room : Nat} {entries : List (String × Value)}
      (each : ∀ entry ∈ entries, Fits room entry.2) : Fits (room + 1) (.object entries .closed)

/-! ## Strings -/

/-- A hexadecimal digit has its value. -/
theorem IsHexDigit.value {digit : Char} {value : Nat} (written : IsHexDigit digit value) :
    hexValue? digit = some value := by
  have lower : ∀ value < 16, hexValue? value.digitChar = some value := by decide
  have upper : ∀ value < 16, hexValue? value.digitChar.toUpper = some value := by decide
  obtain ⟨small, rfl | rfl⟩ := written
  · exact lower value small
  · exact upper value small

/-- Four digits give their code unit back, whatever follows them. -/
theorem UnitWritten.read {unit : Nat} {digits : List Char} (written : UnitWritten unit digits)
    (tail : List Char) : codeUnit (digits ++ tail) = .ok (unit, tail) := by
  obtain ⟨one, two, three, four⟩ := written
  simp [codeUnit, one.value, two.value, three.value, four.value]

/-- The halves of pairs are no characters. -/
theorem toNat_not_surrogate (c : Char) : c.toNat < 0xd800 ∨ 0xdfff < c.toNat ∧ c.toNat < 0x110000 :=
  c.valid

/-- A pair of code units gives its character back. -/
theorem pairedChar_halves (c : Char) (beyond : 0x10000 ≤ c.toNat) :
    pairedChar (0xd800 + (c.toNat - 0x10000) / 0x400) (0xdc00 + (c.toNat - 0x10000) % 0x400) =
      c := by
  have sum : 0x10000 + (0xd800 + (c.toNat - 0x10000) / 0x400 - 0xd800) * 0x400 +
      (0xdc00 + (c.toNat - 0x10000) % 0x400 - 0xdc00) = c.toNat := by
    omega
  rw [pairedChar, sum, Char.ofNat_toNat]

/-- One code unit outside the halves of pairs is read as its character. -/
theorem numberedChar_unit {c : Char} {digits : List Char} (written : UnitWritten c.toNat digits)
    (tail : List Char) : numberedChar (digits ++ tail) = .ok (c, tail) := by
  have outside := toNat_not_surrogate c
  have notLow : isLowSurrogate c.toNat = false := by
    simp only [isLowSurrogate, Bool.and_eq_false_iff, decide_eq_false_iff_not]
    omega
  have notHigh : isHighSurrogate c.toNat = false := by
    simp only [isHighSurrogate, Bool.and_eq_false_iff, decide_eq_false_iff_not]
    omega
  simp [numberedChar, written.read, bind, Except.bind, notLow, notHigh, Char.ofNat_toNat]

/-- A pair of code units is read as its character. -/
theorem numberedChar_pair {c : Char} {high low : List Char} (beyond : 0x10000 ≤ c.toNat)
    (first : UnitWritten (0xd800 + (c.toNat - 0x10000) / 0x400) high)
    (second : UnitWritten (0xdc00 + (c.toNat - 0x10000) % 0x400) low) (tail : List Char) :
    numberedChar (high ++ '\\' :: 'u' :: (low ++ tail)) = .ok (c, tail) := by
  have bounded := toNat_not_surrogate c
  have notLow : isLowSurrogate (0xd800 + (c.toNat - 0x10000) / 0x400) = false := by
    simp only [isLowSurrogate, Bool.and_eq_false_iff, decide_eq_false_iff_not]
    omega
  have isHigh : isHighSurrogate (0xd800 + (c.toNat - 0x10000) / 0x400) = true := by
    simp only [isHighSurrogate, Bool.and_eq_true, decide_eq_true_eq]
    omega
  have isLow : isLowSurrogate (0xdc00 + (c.toNat - 0x10000) % 0x400) = true := by
    simp only [isLowSurrogate, Bool.and_eq_true, decide_eq_true_eq]
    omega
  simp [numberedChar, lowSurrogate, first.read, second.read, bind, Except.bind, notLow, isHigh,
    isLow, pairedChar_halves c beyond]

/-- A letter of the table stands for its character. -/
theorem escaped_letter {c letter : Char} (listed : (letter, c) ∈ escapeLetters) (tail : List Char) :
    escaped (letter :: tail) = .ok (c, tail) := by
  simp only [escapeLetters, List.mem_cons, Prod.mk.injEq, List.not_mem_nil, or_false] at listed
  rcases listed with ⟨rfl, rfl⟩ | ⟨rfl, rfl⟩ | ⟨rfl, rfl⟩ | ⟨rfl, rfl⟩ | ⟨rfl, rfl⟩ | ⟨rfl, rfl⟩ |
    ⟨rfl, rfl⟩ | ⟨rfl, rfl⟩ <;> rfl

/-- An escape contributes the character that it stands for. -/
theorem stringBody_escaped {c : Char} {rest after content tail : List Char}
    (found : escaped rest = .ok (c, after)) (read : stringBody after = .ok (content, tail)) :
    stringBody ('\\' :: rest) = .ok (c :: content, tail) := by
  rw [stringBody, if_neg (by decide), if_pos rfl]
  split
  · simp_all
  · rename_i d later here
    rw [found] at here
    simp only [Except.ok.injEq, Prod.mk.injEq] at here
    obtain ⟨rfl, rfl⟩ := here
    rw [read]

/-- A character written in any way contributes itself. -/
theorem CharWritten.read {c : Char} {spelled : List Char} (written : CharWritten c spelled)
    {rest content tail : List Char} (read : stringBody rest = .ok (content, tail)) :
    stringBody (spelled ++ rest) = .ok (c :: content, tail) := by
  cases written with
  | plain printable noQuote noBackslash =>
    rw [List.singleton_append, stringBody, if_neg noQuote, if_neg noBackslash,
      if_neg (Char.not_lt.mpr printable), read]
  | letter listed => exact stringBody_escaped (escaped_letter listed rest) read
  | unit written =>
    rw [List.cons_append, List.cons_append]
    refine stringBody_escaped ?_ read
    rw [escaped, if_pos rfl]
    exact numberedChar_unit written rest
  | pair beyond first second =>
    rw [List.cons_append, List.cons_append, List.append_assoc]
    refine stringBody_escaped ?_ read
    rw [List.cons_append, escaped, if_pos rfl]
    exact numberedChar_pair beyond first second rest

/-- A string is read back up to its closing quote. -/
theorem CharsWritten.read {content body : List Char} (written : CharsWritten content body)
    (tail : List Char) : stringBody (body ++ '"' :: tail) = .ok (content, tail) := by
  induction written with
  | nil => rw [List.nil_append, stringBody, if_pos rfl]
  | cons first _ inductionHypothesis =>
    rw [List.append_assoc]
    exact first.read inductionHypothesis

/-- Every code unit has digits. -/
theorem UnitWritten.exists_digits {unit : Nat} (small : unit < 0x10000) :
    ∃ digits, UnitWritten unit digits := by
  have digit (value : Nat) (bounded : value < 16) : IsHexDigit value.digitChar value :=
    ⟨bounded, .inl rfl⟩
  have written := UnitWritten.digits (digit (unit / 0x1000) (by omega))
    (digit (unit / 0x100 % 16) (by omega)) (digit (unit / 0x10 % 16) (by omega))
    (digit (unit % 16) (by omega))
  have sum : ((unit / 0x1000 * 16 + unit / 0x100 % 16) * 16 + unit / 0x10 % 16) * 16 + unit % 16 =
      unit := by
    omega
  rw [sum] at written
  exact ⟨_, written⟩

/-- Every character can be written: by one code unit, or else as itself. -/
theorem CharWritten.exists_spelling (c : Char) : ∃ spelled, CharWritten c spelled := by
  by_cases small : c.toNat < 0x10000
  · obtain ⟨digits, written⟩ := UnitWritten.exists_digits small
    exact ⟨_, .unit written⟩
  · refine ⟨[c], .plain ?_ ?_ ?_⟩
    · exact Nat.le_trans (by decide : ' '.toNat ≤ 0x10000) (Nat.le_of_not_lt small)
    · rintro rfl
      exact small (by decide)
    · rintro rfl
      exact small (by decide)

/-- Every string can be written. -/
theorem CharsWritten.exists_body (content : List Char) : ∃ body, CharsWritten content body := by
  induction content with
  | nil => exact ⟨[], .nil⟩
  | cons c content inductionHypothesis =>
    obtain ⟨spelled, first⟩ := CharWritten.exists_spelling c
    obtain ⟨body, rest⟩ := inductionHypothesis
    exact ⟨_, .cons first rest⟩

/-- A string of plain characters is written as it is. -/
theorem Token.Written.plain (content : String)
    (plain : ∀ c ∈ content.toList, ' ' ≤ c ∧ c ≠ '"' ∧ c ≠ '\\') :
    (Token.text content).Written ('"' :: content.toList ++ ['"']) := by
  refine .text ?_
  generalize content.toList = characters at plain
  induction characters with
  | nil => exact .nil
  | cons c characters inductionHypothesis =>
    obtain ⟨⟨printable, noQuote, noBackslash⟩, rest⟩ := List.forall_mem_cons.mp plain
    exact .cons (.plain printable noQuote noBackslash) (inductionHypothesis rest)

/-! ## Tokens -/

/-- Whether a token is a number. -/
def Token.isNumber : Token → Bool
  | .number _ => true
  | _ => false

/-- No two numbers stand next to each other. -/
def Detached (ts : List Token) : Prop :=
  ts.IsChain fun token next => token.isNumber = true → next.isNumber = false

/-- A digit begins a number. -/
theorem Token.read_digit {c : Char} (isDigit : c.isDigit = true) (rest : List Char) :
    isBlank c = false ∧ Token.read c rest = numberToken false (c :: rest) := by
  constructor
  · simp only [isBlank, Bool.or_eq_false_iff, decide_eq_false_iff_not]
    refine ⟨⟨⟨?_, ?_⟩, ?_⟩, ?_⟩ <;> rintro rfl <;> simp at isDigit
  · unfold Token.read
    split
    case h_12 => rw [if_pos isDigit]
    all_goals exact absurd isDigit (by decide)

/-- A numeral begins with a character that is no blank, and is read as one token. -/
theorem Numeral.read_token (numeral : Numeral) {tail : List Char} (stops : StopsNumber tail) :
    ∃ c more, numeral.text = c :: more ∧ isBlank c = false ∧
      Token.read c (more ++ tail) =
        match numeral.parts with
        | .ok number => (.number number, tail)
        | .error why => (.broken why, []) := by
  have read : numberToken numeral.isNegative (numeral.magnitudeText ++ tail) =
      match numeral.parts with
      | .ok number => (.number number, tail)
      | .error why => (.broken why, []) := by
    rw [numberToken, numeral.read_by_parts stops]
    cases numeral.parts <;> rfl
  rw [← read, Numeral.text]
  cases numeral.isNegative with
  | true => exact ⟨'-', numeral.magnitudeText, rfl, rfl, rfl⟩
  | false =>
    obtain ⟨first, more, whole⟩ := List.exists_cons_of_ne_nil numeral.whole_digits.nonempty
    have isDigit : first.isDigit = true :=
      numeral.whole_digits.isDigit first (whole ▸ List.mem_cons_self)
    have begins : numeral.magnitudeText =
        first :: (more ++ (numeral.fractionText ++ numeral.exponentText)) := by
      rw [Numeral.magnitudeText, whole, List.cons_append]
    obtain ⟨notBlank, asNumber⟩ := Token.read_digit isDigit
      (more ++ (numeral.fractionText ++ numeral.exponentText) ++ tail)
    exact ⟨first, _, begins, notBlank, by rw [asNumber, begins, List.cons_append]⟩

/-- A written token begins with a character that is no blank, and is read back. A number
has to be followed by something that is no part of it. -/
theorem Token.Written.read {token : Token} {spelled tail : List Char}
    (written : token.Written spelled) (stops : token.isNumber = true → StopsNumber tail) :
    ∃ c more, spelled = c :: more ∧ isBlank c = false ∧
      Token.read c (more ++ tail) = (token, tail) := by
  cases written with
  | openArray | closeArray | openObject | closeObject | colon | comma | null | yes | no =>
    exact ⟨_, _, rfl, rfl, rfl⟩
  | @number value bounded =>
    obtain ⟨c, more, begins, notBlank, read⟩ := (Numeral.ofNat value).read_token (stops rfl)
    rw [Numeral.ofNat_parts bounded] at read
    exact ⟨c, more, (Numeral.ofNat_text value).symm.trans begins, notBlank, read⟩
  | @text content body written =>
    refine ⟨'"', _, rfl, rfl, ?_⟩
    have read := written.read tail
    simp [Token.read, textToken, read, String.ofList_toList]

/-- A token that is no number ends a number that stands before it. -/
theorem Token.Written.stops {token : Token} {spelled : List Char} (written : token.Written spelled)
    (notNumber : token.isNumber = false) (tail : List Char) : StopsNumber (spelled ++ tail) := by
  intro c member
  cases written with
  | number => exact absurd notNumber (by simp [Token.isNumber])
  | _ =>
    simp only [List.cons_append, List.head?_cons, Option.mem_def, Option.some.injEq] at member
    subst member
    decide

/-- Blanks in front of what ends a number end it as well. -/
theorem Blank.stops {blanks tail : List Char} (blank : Blank blanks) (stops : StopsNumber tail) :
    StopsNumber (blanks ++ tail) := by
  have blankStops : ∀ blank ∈ [' ', '\t', '\n', '\r'],
      blank.isDigit = false ∧ blank ≠ '.' ∧ blank ≠ 'e' ∧ blank ≠ 'E' := by
    intro blank listed
    fin_cases listed <;> decide
  cases blanks with
  | nil => exact stops
  | cons c others =>
    intro d member
    obtain rfl : c = d := by simpa using member
    exact blankStops c (blank c List.mem_cons_self)

/-- The end of the text ends a number. -/
theorem Blank.stops_end {blanks : List Char} (blank : Blank blanks) : StopsNumber blanks := by
  have ends : StopsNumber [] := by simp [StopsNumber]
  simpa using blank.stops ends

/-- What begins with a blank, or with a token that is no number, ends a number that stands
before it. -/
theorem TokensWritten.stops {ts : List Token} {cs : List Char} (written : TokensWritten ts cs)
    (notNumber : ∀ token ∈ ts.head?, token.isNumber = false) : StopsNumber cs := by
  cases written with
  | nil blank => exact blank.stops_end
  | cons blank first more => exact blank.stops (first.stops (notNumber _ rfl) _)

/-- Blanks in front are passed over. -/
theorem tokens_blank {blanks : List Char} (blank : Blank blanks) (cs : List Char) :
    tokens (blanks ++ cs) = tokens cs := by
  induction blanks with
  | nil => rfl
  | cons c others inductionHypothesis =>
    have isBlank : isBlank c = true := by
      have listed := blank c List.mem_cons_self
      fin_cases listed <;> rfl
    rw [List.cons_append, tokens, if_pos isBlank]
    exact inductionHypothesis fun d member => blank d (List.mem_cons_of_mem c member)

/-- Behind blanks the tokens begin with the next one. -/
theorem tokens_begin {blanks : List Char} (blank : Blank blanks) {c : Char}
    (notBlank : isBlank c = false) (rest : List Char) :
    tokens (blanks ++ c :: rest) = (Token.read c rest).1 :: tokens (Token.read c rest).2 := by
  rw [tokens_blank blank, tokens, if_neg (by simp [notBlank])]

/-- The tokens of a text are those that it writes. -/
theorem TokensWritten.read {ts : List Token} {cs : List Char} (written : TokensWritten ts cs)
    (detached : Detached ts) : tokens cs = ts := by
  induction written with
  | @nil blanks blank =>
    have skipped := tokens_blank blank []
    rwa [List.append_nil, tokens] at skipped
  | @cons token rest blanks spelled tail blank first more inductionHypothesis =>
    obtain ⟨apart, restDetached⟩ := List.isChain_cons.mp detached
    -- Without a blank, only another number could be taken for a part of this one.
    obtain ⟨c, others, rfl, notBlank, read⟩ := first.read fun isNumber =>
      more.stops fun next member => apart next member isNumber
    rw [List.cons_append, tokens_begin blank notBlank, read, inductionHypothesis restDetached]

/-! ## Values -/

namespace Value

/-- More room does no harm. -/
theorem Fits.mono {room more : Nat} {value : Value} (fits : value.Fits room)
    (larger : room ≤ more) : value.Fits more := by
  induction fits generalizing more with
  | null => exact .null
  | boolean value => exact .boolean value
  | number bounded => exact .number bounded
  | text content => exact .text content
  | array _ inductionHypothesis =>
    obtain ⟨more, rfl⟩ : ∃ inner, more = inner + 1 := ⟨more - 1, by omega⟩
    exact .array fun item member => inductionHypothesis item member (by omega)
  | object _ inductionHypothesis =>
    obtain ⟨more, rfl⟩ : ∃ inner, more = inner + 1 := ⟨more - 1, by omega⟩
    exact .object fun entry member => inductionHypothesis entry member (by omega)

/-- What fits is whole, whatever numbers it holds. -/
theorem Fits.held {room : Nat} {value : Value} (fits : value.Fits room) : value.Held room := by
  induction fits with
  | null => exact .null
  | boolean value => exact .boolean value
  | number => exact .number _
  | text content => exact .text content
  | array _ inductionHypothesis => exact .array inductionHypothesis
  | object _ inductionHypothesis => exact .object inductionHypothesis

/-- A whole value has at least one token, and does not begin like the end of an array. -/
theorem Held.starts {room : Nat} {value : Value} (held : value.Held room) :
    ∃ token more, value.toTokens = token :: more ∧ token ≠ .closeArray := by
  cases held with
  | null | boolean | number | text => exact ⟨_, _, by rw [toTokens], by simp⟩
  | @array room items =>
    cases items with
    | nil => exact ⟨_, _, by rw [toTokens], by simp⟩
    | cons => exact ⟨_, _, by rw [toTokens], by simp⟩
  | @object room entries =>
    cases entries with
    | nil => exact ⟨_, _, by rw [toTokens], by simp⟩
    | cons => exact ⟨_, _, by rw [toTokens], by simp⟩

/-- Items are gone through from the first to the last. -/
theorem wholeItems_ok_iff (items : List Value) :
    wholeItems items = .ok () ↔ ∀ item ∈ items, item.whole = .ok () := by
  induction items with
  | nil => simp [wholeItems]
  | cons item items inductionHypothesis =>
    rw [wholeItems, Outcome.check_ok_iff, inductionHypothesis, List.forall_mem_cons]

/-- The same for the values of an object. -/
theorem wholeEntries_ok_iff (entries : List (String × Value)) :
    wholeEntries entries = .ok () ↔ ∀ entry ∈ entries, entry.2.whole = .ok () := by
  induction entries with
  | nil => simp [wholeEntries]
  | cons entry entries inductionHypothesis =>
    rw [wholeEntries, Outcome.check_ok_iff, inductionHypothesis, List.forall_mem_cons]

/-- There is no break in a whole value. -/
theorem Held.whole {room : Nat} {value : Value} (held : value.Held room) :
    value.whole = .ok () := by
  induction held with
  | null | boolean | number | text => rfl
  | array _ inductionHypothesis =>
    rw [Value.whole, (wholeItems_ok_iff _).mpr inductionHypothesis]
    rfl
  | object _ inductionHypothesis =>
    rw [Value.whole, (wholeEntries_ok_iff _).mpr inductionHypothesis]
    rfl

/-- A token that is no number may stand in front of anything. -/
theorem detached_mark {token : Token} {rest : List Token} (notNumber : token.isNumber = false)
    (detached : Detached rest) : Detached (token :: rest) :=
  List.isChain_cons.mpr ⟨fun _ _ isNumber => absurd isNumber (by simp [notNumber]), detached⟩

/-- The value keeps numbers apart in front of any tokens of which a number is not the first. -/
def Separates (value : Value) : Prop :=
  ∀ rest, (∀ token ∈ rest.head?, token.isNumber = false) → Detached rest →
    Detached (value.toTokens ++ rest)

/-- The tokens behind an item begin with no number. -/
theorem detached_moreItems {items : List Value} (each : ∀ item ∈ items, item.Separates)
    {rest : List Token} (detached : Detached rest) :
    (∀ token ∈ (moreItems items ++ rest).head?, token.isNumber = false) ∧
      Detached (moreItems items ++ rest) := by
  induction items with
  | nil =>
    rw [moreItems]
    exact ⟨by simp [Token.isNumber], detached_mark rfl detached⟩
  | cons item items inductionHypothesis =>
    obtain ⟨first, others⟩ := List.forall_mem_cons.mp each
    obtain ⟨head, tail⟩ := inductionHypothesis others
    rw [moreItems, List.cons_append, List.append_assoc]
    exact ⟨by simp [Token.isNumber], detached_mark rfl (first _ head tail)⟩

/-- The tokens behind an entry begin with no number. -/
theorem detached_moreEntries {entries : List (String × Value)}
    (each : ∀ entry ∈ entries, entry.2.Separates) {rest : List Token} (detached : Detached rest) :
    (∀ token ∈ (moreEntries entries ++ rest).head?, token.isNumber = false) ∧
      Detached (moreEntries entries ++ rest) := by
  induction entries with
  | nil =>
    rw [moreEntries]
    exact ⟨by simp [Token.isNumber], detached_mark rfl detached⟩
  | cons entry entries inductionHypothesis =>
    obtain ⟨first, others⟩ := List.forall_mem_cons.mp each
    obtain ⟨head, tail⟩ := inductionHypothesis others
    rw [moreEntries, List.cons_append, List.cons_append, List.cons_append, List.append_assoc]
    exact ⟨by simp [Token.isNumber],
      detached_mark rfl (detached_mark rfl (detached_mark rfl (first _ head tail)))⟩

/-- The tokens of a whole value keep numbers apart. -/
theorem Held.separates {room : Nat} {value : Value} (held : value.Held room) :
    value.Separates := by
  induction held with
  | null | boolean | text =>
    intro rest _ detached
    rw [toTokens]
    exact detached_mark rfl detached
  | number value =>
    intro rest notNumber detached
    rw [toTokens]
    exact List.isChain_cons.mpr ⟨fun next member _ => notNumber next member, detached⟩
  | @array room items _ inductionHypothesis =>
    intro rest _ detached
    cases items with
    | nil =>
      rw [toTokens]
      exact detached_mark rfl (detached_mark rfl detached)
    | cons item items =>
      obtain ⟨first, others⟩ := List.forall_mem_cons.mp inductionHypothesis
      obtain ⟨head, tail⟩ := detached_moreItems others detached
      rw [toTokens, List.cons_append, List.append_assoc]
      exact detached_mark rfl (first _ head tail)
  | @object room entries _ inductionHypothesis =>
    intro rest _ detached
    cases entries with
    | nil =>
      rw [toTokens]
      exact detached_mark rfl (detached_mark rfl detached)
    | cons entry entries =>
      obtain ⟨first, others⟩ := List.forall_mem_cons.mp inductionHypothesis
      obtain ⟨head, tail⟩ := detached_moreEntries others detached
      rw [toTokens, List.cons_append, List.cons_append, List.cons_append, List.append_assoc]
      exact detached_mark rfl (detached_mark rfl (detached_mark rfl (first _ head tail)))

/-- Numbers are kept apart in a whole value. -/
theorem Held.detached {room : Nat} {value : Value} (held : value.Held room) :
    Detached value.toTokens := by
  simpa using held.separates [] (by simp) List.IsChain.nil

/-- Some text writes the token. -/
def Writable (token : Token) : Prop :=
  ∃ spelled, token.Written spelled

/-- Every text has a spelling, as any character can be escaped. -/
theorem writable_text (content : String) : Writable (.text content) := by
  obtain ⟨body, written⟩ := CharsWritten.exists_body content.toList
  exact ⟨_, .text written⟩

/-- What holds for the tokens of each item holds for all tokens behind an item. -/
theorem forall_moreItems {motive : Token → Prop} (comma : motive .comma)
    (close : motive .closeArray) {items : List Value}
    (each : ∀ item ∈ items, ∀ token ∈ item.toTokens, motive token) :
    ∀ token ∈ moreItems items, motive token := by
  induction items with
  | nil => simpa [moreItems] using close
  | cons item items inductionHypothesis =>
    obtain ⟨first, others⟩ := List.forall_mem_cons.mp each
    rw [moreItems, List.forall_mem_cons, List.forall_mem_append]
    exact ⟨comma, first, inductionHypothesis others⟩

/-- What holds for the tokens of each entry holds for all tokens behind an entry. -/
theorem forall_moreEntries {motive : Token → Prop} (comma : motive .comma) (colon : motive .colon)
    (close : motive .closeObject) (text : ∀ content, motive (.text content))
    {entries : List (String × Value)}
    (each : ∀ entry ∈ entries, ∀ token ∈ entry.2.toTokens, motive token) :
    ∀ token ∈ moreEntries entries, motive token := by
  induction entries with
  | nil => simpa [moreEntries] using close
  | cons entry entries inductionHypothesis =>
    obtain ⟨first, others⟩ := List.forall_mem_cons.mp each
    simp only [moreEntries, List.forall_mem_cons, List.forall_mem_append]
    exact ⟨comma, text entry.1, colon, first, inductionHypothesis others⟩

/-- Some text writes every token of a whole value of natural numbers. -/
theorem Fits.writable {room : Nat} {value : Value} (fits : value.Fits room) :
    ∀ token ∈ value.toTokens, Writable token := by
  induction fits with
  | null => simpa [toTokens] using ⟨_, Token.Written.null⟩
  | boolean value =>
    cases value with
    | true => simpa [toTokens] using ⟨_, Token.Written.yes⟩
    | false => simpa [toTokens] using ⟨_, Token.Written.no⟩
  | number bounded => simpa [toTokens] using ⟨_, Token.Written.number bounded⟩
  | text content => simpa [toTokens] using writable_text content
  | @array room items _ inductionHypothesis =>
    cases items with
    | nil => simpa [toTokens] using ⟨⟨_, Token.Written.openArray⟩, _, Token.Written.closeArray⟩
    | cons item items =>
      obtain ⟨first, others⟩ := List.forall_mem_cons.mp inductionHypothesis
      rw [toTokens, List.forall_mem_cons, List.forall_mem_append]
      exact ⟨⟨_, .openArray⟩, first, forall_moreItems ⟨_, .comma⟩ ⟨_, .closeArray⟩ others⟩
  | @object room entries _ inductionHypothesis =>
    cases entries with
    | nil => simpa [toTokens] using ⟨⟨_, Token.Written.openObject⟩, _, Token.Written.closeObject⟩
    | cons entry entries =>
      obtain ⟨first, others⟩ := List.forall_mem_cons.mp inductionHypothesis
      simp only [toTokens, List.forall_mem_cons, List.forall_mem_append]
      exact ⟨⟨_, .openObject⟩, writable_text entry.1, ⟨_, .colon⟩, first,
        forall_moreEntries ⟨_, .comma⟩ ⟨_, .colon⟩ ⟨_, .closeObject⟩ writable_text others⟩

/-- The reader takes the value off the head of any tokens. -/
def TakenBy (value : Value) (reader : Reader) : Prop :=
  ∀ rest, reader (value.toTokens ++ rest) = (value, rest)

/-- Items separated by commas are read back up to the closing bracket. -/
theorem readItems_taken {reader : Reader} {room : Nat} {item : Value} {items : List Value}
    (first : item.TakenBy reader) (others : ∀ next ∈ items, next.TakenBy reader)
    (held : ∀ next ∈ items, next.Held room) {rounds : Nat} (enough : items.length < rounds)
    (rest : List Token) :
    readItems reader rounds (item.toTokens ++ (moreItems items ++ rest)) =
      (item :: items, .closed, rest) := by
  induction items generalizing item rounds with
  | nil =>
    obtain ⟨rounds, rfl⟩ : ∃ inner, rounds = inner + 1 := ⟨rounds - 1, by omega⟩
    simp [readItems, first _, moreItems]
  | cons next items inductionHypothesis =>
    obtain ⟨rounds, rfl⟩ : ∃ inner, rounds = inner + 1 := ⟨rounds - 1, by omega⟩
    obtain ⟨second, later⟩ := List.forall_mem_cons.mp others
    obtain ⟨secondHeld, laterHeld⟩ := List.forall_mem_cons.mp held
    have behind := inductionHypothesis second later laterHeld (Nat.lt_of_succ_lt_succ enough)
    obtain ⟨token, more, starts, notClosing⟩ := secondHeld.starts
    rw [starts, List.cons_append] at behind
    rw [readItems, first, moreItems, List.cons_append, List.append_assoc, starts, List.cons_append]
    -- The comma is followed by the first token of the next item, which closes no array.
    cases token <;> simp_all

/-- There are at least as many tokens as items behind an item. -/
theorem length_moreItems (items : List Value) : items.length < (moreItems items).length := by
  induction items with
  | nil => simp [moreItems]
  | cons item items inductionHypothesis =>
    simp only [moreItems, List.length_cons, List.length_append]
    omega

/-- A non-empty array is read back behind its opening bracket. -/
theorem readArray_taken {reader : Reader} {room : Nat} {item : Value} {items : List Value}
    (taken : ∀ next ∈ item :: items, next.TakenBy reader)
    (held : ∀ next ∈ item :: items, next.Held room) (rest : List Token) :
    readArray reader (item.toTokens ++ (moreItems items ++ rest)) =
      (item :: items, .closed, rest) := by
  obtain ⟨first, others⟩ := List.forall_mem_cons.mp taken
  obtain ⟨firstHeld, othersHeld⟩ := List.forall_mem_cons.mp held
  have enough : items.length < (item.toTokens ++ (moreItems items ++ rest)).length := by
    have longer := length_moreItems items
    simp only [List.length_append]
    omega
  rw [← readItems_taken first others othersHeld enough rest]
  obtain ⟨token, more, starts, notClosing⟩ := firstHeld.starts
  rw [starts, List.cons_append, readArray]
  · simp
  · intro _ same
    exact notClosing (List.cons.inj same).1

/-- Entries separated by commas are read back up to the closing bracket. -/
theorem readEntries_taken {reader : Reader} {key : String} {value : Value}
    {entries : List (String × Value)} (first : value.TakenBy reader)
    (others : ∀ next ∈ entries, next.2.TakenBy reader) {rounds : Nat}
    (enough : entries.length < rounds) (rest : List Token) :
    readEntries reader rounds key (.colon :: (value.toTokens ++ (moreEntries entries ++ rest))) =
      ((key, value) :: entries, .closed, rest) := by
  induction entries generalizing key value rounds with
  | nil =>
    obtain ⟨rounds, rfl⟩ : ∃ inner, rounds = inner + 1 := ⟨rounds - 1, by omega⟩
    simp [readEntries, readEntryValue, first _, moreEntries]
  | cons next entries inductionHypothesis =>
    obtain ⟨rounds, rfl⟩ : ∃ inner, rounds = inner + 1 := ⟨rounds - 1, by omega⟩
    obtain ⟨second, later⟩ := List.forall_mem_cons.mp others
    have behind : readEntries reader rounds next.1
        (.colon :: (next.2.toTokens ++ (moreEntries entries ++ rest))) =
          (next :: entries, .closed, rest) :=
      inductionHypothesis second later (Nat.lt_of_succ_lt_succ enough)
    simp [readEntries, readEntryValue, first _, moreEntries, behind]

/-- There are at least as many tokens as entries behind an entry. -/
theorem length_moreEntries (entries : List (String × Value)) :
    entries.length < (moreEntries entries).length := by
  induction entries with
  | nil => simp [moreEntries]
  | cons entry entries inductionHypothesis =>
    simp only [moreEntries, List.length_cons, List.length_append]
    omega

/-- A non-empty object is read back behind its opening bracket. -/
theorem readObject_taken {reader : Reader} {key : String} {value : Value}
    {entries : List (String × Value)}
    (taken : ∀ next ∈ (key, value) :: entries, next.2.TakenBy reader) (rest : List Token) :
    readObject reader
        (.text key :: .colon :: (value.toTokens ++ (moreEntries entries ++ rest))) =
      ((key, value) :: entries, .closed, rest) := by
  obtain ⟨first, others⟩ := List.forall_mem_cons.mp taken
  have longer := length_moreEntries entries
  rw [readObject]
  refine readEntries_taken first others ?_ rest
  simp only [List.length_cons, List.length_append]
  omega

/-- The tokens of a whole value are read back, whatever follows them. -/
theorem Held.taken {room : Nat} {value : Value} (held : value.Held room) :
    value.TakenBy (Value.read room) := by
  induction held with
  | @null room | @boolean room | @number room | @text room =>
    intro rest
    cases room <;> simp [Value.read, readValue, toTokens]
  | @array room items each inductionHypothesis =>
    intro rest
    cases items with
    | nil => simp [Value.read, readValue, readArray, toTokens]
    | cons item items =>
      rw [Value.read, toTokens, List.cons_append, List.append_assoc, readValue]
      simp only [readArray_taken inductionHypothesis each rest]
  | @object room entries each inductionHypothesis =>
    intro rest
    cases entries with
    | nil => simp [Value.read, readValue, readObject, toTokens]
    | cons entry entries =>
      rw [Value.read, toTokens, List.cons_append, List.cons_append, List.cons_append,
        List.append_assoc, readValue]
      simp only [readObject_taken inductionHypothesis rest]

/-- A text that writes a value is read as that value, with nothing behind it. -/
theorem ofText_written {value : Value} (fits : value.Fits maxDepth) {text : String}
    (written : value.WrittenAs text) : Value.ofText text = (value, []) := by
  have read := fits.held.taken []
  rw [List.append_nil] at read
  rw [Value.ofText, TokensWritten.read written fits.held.detached, read]

/-- Tokens that can be written one by one can be written one after the other. -/
theorem exists_tokensWritten {ts : List Token} (each : ∀ token ∈ ts, Writable token) :
    ∃ cs, TokensWritten ts cs := by
  induction ts with
  | nil => exact ⟨[], .nil .nil⟩
  | cons token rest inductionHypothesis =>
    obtain ⟨⟨spelled, first⟩, others⟩ := List.forall_mem_cons.mp each
    obtain ⟨cs, written⟩ := inductionHypothesis others
    exact ⟨_, .cons .nil first written⟩

/-- Every whole value of natural numbers has a text. -/
theorem Fits.exists_text {room : Nat} {value : Value} (fits : value.Fits room) :
    ∃ text, value.WrittenAs text := by
  obtain ⟨cs, written⟩ := exists_tokensWritten fits.writable
  exact ⟨String.ofList cs, by rwa [WrittenAs, String.toList_ofList]⟩

end Value

end Taxonomy.Json
