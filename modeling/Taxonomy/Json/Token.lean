import Taxonomy.Json.Number

/-!
# JSON tokens

A text is cut into tokens without regard to their place. Where no token can be
read, the last token says so, and the rest of the text is not looked at: a reader
that gets so far knows why it cannot go on.
-/
namespace Taxonomy.Json

/-- A token of a text. -/
inductive Token where
  | openArray
  | closeArray
  | openObject
  | closeObject
  | colon
  | comma
  | null
  | boolean (value : Bool)
  | number (value : Number)
  | text (content : String)
  /-- A quote opens a string that is not one. -/
  | brokenText (why : Break)
  /-- Something else that is no token. -/
  | broken (why : Break)
deriving DecidableEq, Repr

/-- The characters that may stand between tokens. -/
def isBlank (c : Char) : Bool :=
  c = ' ' || c = '\n' || c = '\t' || c = '\r'

/-- The value of a hexadecimal digit. -/
def hexValue? (c : Char) : Option Nat :=
  if '0' ≤ c ∧ c ≤ '9' then some (c.toNat - '0'.toNat)
  else if 'a' ≤ c ∧ c ≤ 'f' then some (c.toNat - 'a'.toNat + 10)
  else if 'A' ≤ c ∧ c ≤ 'F' then some (c.toNat - 'A'.toNat + 10)
  else none

/-- The number of bytes of a text. -/
def byteLength (cs : List Char) : Nat :=
  cs.foldl (fun length c => length + c.utf8Size) 0

/-- The code unit written by four hexadecimal digits. The text ends too early if
fewer than four bytes of it are left. -/
def codeUnit (cs : List Char) : Except Break (Nat × List Char) :=
  match cs with
  | a :: b :: c :: d :: rest =>
    match hexValue? a, hexValue? b, hexValue? c, hexValue? d with
    | some a, some b, some c, some d => .ok (((a * 16 + b) * 16 + c) * 16 + d, rest)
    | _, _, _, _ => .error .malformed
  | _ => .error (if byteLength cs < 4 then .ended else .malformed)

/-- Whether a code unit is the first half of a pair. -/
def isHighSurrogate (unit : Nat) : Bool :=
  0xd800 ≤ unit && unit ≤ 0xdbff

/-- Whether a code unit is the second half of a pair. -/
def isLowSurrogate (unit : Nat) : Bool :=
  0xdc00 ≤ unit && unit ≤ 0xdfff

/-- The character of a pair of code units. -/
def pairedChar (high low : Nat) : Char :=
  Char.ofNat (0x10000 + (high - 0xd800) * 0x400 + (low - 0xdc00))

/-- The second half of a pair, which follows its first half at once. -/
def lowSurrogate (high : Nat) : List Char → Except Break (Char × List Char)
  | [] => .error .ended
  | '\\' :: [] => .error .ended
  | '\\' :: 'u' :: rest => do
    let (low, rest) ← codeUnit rest
    if isLowSurrogate low then .ok (pairedChar high low, rest) else .error .malformed
  | _ => .error .malformed

/-- A character written by its code units. -/
def numberedChar (cs : List Char) : Except Break (Char × List Char) := do
  let (unit, rest) ← codeUnit cs
  if isLowSurrogate unit then .error .malformed
  else if isHighSurrogate unit then lowSurrogate unit rest
  else .ok (Char.ofNat unit, rest)

/-- The character that a letter after a backslash stands for. -/
def escapedChar? : Char → Option Char
  | '"' => some '"'
  | '\\' => some '\\'
  | '/' => some '/'
  | 'b' => some '\x08'
  | 'f' => some '\x0c'
  | 'n' => some '\n'
  | 'r' => some '\r'
  | 't' => some '\t'
  | _ => none

/-- The character written after a backslash. -/
def escaped : List Char → Except Break (Char × List Char)
  | [] => .error .ended
  | c :: rest =>
    if c = 'u' then numberedChar rest
    else
      match escapedChar? c with
      | some d => .ok (d, rest)
      | none => .error .malformed

/-- A code unit takes four digits. -/
theorem codeUnit_shorter {cs rest : List Char} {unit : Nat}
    (read : codeUnit cs = .ok (unit, rest)) :
    rest.length < cs.length := by
  unfold codeUnit at read
  split at read
  · split at read
    · simp only [Except.ok.injEq, Prod.mk.injEq] at read
      obtain ⟨_, rfl⟩ := read
      simp only [List.length_cons]
      omega
    · simp at read
  · simp at read

/-- The second half of a pair takes at least its digits. -/
theorem lowSurrogate_shorter {high : Nat} {cs rest : List Char} {c : Char}
    (read : lowSurrogate high cs = .ok (c, rest)) : rest.length < cs.length := by
  unfold lowSurrogate at read
  split at read
  · simp at read
  · simp at read
  · rename_i tail
    cases unit : codeUnit tail with
    | error why => simp [unit, bind, Except.bind] at read
    | ok pair =>
      have shorter : pair.2.length < tail.length := codeUnit_shorter unit
      simp only [unit, bind, Except.bind] at read
      split at read
      · simp only [Except.ok.injEq, Prod.mk.injEq] at read
        obtain ⟨_, rfl⟩ := read
        simp only [List.length_cons]
        omega
      · simp at read
  · simp at read

/-- So does a character that is written by its number. -/
theorem numberedChar_shorter {cs rest : List Char} {c : Char}
    (read : numberedChar cs = .ok (c, rest)) : rest.length < cs.length := by
  unfold numberedChar at read
  cases unit : codeUnit cs with
  | error why => simp [unit, bind, Except.bind] at read
  | ok pair =>
    have shorter : pair.2.length < cs.length := codeUnit_shorter unit
    simp only [unit, bind, Except.bind] at read
    split at read
    · simp at read
    · split at read
      · have deeper := lowSurrogate_shorter read
        omega
      · simp only [Except.ok.injEq, Prod.mk.injEq] at read
        obtain ⟨_, rfl⟩ := read
        exact shorter

/-- An escape leaves less text than it found. -/
theorem escaped_shorter {cs rest : List Char} {c : Char} (read : escaped cs = .ok (c, rest)) :
    rest.length < cs.length := by
  unfold escaped at read
  split at read
  · simp at read
  · split at read
    · have shorter := numberedChar_shorter read
      simp only [List.length_cons]
      omega
    · split at read
      · simp only [Except.ok.injEq, Prod.mk.injEq] at read
        obtain ⟨_, rfl⟩ := read
        simp
      · simp at read

/-- The characters of a string up to its closing quote, and the text behind it. -/
def stringBody (cs : List Char) : Except Break (List Char × List Char) :=
  match cs with
  | [] => .error .ended
  | c :: rest =>
    if c = '"' then .ok ([], rest)
    else if c = '\\' then
      match _read : escaped rest with
      | .error why => .error why
      | .ok (d, rest) =>
        match stringBody rest with
        | .error why => .error why
        | .ok (body, rest) => .ok (d :: body, rest)
    else if c < ' ' then .error .malformed
    else
      match stringBody rest with
      | .error why => .error why
      | .ok (body, rest) => .ok (c :: body, rest)
termination_by cs.length
decreasing_by
  · have shorter := escaped_shorter _read
    simp only [List.length_cons]
    omega
  · simp

/-- The rest of a word whose letters are given. -/
def wordTail : List Char → List Char → Except Break (List Char)
  | [], cs => .ok cs
  | _ :: _, [] => .error .ended
  | letter :: letters, c :: cs => if letter = c then wordTail letters cs else .error .malformed

/-- A word of the format, after its first letter. -/
def wordToken (letters : List Char) (token : Token) (cs : List Char) : Token × List Char :=
  match wordTail letters cs with
  | .ok rest => (token, rest)
  | .error why => (.broken why, [])

/-- A number, after its sign. -/
def numberToken (isNegative : Bool) (cs : List Char) : Token × List Char :=
  match Number.read isNegative cs with
  | .ok (number, rest) => (.number number, rest)
  | .error why => (.broken why, [])

/-- A string, after its opening quote. -/
def textToken (cs : List Char) : Token × List Char :=
  match stringBody cs with
  | .ok (body, rest) => (.text (String.ofList body), rest)
  | .error why => (.brokenText why, [])

/-- The token that starts with the given character, and the text behind it. -/
def Token.read (c : Char) (rest : List Char) : Token × List Char :=
  match c with
  | '[' => (.openArray, rest)
  | ']' => (.closeArray, rest)
  | '\x7b' => (.openObject, rest)
  | '\x7d' => (.closeObject, rest)
  | ':' => (.colon, rest)
  | ',' => (.comma, rest)
  | 'n' => wordToken ['u', 'l', 'l'] .null rest
  | 't' => wordToken ['r', 'u', 'e'] (.boolean true) rest
  | 'f' => wordToken ['a', 'l', 's', 'e'] (.boolean false) rest
  | '"' => textToken rest
  | '-' => numberToken true rest
  | c => if c.isDigit then numberToken false (c :: rest) else (.broken .malformed, [])

/-- A string leaves less text than it found. -/
theorem stringBody_shorter (cs : List Char) {body rest : List Char}
    (read : stringBody cs = .ok (body, rest)) : rest.length < cs.length := by
  fun_induction stringBody cs generalizing body rest with
  | case1 => simp at read
  | case2 tail =>
    simp only [Except.ok.injEq, Prod.mk.injEq] at read
    obtain ⟨_, rfl⟩ := read
    simp
  | case3 => simp at read
  | case4 => simp at read
  | case5 tail d after found inner last closed _ inductionHypothesis =>
    simp only [Except.ok.injEq, Prod.mk.injEq] at read
    obtain ⟨_, rfl⟩ := read
    have deeper := inductionHypothesis closed
    have shorter := escaped_shorter found
    simp only [List.length_cons]
    omega
  | case6 => simp at read
  | case7 => simp at read
  | case8 c tail _ _ _ inner last closed inductionHypothesis =>
    simp only [Except.ok.injEq, Prod.mk.injEq] at read
    obtain ⟨_, rfl⟩ := read
    have deeper := inductionHypothesis closed
    simp only [List.length_cons]
    omega

/-- A word takes its letters from the head of a text. -/
theorem wordTail_shorter {letters cs rest : List Char} (read : wordTail letters cs = .ok rest) :
    rest.length ≤ cs.length := by
  fun_induction wordTail letters cs generalizing rest with
  | case1 cs =>
    simp only [Except.ok.injEq] at read
    subst read
    exact Nat.le_refl _
  | case2 => simp at read
  | case3 letters c cs inductionHypothesis =>
    have shorter := inductionHypothesis read
    simp only [List.length_cons]
    omega
  | case4 => simp at read

/-- So does the token of a word. -/
theorem wordToken_shorter (letters : List Char) (token : Token) (cs : List Char) :
    (wordToken letters token cs).2.length ≤ cs.length := by
  unfold wordToken
  split
  · rename_i read
    exact wordTail_shorter read
  · simp

/-- A number takes at least a digit, and a broken one takes all that is left. -/
theorem numberToken_shorter (isNegative : Bool) (cs : List Char) :
    (numberToken isNegative cs).2 = [] ∨ (numberToken isNegative cs).2.length < cs.length := by
  unfold numberToken
  split
  · rename_i read
    exact .inr (Number.read_shorter read)
  · exact .inl rfl

/-- A string takes at least its closing mark, and a broken one takes all that is left. -/
theorem textToken_shorter (cs : List Char) : (textToken cs).2.length ≤ cs.length := by
  unfold textToken
  split
  · rename_i read
    exact Nat.le_of_lt (stringBody_shorter cs read)
  · simp

/-- A token takes at least its first character. -/
theorem Token.read_shorter (c : Char) (rest : List Char) :
    (Token.read c rest).2.length ≤ rest.length := by
  unfold Token.read
  split <;> try exact Nat.le_refl _
  · exact wordToken_shorter _ _ _
  · exact wordToken_shorter _ _ _
  · exact wordToken_shorter _ _ _
  · exact textToken_shorter _
  · rcases numberToken_shorter true rest with none | shorter
    · simp [none]
    · omega
  · split
    · rcases numberToken_shorter false (c :: rest) with none | shorter
      · simp [none]
      · simp only [List.length_cons] at shorter
        omega
    · simp

/-- The tokens of a text. -/
def tokens (cs : List Char) : List Token :=
  match cs with
  | [] => []
  | c :: rest =>
    if isBlank c then tokens rest
    else (Token.read c rest).1 :: tokens (Token.read c rest).2
termination_by cs.length
decreasing_by
  · simp
  · have shorter := Token.read_shorter c rest
    simp only [List.length_cons]
    omega

end Taxonomy.Json
