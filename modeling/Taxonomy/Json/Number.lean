/-!
# JSON numbers

A number is kept as an integer when it is written as one and fits into 64 bits,
signed or unsigned. Every other number is only known to be a real number: no
document field has one, so its value is never used. A real number that no double
can hold is no number of the format.
-/
namespace Taxonomy.Json

/-- Why a text stops being JSON: it ends too early, or something in it is out of
place. -/
inductive Break where
  | ended
  | malformed
deriving DecidableEq, Repr

/-- A number of a text. -/
inductive Number where
  /-- An integer from 0 to 2⁶⁴ - 1. -/
  | natural (value : Nat)
  /-- The integer `-magnitude`, from -2⁶³ to -1. -/
  | negative (magnitude : Nat)
  /-- Any other number. -/
  | real
deriving DecidableEq, Repr

/-- The value of a decimal digit. -/
def digitValue (digit : Char) : Nat :=
  digit.toNat - '0'.toNat

/-- The value of a sequence of decimal digits. -/
def digitsValue (digits : List Char) : Nat :=
  digits.foldl (fun value digit => value * 10 + digitValue digit) 0

/-- The largest significand that is kept. -/
def maxSignificand : Nat :=
  1 <<< 64 - 1

/-- Takes digits into a significand as long as it fits into 64 bits, and gives
the digits that were left. -/
def absorb (significand : Nat) : List Char → Nat × List Char
  | [] => (significand, [])
  | digit :: rest =>
    let next := significand * 10 + digitValue digit
    if maxSignificand < next then (significand, digit :: rest) else absorb next rest

/-- The nearest number of at most 53 significant bits, and of two equally near
ones that with an even significand. -/
def nearestDouble (n : Nat) : Nat :=
  let unit := 1 <<< (n.log2 + 1 - 53)
  let low := n / unit
  let rest := n % unit
  if 2 * rest < unit ∨ 2 * rest = unit ∧ low % 2 = 0 then low * unit else (low + 1) * unit

/-- The least number that is rounded up beyond the largest double. -/
def doubleLimit : Nat :=
  1 <<< 1024 - 1 <<< 970

/-- Whether `significand * 10 ^ power` is too large for a double. Significand and
power of ten are rounded before they are multiplied. -/
def overflowsDouble (significand : Nat) (power : Int) : Bool :=
  significand ≠ 0 ∧
    (308 < power ∨
      0 ≤ power ∧ doubleLimit ≤ nearestDouble significand * nearestDouble (Nat.pow 10 power.toNat))

/-- The number with the given sign, digits before and after the point, and
exponent. -/
def Number.ofParts (isNegative : Bool) (whole fraction : List Char) (exponent : Option Int) :
    Except Break Number :=
  let (significand, excess) := absorb 0 whole
  if fraction = [] ∧ exponent = none ∧ excess = [] then
    if !isNegative then .ok (.natural significand)
    else if significand = 0 ∨ 1 <<< 63 < significand then .ok .real
    else .ok (.negative significand)
  else
    let (significand, dropped) := absorb significand fraction
    let power : Int := excess.length - (fraction.length - dropped.length : Nat) + exponent.getD 0
    if overflowsDouble significand power then .error .malformed else .ok .real

/-- The digits before the point. A zero is followed by no further digit. -/
def wholePart : List Char → Except Break (List Char × List Char)
  | [] => .error .ended
  | c :: rest =>
    if c = '0' then
      if rest.head?.any Char.isDigit then .error .malformed else .ok (['0'], rest)
    else if c.isDigit then
      .ok ((c :: rest).takeWhile Char.isDigit, (c :: rest).dropWhile Char.isDigit)
    else .error .malformed

/-- A non-empty sequence of digits. -/
def someDigits (cs : List Char) : Except Break (List Char × List Char) :=
  match cs.takeWhile Char.isDigit with
  | [] => .error (if cs = [] then .ended else .malformed)
  | digits => .ok (digits, cs.dropWhile Char.isDigit)

/-- The digits after the point, none if there is no point. -/
def fractionPart : List Char → Except Break (List Char × List Char)
  | '.' :: rest => someDigits rest
  | cs => .ok ([], cs)

/-- The sign of an exponent: whether it is negative. -/
def exponentSign : List Char → Bool × List Char
  | '+' :: rest => (false, rest)
  | '-' :: rest => (true, rest)
  | cs => (false, cs)

/-- The exponent, if there is one. -/
def exponentPart (cs : List Char) : Except Break (Option Int × List Char) :=
  match cs with
  | [] => .ok (none, cs)
  | c :: rest =>
    if c = 'e' ∨ c = 'E' then do
      let (isNegative, rest) := exponentSign rest
      let (digits, rest) ← someDigits rest
      let magnitude : Int := digitsValue digits
      return (some (if isNegative then -magnitude else magnitude), rest)
    else .ok (none, cs)

/-- The number at the head of a text, after its sign, and the text behind it. -/
def Number.read (isNegative : Bool) (cs : List Char) : Except Break (Number × List Char) := do
  let (whole, cs) ← wholePart cs
  let (fraction, cs) ← fractionPart cs
  let (exponent, cs) ← exponentPart cs
  let number ← Number.ofParts isNegative whole fraction exponent
  return (number, cs)

/-- The whole part of a number has at least one digit. -/
theorem wholePart_shorter {cs whole rest : List Char} (read : wholePart cs = .ok (whole, rest)) :
    rest.length < cs.length := by
  unfold wholePart at read
  split at read
  · simp at read
  · rename_i c tail
    split at read
    · split at read
      · simp at read
      · simp only [Except.ok.injEq, Prod.mk.injEq] at read
        obtain ⟨_, rfl⟩ := read
        simp
    · split at read
      · rename_i digit
        simp only [Except.ok.injEq, Prod.mk.injEq] at read
        obtain ⟨_, rfl⟩ := read
        have dropped := (List.dropWhile_sublist (l := tail) Char.isDigit).length_le
        simp only [List.dropWhile_cons, digit, if_true, List.length_cons]
        omega
      · simp at read

/-- Digits are taken from the head of a text. -/
theorem someDigits_shorter {cs digits rest : List Char}
    (read : someDigits cs = .ok (digits, rest)) :
    rest.length ≤ cs.length := by
  unfold someDigits at read
  split at read
  · simp at read
  · simp only [Except.ok.injEq, Prod.mk.injEq] at read
    obtain ⟨_, rfl⟩ := read
    exact (List.dropWhile_sublist Char.isDigit).length_le

/-- So is a fraction, which may be missing. -/
theorem fractionPart_shorter {cs digits rest : List Char}
    (read : fractionPart cs = .ok (digits, rest)) : rest.length ≤ cs.length := by
  unfold fractionPart at read
  split at read
  · have shorter := someDigits_shorter read
    simp only [List.length_cons]
    omega
  · simp only [Except.ok.injEq, Prod.mk.injEq] at read
    obtain ⟨_, rfl⟩ := read
    exact Nat.le_refl _

/-- So is the sign of an exponent. -/
theorem exponentSign_shorter (cs : List Char) : (exponentSign cs).2.length ≤ cs.length := by
  unfold exponentSign
  split <;> simp

/-- So is an exponent. -/
theorem exponentPart_shorter {cs rest : List Char} {exponent : Option Int}
    (read : exponentPart cs = .ok (exponent, rest)) : rest.length ≤ cs.length := by
  unfold exponentPart at read
  split at read
  · simp only [Except.ok.injEq, Prod.mk.injEq] at read
    obtain ⟨_, rfl⟩ := read
    exact Nat.le_refl _
  · rename_i c tail
    split at read
    · have signed := exponentSign_shorter tail
      cases digits : someDigits (exponentSign tail).2 with
      | error why => simp [digits, bind, Except.bind] at read
      | ok pair =>
        have shorter : pair.2.length ≤ (exponentSign tail).2.length := someDigits_shorter digits
        simp only [digits, bind, Except.bind, pure, Except.pure, Except.ok.injEq,
          Prod.mk.injEq] at read
        obtain ⟨_, rfl⟩ := read
        simp only [List.length_cons]
        omega
    · simp only [Except.ok.injEq, Prod.mk.injEq] at read
      obtain ⟨_, rfl⟩ := read
      exact Nat.le_refl _

/-- A number leaves less text than it found. -/
theorem Number.read_shorter {isNegative : Bool} {cs rest : List Char} {number : Number}
    (read : Number.read isNegative cs = .ok (number, rest)) : rest.length < cs.length := by
  unfold Number.read at read
  cases whole : wholePart cs with
  | error why => simp [whole, bind, Except.bind] at read
  | ok first =>
    have wholeShorter : first.2.length < cs.length := wholePart_shorter whole
    simp only [whole, bind, Except.bind] at read
    cases fraction : fractionPart first.2 with
    | error why => simp [fraction] at read
    | ok second =>
      have fractionShorter : second.2.length ≤ first.2.length := fractionPart_shorter fraction
      simp only [fraction] at read
      cases exponent : exponentPart second.2 with
      | error why => simp [exponent] at read
      | ok third =>
        have exponentShorter : third.2.length ≤ second.2.length := exponentPart_shorter exponent
        simp only [exponent] at read
        cases parts : Number.ofParts isNegative first.1 second.1 third.1 with
        | error why => simp [parts] at read
        | ok value =>
          simp only [parts, pure, Except.pure, Except.ok.injEq, Prod.mk.injEq] at read
          obtain ⟨_, rfl⟩ := read
          omega

end Taxonomy.Json
