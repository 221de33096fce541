import Mathlib.Algebra.Group.Nat.Defs
import Mathlib.Data.List.Basic
import Taxonomy.Json.Number

/-!
# Numerals

A number is written as a numeral: a sign, digits before a point, digits behind it and an exponent,
of which all but the digits before the point may be left out. Of these digits a zero is the first
only if it is the only one.

A numeral is read as the number that it stands for, provided that the text behind it does not go
on with it. There is one exception, which is a number that no double can hold.
-/
namespace Taxonomy.Json

/-- One or more decimal digits. -/
structure Digits (cs : List Char) : Prop where
  nonempty : cs ≠ []
  isDigit : ∀ c ∈ cs, c.isDigit = true

/-- The exponent of a numeral. -/
structure Exponent where
  letter : Char
  sign : Option Char
  digits : List Char
  letter_mem : letter ∈ ['e', 'E']
  sign_mem : ∀ c ∈ sign, c ∈ ['+', '-']
  digits_digits : Digits digits

/-- How an exponent is written. -/
def Exponent.text (exponent : Exponent) : List Char :=
  exponent.letter :: (exponent.sign.toList ++ exponent.digits)

/-- A number as the format writes it. -/
structure Numeral where
  isNegative : Bool
  /-- The digits before the point. -/
  whole : List Char
  /-- The digits behind the point, if there is one. -/
  fraction : Option (List Char)
  exponent : Option Exponent
  whole_digits : Digits whole
  no_leading_zero : whole.head? = some '0' → whole = ['0']
  fraction_digits : ∀ digits ∈ fraction, Digits digits

namespace Numeral

/-- How the digits behind the point are written. -/
def fractionText (numeral : Numeral) : List Char :=
  numeral.fraction.elim [] ('.' :: ·)

/-- How the exponent is written. -/
def exponentText (numeral : Numeral) : List Char :=
  numeral.exponent.elim [] Exponent.text

/-- How the numeral is written behind its sign. -/
def magnitudeText (numeral : Numeral) : List Char :=
  numeral.whole ++ (numeral.fractionText ++ numeral.exponentText)

/-- How the numeral is written. -/
def text (numeral : Numeral) : List Char :=
  if numeral.isNegative then '-' :: numeral.magnitudeText else numeral.magnitudeText

/-- The number that stands before the point. -/
def wholeValue (numeral : Numeral) : Nat :=
  Nat.ofDigitChars 10 numeral.whole 0

/-- What is kept of the number that the numeral stands for. -/
def number (numeral : Numeral) : Number :=
  if numeral.fraction.isSome ∨ numeral.exponent.isSome then .real
  else if numeral.isNegative then
    if 0 < numeral.wholeValue ∧ numeral.wholeValue ≤ 2 ^ 63 then .negative numeral.wholeValue
    else .real
  else if numeral.wholeValue < 2 ^ 64 then .natural numeral.wholeValue
  else .real

end Numeral

/-- The text does not go on with a number that stands before it. -/
def StopsNumber (tail : List Char) : Prop :=
  ∀ c ∈ tail.head?, c.isDigit = false ∧ c ≠ '.' ∧ c ≠ 'e' ∧ c ≠ 'E'

/-! ## Digits -/

/-- The text does not go on with digits that stand before it. -/
def StopsDigits (tail : List Char) : Prop :=
  ∀ c ∈ tail.head?, c.isDigit = false

/-- What ends a number ends its digits. -/
theorem StopsNumber.digits {tail : List Char} (stops : StopsNumber tail) : StopsDigits tail :=
  fun c member => (stops c member).1

/-- Digits are taken up to the text that stops them. -/
theorem Digits.taken {digits : List Char} (isDigits : Digits digits) {tail : List Char}
    (stops : StopsDigits tail) :
    (digits ++ tail).takeWhile Char.isDigit = digits ∧
      (digits ++ tail).dropWhile Char.isDigit = tail := by
  rw [List.takeWhile_append_of_pos isDigits.isDigit, List.dropWhile_append_of_pos isDigits.isDigit]
  cases tail with
  | nil => simp
  | cons c rest => simp [stops c rfl]

/-- Digits are read up to the text that stops them. -/
theorem Digits.read {digits : List Char} (isDigits : Digits digits) {tail : List Char}
    (stops : StopsDigits tail) : someDigits (digits ++ tail) = .ok (digits, tail) := by
  obtain ⟨taken, dropped⟩ := isDigits.taken stops
  unfold someDigits
  split
  · rename_i none
    exact absurd (taken.symm.trans none) isDigits.nonempty
  · rw [taken, dropped]

/-- The digits before the point are read up to the text that stops them. -/
theorem wholePart_digits {whole : List Char} (isDigits : Digits whole)
    (noLeadingZero : whole.head? = some '0' → whole = ['0']) {tail : List Char}
    (stops : StopsDigits tail) : wholePart (whole ++ tail) = .ok (whole, tail) := by
  obtain ⟨first, more, rfl⟩ := List.exists_cons_of_ne_nil isDigits.nonempty
  by_cases isZero : first = '0'
  · have onlyZero : first :: more = ['0'] := noLeadingZero (by simp [isZero])
    have stopped : tail.head?.any Char.isDigit = false := by
      cases tail with
      | nil => rfl
      | cons c rest => exact stops c rfl
    simp [onlyZero, wholePart, stopped]
  · obtain ⟨taken, dropped⟩ := isDigits.taken stops
    rw [List.cons_append] at taken dropped ⊢
    rw [wholePart, if_neg isZero, if_pos (isDigits.isDigit first List.mem_cons_self), taken,
      dropped]

/-! ## Parts of a numeral -/

/-- The value of an exponent. -/
def Exponent.value (exponent : Exponent) : Int :=
  if exponent.sign = some '-' then -(digitsValue exponent.digits : Int)
  else digitsValue exponent.digits

/-- An exponent is read back, with its sign. -/
theorem Exponent.read (exponent : Exponent) {tail : List Char} (stops : StopsDigits tail) :
    exponentPart (exponent.text ++ tail) = .ok (some exponent.value, tail) := by
  obtain ⟨letter, sign, digits, letter_mem, sign_mem, isDigits⟩ := exponent
  have isLetter : letter = 'e' ∨ letter = 'E' := by simpa using letter_mem
  have digitsRead := isDigits.read stops
  have signRead : exponentSign (sign.toList ++ digits ++ tail) =
      (decide (sign = some '-'), digits ++ tail) := by
    cases sign with
    | none =>
      obtain ⟨first, more, rfl⟩ := List.exists_cons_of_ne_nil isDigits.nonempty
      have isDigit : first.isDigit = true := isDigits.isDigit first List.mem_cons_self
      unfold exponentSign
      split
      · rename_i same
        obtain rfl : first = '+' := by simpa using (List.cons.inj same).1
        exact absurd isDigit (by decide)
      · rename_i same
        obtain rfl : first = '-' := by simpa using (List.cons.inj same).1
        exact absurd isDigit (by decide)
      · simp
    | some c =>
      have isSign : c = '+' ∨ c = '-' := by simpa using sign_mem c rfl
      rcases isSign with rfl | rfl <;> simp [exponentSign]
  simp only [Exponent.text, List.cons_append, exponentPart, if_pos isLetter, signRead, digitsRead]
  by_cases isNegative : sign = some '-' <;>
    simp [isNegative, Exponent.value, bind, Except.bind, pure, Except.pure]

namespace Numeral

variable (numeral : Numeral) {tail : List Char}

/-- So is the exponent of a numeral, also if there is none. -/
theorem exponentPart_read (stops : StopsNumber tail) :
    exponentPart (numeral.exponentText ++ tail) =
      .ok (numeral.exponent.map Exponent.value, tail) := by
  rw [exponentText]
  cases numeral.exponent with
  | none =>
    cases tail with
    | nil => rfl
    | cons c rest =>
      obtain ⟨_, _, lower, upper⟩ := stops c rfl
      simp [exponentPart, lower, upper]
  | some exponent => exact exponent.read stops.digits

/-- An exponent begins with a letter, which is no digit and no point. -/
theorem exponentText_stops (stops : StopsNumber tail) :
    ∀ c ∈ (numeral.exponentText ++ tail).head?, c.isDigit = false ∧ c ≠ '.' := by
  intro c member
  rw [exponentText] at member
  cases given : numeral.exponent with
  | none =>
    rw [given] at member
    exact ⟨(stops c member).1, (stops c member).2.1⟩
  | some exponent =>
    have isLetter : exponent.letter = 'e' ∨ exponent.letter = 'E' := by
      simpa using exponent.letter_mem
    obtain rfl : exponent.letter = c := by simpa [given, Exponent.text] using member
    rcases isLetter with isLetter | isLetter <;> rw [isLetter] <;> decide

/-- The fraction is read back, also if there is none. An exponent may follow. -/
theorem fractionPart_read (stops : StopsNumber tail) :
    fractionPart (numeral.fractionText ++ (numeral.exponentText ++ tail)) =
      .ok (numeral.fraction.getD [], numeral.exponentText ++ tail) := by
  have exponentStops := numeral.exponentText_stops stops
  rw [fractionText]
  cases given : numeral.fraction with
  | none =>
    rw [Option.elim_none, List.nil_append]
    unfold fractionPart
    split
    · rename_i rest same
      exact absurd rfl (exponentStops '.' (by simp [same])).2
    · rfl
  | some digits =>
    exact (numeral.fraction_digits digits given).read fun c member => (exponentStops c member).1

/-- A fraction begins with a point, which is no digit. -/
theorem fractionText_stops (stops : StopsNumber tail) :
    StopsDigits (numeral.fractionText ++ (numeral.exponentText ++ tail)) := by
  rw [fractionText]
  cases numeral.fraction with
  | none => exact fun c member => (numeral.exponentText_stops stops c member).1
  | some digits =>
    intro c member
    obtain rfl : '.' = c := by simpa using member
    decide

end Numeral

/-! ## The number of a numeral -/

/-- More digits make no smaller number. -/
theorem le_ofDigitChars (digits : List Char) (start : Nat) :
    start ≤ Nat.ofDigitChars 10 digits start := by
  rw [Nat.ofDigitChars_eq_ofDigitChars_zero]
  have grown := Nat.le_mul_of_pos_left start (Nat.pow_pos (n := digits.length) (by decide : 0 < 10))
  omega

/-- A digit is taken in if the number with it fits. -/
theorem absorb_cons (digit : Char) (digits : List Char) (start : Nat) :
    absorb start (digit :: digits) =
      if maxSignificand < 10 * start + (digit.toNat - '0'.toNat) then (start, digit :: digits)
      else absorb (10 * start + (digit.toNat - '0'.toNat)) digits := by
  rw [absorb, digitValue, Nat.mul_comm]

/-- Digits of a number that fits are all taken in. -/
theorem absorb_of_le {digits : List Char} {start : Nat}
    (fits : Nat.ofDigitChars 10 digits start ≤ maxSignificand) :
    absorb start digits = (Nat.ofDigitChars 10 digits start, []) := by
  induction digits generalizing start with
  | nil => rfl
  | cons digit digits inductionHypothesis =>
    rw [Nat.ofDigitChars_cons] at fits ⊢
    have small := Nat.le_trans (le_ofDigitChars digits _) fits
    rw [absorb_cons, if_neg (Nat.not_lt.mpr small)]
    exact inductionHypothesis fits

/-- Digits of a number that does not fit are not all taken in. -/
theorem absorb_of_lt {digits : List Char} {start : Nat} (small : start ≤ maxSignificand)
    (exceeds : maxSignificand < Nat.ofDigitChars 10 digits start) :
    (absorb start digits).2 ≠ [] := by
  induction digits generalizing start with
  | nil => exact absurd small (Nat.not_le.mpr exceeds)
  | cons digit digits inductionHypothesis =>
    rw [Nat.ofDigitChars_cons] at exceeds
    rw [absorb_cons]
    by_cases tooLarge : maxSignificand < 10 * start + (digit.toNat - '0'.toNat)
    · rw [if_pos tooLarge]
      exact List.cons_ne_nil digit digits
    · rw [if_neg tooLarge]
      exact inductionHypothesis (Nat.not_lt.mp tooLarge) exceeds

/-- Parts that are more than a whole number of 64 bits make a real number, if any. -/
theorem Number.ofParts_real {isNegative : Bool} {whole fraction : List Char} {exponent : Option Int}
    (more : ¬ (fraction = [] ∧ exponent = none ∧ (absorb 0 whole).2 = [])) :
    Number.ofParts isNegative whole fraction exponent = .ok .real ∨
      Number.ofParts isNegative whole fraction exponent = .error .malformed := by
  simp only [Number.ofParts, if_neg more]
  split
  · exact .inr rfl
  · exact .inl rfl

namespace Numeral

variable (numeral : Numeral) {tail : List Char}

/-- What the parts of the numeral make. -/
def parts : Except Break Number :=
  Number.ofParts numeral.isNegative numeral.whole (numeral.fraction.getD [])
    (numeral.exponent.map Exponent.value)

/-- A whole number that fits into 64 bits is kept. -/
theorem parts_whole (noFraction : numeral.fraction = none) (noExponent : numeral.exponent = none)
    (fits : numeral.wholeValue < 2 ^ 64) : numeral.parts = .ok numeral.number := by
  have limit : maxSignificand = 2 ^ 64 - 1 := by decide
  have half : 1 <<< 63 = 2 ^ 63 := by decide
  have taken : absorb 0 numeral.whole = (numeral.wholeValue, []) :=
    absorb_of_le (by rw [wholeValue] at fits; omega)
  rw [parts, number, noFraction, noExponent]
  simp only [Number.ofParts, taken, half, Option.getD_none, Option.map_none, Option.isSome_none,
    Bool.false_eq_true, or_self, and_self, if_false, if_true, if_pos fits]
  cases numeral.isNegative with
  | false => rfl
  | true =>
    by_cases kept : 0 < numeral.wholeValue ∧ numeral.wholeValue ≤ 2 ^ 63
    · have inside : ¬ (numeral.wholeValue = 0 ∨ 2 ^ 63 < numeral.wholeValue) := by omega
      rw [if_pos kept, if_neg inside]
      rfl
    · have outside : numeral.wholeValue = 0 ∨ 2 ^ 63 < numeral.wholeValue := by omega
      rw [if_neg kept, if_pos outside]
      rfl

/-- The parts of a numeral make its number, unless no double can hold it. -/
theorem parts_number : numeral.parts = .ok numeral.number ∨ numeral.parts = .error .malformed := by
  have limit : maxSignificand = 2 ^ 64 - 1 := by decide
  by_cases more : numeral.fraction.isSome ∨ numeral.exponent.isSome
  · rw [number, if_pos more]
    refine Number.ofParts_real ?_
    rintro ⟨noFraction, noExponent, _⟩
    rcases more with hasFraction | hasExponent
    · obtain ⟨digits, given⟩ := Option.isSome_iff_exists.mp hasFraction
      exact (numeral.fraction_digits digits given).nonempty (by simpa [given] using noFraction)
    · simp [Option.map_eq_none_iff.mp noExponent] at hasExponent
  · obtain ⟨noFraction, noExponent⟩ : numeral.fraction = none ∧ numeral.exponent = none := by
      simpa using more
    by_cases fits : numeral.wholeValue < 2 ^ 64
    · exact .inl (numeral.parts_whole noFraction noExponent fits)
    · have large : numeral.number = .real := by
        have tooLarge : ¬ (0 < numeral.wholeValue ∧ numeral.wholeValue ≤ 2 ^ 63) := by omega
        rw [number, if_neg more, if_neg tooLarge, if_neg fits, ite_self]
      rw [large]
      refine Number.ofParts_real fun plain => ?_
      exact absorb_of_lt (Nat.zero_le _) (by rw [wholeValue] at fits; omega) plain.2.2

/-- A numeral is read by its parts. -/
theorem read_by_parts (stops : StopsNumber tail) :
    Number.read numeral.isNegative (numeral.magnitudeText ++ tail) =
      (do return (← numeral.parts, tail)) := by
  have wholeRead := wholePart_digits numeral.whole_digits numeral.no_leading_zero
    (numeral.fractionText_stops stops)
  rw [Number.read, magnitudeText, List.append_assoc, List.append_assoc, wholeRead]
  simp only [bind, Except.bind, numeral.fractionPart_read stops, numeral.exponentPart_read stops]
  rfl

/-- Only the writing of zero begins with a zero. -/
theorem toDigits_leading_zero {value : Nat} (leads : (Nat.toDigits 10 value).head? = some '0') :
    value = 0 := by
  have digit : ∀ value < 10, value.digitChar = '0' → value = 0 := by decide
  -- The induction takes the last digit off, so that the digits before it are a number as well.
  induction value using Nat.strongRecOn with
  | ind value inductionHypothesis =>
    by_cases small : value < 10
    · rw [Nat.toDigits_of_lt_base small, List.head?_cons, Option.some.injEq] at leads
      exact digit value small leads
    · rw [Nat.toDigits_of_base_le (by decide) (by omega),
        List.head?_append_of_ne_nil _ Nat.toDigits_ne_nil] at leads
      have tooSmall := inductionHypothesis (value / 10) (by omega) leads
      omega

/-- The decimal writing of a natural number. -/
def ofNat (value : Nat) : Numeral where
  isNegative := false
  whole := Nat.toDigits 10 value
  fraction := none
  exponent := none
  whole_digits :=
    ⟨Nat.toDigits_ne_nil, fun _ => Nat.isDigit_of_mem_toDigits (by decide) (by decide)⟩
  no_leading_zero leads := by rw [toDigits_leading_zero leads, Nat.toDigits_zero]
  fraction_digits := nofun

/-- A natural number is written in decimal digits. -/
theorem ofNat_text (value : Nat) : (ofNat value).text = Nat.toDigits 10 value := by
  simp [text, magnitudeText, fractionText, exponentText, ofNat]

/-- A natural number is kept if it fits into 64 bits. -/
theorem ofNat_parts {value : Nat} (bounded : value < 2 ^ 64) :
    (ofNat value).parts = .ok (.natural value) := by
  have same : (ofNat value).wholeValue = value := Nat.ofDigitChars_ten_toDigits
  have fits : (ofNat value).wholeValue < 2 ^ 64 := by rw [same]; exact bounded
  rw [parts_whole _ rfl rfl fits, number, if_pos fits, same]
  rfl

end Numeral

end Taxonomy.Json
