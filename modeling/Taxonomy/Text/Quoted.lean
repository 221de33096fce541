import Taxonomy.Text.Unprinted

/-!
# Quoted texts

A text inside a message stands between double quotes. The quote and the
backslash are preceded by a backslash, four control characters have a letter of
their own, and any other character without a printed form is written by its code
point in hexadecimal digits.
-/
namespace Taxonomy.Text

/-- The digits of a number in base sixteen, most significant first. -/
def hexadecimal (n : Nat) : List Char :=
  Nat.toDigits 16 n

/-- The characters that stand for one character inside quotes. -/
def quotedChar (c : Char) : List Char :=
  if c = '\x00' then ['\\', '0']
  else if c = '\t' then ['\\', 't']
  else if c = '\r' then ['\\', 'r']
  else if c = '\n' then ['\\', 'n']
  else if c = '\\' ∨ c = '"' then ['\\', c]
  else if isUnprinted c then ['\\', 'u', '\x7b'] ++ hexadecimal c.toNat ++ ['\x7d']
  else [c]

/-- A text between quotes. -/
def quoted (text : String) : String :=
  String.ofList ('"' :: text.toList.flatMap quotedChar ++ ['"'])

end Taxonomy.Text
