import ClassHints.Text.Basic

/-!
# ASCII characters

Tags, keywords and escapes are compared and read in ASCII alone; every other character keeps
its own identity under these functions.
-/

namespace ClassHints.Text

/-- The value of a hexadecimal digit. -/
def hexValue? (c : Char) : Option Nat :=
  if c.isDigit then some (c.toNat - '0'.toNat)
  else if 'a' ≤ c && c ≤ 'f' then some (c.toNat - 'a'.toNat + 10)
  else if 'A' ≤ c && c ≤ 'F' then some (c.toNat - 'A'.toNat + 10)
  else none

/-- A hexadecimal digit. -/
def isHexDigit (c : Char) : Bool := (hexValue? c).isSome

/-- The number that digits written in `base` stand for; other characters count as zero. -/
def numeral (base : Nat) (digits : Text) : Nat :=
  digits.foldl (fun n c => n * base + (hexValue? c).getD 0) 0

/-- The lower-case form of the ASCII letters of a text. -/
def lower (t : Text) : Text := t.map Char.toLower

/-- Equality of texts up to the case of ASCII letters. -/
def sameLetters (s t : Text) : Bool := lower s == lower t

end ClassHints.Text
