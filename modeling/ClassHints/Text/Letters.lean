import ClassHints.Text.Ascii
import ClassHints.Text.Ranges

/-!
# Letters, digits and word characters

The suffix of a nested selector starts with a letter or digit of any script, and an attribute
name is found only where no word character stands before it. Letters and digits follow version
17 of the Unicode character database, word characters version 16.
-/

namespace ClassHints.Text

/-- A letter or a number of any script. -/
def isAlphanumeric (c : Char) : Bool :=
  if c.toNat < 0x80 then c.isAlphanum
  else Ranges.holds Ranges.alphabetic c.toNat || Ranges.holds Ranges.number c.toNat ||
    Ranges.holds Ranges.addedAlphanumeric c.toNat

/-- A character that words are made of: letters, marks, decimal digits, connectors. -/
def isWordPart (c : Char) : Bool :=
  if c.toNat < 0x80 then c.isAlphanum || c == '_'
  else Ranges.holds Ranges.alphabetic c.toNat || Ranges.holds Ranges.mark c.toNat ||
    Ranges.holds Ranges.decimal c.toNat || Ranges.holds Ranges.connector c.toNat

end ClassHints.Text
