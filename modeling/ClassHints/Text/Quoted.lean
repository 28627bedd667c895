import ClassHints.Text.Basic
import ClassHints.Text.Unseen

/-!
# Quoted texts

A text is quoted for a reader between two double quotes. Double quotes and backslashes get a
backslash before them, single quotes stay as they are, and characters that cannot be seen are
written by name or by number.
-/

namespace ClassHints.Text

/-- A character by its number, in hexadecimal between braces. -/
def numbered (c : Char) : Text :=
  ['\\', 'u', '\x7b'] ++ Nat.toDigits 16 c.toNat ++ ['\x7d']

/-- How a character is written between quotes. -/
def quotedChar (c : Char) : Text :=
  if c = '\x00' then ['\\', '0']
  else if c = '\t' then ['\\', 't']
  else if c = '\r' then ['\\', 'r']
  else if c = '\n' then ['\\', 'n']
  else if c = '"' || c = '\\' then ['\\', c]
  else if isUnseen c then numbered c
  else [c]

/-- A text between double quotes. -/
def quoted (t : Text) : Text := '"' :: t.flatMap quotedChar ++ ['"']

end ClassHints.Text
