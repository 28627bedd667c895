import ClassHints.Text.Basic

/-!
# Editor positions

An editor gives a position as a line and a column, both from zero, with columns counted in
UTF-16 units. Lines end with a line feed, a carriage return, or both in this order.
-/

namespace ClassHints.Cursor

open Text

/-- A position in an editor. -/
structure Position where
  line : Nat
  column : Nat
  deriving DecidableEq, Repr

/-- The text from the start of a line on, if the text has that line. -/
def fromLine? : Nat → Text → Option Text
  | 0, t => some t
  | n + 1, '\r' :: '\n' :: rest => fromLine? n rest
  | n + 1, c :: rest => if c = '\n' || c = '\r' then fromLine? n rest else fromLine? (n + 1) rest
  | _ + 1, [] => none

/-- The text from a column of its first line on. A column past the end of the line leads to
its end, and a column inside a character to the start of that character. -/
def fromColumn : Nat → Text → Text
  | _, [] => []
  | column, c :: rest =>
    if c = '\n' || c = '\r' || column < unitSize c then c :: rest
    else fromColumn (column - unitSize c) rest

/-- The byte offset of a position, if the text has its line. -/
def offsetAt (t : Text) (p : Position) : Option Nat :=
  (fromLine? p.line t).map fun line => byteLength t - byteLength (fromColumn p.column line)

end ClassHints.Cursor
