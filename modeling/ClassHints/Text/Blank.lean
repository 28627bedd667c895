import ClassHints.Text.Basic

/-!
# Blank characters

Two kinds of blank are told apart: the white space of Unicode, which is trimmed from names,
values and comments, and the five ASCII blanks that separate tokens and attributes.
-/

namespace ClassHints.Text

/-- White space of Unicode. -/
def isBlank (c : Char) : Bool :=
  let n := c.toNat
  n == 0x20 || (0x09 ≤ n && n ≤ 0x0D) || n == 0x85 || n == 0xA0 || n == 0x1680 ||
    (0x2000 ≤ n && n ≤ 0x200A) || n == 0x2028 || n == 0x2029 || n == 0x202F || n == 0x205F ||
    n == 0x3000

/-- The form feed, which ends a line for the tokens of a stylesheet. -/
def formFeed : Char := '\x0c'

/-- Space, tab, line feed, form feed or carriage return. -/
def isSpacing (c : Char) : Bool :=
  c == ' ' || c == '\t' || c == '\n' || c == formFeed || c == '\r'

/-- A text without the blanks at its start. -/
def trimStart (t : Text) : Text := t.dropWhile isBlank

/-- A text without the blanks at its end. -/
def trimEnd (t : Text) : Text := (t.reverse.dropWhile isBlank).reverse

/-- A text without the blanks at its two ends. -/
def trim (t : Text) : Text := trimEnd (trimStart t)

/-- A text without the characters at its two ends that satisfy `p`. -/
def trimWhere (p : Char → Bool) (t : Text) : Text :=
  ((t.dropWhile p).reverse.dropWhile p).reverse

/-- The longest runs of characters that are no blanks, in order. -/
def words (t : Text) : List Text := (splitWhere isBlank t).filter (!·.isEmpty)

/-- The text up to its first blank. -/
def firstWord (t : Text) : Text := t.takeWhile (!isBlank ·)

/-- Every ASCII blank is white space. -/
theorem isBlank_of_isSpacing {c : Char} (h : isSpacing c = true) : isBlank c = true := by
  simp only [isSpacing, formFeed, Bool.or_eq_true, beq_iff_eq] at h
  rcases h with (((rfl | rfl) | rfl) | rfl) | rfl <;> decide

end ClassHints.Text
