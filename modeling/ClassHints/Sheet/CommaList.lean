import ClassHints.Text.Blank

/-!
# Lists separated by commas

Selector lists and import lists are cut at the commas that stand outside strings and outside
brackets. A string runs from a quote to the next quote of its kind, and one depth is kept for
all brackets, which never falls below zero.
-/

namespace ClassHints.Sheet

open Text

/-- Which characters open and close a group whose commas do not separate. -/
structure Grouping where
  opens : Char → Bool
  closes : Char → Bool

/-- Put a character in front of the first part. -/
def consPart (c : Char) : List Text → List Text
  | [] => [[c]]
  | part :: parts => (c :: part) :: parts

/-- The parts of a list from a place on, where `quote` is the quote of the string that the
place is in and `depth` the number of groups around it. -/
def commaPartsFrom (g : Grouping) (quote : Option Char) (depth : Nat) : Text → List Text
  | [] => [[]]
  | c :: rest =>
    match quote with
    | some q => consPart c (commaPartsFrom g (if c = q then none else some q) depth rest)
    | none =>
      if c = '"' || c = '\'' then consPart c (commaPartsFrom g (some c) depth rest)
      else if g.opens c then consPart c (commaPartsFrom g none (depth + 1) rest)
      else if g.closes c then consPart c (commaPartsFrom g none (depth - 1) rest)
      else if c = ',' && depth = 0 then [] :: commaPartsFrom g none 0 rest
      else consPart c (commaPartsFrom g none depth rest)

/-- The parts of a list, trimmed. -/
def commaParts (g : Grouping) (t : Text) : List Text := (commaPartsFrom g none 0 t).map trim

end ClassHints.Sheet
