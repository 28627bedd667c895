import ClassHints.Sheet.CommaList

/-!
# Selector lists

A rule names several selectors separated by commas. Block comments between them are dropped
first, wherever they stand.
-/

namespace ClassHints.Sheet

open Text

/-- A text without its block comments; `inside` tells whether the place is in a comment. -/
def stripCommentsFrom : Bool → Text → Text
  | false, '/' :: '*' :: rest => stripCommentsFrom true rest
  | true, '*' :: '/' :: rest => stripCommentsFrom false rest
  | false, c :: rest => c :: stripCommentsFrom false rest
  | true, _ :: rest => stripCommentsFrom true rest
  | _, [] => []

/-- A text without its block comments; one that does not end hides all the rest. -/
def stripComments (t : Text) : Text := stripCommentsFrom false t

/-- In selectors all three kinds of brackets group. -/
def selectorGrouping : Grouping where
  opens c := c == '(' || c == '[' || c == '{'
  closes c := c == ')' || c == ']' || c == '}'

/-- The selectors of a selector list, trimmed, empty ones left out. -/
def splitSelectors (selector : Text) : List Text :=
  (commaParts selectorGrouping (stripComments selector)).filter (!·.isEmpty)

end ClassHints.Sheet
