import ClassHints.Text.Basic

/-!
# Sets of texts

A set of texts is kept by their first characters: the texts that start with a character stand
below it without that character. Looking a text up takes as many steps as it has characters,
times the characters to choose from, whatever the number of texts in the set.
-/

namespace ClassHints

/-- A set of texts. -/
inductive TextSet where
  /-- No text. -/
  | none
  /-- The empty text, and those of a set. -/
  | empty (others : TextSet)
  /-- The texts that start with a character, and those of a set. -/
  | starting (c : Char) (below others : TextSet)

namespace TextSet

/-- Whether a text is in a set. -/
def contains : TextSet → Text → Bool
  | none, _ => false
  | empty _, [] => true
  | empty others, c :: t => others.contains (c :: t)
  | starting _ _ others, [] => others.contains []
  | starting c below others, d :: t =>
    if c = d then below.contains t else others.contains (d :: t)

/-- The set of one text. -/
def only : Text → TextSet
  | [] => empty none
  | c :: t => starting c (only t) none

/-- Put a text into a set. -/
def insert : TextSet → Text → TextSet
  | none, t => only t
  | empty others, [] => empty others
  | empty others, c :: t => empty (others.insert (c :: t))
  | starting c below others, [] => starting c below (others.insert [])
  | starting c below others, d :: t =>
    if c = d then starting c (below.insert t) others
    else starting c below (others.insert (d :: t))

end TextSet

end ClassHints
