import ClassHints.Text.Basic

/-!
# Paths as they are written

A path is a text whose segments are separated by slashes. Empty segments and single dots mean
nothing, except a single dot at the very start. Nothing here looks at files: two dots are a
segment like any other, and a parent is a beginning of the path.
-/

namespace ClassHints.Files

open Text

/-- A path as it is written. -/
abbrev Path := Text

namespace Path

/-- Whether a path starts at the root. -/
def isAbsolute (p : Path) : Bool := p.head? == some '/'

/-- The slash of the root, or the single dot that a relative path starts with. -/
def lead : Path → Text
  | '/' :: _ => ['/']
  | ['.'] | '.' :: '/' :: _ => ['.']
  | _ => []

/-- Whether a segment means nothing. -/
def isIdle (segment : Text) : Bool := segment.isEmpty || segment == ['.']

/-- Segments without the idle ones at their end. -/
def trimSegments (segments : List Text) : List Text :=
  (segments.reverse.dropWhile isIdle).reverse

/-- The segments of a path after its lead, without the idle ones at the end. -/
def segments (p : Path) : List Text :=
  trimSegments (splitWhere (· == '/') (p.drop (lead p).length))

/-- The last segment of a path, unless it leads upwards. -/
def fileName? (p : Path) : Option Text :=
  match (segments p).getLast? with
  | some name => if name = ['.', '.'] then none else some name
  | none => none

/-- A path without its last segment. The root and the empty path have no parent. -/
def parent? (p : Path) : Option Path :=
  if (segments p).isEmpty then
    if lead p = ['.'] then some [] else none
  else some (lead p ++ join ['/'] (trimSegments (segments p).dropLast))

/-- A path followed by its parents, as many as given at most. -/
def parentsUpTo : Nat → Path → List Path
  | 0, _ => []
  | n + 1, p => p :: (parent? p).elim [] (parentsUpTo n)

/-- A path followed by its parents; each of them is shorter than the one before. -/
def ancestors (p : Path) : List Path := parentsUpTo (p.length + 1) p

/-- A path continued by another one, which replaces it if it starts at the root. -/
def append (base p : Path) : Path :=
  if isAbsolute p then p
  else if base.isEmpty || base.getLast? == some '/' then base ++ p
  else base ++ '/' :: p

/-- A file name without its extension. A dot at the start begins no extension. -/
def stem (name : Text) : Text :=
  match cutAt? '.' name.reverse with
  | some (_, rest) => if rest.isEmpty then name else rest.reverse
  | none => name

end Path

end ClassHints.Files
