import ClassHints.Text.Blank

/-!
# Places in a stylesheet

A mark is a byte offset together with the line and column shown to a reader, both counted
from one. Line comments and unbalanced text are placed by newlines and characters; tokens are
placed by the line breaks of the token grammar and by UTF-16 units.
-/

namespace ClassHints.Sheet

open Text

/-- A place in a text. -/
structure Mark where
  /-- Bytes before the place. -/
  offset : Nat
  /-- Line, from one. -/
  line : Nat
  /-- Column, from one. -/
  column : Nat
  deriving DecidableEq, Repr

/-- The place before the first character. -/
def Mark.start : Mark := ⟨0, 1, 1⟩

/-- The place after `c`: a newline starts a line, every other character fills one column. -/
def Mark.next (m : Mark) (c : Char) : Mark :=
  if c = '\n' then ⟨m.offset + c.utf8Size, m.line + 1, 1⟩
  else ⟨m.offset + c.utf8Size, m.line, m.column + 1⟩

/-- The place after a text. -/
def Mark.advance (m : Mark) (t : Text) : Mark := t.foldl Mark.next m

/-- A place between tokens. A line feed right after a carriage return does not start a
second line, so the reader remembers whether it stands after a carriage return. -/
structure Spot where
  mark : Mark
  afterReturn : Bool
  deriving DecidableEq, Repr

/-- The place before the first token. -/
def Spot.start : Spot := ⟨Mark.start, false⟩

/-- The place after `c`: line feed, form feed and carriage return start a line, every other
character fills as many columns as it has UTF-16 units. -/
def Spot.next (s : Spot) (c : Char) : Spot :=
  let offset := s.mark.offset + c.utf8Size
  if c = '\n' && s.afterReturn then ⟨⟨offset, s.mark.line, 1⟩, false⟩
  else if c = '\n' || c = formFeed || c = '\r' then ⟨⟨offset, s.mark.line + 1, 1⟩, c = '\r'⟩
  else ⟨⟨offset, s.mark.line, s.mark.column + unitSize c⟩, false⟩

/-- The place after a text. -/
def Spot.advance (s : Spot) (t : Text) : Spot := t.foldl Spot.next s

/-- The extent of a node: byte offsets of its two ends, line and column of its start. -/
structure Span where
  start : Nat
  stop : Nat
  line : Nat
  column : Nat
  deriving DecidableEq, Repr

/-- The extent from one mark to another. -/
def Mark.to (first last : Mark) : Span := ⟨first.offset, last.offset, first.line, first.column⟩

/-- A mark advances past two texts one after the other. -/
theorem Mark.advance_append (m : Mark) (s t : Text) :
    m.advance (s ++ t) = (m.advance s).advance t := by
  simp [Mark.advance]

/-- A spot advances past two texts one after the other. -/
theorem Spot.advance_append (p : Spot) (s t : Text) :
    p.advance (s ++ t) = (p.advance s).advance t := by
  simp [Spot.advance]

/-- Offsets count bytes. -/
@[simp]
theorem Mark.offset_advance (m : Mark) (t : Text) :
    (m.advance t).offset = m.offset + byteLength t := by
  induction t generalizing m with
  | nil => rfl
  | cons c t ih =>
    have hnext : (m.next c).offset = m.offset + c.utf8Size := by
      unfold Mark.next; split <;> rfl
    rw [Mark.advance, List.foldl_cons, ← Mark.advance, ih, hnext, byteLength_cons]
    omega

/-- The offset of a spot counts bytes as well. -/
@[simp]
theorem Spot.offset_advance (p : Spot) (t : Text) :
    (p.advance t).mark.offset = p.mark.offset + byteLength t := by
  induction t generalizing p with
  | nil => rfl
  | cons c t ih =>
    have hnext : (p.next c).mark.offset = p.mark.offset + c.utf8Size := by
      unfold Spot.next; split
      · rfl
      · split <;> rfl
    rw [Spot.advance, List.foldl_cons, ← Spot.advance, ih, hnext, byteLength_cons]
    omega

end ClassHints.Sheet
