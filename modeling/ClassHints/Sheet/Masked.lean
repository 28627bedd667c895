import ClassHints.Sheet.Node
import ClassHints.Sheet.Piece

/-!
# Stylesheets without line comments

The token grammar has no line comments. They are replaced by blanks, one for every byte, so
that offsets stay as they were, and kept aside. The same pass checks that braces are balanced
and that strings and block comments end.
-/

namespace ClassHints.Sheet

open Text

/-- A stylesheet whose line comments are blanked out and listed. -/
structure Masked where
  /-- The text with blanks in place of line comments. -/
  text : Text
  /-- The line comments in the order they are written. -/
  comments : List Comment
  deriving DecidableEq, Repr

/-- The text a piece leaves behind: blanks for a line comment, itself otherwise. -/
def Piece.masked (p : Piece) : Text :=
  match p.kind with
  | .lineComment => List.replicate (byteLength p.text) ' '
  | _ => p.text

/-- The line comment that a piece at a mark is, if it is one. -/
def Piece.comment? (m : Mark) (p : Piece) : Option Comment :=
  match p.kind with
  | .lineComment => some ⟨.line, trim (p.text.drop 2), m.to (m.advance p.text)⟩
  | _ => none

/-- The line comments among pieces that start at a mark. -/
def commentsFrom (m : Mark) : List Piece → List Comment
  | [] => []
  | p :: ps => (p.comment? m).toList ++ commentsFrom (m.advance p.text) ps

/-- The first fault among pieces that start at a mark; `opened` are the braces open there,
innermost first. At the end of the text the innermost open brace is at fault. -/
def faultFrom (m : Mark) (opened : List Mark) : List Piece → Option Fault
  | [] => opened.head?.map (Fault.at · .openBlock)
  | p :: ps =>
    match p.kind, opened with
    | .broken cause, _ => some (Fault.at m cause)
    | .opening, _ => faultFrom (m.advance p.text) (m :: opened) ps
    | .closing, [] => some (Fault.at m .strayBrace)
    | .closing, _ :: outer => faultFrom (m.advance p.text) outer ps
    | .plain, _ | .lineComment, _ => faultFrom (m.advance p.text) opened ps

/-- Blank out the line comments of a stylesheet, or say why it is refused. -/
def Masked.ofSource (source : Text) : Except Fault Masked :=
  let ps := pieces source
  match faultFrom .start [] ps with
  | some fault => .error fault
  | none => .ok ⟨ps.flatMap Piece.masked, commentsFrom .start ps⟩

/-- Blanks have one byte each. -/
@[simp]
theorem byteLength_replicate_blank (n : Nat) : byteLength (List.replicate n ' ') = n := by
  induction n with
  | zero => rfl
  | succ n ih =>
    have hsize : ' '.utf8Size = 1 := by decide
    rw [List.replicate_succ, byteLength_cons, ih, hsize, Nat.add_comm]

/-- A piece keeps its length in bytes. -/
@[simp]
theorem Piece.byteLength_masked (p : Piece) : byteLength p.masked = byteLength p.text := by
  unfold Piece.masked
  split
  · exact byteLength_replicate_blank _
  · rfl

/-- Pieces keep their length in bytes together. -/
theorem byteLength_flatMap_masked (ps : List Piece) :
    byteLength (ps.flatMap Piece.masked) = byteLength (ps.flatMap Piece.text) := by
  induction ps with
  | nil => rfl
  | cons p ps ih => simp [ih]

/-- Blanking out line comments keeps the length in bytes, so that offsets stay as they were. -/
theorem Masked.byteLength_text {source : Text} {m : Masked} (h : ofSource source = .ok m) :
    byteLength m.text = byteLength source := by
  cases hf : faultFrom .start [] (pieces source) with
  | some fault => simp [ofSource, hf] at h
  | none =>
    simp only [ofSource, hf, Except.ok.injEq] at h
    rw [← h, byteLength_flatMap_masked, flatMap_pieces]

end ClassHints.Sheet
