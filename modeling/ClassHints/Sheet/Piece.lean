import ClassHints.Sheet.Fault
import ClassHints.Text.Ascii

/-!
# The pieces of a stylesheet

Before tokens are read, a stylesheet is cut into pieces: strings, block comments, addresses
and escapes, whose content means nothing here, line comments, braces, and single characters
for all the rest. The pieces put together are the text again, up to the first piece that
cannot be completed.
-/

namespace ClassHints.Sheet

open Text

/-- What a piece is. -/
inductive PieceKind where
  /-- Text that is handed on as it stands. -/
  | plain
  /-- An opening brace. -/
  | opening
  /-- A closing brace. -/
  | closing
  /-- A comment from two slashes to the end of its line. -/
  | lineComment
  /-- A string or comment that does not end. -/
  | broken (cause : Cause)
  deriving DecidableEq, Repr

/-- A piece of a stylesheet with its own text. -/
structure Piece where
  kind : PieceKind
  text : Text
  deriving DecidableEq, Repr

/-- Number of characters up to and with the end of a string, after its opening quote.
A backslash takes the next character with it; a newline or the end of the text leave the
string open. -/
def stringEnd? (quote : Char) (escaped : Bool) : Text → Option Nat
  | [] => none
  | c :: rest =>
    if escaped then (stringEnd? quote false rest).map (· + 1)
    else if c = quote then some 1
    else if c = '\n' then none
    else (stringEnd? quote (c = '\\') rest).map (· + 1)

/-- Number of characters up to and with the parenthesis that ends an address, where a
backslash takes the next character with it and a newline is not part of an address. -/
def addressEnd? (escaped : Bool) : Text → Option Nat
  | [] => none
  | c :: rest =>
    if escaped then (addressEnd? false rest).map (· + 1)
    else if c = ')' then some 1
    else if c = '\n' then none
    else (addressEnd? (c = '\\') rest).map (· + 1)

/-- A character that an address cannot directly follow, since it would be part of a name. -/
def joinsName (c : Char) : Bool := c.isAlphanum || c == '-' || c == '_'

/-- Number of characters of the unquoted address at the front of a text, if there is one. -/
def address? (previous : Option Char) (t : Text) : Option Nat :=
  if sameLetters (t.take 4) "url(".toList && !previous.any joinsName then
    let body := t.drop 4
    let blanks := (body.takeWhile isSpacing).length
    match body.drop blanks with
    | '"' :: _ | '\'' :: _ => none
    | rest => (addressEnd? false rest).map (4 + blanks + ·)
  else none

/-- Number of characters up to and with the closing bracket of a block comment. -/
def commentEnd? (t : Text) : Option Nat :=
  (cut? "*/".toList t).map fun (body, _) => body.length + 2

/-- Whether two slashes start a comment: inside parentheses an address may hold them, after
its colon or right after the parenthesis. -/
def startsLineComment (previous : Option Char) (depth : Nat) : Bool :=
  depth == 0 || !(previous == some '(' || previous == some ':')

/-- The piece at the front of a text that starts with `c`: its kind, and how many characters
after `c` belong to it. `depth` counts the parentheses open since the last brace. -/
def Piece.front (previous : Option Char) (depth : Nat) (c : Char) (rest : Text) : PieceKind × Nat :=
  match address? previous (c :: rest) with
  | some n => (.plain, n - 1)
  | none =>
    match c, rest with
    | '\\', _ => (.plain, 1)
    | '"', _ | '\'', _ =>
      match stringEnd? c false rest with
      | some n => (.plain, n)
      | none => (.broken .openString, rest.length)
    | '/', '*' :: body =>
      match commentEnd? body with
      | some n => (.plain, n + 1)
      | none => (.broken .openComment, rest.length)
    | '/', '/' :: _ =>
      if startsLineComment previous depth then
        (.lineComment, (rest.takeWhile (· != '\n')).length)
      else (.plain, 0)
    | '{', _ => (.opening, 0)
    | '}', _ => (.closing, 0)
    | _, _ => (.plain, 0)

/-- The number of open parentheses after a piece: braces reset it. -/
def depthAfter (depth : Nat) (kind : PieceKind) (text : Text) : Nat :=
  match kind, text with
  | .opening, _ | .closing, _ => 0
  | _, ['('] => depth + 1
  | _, [')'] => depth - 1
  | _, _ => depth

/-- The pieces of a text; `skip` characters at its front belong to the piece before. -/
def piecesFrom (previous : Option Char) (depth : Nat) : Nat → Text → List Piece
  | _, [] => []
  | skip + 1, c :: rest => piecesFrom (some c) depth skip rest
  | 0, c :: rest =>
    let (kind, more) := Piece.front previous depth c rest
    let text := c :: rest.take more
    ⟨kind, text⟩ :: piecesFrom (some c) (depthAfter depth kind text) more rest

/-- The pieces of a stylesheet. -/
def pieces (source : Text) : List Piece := piecesFrom none 0 0 source

/-- The pieces from a place on make up the text from there on. -/
theorem flatMap_piecesFrom (previous : Option Char) (depth skip : Nat) (t : Text) :
    (piecesFrom previous depth skip t).flatMap Piece.text = t.drop skip := by
  induction t generalizing previous depth skip with
  | nil => simp [piecesFrom]
  | cons c rest ih =>
    cases skip with
    | zero => simp [piecesFrom, ih]
    | succ skip => simp [piecesFrom, ih]

/-- The pieces of a stylesheet make up its text. -/
@[simp]
theorem flatMap_pieces (source : Text) : (pieces source).flatMap Piece.text = source := by
  simp [pieces, flatMap_piecesFrom]

end ClassHints.Sheet
