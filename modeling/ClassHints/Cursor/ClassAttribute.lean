import ClassHints.Text.Blank
import ClassHints.Text.Letters

/-!
# Open class attributes

Classes are suggested only where a class attribute is being written. This is decided from the
characters right before the cursor alone: a window of limited length, which does not reach
back before a given place.
-/

namespace ClassHints.Cursor

open Text

/-- The longest beginning of a text with at most so many bytes. -/
def takeBytes : Nat → Text → Text
  | _, [] => []
  | n, c :: rest => if c.utf8Size ≤ n then c :: takeBytes (n - c.utf8Size) rest else []

/-- The last characters of a text, as many as given at most. -/
def lastChars (n : Nat) (t : Text) : Text := t.drop (t.length - n)

/-- The characters before an offset that are looked at: not those before the byte `floor`,
and no more than `lookback`. -/
def window (t : Text) (offset floor lookback : Nat) : Text :=
  let before := takeBytes offset t
  lastChars lookback (before.drop (takeBytes floor before).length)

/-- Whether a text after an attribute name is an equals sign and a value that is still open at
its end, or not started. `braces` says whether an expression counts as a value. -/
def opensValue (braces : Bool) (t : Text) : Bool :=
  match trimStart t with
  | '=' :: rest =>
    match trimStart rest with
    | [] => true
    | '"' :: body => !body.contains '"'
    | '\'' :: body => !body.contains '\''
    | '{' :: body => braces && !body.contains '}'
    | _ => false
  | _ => false

/-- Whether a text is an attribute name followed by an open value. -/
def opensAttribute (name : Text) (braces : Bool) (t : Text) : Bool :=
  (after? name t).any (opensValue braces)

/-- Whether a text is a class attribute that is open at its end, where `previous` stands
before it. A plain name must not continue a word. -/
def opensHere (previous : Option Char) (t : Text) : Bool :=
  (!previous.any isWordPart &&
    (opensAttribute "class".toList false t || opensAttribute "className".toList true t)) ||
    opensAttribute "[ngClass]".toList false t

/-- Whether a class attribute that is open at the end of a text starts anywhere in it. -/
def endsOpenFrom (previous : Option Char) : Text → Bool
  | [] => false
  | c :: rest => opensHere previous (c :: rest) || endsOpenFrom (some c) rest

/-- Whether a class attribute is open at an offset, as far as the window shows. -/
def classAttributeOpen (t : Text) (offset floor lookback : Nat) : Bool :=
  endsOpenFrom none (window t offset floor lookback)

end ClassHints.Cursor
