import ClassHints.Markup.Attribute
import ClassHints.Text.Ascii

/-!
# Start tags

After the name of a tag come its attributes. The tag ends with an angle bracket, with a slash
and an angle bracket, or not at all.
-/

namespace ClassHints.Markup

open Text

/-- How a start tag ends. -/
inductive Ending where
  | opened
  | selfClosed
  /-- The text ends inside the tag. -/
  | unfinished
  deriving DecidableEq, Repr

/-- A start tag after its name: attributes, ending, and the number of characters. -/
structure TagBody where
  attributes : List Attribute
  ending : Ending
  length : Nat
  deriving DecidableEq, Repr

/-- The same body with one character more. -/
def TagBody.grow (b : TagBody) : TagBody := { b with length := b.length + 1 }

/-- The rest of a start tag; `skip` characters belong to the attribute before. -/
def tagBodyFrom : Nat → Text → TagBody
  | _, [] => ⟨[], .unfinished, 0⟩
  | skip + 1, _ :: rest => (tagBodyFrom skip rest).grow
  | 0, c :: rest =>
    if isSpacing c then (tagBodyFrom 0 rest).grow
    else if c = '>' then ⟨[], .opened, 1⟩
    else if c = '/' then
      if rest.head? = some '>' then ⟨[], .selfClosed, 2⟩ else (tagBodyFrom 0 rest).grow
    else
      let (attribute?, n) := Attribute.front (c :: rest)
      let body := tagBodyFrom (n - 1) rest
      { body.grow with attributes := attribute?.toList ++ body.attributes }

/-- A character of a tag name. -/
def isTagPart (c : Char) : Bool := c.isAlphanum || c == '-' || c == '_' || c == ':' || c == '.'

/-- The tag name at the front of a text. -/
def tagName (t : Text) : Text := t.takeWhile isTagPart

/-- Tags whose elements have no content. -/
def voidTags : List Text :=
  ["area", "base", "br", "col", "embed", "hr", "img", "input", "link", "meta", "param", "source",
    "track", "wbr"].map String.toList

/-- Tags whose content is text up to their own closing tag. -/
def rawTags : List Text := ["script", "style", "textarea", "title"].map String.toList

/-- Whether an element with this tag has no content. -/
def isVoid (tag : Text) : Bool := voidTags.any (sameLetters tag)

/-- Whether the content of an element with this tag is text. -/
def isRaw (tag : Text) : Bool := rawTags.any (sameLetters tag)

end ClassHints.Markup
