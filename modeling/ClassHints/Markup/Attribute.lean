import ClassHints.Text.Blank

/-!
# Attributes of a start tag

A value is quoted, an expression between braces, or a run of characters up to a blank or the
end of the tag. What is left open at the end of the text counts as written so far.
-/

namespace ClassHints.Markup

open Text

/-- An attribute of a start tag. -/
structure Attribute where
  name : Text
  /-- The value without its quotes or braces; none for a bare name. -/
  value : Option Text
  /-- Whether the value is an expression between braces. -/
  isExpression : Bool
  deriving DecidableEq, Repr

/-- Number of ASCII blanks at the front of a text. -/
def spacingLength (t : Text) : Nat := (t.takeWhile isSpacing).length

/-- A character that ends the name of an attribute. -/
def endsAttributeName (c : Char) : Bool :=
  isSpacing c || c == '=' || c == '>' || c == '"' || c == '\''

/-- The name of the attribute at the front of a text. The end of a self-closing tag is not
part of it. -/
def attributeName : Text → Text
  | [] => []
  | '/' :: '>' :: _ => []
  | c :: rest => if endsAttributeName c then [] else c :: attributeName rest

/-- The quotes of a string inside an expression. -/
def quotesExpression (c : Char) : Bool := c == '"' || c == '\'' || c == '\x60'

/-- An expression up to the brace that closes it, where `quote` is the quote of the string
that the place is in and `depth` the number of braces opened since the start. -/
def expressionFrom (quote : Option Char) (depth : Nat) : Text → Text
  | [] => []
  | c :: rest =>
    match quote with
    | some q => c :: expressionFrom (if c = q then none else some q) depth rest
    | none =>
      if quotesExpression c then c :: expressionFrom (some c) depth rest
      else if c = '{' then c :: expressionFrom none (depth + 1) rest
      else if c = '}' then
        match depth with
        | 0 => []
        | depth + 1 => c :: expressionFrom none depth rest
      else c :: expressionFrom none depth rest

/-- Number of characters of a value between delimiters, where `body` is the text after the
opening one. The closing one counts if it is there. -/
def delimitedLength (value body : Text) : Nat := 1 + min (value.length + 1) body.length

/-- The value at the front of a text, whether it is an expression, and its length. -/
def attributeValue (t : Text) : Text × Bool × Nat :=
  match t with
  | '{' :: body =>
    let value := expressionFrom none 0 body
    (value, true, delimitedLength value body)
  | c :: body =>
    if c = '"' || c = '\'' then
      let value := body.takeWhile (· != c)
      (value, false, delimitedLength value body)
    else
      let value := t.takeWhile fun c => !isSpacing c && c != '>'
      (value, false, value.length)
  | [] => ([], false, 0)

/-- The attribute at the front of a text and the number of characters it covers. A stray
quote or equals sign is passed over. -/
def Attribute.front (t : Text) : Option Attribute × Nat :=
  let name := attributeName t
  if name.isEmpty then (none, 1)
  else
    let rest := t.drop name.length
    let blanks := spacingLength rest
    match rest.drop blanks with
    | '=' :: body =>
      let gap := spacingLength body
      let (value, isExpression, n) := attributeValue (body.drop gap)
      (some ⟨name, some value, isExpression⟩, name.length + blanks + 1 + gap + n)
    | _ => (some ⟨name, none, false⟩, name.length)

end ClassHints.Markup
