import ClassHints.Sheet.Mark

/-!
# The nodes of a stylesheet

Only the structure of a stylesheet is kept: declarations, at-rules with and without a block,
rules and comments, each with its extent. Values, parameters and selectors stay text.
-/

namespace ClassHints.Sheet

open Text

/-- How a comment is written. -/
inductive CommentStyle where
  /-- Between the two comment brackets. -/
  | block
  /-- From two slashes to the end of the line. -/
  | line
  deriving DecidableEq, Repr

/-- A comment without its delimiters. -/
structure Comment where
  style : CommentStyle
  text : Text
  span : Span
  deriving DecidableEq, Repr

/-- A node of a stylesheet. -/
inductive Node where
  /-- A property, a colon and a value. -/
  | declaration (property value : Text) (span : Span)
  /-- An at-rule without a block; the name goes without its at sign. -/
  | statement (name params : Text) (span : Span)
  /-- An at-rule with a block. -/
  | block (name params : Text) (nodes : List Node) (span : Span)
  /-- A selector list with a block. -/
  | rule (selector : Text) (nodes : List Node) (span : Span)
  /-- A comment. -/
  | comment (comment : Comment)
  deriving Repr

namespace Node

/-- The extent of a node. -/
def span : Node → Span
  | declaration _ _ s | statement _ _ s | block _ _ _ s | rule _ _ s => s
  | comment c => c.span

/-- The nodes inside a node. -/
def children : Node → List Node
  | block _ _ nodes _ | rule _ nodes _ => nodes
  | declaration .. | statement .. | comment _ => []

/-- Whether a node is a rule. -/
def isRule : Node → Bool
  | rule .. => true
  | _ => false

end Node

/-- Whether a property names a variable of the preprocessor. -/
def isVariable (property : Text) : Bool := property.head? == some '$'

/-- A line of a comment without its indentation and without the star that decorates it. -/
def bareLine (line : Text) : Text :=
  let line := trimStart line
  trim ((after? ['*'] line).getD line)

/-- The words of a comment: every line bare, blank edges removed. -/
def Comment.prose (text : Text) : Text :=
  trim (join ['\n'] ((splitWhere (· == '\n') text).map bareLine))

end ClassHints.Sheet
