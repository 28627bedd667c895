import ClassHints.Sheet.Mark

/-!
# Why a stylesheet is refused

A fault has a cause and the line and column where it was noticed.
-/

namespace ClassHints.Sheet

/-- What is wrong with the text. -/
inductive Cause where
  /-- A closing brace without an opening one. -/
  | strayBrace
  /-- An opening brace without a closing one. -/
  | openBlock
  /-- A string that ends with its line or with the text. -/
  | openString
  /-- A block comment that never ends. -/
  | openComment
  /-- A block with nothing before its opening brace. -/
  | bareBlock
  deriving DecidableEq, Repr

/-- The sentence shown for a cause. -/
def Cause.message : Cause → String
  | .strayBrace => "unexpected `\x7d`"
  | .openBlock => "unclosed block"
  | .openString => "unterminated string"
  | .openComment => "unterminated comment"
  | .bareBlock => "block without a selector"

/-- A refused stylesheet: the cause and where it was noticed. -/
structure Fault where
  cause : Cause
  line : Nat
  column : Nat
  deriving DecidableEq, Repr

/-- A fault noticed at a mark. -/
def Fault.at (m : Mark) (cause : Cause) : Fault := ⟨cause, m.line, m.column⟩

/-- Line, column and cause in one line of text. -/
def Fault.message (f : Fault) : String :=
  toString f.line ++ ":" ++ toString f.column ++ ": " ++ f.cause.message

end ClassHints.Sheet
