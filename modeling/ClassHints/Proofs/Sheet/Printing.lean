import ClassHints.Proofs.Sheet.Forest
import ClassHints.Proofs.Sheet.Lexing
import ClassHints.Sheet.Masked

/-!
# Printed stylesheets

Nodes are written one per line: statements with a semicolon after them, blocks with their
nodes between braces, comments between their delimiters. This file says which nodes can be
written so that they can be told apart again, and what the pass that blanks out line comments
makes of the written text.
-/

namespace ClassHints.Sheet

open Text

/-! ## Nodes that can be written -/

/-- A text that can stand in a stylesheet by itself: not empty, without blanks at its ends and
without the characters that group, quote, escape or end. -/
def isSafe (t : Text) : Bool := !t.isEmpty && trim t == t && t.all isSafeChar

/-- A safe text or nothing. -/
def isSafeOrEmpty (t : Text) : Bool := t.isEmpty || isSafe t

/-- The name of an at-rule: an ASCII letter and name characters. -/
def isAtName : Text → Bool
  | [] => false
  | c :: name => c.isAlpha && name.all isNameChar

/-- A comment that ends where it is meant to end. -/
def Comment.isPrintable (c : Comment) : Bool :=
  match c.style with
  | .block => !mentions c.text "*/".toList
  | .line => trim c.text == c.text && !c.text.contains '\n'

mutual

/-- Whether a node can be written and read again. -/
def Node.isPrintable : Node → Bool
  | .declaration property value _ =>
    isSafe property && !property.contains ':' && isSafeOrEmpty value
  | .statement name params _ => isAtName name && isSafeOrEmpty params
  | .block name params nodes _ => isAtName name && isSafeOrEmpty params && allPrintable nodes
  | .rule selector nodes _ => isSafe selector && allPrintable nodes
  | .comment c => c.isPrintable

/-- Whether all nodes of a forest can be written and read again. -/
def allPrintable : List Node → Bool
  | [] => true
  | node :: nodes => node.isPrintable && allPrintable nodes

end

/-- A declaration as it is written, up to the semicolon. -/
def declarationText (property value : Text) : Text := property ++ ':' :: ' ' :: value

/-- An at-rule as it is written, up to its semicolon or block. -/
def atRuleText (name params : Text) : Text := '@' :: name ++ ' ' :: params

/-- A comment as it is written. -/
def Comment.print (c : Comment) : Text :=
  match c.style with
  | .block => '/' :: '*' :: c.text ++ ['*', '/']
  | .line => '/' :: '/' :: c.text

mutual

/-- A node as it is written, with the newline after it. -/
def Node.print : Node → Text
  | .declaration property value _ => declarationText property value ++ [';', '\n']
  | .statement name params _ => atRuleText name params ++ [';', '\n']
  | .block name params nodes _ =>
    atRuleText name params ++ [' ', '{', '\n'] ++ printAll nodes ++ ['}', '\n']
  | .rule selector nodes _ => selector ++ [' ', '{', '\n'] ++ printAll nodes ++ ['}', '\n']
  | .comment c => c.print ++ ['\n']

/-- A forest as it is written, one node per line. -/
def printAll : List Node → Text
  | [] => []
  | node :: nodes => node.print ++ printAll nodes

end

end ClassHints.Sheet
