import ClassHints.Markup.Attribute

/-!
# Markup documents

A document is a forest of elements and texts, each with the bytes it covers. The document
itself has number zero, and its nodes are numbered from one in the order they start.
-/

namespace ClassHints.Markup

open Text

/-- Bytes from `start` up to `stop`. -/
structure Range where
  start : Nat
  stop : Nat
  deriving DecidableEq, Repr

/-- What a start tag says. -/
structure Element where
  number : Nat
  /-- The tag name as written. -/
  tag : Text
  attributes : List Attribute
  deriving DecidableEq, Repr

/-- A node of a document. -/
inductive Node where
  | text (number : Nat) (range : Range)
  | element (element : Element) (range : Range) (children : List Node)
  deriving Repr

/-- A document: the number of its bytes and its top-level nodes. -/
structure Document where
  length : Nat
  nodes : List Node
  deriving Repr

/-- The first attribute of a name. -/
def Element.attribute? (e : Element) (name : Text) : Option Attribute :=
  e.attributes.find? (·.name == name)

/-- Whether an attribute lists classes. -/
def Attribute.listsClasses (a : Attribute) : Bool :=
  (a.name == "class".toList || a.name == "className".toList) && !a.isExpression

/-- The classes of an element, each once. -/
def Element.classList (e : Element) : List Text :=
  (e.attributes.flatMap fun a => if a.listsClasses then words (a.value.getD []) else []).eraseDups

namespace Node

/-- The number of a node. -/
def number : Node → Nat
  | text n _ => n
  | element e _ _ => e.number

/-- The bytes that a node covers. -/
def range : Node → Range
  | text _ r | element _ r _ => r

/-- The nodes inside a node. -/
def children : Node → List Node
  | text .. => []
  | element _ _ nodes => nodes

mutual

/-- Number of nodes at and below a node. -/
def size : Node → Nat
  | text .. => 1
  | element _ _ nodes => 1 + sizes nodes

/-- Number of nodes at and below some nodes. -/
def sizes : List Node → Nat
  | [] => 0
  | node :: nodes => node.size + sizes nodes

end

end Node

/-- Number of nodes of a document, itself included. -/
def Document.size (d : Document) : Nat := 1 + Node.sizes d.nodes

end ClassHints.Markup
