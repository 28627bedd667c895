import ClassHints.Markup.Node

/-!
# The element at an offset

The innermost element is found from the outside in: of each list of nodes the first element
whose bytes hold the offset is entered, and both ends of an element count as inside.
-/

namespace ClassHints.Cursor

open Markup

/-- Whether a range holds an offset, both ends included. -/
def holds (r : Range) (offset : Nat) : Bool := r.start ≤ offset && offset ≤ r.stop

/-- An element of a document, where it is, and the elements around it, innermost first. -/
structure Location where
  element : Element
  range : Range
  ancestors : List Element
  deriving DecidableEq, Repr

mutual

/-- The innermost element at an offset among nodes inside some elements. -/
def locateIn (offset : Nat) (ancestors : List Element) : List Node → Option Location
  | [] => none
  | node :: nodes =>
    match locateNode offset ancestors node with
    | some found => some found
    | none => locateIn offset ancestors nodes

/-- The innermost element at an offset at or below a node inside some elements. -/
def locateNode (offset : Nat) (ancestors : List Element) : Node → Option Location
  | .text .. => none
  | .element e range children =>
    if holds range offset then
      some ((locateIn offset (e :: ancestors) children).getD ⟨e, range, ancestors⟩)
    else none

end

/-- The innermost element at an offset of a document. -/
def locate (d : Document) (offset : Nat) : Option Location := locateIn offset [] d.nodes

end ClassHints.Cursor
