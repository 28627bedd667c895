import ClassHints.Markup.Node
import Mathlib.Data.List.Perm.Basic

/-!
# Forests of markup nodes

All nodes of a forest in pre-order, each with the elements around it, and the entries of a
document: its own and one for every node, with the nodes directly inside. Every node is
directly inside exactly one entry.
-/

namespace ClassHints.Markup

/-- A node and the elements around it, innermost first. -/
structure Placed where
  around : List Element
  node : Node

mutual

/-- A node and all nodes below it in pre-order. -/
def Node.places (around : List Element) : Node → List Placed
  | .text number range => [⟨around, .text number range⟩]
  | .element e range children =>
    ⟨around, .element e range children⟩ :: placesIn (e :: around) children

/-- All nodes of a forest in pre-order. -/
def placesIn (around : List Element) : List Node → List Placed
  | [] => []
  | node :: nodes => node.places around ++ placesIn around nodes

end

/-- All nodes of a document in pre-order. -/
def Document.places (d : Document) : List Placed := placesIn [] d.nodes

/-- The node of a number in a document, with the elements around it. -/
def Document.place? (d : Document) (number : Nat) : Option Placed :=
  d.places.find? (·.node.number == number)

/-- An entry of a document: a number, the bytes it covers and the nodes directly inside. -/
structure Entry where
  number : Nat
  range : Range
  children : List Node

/-- The entry of a node. -/
def Node.entry (node : Node) : Entry := ⟨node.number, node.range, node.children⟩

/-- The entries of a document: its own, which covers all bytes, and those of its nodes. -/
def Document.entries (d : Document) : List Entry :=
  ⟨0, ⟨0, d.length⟩, d.nodes⟩ :: d.places.map (·.node.entry)

/-- Induction over forests: an element brings the forest inside it. -/
@[elab_as_elim]
theorem Node.forest_induction {motive : List Node → Prop} (nil : motive [])
    (text : ∀ number range nodes, motive nodes → motive (.text number range :: nodes))
    (element : ∀ e range children nodes, motive children → motive nodes →
      motive (.element e range children :: nodes)) : ∀ nodes, motive nodes
  | [] => nil
  | .text number range :: nodes =>
    text number range nodes (forest_induction nil text element nodes)
  | .element e range children :: nodes =>
    element e range children nodes (forest_induction nil text element children)
      (forest_induction nil text element nodes)

/-- A text is placed alone. -/
theorem placesIn_text (around : List Element) (number : Nat) (range : Range) (nodes : List Node) :
    placesIn around (.text number range :: nodes) =
      ⟨around, .text number range⟩ :: placesIn around nodes := rfl

/-- An element is placed before the nodes inside it, which have one more element around them. -/
theorem placesIn_element (around : List Element) (e : Element) (range : Range)
    (children nodes : List Node) :
    placesIn around (.element e range children :: nodes) =
      ⟨around, .element e range children⟩ ::
        (placesIn (e :: around) children ++ placesIn around nodes) := rfl

/-- The nodes of two forests are placed one forest after the other. -/
theorem placesIn_append (around : List Element) (nodes more : List Node) :
    placesIn around (nodes ++ more) = placesIn around nodes ++ placesIn around more := by
  induction nodes with
  | nil => rfl
  | cons node nodes ih => rw [List.cons_append, placesIn, placesIn, ih, List.append_assoc]

/-- There are as many places as there are nodes. -/
theorem length_placesIn (around : List Element) (nodes : List Node) :
    (placesIn around nodes).length = Node.sizes nodes := by
  induction nodes using Node.forest_induction generalizing around with
  | nil => rfl
  | text number range nodes ih =>
    rw [placesIn_text, List.length_cons, ih, Node.sizes, Node.size, Nat.add_comm]
  | element e range children nodes ihinner ih =>
    rw [placesIn_element, List.length_cons, List.length_append, ih, ihinner, Node.sizes, Node.size]
    omega

/-- Every node of a forest is either one of its trees or directly inside one other node. -/
theorem perm_children (around : List Element) (nodes : List Node) :
    (nodes.map Node.number ++ (placesIn around nodes).flatMap
      (·.node.children.map Node.number)).Perm ((placesIn around nodes).map (·.node.number)) := by
  induction nodes using Node.forest_induction generalizing around with
  | nil => exact .nil
  | text number range nodes ih => exact (ih around).cons number
  | element e range children nodes ihinner ih =>
    rw [placesIn_element, List.flatMap_cons, List.map_cons, List.map_cons, List.flatMap_append,
      List.map_append, List.cons_append]
    refine List.Perm.cons e.number ?_
    refine .trans ?_ ((ihinner (e :: around)).append (ih around))
    rw [← List.append_assoc (Node.children _ |>.map Node.number)]
    exact List.perm_append_comm_assoc _ _ _

end ClassHints.Markup
