import ClassHints.Model.ClassName
import ClassHints.Sheet.Node
import ClassHints.Sheet.Selector

/-!
# Class trees

A rule that names classes is a class tree, and the rules nested in it are its children. The
trees of a package are numbered in the order they are met, and refer to each other by number,
so that mixins can share them.
-/

namespace ClassHints.Model

open Text
open Sheet (Node Comment splitSelectors)

/-- One rule that names classes. -/
structure ClassTree where
  /-- The classes of the rule, then the classes its nested rules continue them to. -/
  classes : List ClassName
  /-- The trees of the nested rules. -/
  children : List Nat
  /-- The tree of the rule around it. -/
  parent : Option Nat
  /-- The selector list as written. -/
  selector : Text
  /-- The words of the comment written right before the rule. -/
  description : Option Text
  deriving DecidableEq, Repr

/-- The trees of a package by number. -/
abbrev Trees := Array ClassTree

/-- Whether a tree carries a class. -/
def ClassTree.carries (t : ClassTree) (name : Text) : Bool := t.classes.any (·.name == name)

/-- The classes that the rules among nodes continue the classes of a parent to. -/
def continuedClasses (base : List ClassName) (nodes : List Node) : List ClassName :=
  nodes.flatMap fun
    | .rule selector _ _ => extendedClasses (splitSelectors selector) base
    | _ => []

mutual

/-- Add the tree of a node, then the trees below it, to the trees of a package, and give the
number of the first. A node that is no rule or names no class adds nothing. -/
def growTree (parent : Option Nat) (description : Option Text) :
    Node → Trees → Option Nat × Trees
  | .rule selector nodes _, trees =>
    let base := subClasses (splitSelectors selector)
    if base.isEmpty then (none, trees)
    else
      let id := trees.size
      let classes := base ++ continuedClasses base nodes
      let planted := trees.push ⟨classes, [], parent, selector, description⟩
      let (children, grown) := growTrees id none nodes planted
      (some id, grown.modify id fun t => { t with children := children })
  | _, trees => (none, trees)

/-- Add the trees of nested nodes and give their numbers. A comment describes the rule right
after it. -/
def growTrees (parent : Nat) (pending : Option Text) : List Node → Trees → List Nat × Trees
  | [], trees => ([], trees)
  | node :: nodes, trees =>
    match node with
    | .comment c => growTrees parent (some (Comment.prose c.text)) nodes trees
    | node =>
      let (id?, grown) := growTree (some parent) pending node trees
      let (ids, grown) := growTrees parent none nodes grown
      (id?.toList ++ ids, grown)

end

/-- The trees at and below a tree, a parent before its children, down to a depth. A number
that belongs to no tree is listed and has nothing below it. -/
def listBelow (trees : Trees) : Nat → Nat → List Nat
  | 0, id => [id]
  | depth + 1, id =>
    id :: (trees[id]?.elim [] ClassTree.children).flatMap (listBelow trees depth)

/-- All trees at and below a tree, or nothing if there is no such tree. No chain of children
is longer than there are trees unless it runs in a circle. -/
def flatten (trees : Trees) (root : Nat) : List Nat :=
  if root < trees.size then listBelow trees trees.size root else []

/-- All trees below a tree, without the tree itself. -/
def descendants (trees : Trees) (root : Nat) : List Nat := (flatten trees root).tail

/-- The chain from a tree up to the outermost tree around it, of a limited length. -/
def climb (trees : Trees) : Nat → Nat → List ClassTree
  | 0, _ => []
  | steps + 1, id =>
    match trees[id]? with
    | none => []
    | some t => t :: t.parent.elim [] (climb trees steps)

/-- The chain of trees from the outermost one down to a tree. -/
def treePath (trees : Trees) (id : Nat) : List ClassTree := (climb trees trees.size id).reverse

end ClassHints.Model
