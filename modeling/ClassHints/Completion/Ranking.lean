import ClassHints.Cursor.Location
import ClassHints.Package.Basic

/-!
# Ranking classes for an element

The classes that fit an element best continue the classes of its parent or are direct children
of a class around it. After them come all classes nested below a class around it, and last the
top-level classes of the package.
-/

namespace ClassHints.Completion

open Text
open Model (ClassTree ClassName)
open Markup (Element)

/-- A class name and the tree it was found on. -/
structure Ranked where
  name : Text
  tree : Nat
  deriving DecidableEq, Repr

/-- The candidates for one element; names may repeat. -/
structure Ranking where
  high : List Ranked
  normal : List Ranked
  deriving DecidableEq, Repr

/-- The classes of a tree that satisfy `p`. -/
def classesOf (p : ClassName → Bool) (id : Nat) (t : ClassTree) : List Ranked :=
  (t.classes.filter p).map fun c => ⟨c.name, id⟩

/-- Whether a name continues a class: it starts with the class and is longer. -/
def continues (base : Text) (c : ClassName) : Bool := (after? base c.name).any (!·.isEmpty)

/-- The classes of a package that continue a class. -/
def continuations (p : Package) (base : Text) : List Ranked :=
  p.trees.flatMap fun (id, t) => classesOf (continues base) id t

/-- The trees of a package that carry a class and have trees below them. -/
def matching (p : Package) (name : Text) : List (Nat × ClassTree) :=
  p.trees.filter fun (_, t) => !t.children.isEmpty && t.carries name

/-- Trees by their numbers; numbers without a tree are left out. -/
def pick (p : Package) (ids : List Nat) : List (Nat × ClassTree) :=
  ids.filterMap fun id => p.library.trees[id]?.map (id, ·)

/-- Rank the classes that fit inside some elements, which are given innermost first. -/
def rank (p : Package) (ancestors : List Element) : Ranking :=
  let matched := (ancestors.flatMap Element.classList).flatMap (matching p)
  let parentClasses := ancestors.head?.elim [] Element.classList
  { high :=
      parentClasses.flatMap (continuations p) ++
        matched.flatMap fun (_, t) =>
          (pick p t.children).flatMap fun (id, t) => classesOf (·.directChild) id t
    normal :=
      matched.flatMap fun (id, _) =>
        (pick p (Model.descendants p.library.trees id)).flatMap fun (id, t) =>
          classesOf (fun _ => true) id t }

/-- Whether two underscores stand between other characters of a name from a place on, where
`started` says whether something stands before the place. Pairs do not overlap. -/
def namesElementFrom : Bool → Text → Bool
  | _, [] => false
  | started, '_' :: '_' :: rest =>
    (started && !rest.isEmpty) || namesElementFrom true rest
  | _, _ :: rest => namesElementFrom true rest

/-- Whether a name is that of an element of a block: a block, two underscores, an element. -/
def namesElement (name : Text) : Bool := namesElementFrom false name

/-- The top-level classes of a package without elements of blocks. -/
def rootItems (p : Package) : List Ranked :=
  p.rootTrees.flatMap fun (id, t) => classesOf (!namesElement ·.name) id t

/-- A character that only selectors have. -/
def breaksName (c : Char) : Bool := isBlank c || ":&>+~.[(,".toList.contains c

/-- Whether a name can be written in a class attribute as it is. -/
def isValidName (name : Text) : Bool :=
  !name.isEmpty && !mentions name "#\x7b".toList && !name.any breaksName

/-- The candidates whose names can be written as they are. -/
def validItems (items : List Ranked) : List Ranked := items.filter (isValidName ·.name)

end ClassHints.Completion
