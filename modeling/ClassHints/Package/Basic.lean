import ClassHints.Model.Index
import ClassHints.Model.Warning

/-!
# Loaded packages

A loaded package is a library whose includes are resolved and linked, together with its index
and the problems that were passed over. Its entry module has number zero.
-/

namespace ClassHints

open Model (Library Index Warning ClassTree Mixin Module)

/-- A loaded package. -/
structure Package where
  library : Library
  index : Index
  warnings : List Warning

namespace Package

/-- The entry module. -/
def root? (p : Package) : Option Module := p.library.modules[0]?

/-- The trees of the index with their numbers. -/
def trees (p : Package) : List (Nat × ClassTree) :=
  p.index.trees.filterMap fun id => p.library.trees[id]?.map (id, ·)

/-- The root trees of the index with their numbers. -/
def rootTrees (p : Package) : List (Nat × ClassTree) :=
  p.index.rootTrees.filterMap fun id => p.library.trees[id]?.map (id, ·)

/-- The first tree of the index that carries a class. -/
def find? (p : Package) (name : Text) : Option (Nat × ClassTree) :=
  p.trees.find? (·.2.carries name)

/-- The mixin that a name stands for. -/
def mixin? (p : Package) (name : Text) : Option Mixin :=
  (p.index.mixins.get? name).bind (p.library.mixins[·]?)

/-- The chain of trees from the outermost one down to a tree. -/
def path (p : Package) (id : Nat) : List ClassTree := Model.treePath p.library.trees id

end Package

end ClassHints
