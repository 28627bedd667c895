import ClassHints.Files.Tree
import ClassHints.Model.Mixin

/-!
# Modules and libraries

A module is one stylesheet file and what was found in it. A library holds all modules, mixins
and class trees of a package by number.
-/

namespace ClassHints.Model

/-- A stylesheet file and what was found in it. -/
structure Module where
  /-- The name it was imported by. -/
  name : Text
  /-- The place of the file. -/
  file : Files.Place
  vars : List Variable
  /-- Its mixins by number. -/
  mixins : List Nat
  /-- The modules it imports by number, in order. Files may import each other in circles. -/
  imports : List Nat
  deriving DecidableEq, Repr

/-- The modules, mixins and trees of a package by number. -/
structure Library where
  modules : Array Module
  mixins : Array Mixin
  trees : Trees
  deriving Repr

/-- A library with nothing in it. -/
def Library.empty : Library := ⟨#[], #[], #[]⟩

namespace Library

/-- The mixins of a module with their numbers. -/
def mixinsOf (lib : Library) (m : Module) : List (Nat × Mixin) :=
  m.mixins.filterMap fun id => lib.mixins[id]?.map (id, ·)

/-- Modules that can be visited still. -/
def unvisited (lib : Library) (visited : List Nat) : List Nat :=
  (List.range lib.modules.size).filter (· ∉ visited)

/-- Visiting a module leaves fewer to visit. -/
theorem length_unvisited_cons {lib : Library} {visited : List Nat} {id : Nat}
    (hid : id < lib.modules.size) (hnew : id ∉ visited) :
    (lib.unvisited (id :: visited)).length < (lib.unvisited visited).length := by
  have hfilter : lib.unvisited (id :: visited) =
      (lib.unvisited visited).filter (· ≠ id) := by
    unfold unvisited
    rw [List.filter_filter]
    congr 1
    funext x
    simp
  rw [hfilter]
  apply List.length_filter_lt_length_iff_exists.2
  exact ⟨id, List.mem_filter.2 ⟨List.mem_range.2 hid, by simpa using hnew⟩, by simp⟩

/-- The modules met from a stack of modules, each once, in depth-first order: the imports of a
module come right after it and before the rest of the stack. Numbers without a module are
passed over. -/
def visit (lib : Library) (visited : List Nat) : List Nat → List (Nat × Module)
  | [] => []
  | id :: stack =>
    if _hseen : id ∈ visited then lib.visit visited stack
    else if _hid : id < lib.modules.size then
      let m := lib.modules[id]
      (id, m) :: lib.visit (id :: visited) (m.imports ++ stack)
    else lib.visit visited stack
termination_by stack => ((lib.unvisited visited).length, stack.length)
decreasing_by
  · exact Prod.Lex.right _ (by simp)
  · exact Prod.Lex.left _ _ (length_unvisited_cons _hid _hseen)
  · exact Prod.Lex.right _ (by simp)

/-- The modules reachable from a root, in the order they are visited. -/
def reachable (lib : Library) (root : Nat) : List (Nat × Module) := lib.visit [] [root]

end Library

end ClassHints.Model
