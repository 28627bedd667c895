import ClassHints.Model.Module
import ClassHints.Model.Table

/-!
# The index of a library

The index says what a name stands for in the whole package. It is built from the modules
reachable from the root, in depth-first order. Of two mixins with one name the later wins, of
two variables or modules the earlier.
-/

namespace ClassHints.Model

/-- What the names of a package stand for. -/
structure Index where
  /-- Mixins by name: the last definition, at the place of the first. -/
  mixins : Table Nat
  /-- Variables, the first definition of each name. -/
  vars : List Variable
  /-- Own trees of the mixins, in the order of the mixins. -/
  rootTrees : List Nat
  /-- All trees at and below the root trees, each once. -/
  trees : List Nat
  /-- Modules by name, the first of each name. -/
  modules : Table Nat
  deriving DecidableEq, Repr

/-- Enter the mixins of a module into a table. -/
def putMixins (lib : Library) (t : Table Nat) (m : Module) : Table Nat :=
  (lib.mixinsOf m).foldl (fun t (id, mixin) => t.put mixin.name id) t

/-- Add variables to a list unless their names are taken. -/
def offerVariables (vs added : List Variable) : List Variable :=
  added.foldl (fun vs v => if vs.any (·.name == v.name) then vs else vs ++ [v]) vs

/-- The own trees of the mixins of a table, in its order. -/
def ownTreesOf (lib : Library) (t : Table Nat) : List Nat :=
  t.values.flatMap fun id => lib.mixins[id]?.elim [] Mixin.ownTrees

/-- The index of a library seen from a root module. -/
def Index.build (lib : Library) (root : Nat) : Index :=
  let modules := lib.reachable root
  let mixins := modules.foldl (fun t (_, m) => putMixins lib t m) []
  let rootTrees := ownTreesOf lib mixins
  { mixins := mixins
    vars := modules.foldl (fun vs (_, m) => offerVariables vs m.vars) []
    rootTrees := rootTrees
    trees := (rootTrees.flatMap (flatten lib.trees)).eraseDups
    modules := modules.foldl (fun t (id, m) => t.offer m.name id) [] }

end ClassHints.Model
