import ClassHints.Model.Index
import ClassHints.Model.Warning

/-!
# Includes

The name of an include is looked for among the mixins that the module imports, directly or
not, then among the mixins written earlier in the module, then among those written later, and
at last in the index of the package. Once resolved, the own trees of included mixins are added
to the mixins that include them, one level deep.
-/

namespace ClassHints.Model

/-- The includes of one mixin with the mixins they stand for. -/
structure Resolution where
  mixin : Nat
  name : Text
  targets : List (Text × Option Nat)
  deriving DecidableEq, Repr

namespace Library

/-- The mixins that a module sees through its imports; the module itself is left out, even
when its imports lead back to it. -/
def importedMixins (lib : Library) (id : Nat) (m : Module) : Table Nat :=
  (lib.visit [id] m.imports).foldl (fun t (_, m) => putMixins lib t m) []

/-- The first of some mixins that has a name. -/
def firstNamed? (lib : Library) (ids : List Nat) (name : Text) : Option Nat :=
  ids.find? fun id => lib.mixins[id]?.any (·.name == name)

/-- What an include stands for in a mixin between `earlier` and `later` ones of its module. -/
def includeTarget? (lib : Library) (index : Index) (imported : Table Nat)
    (earlier later : List Nat) (name : Text) : Option Nat :=
  imported.get? name <|> lib.firstNamed? earlier name <|> lib.firstNamed? later name <|>
    index.mixins.get? name

/-- Resolve the includes of the mixins of a module from a place on. -/
def resolveMixins (lib : Library) (index : Index) (imported : Table Nat) (earlier : List Nat) :
    List Nat → List Resolution
  | [] => []
  | id :: later =>
    let resolution := lib.mixins[id]?.map fun mixin =>
      { mixin := id
        name := mixin.name
        targets := mixin.includes.map fun name =>
          (name, lib.includeTarget? index imported earlier later name) : Resolution }
    resolution.toList ++ lib.resolveMixins index imported (earlier ++ [id]) later

/-- Resolve the includes of a module. -/
def resolveModule (lib : Library) (index : Index) (id : Nat) (m : Module) : List Resolution :=
  lib.resolveMixins index (lib.importedMixins id m) [] m.mixins

/-- Resolve the includes of all modules, in the order of their numbers. -/
def resolutions (lib : Library) (index : Index) : List Resolution :=
  lib.modules.toList.zipIdx.flatMap fun (m, id) => lib.resolveModule index id m

end Library

/-- One warning for every include that stands for no mixin. -/
def Resolution.warnings (r : Resolution) : List Warning :=
  r.targets.filterMap fun (name, target) =>
    if target.isNone then some (.includeNotResolved r.name name) else none

/-- The mixins that the includes stand for. -/
def Resolution.found (r : Resolution) : List Nat := r.targets.filterMap Prod.snd

/-- The targets that a mixin has written down then: a mixin without includes keeps what it
had. -/
def Resolution.written (r : Resolution) (m : Mixin) : List Nat :=
  if r.targets.isEmpty then m.resolved else r.found

/-- Write the targets of one mixin down, and mark them as included. -/
def Resolution.apply (r : Resolution) (mixins : Array Mixin) : Array Mixin :=
  let marked := r.found.foldl
    (fun mixins id => mixins.modify id fun m => { m with included := true }) mixins
  marked.modify r.mixin fun m => { m with resolved := r.written m }

/-- Write the targets of all includes down, and warn about those that have none. -/
def Library.resolveIncludes (lib : Library) (index : Index) : Library × List Warning :=
  let resolutions := lib.resolutions index
  let mixins := resolutions.foldl (fun mixins r => r.apply mixins) lib.mixins
  ({ lib with mixins := mixins }, resolutions.flatMap Resolution.warnings)

/-- Add the own trees of the mixins that a mixin includes to its class trees. -/
def linkMixin (mixins : Array Mixin) (id : Nat) : Array Mixin :=
  mixins.modify id fun m =>
    let added := m.resolved.flatMap fun target => mixins[target]?.elim [] Mixin.ownTrees
    { m with classTrees := m.classTrees ++ added }

/-- Link every mixin of the index with the mixins it includes. -/
def Library.link (lib : Library) (index : Index) : Library :=
  { lib with mixins := index.mixins.values.foldl linkMixin lib.mixins }

end ClassHints.Model
