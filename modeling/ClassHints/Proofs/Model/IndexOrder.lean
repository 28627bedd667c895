import ClassHints.Proofs.Model.DepthFirst
import ClassHints.Proofs.Model.Flattening
import ClassHints.Proofs.Model.Includes
import ClassHints.Proofs.Text

/-!
# The index in depth-first order

An index is built along the depth-first order of the modules that its root leads to. What it
says is given by the lists of what these modules define: of a mixin the last definition at the
place of the first one, of a variable or a module the first.
-/

namespace ClassHints.Model

namespace Library

/-- The mixins that modules list, in the order of the modules. -/
def mixinsIn (lib : Library) (ids : List Nat) : List Nat :=
  ids.flatMap fun id => lib.modules[id]?.elim [] Module.mixins

/-- The variables of modules, in the order of the modules. -/
def varsIn (lib : Library) (ids : List Nat) : List Variable :=
  ids.flatMap fun id => lib.modules[id]?.elim [] Module.vars

/-- The name of a module by number. -/
def moduleName? (lib : Library) (id : Nat) : Option Text := lib.modules[id]?.map Module.name

/-- The last of some mixins that has a name. -/
def lastNamed? (lib : Library) (ids : List Nat) (name : Text) : Option Nat :=
  lib.firstNamed? ids.reverse name

/-- Every mixin that a module lists is there. -/
def MixinsExist (lib : Library) : Prop := ∀ m ∈ lib.modules, ∀ id ∈ m.mixins, id < lib.mixins.size

instance (lib : Library) : Decidable lib.MixinsExist :=
  inferInstanceAs (Decidable (∀ m ∈ lib.modules, ∀ id ∈ m.mixins, id < lib.mixins.size))

/-- Of the mixins that a module lists, those that are there can be chosen by what they are. -/
theorem map_fst_filter_mixinsOf (lib : Library) (m : Module) (p : Mixin → Bool) :
    ((lib.mixinsOf m).filter fun entry => p entry.2).map Prod.fst =
      m.mixins.filter fun id => lib.mixins[id]?.any p := by
  unfold mixinsOf
  induction m.mixins with
  | nil => rfl
  | cons id ids ih =>
    cases hid : lib.mixins[id]? with
    | none => simpa [hid] using ih
    | some mixin => cases hp : p mixin <;> simpa [hid, hp] using ih

/-- A table that is filled along a visit gives the last mixin of a name, in depth-first order. -/
theorem get?_foldl_visit (lib : Library) (seen ids : List Nat) (name : Text) :
    Table.get? ((lib.visit seen ids).foldl (fun t entry => putMixins lib t entry.2) []) name =
      lib.lastNamed? (lib.mixinsIn (lib.depthFirst seen ids)) name := by
  have hnumbers : (((lib.visit seen ids).flatMap (lib.mixinsOf ·.2)).filter
        (·.2.name == name)).map Prod.fst =
      (lib.mixinsIn (lib.depthFirst seen ids)).filter (lib.mixins[·]?.any (·.name == name)) := by
    rw [mixinsIn, ← flatMap_visit, List.filter_flatMap, List.filter_flatMap, List.map_flatMap]
    exact List.flatMap_congr fun entry _ => lib.map_fst_filter_mixinsOf entry.2 (·.name == name)
  rw [get?_foldl_putMixins, lastNamed?, firstNamed?, ← List.head?_filter, List.filter_reverse,
    List.head?_reverse, ← hnumbers, List.getLast?_map]
  simp only [beq_eq_decide]

/-- The mixins that a module lists have the names of the mixins that are there. -/
theorem MixinsExist.map_nameOf? {lib : Library} (h : lib.MixinsExist) {m : Module}
    (hm : m ∈ lib.modules) :
    m.mixins.map lib.nameOf? = ((lib.mixinsOf m).map (·.2.name)).map some := by
  have hall (ids : List Nat) (hids : ∀ id ∈ ids, id < lib.mixins.size) :
      ids.map lib.nameOf? =
        ((ids.filterMap fun id => lib.mixins[id]?.map (id, ·)).map (·.2.name)).map some := by
    induction ids with
    | nil => rfl
    | cons id ids ih =>
      obtain ⟨hid, hrest⟩ := List.forall_mem_cons.1 hids
      rw [List.map_cons, ih hrest, nameOf?, List.filterMap_cons, Array.getElem?_eq_getElem hid]
      rfl
  exact hall m.mixins (h m hm)

end Library

namespace Index

/-- The mixins of an index have the names they are entered by. -/
theorem map_nameOf?_values (lib : Library) (root : Nat) :
    (build lib root).mixins.values.map lib.nameOf? = (build lib root).mixins.names.map some := by
  rw [Table.values, Table.names, List.map_map, List.map_map]
  refine List.map_congr_left fun entry hentry => ?_
  rw [mixins_reachable] at hentry
  rcases Table.exists_of_mem_foldl_put hentry with hnil | ⟨⟨id, mixin⟩, hmem, rfl⟩
  · cases hnil
  · obtain ⟨module, -, hmixin⟩ := List.mem_flatMap.1 hmem
    simp [Library.nameOf?, (Library.mem_mixinsOf.1 hmixin).2]

/-- The index has one entry for each name of a mixin. -/
theorem nodup_names_mixins (lib : Library) (root : Nat) :
    (build lib root).mixins.names.Nodup := by
  rw [names_mixins_reachable]
  exact nodup_eraseDups _

/-- No mixin is entered twice, as a mixin has one name. -/
theorem nodup_values_mixins (lib : Library) (root : Nat) :
    (build lib root).mixins.values.Nodup := by
  apply List.Nodup.of_map lib.nameOf?
  rw [map_nameOf?_values]
  exact (nodup_names_mixins lib root).map (Option.some_injective _)

/-- What an index says, given the order in which modules are visited. -/
structure DefinedIn (lib : Library) (order : List Nat) (index : Index) : Prop where
  /-- Mixins are listed by name at the place of the first definition, -/
  mixinNames : index.mixins.names.map some = ((lib.mixinsIn order).map lib.nameOf?).eraseDups
  /-- and the last definition counts. -/
  lastMixin : ∀ name, index.mixins.get? name = lib.lastNamed? (lib.mixinsIn order) name
  /-- The first definition of a variable counts. -/
  vars : index.vars = (lib.varsIn order).eraseDupsBy (·.name == ·.name)
  /-- Modules are listed by name at the place of the first one, -/
  moduleNames : index.modules.names.map some = (order.map lib.moduleName?).eraseDups
  /-- and the first one counts. -/
  firstModule : ∀ name, index.modules.get? name = order.find? (lib.moduleName? · = some name)
  /-- The mixins that are listed have the names they are listed by, -/
  named : index.mixins.values.map lib.nameOf? = index.mixins.names.map some
  /-- and their own trees are the root trees. -/
  rootTrees : index.rootTrees =
    index.mixins.values.flatMap fun id => lib.mixins[id]?.elim [] Mixin.ownTrees
  /-- The trees are the listings of the root trees without repetitions. -/
  trees : index.trees = (index.rootTrees.flatMap (flatten lib.trees)).eraseDups
  /-- A listing has a tree before the listings of its children. -/
  listing : ∀ id < lib.trees.size, flatten lib.trees id =
    id :: (childrenOf lib.trees id).flatMap fun child =>
      if child < lib.trees.size then flatten lib.trees child else [child]

/-- Where all mixins that are listed exist and no tree is nested in itself, an index is what the
depth-first order of the modules defines. -/
theorem definedIn_build {lib : Library} (hmixins : lib.MixinsExist) (htrees : Acyclic lib.trees)
    (root : Nat) : (build lib root).DefinedIn lib (lib.depthFirst [] [root]) where
  mixinNames := by
    have hnames : (lib.mixinsIn (lib.depthFirst [] [root])).map lib.nameOf? =
        (((lib.reachable root).flatMap (lib.mixinsOf ·.2)).map (·.2.name)).map some := by
      rw [Library.mixinsIn, ← Library.flatMap_visit, List.map_flatMap, List.map_flatMap,
        List.map_flatMap]
      refine List.flatMap_congr fun entry hentry => hmixins.map_nameOf? ?_
      exact Array.mem_of_getElem? (Library.getElem?_of_mem_visit hentry)
    rw [hnames, eraseDups_map_some, names_mixins_reachable]
  lastMixin := lib.get?_foldl_visit [] [root]
  vars := by
    rw [vars_reachable, Library.reachable, lib.flatMap_visit [] [root] Module.vars]
    rfl
  moduleNames := by
    have hnames : (lib.depthFirst [] [root]).map lib.moduleName? =
        ((lib.reachable root).map (·.2.name)).map some := by
      rw [← Library.map_fst_visit, List.map_map, List.map_map]
      refine List.map_congr_left fun entry hentry => ?_
      rw [Function.comp, Library.moduleName?, Library.getElem?_of_mem_visit hentry]
      rfl
    rw [hnames, eraseDups_map_some, names_modules_reachable]
  firstModule name := by
    rw [get?_modules_reachable, ← Library.map_fst_visit, List.find?_map, ← List.head?_filter,
      ← List.head?_filter]
    congr 2
    refine List.filter_congr fun entry hentry => ?_
    rw [Function.comp, Library.moduleName?, Library.getElem?_of_mem_visit hentry]
    simp [Bool.beq_eq_decide_eq]
  named := map_nameOf?_values lib root
  rootTrees := rfl
  trees := rfl
  listing id hid := flatten_eq_cons htrees hid

/-- An index is built along the recursive depth-first order of the modules that imports lead to
from its root, each visited once, whatever circles the imports run in. -/
theorem build_depthFirst {lib : Library} (hmixins : lib.MixinsExist) (htrees : Acyclic lib.trees)
    (root : Nat) :
    (lib.reachable root).map Prod.fst = lib.depthFirst [] [root] ∧
    (∀ entry ∈ lib.reachable root, lib.modules[entry.1]? = some entry.2) ∧
    (lib.depthFirst [] [root]).Nodup ∧
    (∀ id, id ∈ lib.depthFirst [] [root] ↔
      id < lib.modules.size ∧ Relation.ReflTransGen lib.Imports root id) ∧
    (build lib root).DefinedIn lib (lib.depthFirst [] [root]) :=
  ⟨lib.map_fst_visit [] [root], fun _ hentry => Library.getElem?_of_mem_visit hentry,
    lib.nodup_depthFirst [] [root], lib.mem_depthFirst_iff root,
    definedIn_build hmixins htrees root⟩

/-- Modules that import each other and themselves, again, and a module that is missing; a mixin
that is defined twice; a tree that is nested twice in another one. -/
def circularLibrary : Library :=
  ⟨#[⟨"a".toList, [], [⟨"$x".toList, "1".toList, none⟩], [0], [1, 0, 7, 2, 1]⟩,
      ⟨"b".toList, [], [⟨"$x".toList, "2".toList, none⟩], [1], [2, 1]⟩,
      ⟨"b".toList, [], [], [2], [0]⟩],
    #[⟨"m".toList, [0], [0], [], [], [], false, none⟩,
      ⟨"n".toList, [1], [1], [], [], [], false, none⟩,
      ⟨"m".toList, [1], [1], [], [], [], false, none⟩],
    #[⟨[], [], none, [], none⟩, ⟨[], [2, 2, 9], none, [], none⟩, ⟨[], [], none, [], none⟩]⟩

/-- Modules in circles are visited once each, and the last of two mixins with one name counts. -/
theorem build_depthFirst_circularLibrary :
    circularLibrary.MixinsExist ∧ Acyclic circularLibrary.trees ∧
      circularLibrary.depthFirst [] [0] = [0, 1, 2] ∧
      (build circularLibrary 0).mixins = [("m".toList, 2), ("n".toList, 1)] ∧
      (build circularLibrary 0).trees = [1, 2, 9] ∧
      (circularLibrary.reachable 0).map Prod.fst = [0, 1, 2] ∧
      (build circularLibrary 0).DefinedIn circularLibrary [0, 1, 2] := by
  have hmixins : circularLibrary.MixinsExist := by decide
  have htrees : Acyclic circularLibrary.trees := acyclic_of_lt (by decide)
  have horder : circularLibrary.depthFirst [] [0] = [0, 1, 2] := by
    simp [Library.depthFirst, circularLibrary]
  have hbuild : (build circularLibrary 0).mixins = [("m".toList, 2), ("n".toList, 1)] ∧
      (build circularLibrary 0).trees = [1, 2, 9] := by
    rw [build, Library.reachable, Library.visit_eq, horder]
    decide
  obtain ⟨hvisited, -, -, -, hdefined⟩ := build_depthFirst hmixins htrees 0
  rw [horder] at hvisited hdefined
  exact ⟨hmixins, htrees, horder, hbuild.1, hbuild.2, hvisited, hdefined⟩

end Index

end ClassHints.Model
