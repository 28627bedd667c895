import ClassHints.Proofs.Model.Includes
import ClassHints.Proofs.Model.TreeGrowth
import ClassHints.Proofs.Package.LoadedModules
import ClassHints.Proofs.Text
import Mathlib.Data.List.Nodup

/-!
# The trees of a loaded package

The trees of a package are in pre-order, across all mixins of all files: a mixin adds its trees
behind all others, and nothing else touches trees. Resolving includes and linking mixins leave
trees and own trees alone, so that the order holds of the package that is used.
-/

namespace ClassHints.Package

open Files (Path Place Tree)
open Model

/-- The trees loaded so far are in pre-order, and the own trees of the mixins are the trees
without a parent. -/
def Loading.InPreOrder (s : Loading) : Prop :=
  ∃ stop, PreOrder s.library.trees (s.library.mixins.toList.flatMap Mixin.ownTrees) stop

/-- A task adds trees in pre-order. -/
theorem Task.Step.inPreOrder {tree : Tree} {extension : Text} {s s₁ : Loading} {task : Task}
    {more : List Task} (h : task.Step tree extension s s₁ more) (horder : s.InPreOrder) :
    s₁.InPreOrder := by
  cases h with
  | addMixin params body description hwork =>
    obtain ⟨stop, horder⟩ := horder
    obtain ⟨stop', hgrows⟩ :=
      readMixin_grows params body description s.library.trees horder.lt_stop
    refine ⟨stop', ?_⟩
    have hroots : (s.addMixin task.owner params body description).library.mixins.toList.flatMap
        Mixin.ownTrees = s.library.mixins.toList.flatMap Mixin.ownTrees ++
          (readMixin params body description s.library.trees).1.ownTrees := by
      simp [Loading.addMixin]
    rw [hroots]
    exact horder.trans hgrows
  | addVariable v hwork => exact horder
  | unresolved path hwork hplace => exact horder
  | known path target id hwork hplace hfound => exact horder
  | unreadable path target reason hwork hplace hnew hfailed => exact horder
  | fresh path target text nodes hwork hplace hnew hread hparsed => exact horder

/-- The trees of loaded modules are in pre-order. -/
theorem inPreOrder_of_loadModules {tree : Tree} {entry : Path} {options : Options} {s : Loading}
    (h : loadModules tree entry options = .ok s) : s.InPreOrder := by
  obtain ⟨file, text, nodes, -, -, -, hrun⟩ := loadModules_eq_ok_iff.1 h
  refine loaded_invariant (motive := Loading.InPreOrder) ?_ ?_ hrun
  · exact ⟨(· + 1), .refl (fun id => Nat.lt_succ_self id) #[] none⟩
  · exact fun s task s₁ more hstep _ hs => hstep.inPreOrder hs

/-! ## Includes -/

/-- The own trees of all mixins. -/
def ownTreeLists (mixins : Array Mixin) : List (List Nat) := mixins.toList.map Mixin.ownTrees

/-- Resolving and linking leave own trees alone. -/
theorem ownTreeLists_link_resolveIncludes (lib : Library) (index : Index) :
    ownTreeLists (((lib.resolveIncludes index).1.link index).mixins) =
      ownTreeLists lib.mixins :=
  Library.map_link_resolveIncludes (fun _ _ _ _ => rfl) lib index

/-- A loaded package has the trees and own trees that were loaded, with their index. -/
theorem exists_loading_of_load {tree : Tree} {entry : Path} {options : Options} {p : Package}
    (h : load tree entry options = .ok p) : ∃ s, loadModules tree entry options = .ok s ∧
      p.index = Index.build s.library 0 ∧ p.library.trees = s.library.trees ∧
      ownTreeLists p.library.mixins = ownTreeLists s.library.mixins := by
  obtain ⟨s, hs, rfl⟩ := load_eq_ok_iff.1 h
  exact ⟨s, hs, rfl, rfl, ownTreeLists_link_resolveIncludes s.library _⟩

section

variable {tree : Tree} {entry : Path} {options : Options} {p : Package}

/-- The trees of a loaded package are in pre-order. -/
theorem exists_preOrder_of_load (h : load tree entry options = .ok p) :
    ∃ stop, PreOrder p.library.trees (p.library.mixins.toList.flatMap Mixin.ownTrees) stop := by
  obtain ⟨s, hs, -, htrees, hown⟩ := exists_loading_of_load h
  obtain ⟨stop, horder⟩ := inPreOrder_of_loadModules hs
  refine ⟨stop, ?_⟩
  rw [htrees, List.flatMap_def, show p.library.mixins.toList.map Mixin.ownTrees = _ from hown]
  exact horder

/-- The trees of the index are those at and below the own trees of its mixins. -/
theorem index_trees_eq (h : load tree entry options = .ok p) :
    p.index.trees = ((p.index.mixins.values.flatMap fun id =>
      p.library.mixins[id]?.elim [] Mixin.ownTrees).flatMap (flatten p.library.trees)).eraseDups := by
  obtain ⟨s, -, hindex, htrees, hown⟩ := exists_loading_of_load h
  have helim (mixins : Array Mixin) (id : Nat) :
      mixins[id]?.elim [] Mixin.ownTrees = (ownTreeLists mixins)[id]?.getD [] := by
    unfold ownTreeLists
    rw [List.getElem?_map, Array.getElem?_toList]
    cases mixins[id]? <;> rfl
  simp only [helim, hown, htrees, hindex]
  simp only [← helim]
  rfl

/-- A tree is listed in the index exactly if it is at or below an own tree of one of the mixins
of the index. -/
theorem mem_index_trees_iff (h : load tree entry options = .ok p) {t : Nat} :
    t ∈ p.index.trees ↔ ∃ id ∈ p.index.mixins.values, ∃ m root, p.library.mixins[id]? = some m ∧
      root ∈ m.ownTrees ∧ t ∈ flatten p.library.trees root := by
  rw [index_trees_eq h, List.mem_eraseDups, List.mem_flatMap]
  constructor
  · rintro ⟨root, hroot, ht⟩
    obtain ⟨id, hid, hmem⟩ := List.mem_flatMap.1 hroot
    cases hm : p.library.mixins[id]? with
    | none =>
      rw [hm] at hmem
      cases hmem
    | some m =>
      rw [hm] at hmem
      exact ⟨id, hid, m, root, hm, hmem, ht⟩
  · rintro ⟨id, hid, m, root, hm, hroot, ht⟩
    refine ⟨root, List.mem_flatMap.2 ⟨id, hid, ?_⟩, ht⟩
    rw [hm]
    exact hroot

/-- The index lists a tree exactly if it lists a tree around it. -/
theorem mem_index_trees_iff_of_mem_flatten (h : load tree entry options = .ok p) {a x : Nat}
    (hx : x ∈ flatten p.library.trees a) : x ∈ p.index.trees ↔ a ∈ p.index.trees := by
  obtain ⟨stop, horder⟩ := exists_preOrder_of_load h
  have ha := lt_size_of_mem_flatten hx
  have hxsize : x < p.library.trees.size := by
    have hlt := ((horder.mem_flatten_iff ha).1 hx).2
    have hstop := horder.stop_le_size ha
    omega
  rw [mem_index_trees_iff h, mem_index_trees_iff h]
  constructor
  · rintro ⟨id, hid, m, root, hm, hroot, hxroot⟩
    refine ⟨id, hid, m, root, hm, hroot, ?_⟩
    have hmem : root ∈ p.library.mixins.toList.flatMap Mixin.ownTrees :=
      List.mem_flatMap.2 ⟨m, by simpa using Array.mem_of_getElem? hm, hroot⟩
    -- both have the same outermost tree around them
    obtain ⟨root', hroot', hhead'⟩ := horder.exists_head?_pathIds ha
    rw [horder.head?_pathIds_iff hroot' ha, ← horder.mem_flatten_iff_mem_pathIds ha] at hhead'
    have hxroot' := horder.mem_flatten_trans hhead' hx
    rw [horder.mem_flatten_iff_mem_pathIds hxsize, ← horder.head?_pathIds_iff hmem hxsize] at hxroot
    rw [horder.mem_flatten_iff_mem_pathIds hxsize,
      ← horder.head?_pathIds_iff hroot' hxsize] at hxroot'
    rw [hxroot] at hxroot'
    rwa [Option.some.inj hxroot']
  · rintro ⟨id, hid, m, root, hm, hroot, haroot⟩
    exact ⟨id, hid, m, root, hm, hroot, horder.mem_flatten_trans haroot hx⟩

end

/-- A tree in only one list of many lists is in it once, and in no other. -/
theorem exists_unique_of_nodup_flatMap {mixins : Array Mixin} {x : Nat}
    (hnodup : (mixins.toList.flatMap Mixin.ownTrees).Nodup)
    (hx : x ∈ mixins.toList.flatMap Mixin.ownTrees) :
    ∃ (id : Nat) (m : Mixin), mixins[id]? = some m ∧ m.ownTrees.count x = 1 ∧
      ∀ (id' : Nat) (m' : Mixin), mixins[id']? = some m' → x ∈ m'.ownTrees → id' = id := by
  obtain ⟨heach, hpairs⟩ := List.nodup_flatMap.1 hnodup
  obtain ⟨m, hm, hxm⟩ := List.mem_flatMap.1 hx
  obtain ⟨id, hid, rfl⟩ := List.getElem_of_mem hm
  have hdisjoint := List.pairwise_iff_getElem.1 hpairs
  refine ⟨id, _, Array.getElem?_eq_getElem hid, List.count_eq_one_of_mem (heach _ hm) hxm, ?_⟩
  intro id' m' hm' hxm'
  obtain ⟨hid', rfl⟩ := Array.getElem?_eq_some_iff.1 hm'
  rcases Nat.lt_trichotomy id' id with hlt | heq | hgt
  · exact absurd hxm (hdisjoint id' id hid' hid hlt hxm')
  · exact heq
  · exact absurd hxm' (hdisjoint id id' hid hid' hgt hxm)

/-- The trees of a package form a forest that is numbered in pre-order. -/
structure TreesInOrder (p : Package) : Prop where
  /-- Children know their parent and come behind it. -/
  child : ∀ t, ∀ c ∈ childrenOf p.library.trees t, parentOf p.library.trees c = some t ∧ t < c
  /-- A tree with a parent is once among the children of that parent, and nowhere else. -/
  inner : ∀ c t, parentOf p.library.trees c = some t →
    (childrenOf p.library.trees t).count c = 1 ∧
      (∀ t', c ∈ childrenOf p.library.trees t' → t' = t) ∧
      ∀ m ∈ p.library.mixins, c ∉ m.ownTrees
  /-- A tree without a parent is once among the own trees of one mixin. -/
  outermost : ∀ t < p.library.trees.size, parentOf p.library.trees t = none →
    ∃ (id : Nat) (m : Mixin), p.library.mixins[id]? = some m ∧ m.ownTrees.count t = 1 ∧
      ∀ (id' : Nat) (m' : Mixin), p.library.mixins[id']? = some m' → t ∈ m'.ownTrees → id' = id
  /-- What is listed at a tree is a run of numbers, and going deeper lists nothing more. -/
  listing : ∀ t < p.library.trees.size,
    (∃ n, flatten p.library.trees t = List.range' t (n + 1) ∧
      descendants p.library.trees t = List.range' (t + 1) n) ∧
    ∀ depth, p.library.trees.size ≤ depth →
      listBelow p.library.trees depth t = flatten p.library.trees t
  /-- The chain to a tree leads from a tree without a parent from parent to child, and climbing
  further meets nothing more. -/
  chain : ∀ t < p.library.trees.size,
    (p.path t).map some = (pathIds p.library.trees t).map (p.library.trees[·]?) ∧
    (∃ root < p.library.trees.size, (pathIds p.library.trees t).head? = some root ∧
      parentOf p.library.trees root = none) ∧
    (pathIds p.library.trees t).getLast? = some t ∧
    ((pathIds p.library.trees t).IsChain fun a b => parentOf p.library.trees b = some a) ∧
    ∀ steps, p.library.trees.size ≤ steps →
      (climb p.library.trees steps t).reverse = p.path t
  /-- A tree is listed at exactly the trees on the chain to it. -/
  inverse : ∀ t < p.library.trees.size, ∀ a,
    t ∈ flatten p.library.trees a ↔ a ∈ pathIds p.library.trees t
  /-- The index lists a tree once, -/
  nodup_index : p.index.trees.Nodup
  /-- and it lists the trees whose outermost tree is an own tree of one of its mixins. -/
  mem_index : ∀ t, t ∈ p.index.trees ↔ t < p.library.trees.size ∧
    ∃ id ∈ p.index.mixins.values, ∃ (m : Mixin) (root : Nat),
      p.library.mixins[id]? = some m ∧ root ∈ m.ownTrees ∧
        (pathIds p.library.trees t).head? = some root

/-- The trees of every package that is loaded are numbered in pre-order. -/
theorem treesInOrder_of_load {tree : Tree} {entry : Path} {options : Options} {p : Package}
    (h : load tree entry options = .ok p) : TreesInOrder p := by
  obtain ⟨stop, horder⟩ := exists_preOrder_of_load h
  have hroots {m : Mixin} (hm : m ∈ p.library.mixins) {x : Nat} (hx : x ∈ m.ownTrees) :
      x ∈ p.library.mixins.toList.flatMap Mixin.ownTrees :=
    List.mem_flatMap.2 ⟨m, by simpa using hm, hx⟩
  constructor
  case child =>
    intro t c hc
    exact ⟨horder.parentOf_of_mem_childrenOf hc, (horder.lt_of_mem_childrenOf hc).1⟩
  case inner =>
    intro c t hparent
    have hmem := horder.mem_childrenOf_iff.2 hparent
    have hnodup := horder.nodup_childrenOf (lt_size_of_mem_childrenOf hmem)
    refine ⟨List.count_eq_one_of_mem hnodup hmem, ?_, ?_⟩
    · intro t' hmem'
      have hparent' := horder.parentOf_of_mem_childrenOf hmem'
      rw [hparent] at hparent'
      exact (Option.some.inj hparent').symm
    · intro m hm hc
      have hnone := (horder.mem_roots_iff.1 (hroots hm hc)).2
      rw [hparent] at hnone
      cases hnone
  case outermost =>
    intro t ht hnone
    exact exists_unique_of_nodup_flatMap horder.nodup_roots (horder.mem_roots_iff.2 ⟨ht, hnone⟩)
  case listing =>
    intro t ht
    have hpos := horder.lt_stop t
    -- `stop t - t` counts the tree itself and the ones below it
    have hsucc : stop t - t = (stop t - (t + 1)) + 1 := by omega
    have hflatten : flatten p.library.trees t = List.range' t ((stop t - (t + 1)) + 1) := by
      rw [← hsucc]
      exact horder.flatten_eq ht
    refine ⟨⟨stop t - (t + 1), hflatten, ?_⟩, ?_⟩
    · rw [descendants, hflatten, List.range'_succ, List.tail_cons]
    · exact fun depth hdepth => horder.listBelow_eq_flatten ht hdepth
  case chain =>
    intro t ht
    obtain ⟨root, hroot, hhead⟩ := horder.exists_head?_pathIds ht
    obtain ⟨hsize, hnone⟩ := horder.mem_roots_iff.1 hroot
    refine ⟨map_some_treePath _ t, ⟨root, hsize, hhead, hnone⟩, horder.getLast?_pathIds ht,
      horder.isChain_pathIds ht, ?_⟩
    intro steps hsteps
    rw [horder.climb_eq_climb ht hsteps]
    rfl
  case inverse => exact fun t ht => horder.mem_flatten_iff_mem_pathIds ht
  case nodup_index =>
    rw [index_trees_eq h]
    exact nodup_eraseDups _
  case mem_index =>
    intro t
    rw [mem_index_trees_iff h]
    constructor
    · rintro ⟨id, hid, m, root, hm, hroot, ht⟩
      have hmem := hroots (Array.mem_of_getElem? hm) hroot
      obtain ⟨hsize, -⟩ := horder.mem_roots_iff.1 hmem
      -- a tree listed below an outermost one is numbered before that listing stops
      have htsize : t < p.library.trees.size := by
        have hlt := ((horder.mem_flatten_iff hsize).1 ht).2
        have hstop := horder.stop_le_size hsize
        omega
      refine ⟨htsize, id, hid, m, root, hm, hroot, ?_⟩
      rw [horder.head?_pathIds_iff hmem htsize, ← horder.mem_flatten_iff_mem_pathIds htsize]
      exact ht
    · rintro ⟨htsize, id, hid, m, root, hm, hroot, hhead⟩
      have hmem := hroots (Array.mem_of_getElem? hm) hroot
      refine ⟨id, hid, m, root, hm, hroot, ?_⟩
      rw [horder.mem_flatten_iff_mem_pathIds htsize, ← horder.head?_pathIds_iff hmem htsize]
      exact hhead

/-- One file with a rule inside a rule. -/
def nestedTree : Tree :=
  ⟨[(["a.scss".toList],
    .file (.text "@mixin m \x7b .a \x7b .b \x7b\x7d \x7d \x7d".toList))]⟩

/-- A rule inside a rule gives two trees in order. -/
theorem treesInOrder_of_load_nestedTree :
    ∃ p, load nestedTree "/a.scss".toList ⟨"scss".toList, none⟩ = .ok p ∧
      p.library.trees.size = 2 ∧ TreesInOrder p := by
  have hparse : Sheet.parse "@mixin m \x7b .a \x7b .b \x7b\x7d \x7d \x7d".toList =
      .ok [.block "mixin".toList "m".toList
        [.rule ".a".toList [.rule ".b".toList [] ⟨16, 21, 1, 17⟩] ⟨11, 23, 1, 12⟩]
        ⟨0, 25, 1, 1⟩] := by rfl
  obtain ⟨s, hrun, hsize⟩ : ∃ s, Relation.ReflTransGen (Next nestedTree "scss".toList)
      (.first ⟨"scss".toList, none⟩ ["a.scss".toList],
        [⟨0, ["a.scss".toList], .mixin "m".toList
          [.rule ".a".toList [.rule ".b".toList [] ⟨16, 21, 1, 17⟩] ⟨11, 23, 1, 12⟩] none⟩])
      (s, []) ∧ s.library.trees.size = 2 := by
    exact ⟨_, .head ⟨.addMixin _ _ none rfl⟩ .refl, by decide +kernel⟩
  have hload : loadModules nestedTree "/a.scss".toList ⟨"scss".toList, none⟩ = .ok s :=
    loadModules_eq_ok_iff.2 ⟨_, _, _, rfl, rfl, hparse, runTasks_eq_ok_iff.2 hrun⟩
  have hpackage : ∃ p, load nestedTree "/a.scss".toList ⟨"scss".toList, none⟩ = .ok p ∧
      p.library.trees = s.library.trees := by
    unfold load
    rw [hload]
    exact ⟨_, rfl, rfl⟩
  obtain ⟨p, hp, htrees⟩ := hpackage
  exact ⟨p, hp, by rw [htrees, hsize], treesInOrder_of_load hp⟩

end ClassHints.Package
