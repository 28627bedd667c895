import ClassHints.Completion.Ranking
import ClassHints.Proofs.Package.LoadedTrees

/-!
# Which classes rank

Ranking goes down from the trees that carry a class around an element. In terms of a ranked tree
it looks up instead: a class ranks if a tree around its own tree carries a class around the
element, and it ranks high if that tree is the one directly around it, or if the class continues
a class of the parent.
-/

namespace ClassHints.Completion

open Text
open Markup (Element)
open Model (ClassTree ClassName parentOf childrenOf pathIds flatten descendants)

/-- A tree carries a class of one of some elements. -/
def CarriesClassOf (elements : List Element) (t : ClassTree) : Prop :=
  ∃ c ∈ t.classes, ∃ e ∈ elements, c.name ∈ e.classList

/-- A name continues a class of the innermost of some elements. -/
def ContinuesParent (elements : List Element) (name : Text) : Prop :=
  ∃ parent ∈ elements.head?, ∃ base ∈ parent.classList, base <+: name ∧ base ≠ name

/-- A class of a tree of the package, with a tree around that tree that carries a class of one of
some elements. -/
def FitsBelow (p : Package) (elements : List Element) (r : Ranked) : Prop :=
  ∃ t, (r.tree, t) ∈ p.trees ∧ (∃ c ∈ t.classes, c.name = r.name) ∧
    ∃ a ∈ (p.path r.tree).dropLast, CarriesClassOf elements a

/-- A class of a tree of the package that continues a class of the innermost element, or one that
is a direct child while the tree directly around it carries a class of one of the elements. -/
def FitsBest (p : Package) (elements : List Element) (r : Ranked) : Prop :=
  ∃ t, (r.tree, t) ∈ p.trees ∧
    ((∃ c ∈ t.classes, c.name = r.name) ∧ ContinuesParent elements r.name ∨
      (∃ id a, t.parent = some id ∧ p.library.trees[id]? = some a ∧ CarriesClassOf elements a) ∧
        ∃ c ∈ t.classes, c.name = r.name ∧ c.directChild = true)

/-! ## Members of lists of candidates -/

/-- The classes of a tree that pass a test are ranked with the number of the tree. -/
theorem mem_classesOf {q : ClassName → Bool} {id : Nat} {t : ClassTree} {r : Ranked} :
    r ∈ classesOf q id t ↔ r.tree = id ∧ ∃ c ∈ t.classes, c.name = r.name ∧ q c = true := by
  obtain ⟨name, tree⟩ := r
  simp only [classesOf, List.mem_map, List.mem_filter, Ranked.mk.injEq]
  constructor
  · rintro ⟨c, ⟨hc, hq⟩, hname, htree⟩
    exact ⟨htree.symm, c, hc, hname, hq⟩
  · rintro ⟨htree, c, hc, hname, hq⟩
    exact ⟨c, ⟨hc, hq⟩, hname, htree.symm⟩

/-- A class continues a name if it starts with the name and is longer. -/
theorem continues_iff {base : Text} {c : ClassName} :
    continues base c = true ↔ base <+: c.name ∧ base ≠ c.name := by
  unfold continues
  cases hafter : after? base c.name with
  | none =>
    simp only [Option.any_none, Bool.false_eq_true, false_iff, not_and]
    rintro ⟨rest, hrest⟩
    rw [← hrest, after?_append] at hafter
    cases hafter
  | some rest =>
    have hname := eq_append_of_after? hafter
    rw [hname]
    simp

section

variable {p : Package} {id : Nat} {t : ClassTree}

/-- Trees are picked by number, where there is one of the number. -/
theorem mem_pick {ids : List Nat} :
    (id, t) ∈ pick p ids ↔ id ∈ ids ∧ p.library.trees[id]? = some t := by
  simp [pick]

/-- The trees of a package are those that its index lists. -/
theorem mem_trees : (id, t) ∈ p.trees ↔ id ∈ p.index.trees ∧ p.library.trees[id]? = some t :=
  mem_pick

/-- The trees that ranking starts from carry a class of the elements around and have trees below
them. -/
theorem mem_matched {elements : List Element} :
    (id, t) ∈ (elements.flatMap Element.classList).flatMap (matching p) ↔
      (id, t) ∈ p.trees ∧ t.children ≠ [] ∧ CarriesClassOf elements t := by
  have hcarries (name : Text) : t.carries name = true ↔ ∃ c ∈ t.classes, c.name = name := by
    simp [ClassTree.carries]
  simp only [List.mem_flatMap, matching, List.mem_filter, Bool.and_eq_true, Bool.not_eq_true',
    List.isEmpty_eq_false_iff, hcarries]
  constructor
  · rintro ⟨name, ⟨e, he, hname⟩, hmem, hchildren, c, hc, rfl⟩
    exact ⟨hmem, hchildren, c, hc, e, he, hname⟩
  · rintro ⟨hmem, hchildren, c, hc, e, he, hname⟩
    exact ⟨c.name, ⟨e, he, hname⟩, hmem, hchildren, c, hc, rfl⟩

/-- The trees around a tree are those on the chain to it that come before it. -/
theorem mem_dropLast_path {a : ClassTree} : a ∈ (p.path id).dropLast ↔
    ∃ x ∈ (pathIds p.library.trees id).dropLast, p.library.trees[x]? = some a := by
  have hsome : a ∈ (p.path id).dropLast ↔ some a ∈ ((p.path id).map some).dropLast := by
    rw [← List.map_dropLast, List.mem_map]
    simp
  have hpath : (p.path id).map some = _ := Model.map_some_treePath p.library.trees id
  rw [hsome, hpath, ← List.map_dropLast, List.mem_map]

end

/-! ## Ranking against the trees of a package -/

section

variable {tree : Files.Tree} {entry : Files.Path} {options : Package.Options} {p : Package}
  (h : Package.load tree entry options = .ok p) (elements : List Element) (r : Ranked)

include h

/-- The normal classes are those that fit below the elements. -/
theorem mem_normal_iff : r ∈ (rank p elements).normal ↔ FitsBelow p elements r := by
  obtain ⟨stop, horder⟩ := Package.exists_preOrder_of_load h
  have hflatten {x y : Nat} (hy : y ∈ descendants p.library.trees x) :
      y ∈ flatten p.library.trees x := List.mem_of_mem_tail hy
  unfold rank FitsBelow
  dsimp only
  rw [List.mem_flatMap]
  constructor
  · rintro ⟨⟨x, a⟩, hmatched, hr⟩
    obtain ⟨⟨id, t⟩, hpick, hclass⟩ := List.mem_flatMap.1 hr
    obtain ⟨ha, -, hcarries⟩ := mem_matched.1 hmatched
    obtain ⟨hbelow, ht⟩ := mem_pick.1 hpick
    obtain ⟨rfl, c, hc, hname, -⟩ := mem_classesOf.1 hclass
    obtain ⟨hindex, hx⟩ := mem_trees.1 ha
    have hsize := (Array.getElem?_eq_some_iff.1 ht).1
    refine ⟨t, mem_trees.2 ⟨?_, ht⟩, ⟨c, hc, hname⟩, a, mem_dropLast_path.2 ⟨x, ?_, hx⟩, hcarries⟩
    · exact (Package.mem_index_trees_iff_of_mem_flatten h (hflatten hbelow)).2 hindex
    · exact (horder.mem_descendants_iff hsize x).1 hbelow
  · rintro ⟨t, ht, ⟨c, hc, hname⟩, a, ha, hcarries⟩
    obtain ⟨hindex, hr⟩ := mem_trees.1 ht
    obtain ⟨x, hpath, hx⟩ := mem_dropLast_path.1 ha
    have hsize := (Array.getElem?_eq_some_iff.1 hr).1
    have hbelow := (horder.mem_descendants_iff hsize x).2 hpath
    have hchildren : a.children ≠ [] := by
      have hne := horder.childrenOf_ne_nil hbelow
      rwa [childrenOf, hx] at hne
    have hmatched := mem_matched.2 ⟨mem_trees.2 ⟨?_, hx⟩, hchildren, hcarries⟩
    · refine ⟨(x, a), hmatched, List.mem_flatMap.2 ⟨(r.tree, t), mem_pick.2 ⟨hbelow, hr⟩, ?_⟩⟩
      exact mem_classesOf.2 ⟨rfl, c, hc, hname, rfl⟩
    · exact (Package.mem_index_trees_iff_of_mem_flatten h (hflatten hbelow)).1 hindex

omit h in
/-- A class continues a class of the parent. -/
theorem mem_continuations_iff :
    r ∈ (elements.head?.elim [] Element.classList).flatMap (continuations p) ↔
      ∃ t, (r.tree, t) ∈ p.trees ∧ (∃ c ∈ t.classes, c.name = r.name) ∧
        ContinuesParent elements r.name := by
  have hparent {base : Text} : base ∈ elements.head?.elim [] Element.classList ↔
      ∃ parent ∈ elements.head?, base ∈ parent.classList := by
    cases elements.head? <;> simp
  rw [List.mem_flatMap]
  constructor
  · rintro ⟨base, hbase, hr⟩
    obtain ⟨⟨id, t⟩, ht, hclass⟩ := List.mem_flatMap.1 hr
    obtain ⟨rfl, c, hc, hname, hcontinues⟩ := mem_classesOf.1 hclass
    obtain ⟨parent, hhead, hbase⟩ := hparent.1 hbase
    rw [continues_iff, hname] at hcontinues
    exact ⟨t, ht, ⟨c, hc, hname⟩, parent, hhead, base, hbase, hcontinues⟩
  · rintro ⟨t, ht, ⟨c, hc, hname⟩, parent, hhead, base, hbase, hcontinues⟩
    rw [← hname] at hcontinues
    refine ⟨base, hparent.2 ⟨parent, hhead, hbase⟩, List.mem_flatMap.2 ⟨(r.tree, t), ht, ?_⟩⟩
    exact mem_classesOf.2 ⟨rfl, c, hc, hname, continues_iff.2 hcontinues⟩

/-- A class is a direct child of a class around the element. -/
theorem mem_directChildren_iff :
    r ∈ ((elements.flatMap Element.classList).flatMap (matching p)).flatMap (fun (_, t) =>
        (pick p t.children).flatMap fun (id, t) => classesOf (·.directChild) id t) ↔
      ∃ t, (r.tree, t) ∈ p.trees ∧
        (∃ id a, t.parent = some id ∧ p.library.trees[id]? = some a ∧ CarriesClassOf elements a) ∧
          ∃ c ∈ t.classes, c.name = r.name ∧ c.directChild = true := by
  obtain ⟨stop, horder⟩ := Package.exists_preOrder_of_load h
  rw [List.mem_flatMap]
  constructor
  · rintro ⟨⟨x, a⟩, hmatched, hr⟩
    obtain ⟨⟨id, t⟩, hpick, hclass⟩ := List.mem_flatMap.1 hr
    obtain ⟨ha, -, hcarries⟩ := mem_matched.1 hmatched
    obtain ⟨hchild, ht⟩ := mem_pick.1 hpick
    obtain ⟨rfl, hdirect⟩ := mem_classesOf.1 hclass
    obtain ⟨hindex, hx⟩ := mem_trees.1 ha
    have hparent : parentOf p.library.trees r.tree = some x := by
      rw [← horder.mem_childrenOf_iff, childrenOf, hx]
      exact hchild
    have hbelow := horder.mem_flatten_of_parentOf hparent
    rw [parentOf, ht] at hparent
    refine ⟨t, mem_trees.2 ⟨?_, ht⟩, ⟨x, a, hparent, hx, hcarries⟩, hdirect⟩
    exact (Package.mem_index_trees_iff_of_mem_flatten h hbelow).2 hindex
  · rintro ⟨t, ht, ⟨x, a, hparent, hx, hcarries⟩, hclass⟩
    obtain ⟨hindex, hr⟩ := mem_trees.1 ht
    have hparent : parentOf p.library.trees r.tree = some x := by
      rw [parentOf, hr]
      exact hparent
    have hchild : r.tree ∈ a.children := by
      have hmem := horder.mem_childrenOf_iff.2 hparent
      rwa [childrenOf, hx] at hmem
    have hbelow := horder.mem_flatten_of_parentOf hparent
    have ha : (x, a) ∈ p.trees :=
      mem_trees.2 ⟨(Package.mem_index_trees_iff_of_mem_flatten h hbelow).1 hindex, hx⟩
    refine ⟨(x, a), mem_matched.2 ⟨ha, List.ne_nil_of_mem hchild, hcarries⟩, ?_⟩
    refine List.mem_flatMap.2 ⟨(r.tree, t), mem_pick.2 ⟨hchild, hr⟩, ?_⟩
    exact mem_classesOf.2 ⟨rfl, hclass⟩

/-- The high classes are those that fit best. -/
theorem mem_high_iff : r ∈ (rank p elements).high ↔ FitsBest p elements r := by
  unfold rank FitsBest
  dsimp only
  rw [List.mem_append, mem_continuations_iff, mem_directChildren_iff h, ← exists_or]
  simp only [← and_or_left]

end

/-- Ranking is sound and complete: for every package that is loaded and whatever elements are
around an element, innermost first, exactly the classes that fit are ranked. -/
theorem mem_rank_iff_of_load {tree : Files.Tree} {entry : Files.Path} {options : Package.Options}
    {p : Package} (h : Package.load tree entry options = .ok p) (elements : List Element)
    (r : Ranked) :
    (r ∈ (rank p elements).normal ↔ FitsBelow p elements r) ∧
      (r ∈ (rank p elements).high ↔ FitsBest p elements r) :=
  ⟨mem_normal_iff h elements r, mem_high_iff h elements r⟩

/-- One file with a rule for the children of a class. -/
def cardTree : Files.Tree :=
  ⟨[(["a.scss".toList],
    .file (.text "@mixin m \x7b .a \x7b > .b \x7b\x7d \x7d \x7d".toList))]⟩

/-- The rule as it is read. -/
def cardSheet : List Sheet.Node :=
  [.block "mixin".toList "m".toList
    [.rule ".a".toList [.rule "> .b".toList [] ⟨16, 23, 1, 17⟩] ⟨11, 25, 1, 12⟩] ⟨0, 27, 1, 1⟩]

/-- The class and its child as trees. -/
def cardTrees : Model.Trees :=
  #[⟨[⟨"a".toList, false⟩], [1], none, ".a".toList, none⟩,
    ⟨[⟨"b".toList, true⟩], [], some 0, "> .b".toList, none⟩]

/-- The file with the card can be loaded, and gives the two trees of the card. -/
theorem exists_load_cardTree :
    ∃ p, Package.load cardTree "/a.scss".toList ⟨"scss".toList, none⟩ = .ok p ∧
      p.library.trees = cardTrees ∧ p.index.trees = [0, 1] := by
  have hparse : Sheet.parse "@mixin m \x7b .a \x7b > .b \x7b\x7d \x7d \x7d".toList =
      .ok cardSheet := by rfl
  obtain ⟨s, hsteps, htrees, hroots⟩ : ∃ s,
      Relation.ReflTransGen (Package.Next cardTree "scss".toList)
        (.first ⟨"scss".toList, none⟩ ["a.scss".toList],
          Package.tasksOf 0 ["a.scss".toList] cardSheet) (s, []) ∧
      s.library.trees = cardTrees ∧
      Model.ownTreesOf s.library (s.library.allMixins.foldl
        (fun t entry => Model.Table.put t entry.2.name entry.1) []) = [0] :=
    ⟨_, .head ⟨.addMixin _ _ none rfl⟩ .refl, by decide +kernel, by decide +kernel⟩
  have hrun := Package.runTasks_eq_ok_iff.2 hsteps
  have hvisited : s.library.reachable 0 = s.library.numbered :=
    @Package.reachable_eq_numbered cardTree ⟨"scss".toList, none⟩ _ cardSheet s hrun
  have hload : Package.loadModules cardTree "/a.scss".toList ⟨"scss".toList, none⟩ = .ok s :=
    Package.loadModules_eq_ok_iff.2 ⟨_, _, _, rfl, rfl, hparse, hrun⟩
  have hindex : (Model.Index.build s.library 0).trees = [0, 1] := by
    change ((Model.ownTreesOf s.library (Model.Index.build s.library 0).mixins).flatMap
      (flatten s.library.trees)).eraseDups = _
    rw [Model.Index.mixins_build hvisited, hroots, htrees]
    decide +kernel
  unfold Package.load
  rw [hload]
  exact ⟨_, rfl, htrees, hindex⟩

/-- An element with the outer class. -/
def card : Element := ⟨1, "div".toList, [⟨"class".toList, some "a".toList, false⟩]⟩

/-- Inside an element with a class its child ranks, and ranks high. -/
theorem mem_rank_iff_of_load_cardTree :
    ∃ p, Package.load cardTree "/a.scss".toList ⟨"scss".toList, none⟩ = .ok p ∧
      FitsBelow p [card] ⟨"b".toList, 1⟩ ∧ ⟨"b".toList, 1⟩ ∈ (rank p [card]).normal ∧
      FitsBest p [card] ⟨"b".toList, 1⟩ ∧ ⟨"b".toList, 1⟩ ∈ (rank p [card]).high := by
  obtain ⟨p, hp, htrees, hindex⟩ := exists_load_cardTree
  have hlisted : (1, ⟨[⟨"b".toList, true⟩], [], some 0, "> .b".toList, none⟩) ∈ p.trees :=
    mem_trees.2 (by rw [htrees, hindex]; decide)
  have hcarries : CarriesClassOf [card] ⟨[⟨"a".toList, false⟩], [1], none, ".a".toList, none⟩ :=
    ⟨⟨"a".toList, false⟩, by decide, card, by decide, by decide⟩
  have hbelow : FitsBelow p [card] ⟨"b".toList, 1⟩ := by
    refine ⟨_, hlisted, ⟨⟨"b".toList, true⟩, by decide, rfl⟩, _, ?_, hcarries⟩
    rw [Package.path, htrees]
    decide
  have hbest : FitsBest p [card] ⟨"b".toList, 1⟩ := by
    refine ⟨_, hlisted, .inr ⟨⟨0, _, rfl, ?_, hcarries⟩, ⟨"b".toList, true⟩, by decide, rfl, rfl⟩⟩
    rw [htrees]
    rfl
  obtain ⟨hnormal, hhigh⟩ := mem_rank_iff_of_load hp [card] ⟨"b".toList, 1⟩
  exact ⟨p, hp, hbelow, hnormal.2 hbelow, hbest, hhigh.2 hbest⟩

end ClassHints.Completion
