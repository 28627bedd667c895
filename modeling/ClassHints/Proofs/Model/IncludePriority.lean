import ClassHints.Proofs.Model.IndexOrder

/-!
# Which mixin an include stands for

An include is looked for in four places, in a fixed order of priority: among the mixins that the
module imports, where the last definition in depth-first order counts, then among the mixins
written before and those written behind in the module, where the first one counts, and at last
in the index. Resolving writes down exactly these targets and warns about each include that has
none.
-/

namespace ClassHints.Model

/-- A mixin at its place in a module. -/
structure ListedMixin where
  /-- The module by number. -/
  owner : Nat
  /-- The module itself. -/
  home : Module
  /-- The place among the mixins of the module. -/
  place : Nat
  /-- The mixin by number. -/
  id : Nat
  /-- The mixin itself. -/
  mixin : Mixin

/-- The mixin with a number at its place in a module, if there is one. -/
def Library.listedAt? (lib : Library) (owner : Nat) (home : Module) (entry : Nat × Nat) :
    Option ListedMixin :=
  lib.mixins[entry.1]?.map fun mixin => ⟨owner, home, entry.2, entry.1, mixin⟩

/-- The mixins at their places in the modules, in the order of the modules and the places. -/
def Library.listedMixins (lib : Library) : List ListedMixin :=
  lib.modules.toList.zipIdx.flatMap fun (home, owner) =>
    home.mixins.zipIdx.filterMap (lib.listedAt? owner home)

namespace ListedMixin

/-- The mixin that an include stands for: the last one that the module imports, else the first
one before it in the module, else the first one behind it, else the one of the index. -/
def target? (lib : Library) (index : Index) (l : ListedMixin) (name : Text) : Option Nat :=
  (lib.lastNamed? (lib.mixinsIn (lib.depthFirst [l.owner] l.home.imports)) name).or <|
  (lib.firstNamed? (l.home.mixins.take l.place) name).or <|
  (lib.firstNamed? (l.home.mixins.drop (l.place + 1)) name).or <|
  index.mixins.get? name

/-- The mixins that the includes stand for, in the order of the includes. -/
def targets (lib : Library) (index : Index) (l : ListedMixin) : List Nat :=
  l.mixin.includes.filterMap (l.target? lib index)

/-- One warning for each include that stands for no mixin, in the order of the includes. -/
def warnings (lib : Library) (index : Index) (l : ListedMixin) : List Warning :=
  (l.mixin.includes.filter fun name => (l.target? lib index name).isNone).map
    (.includeNotResolved l.mixin.name)

/-- The includes with what they stand for. -/
def resolution (lib : Library) (index : Index) (l : ListedMixin) : Resolution :=
  ⟨l.id, l.mixin.name, l.mixin.includes.map fun name => (name, l.target? lib index name)⟩

variable (lib : Library) (index : Index) (l : ListedMixin)

/-- What a mixin finds are the targets of its includes. -/
theorem found_resolution : (l.resolution lib index).found = l.targets lib index := by
  rw [Resolution.found, resolution, List.filterMap_map]
  rfl

/-- A mixin without includes keeps what it had, and any other gets the targets of its includes. -/
theorem written_resolution : (l.resolution lib index).written l.mixin =
    if l.mixin.includes = [] then l.mixin.resolved else l.targets lib index := by
  rw [Resolution.written, found_resolution]
  simp [resolution]

/-- A mixin brings the warnings about those of its includes that stand for nothing. -/
theorem warnings_resolution : (l.resolution lib index).warnings = l.warnings lib index := by
  rw [warnings, ← List.filterMap_eq_map, List.filterMap_filter, Resolution.warnings, resolution,
    List.filterMap_map]
  rfl

end ListedMixin

namespace Library

/-- The mixins of a module are resolved at their places. -/
theorem resolveMixins_eq (lib : Library) (index : Index) (owner : Nat) {home : Module}
    {earlier later : List Nat} (h : home.mixins = earlier ++ later) :
    lib.resolveMixins index (lib.importedMixins owner home) earlier later =
      ((later.zipIdx earlier.length).filterMap (lib.listedAt? owner home)).map
        (·.resolution lib index) := by
  induction later generalizing earlier with
  | nil => rfl
  | cons id later ih =>
    have hsplit : home.mixins = (earlier ++ [id]) ++ later := by simpa using h
    have hrest := ih hsplit
    rw [List.length_append, List.length_singleton] at hrest
    have htarget (mixin : Mixin) (name : Text) :
        lib.includeTarget? index (lib.importedMixins owner home) earlier later name =
          (⟨owner, home, earlier.length, id, mixin⟩ : ListedMixin).target? lib index name := by
      have hlater : home.mixins.drop (earlier.length + 1) = later := by
        rw [h, List.drop_length_add_append]
        rfl
      simp only [includeTarget?, Option.orElse_eq_orElse, Option.orElse_eq_or,
        ListedMixin.target?, importedMixins, get?_foldl_visit, hlater]
      rw [h, List.take_left]
    rw [resolveMixins, List.zipIdx_cons, List.filterMap_cons, hrest]
    cases hid : lib.mixins[id]? with
    | none => simp [listedAt?, hid]
    | some mixin => simp [listedAt?, hid, ListedMixin.resolution, htarget mixin]

/-- All mixins are resolved at their places in the modules. -/
theorem resolutions_eq (lib : Library) (index : Index) :
    lib.resolutions index = lib.listedMixins.map (·.resolution lib index) := by
  rw [resolutions, listedMixins, List.map_flatMap]
  refine List.flatMap_congr ?_
  rintro ⟨home, owner⟩ -
  exact lib.resolveMixins_eq index owner (List.nil_append home.mixins).symm

/-- Where no mixin is listed twice, no mixin is resolved twice. -/
theorem pairwise_resolutions {lib : Library}
    (h : (lib.modules.toList.flatMap Module.mixins).Nodup) (index : Index) :
    (lib.resolutions index).Pairwise (·.mixin ≠ ·.mixin) := by
  have hmixins (m : Module) : (lib.mixinsOf m).map Prod.fst =
      m.mixins.filter fun id => lib.mixins[id]?.any fun _ => true := by
    rw [← map_fst_filter_mixinsOf, List.filter_true]
  refine List.pairwise_map.1 ?_
  rw [map_mixin_resolutions, allMixins, List.map_flatMap]
  simp only [hmixins]
  rw [← List.filter_flatMap]
  exact h.filter _

/-- How resolving changes a library, and what it warns about. -/
structure ResolvedBy (lib : Library) (index : Index) (result : Library × List Warning) :
    Prop where
  /-- A mixin of a module has the targets of its includes written down, if it has includes. A
  target is marked. Nothing else changes, -/
  listed : ∀ l ∈ lib.listedMixins, result.1.mixins[l.id]? = some { l.mixin with
    resolved := if l.mixin.includes = [] then l.mixin.resolved else l.targets lib index
    included := l.mixin.included ||
      lib.listedMixins.any fun other => (other.targets lib index).contains l.id }
  /-- and of a mixin that no module lists only the mark changes. -/
  unlisted : ∀ id, (∀ l ∈ lib.listedMixins, l.id ≠ id) →
    result.1.mixins[id]? = lib.mixins[id]?.map fun m => { m with
      included := m.included ||
        lib.listedMixins.any fun other => (other.targets lib index).contains id }
  modules : result.1.modules = lib.modules
  trees : result.1.trees = lib.trees
  /-- The warnings are in the order of the modules, their mixins and the includes of these. -/
  warnings : result.2 = lib.listedMixins.flatMap (·.warnings lib index)

/-- Where no mixin is listed twice, resolving the includes changes a library as `ResolvedBy` says.
-/
theorem resolvedBy_resolveIncludes {lib : Library}
    (h : (lib.modules.toList.flatMap Module.mixins).Nodup) (index : Index) :
    lib.ResolvedBy index (lib.resolveIncludes index) := by
  have hmarked (id : Nat) : (lib.resolutions index).any (·.found.contains id) =
      lib.listedMixins.any fun other => (other.targets lib index).contains id := by
    rw [resolutions_eq, List.any_map]
    refine congrArg lib.listedMixins.any (funext fun other => ?_)
    rw [Function.comp, other.found_resolution]
  constructor
  case listed =>
    intro l hl
    have hmixin : lib.mixins[l.id]? = some l.mixin := by
      obtain ⟨⟨home, owner⟩, -, hplace⟩ := List.mem_flatMap.1 hl
      obtain ⟨⟨id, place⟩, -, heq⟩ := List.mem_filterMap.1 hplace
      obtain ⟨mixin, hmixin, rfl⟩ := Option.map_eq_some_iff.1 heq
      exact hmixin
    have hresolution : l.resolution lib index ∈ lib.resolutions index := by
      rw [resolutions_eq]
      exact List.mem_map_of_mem hl
    have hwritten := getElem?_foldl_apply (pairwise_resolutions h index) hresolution lib.mixins
    change (lib.resolveIncludes index).1.mixins[l.id]? = lib.mixins[l.id]?.map _ at hwritten
    rw [hwritten, hmixin, Option.map_some, l.written_resolution, hmarked]
    rfl
  case unlisted =>
    intro id hid
    have hnone : ∀ r ∈ lib.resolutions index, r.mixin ≠ id := by
      intro r hr
      rw [resolutions_eq] at hr
      obtain ⟨l, hl, rfl⟩ := List.mem_map.1 hr
      exact hid l hl
    rw [← hmarked]
    exact getElem?_foldl_apply_of_ne hnone lib.mixins
  case modules => rfl
  case trees => rfl
  case warnings =>
    have hwarnings : (lib.resolveIncludes index).2 =
        (lib.resolutions index).flatMap Resolution.warnings := rfl
    rw [hwarnings, resolutions_eq, List.flatMap_map]
    exact List.flatMap_congr fun l _ => l.warnings_resolution lib index

/-- Where every mixin is listed at most once, includes stand for mixins by the order of the four
places they are looked for in. What a module imports are the modules that its imports lead to,
without the module itself, even if they lead back to it. -/
theorem resolveIncludes_byPriority {lib : Library}
    (h : (lib.modules.toList.flatMap Module.mixins).Nodup) (root : Nat) :
    (∀ owner home, lib.modules[owner]? = some home →
      (lib.depthFirst [owner] home.imports).Nodup ∧
      ∀ id, id ∈ lib.depthFirst [owner] home.imports ↔ id < lib.modules.size ∧ id ≠ owner ∧
        ∃ target ∈ home.imports, Relation.ReflTransGen lib.Imports target id) ∧
    lib.ResolvedBy (Index.build lib root) (lib.resolveIncludes (Index.build lib root)) := by
  refine ⟨fun owner home hhome => ⟨?_, ?_⟩, resolvedBy_resolveIncludes h (Index.build lib root)⟩
  · exact lib.nodup_depthFirst [owner] home.imports
  · exact mem_depthFirst_imports_iff hhome

/-- Three modules that import each other and a root that imports one of them. The mixin `user`
includes mixins of all four places and one that is missing. -/
def includingLibrary : Library :=
  ⟨#[⟨"a".toList, [], [], [0, 1, 2], [1]⟩, ⟨"b".toList, [], [], [3], [0, 2]⟩,
      ⟨"c".toList, [], [], [4], [1, 8]⟩, ⟨"root".toList, [], [], [5], [0]⟩],
    #[⟨"own".toList, [], [], [], [], [], false, none⟩,
      ⟨"user".toList, [], [], [], ["shared".toList, "ghost".toList, "own".toList, "late".toList,
        "far".toList], [], false, none⟩,
      ⟨"late".toList, [], [], [], [], [], false, none⟩,
      ⟨"shared".toList, [], [], [], [], [], false, none⟩,
      ⟨"shared".toList, [], [], [], [], [], false, none⟩,
      ⟨"far".toList, [], [], [], [], [], false, none⟩],
    #[]⟩

/-- The mixin `user` at its place. -/
def includingMixin : ListedMixin :=
  ⟨0, ⟨"a".toList, [], [], [0, 1, 2], [1]⟩, 1, 1,
    ⟨"user".toList, [], [], [], ["shared".toList, "ghost".toList, "own".toList, "late".toList,
      "far".toList], [], false, none⟩⟩

/-- The last imported mixin wins, and the missing one has a warning. -/
theorem resolveIncludes_byPriority_includingLibrary :
    (includingLibrary.modules.toList.flatMap Module.mixins).Nodup ∧
      includingMixin ∈ includingLibrary.listedMixins ∧
      includingMixin.warnings includingLibrary (Index.build includingLibrary 3) =
        [.includeNotResolved "user".toList "ghost".toList] ∧
      (includingLibrary.resolveIncludes
        (Index.build includingLibrary 3)).1.mixins[includingMixin.id]?.map Mixin.resolved =
          some [4, 0, 2, 5] ∧
      includingLibrary.ResolvedBy (Index.build includingLibrary 3)
        (includingLibrary.resolveIncludes (Index.build includingLibrary 3)) := by
  have hlisted : (includingLibrary.modules.toList.flatMap Module.mixins).Nodup := by decide
  have hmem : includingMixin ∈ includingLibrary.listedMixins := by
    simp [listedMixins, listedAt?, includingLibrary, includingMixin]
  have hroot : includingLibrary.depthFirst [] [3] = [3, 0, 1, 2] := by
    simp [depthFirst, includingLibrary]
  have hindex : (Index.build includingLibrary 3).mixins = [("far".toList, 5), ("own".toList, 0),
      ("user".toList, 1), ("late".toList, 2), ("shared".toList, 4)] := by
    rw [Index.build, reachable, visit_eq, hroot]
    decide
  have himports : includingLibrary.depthFirst [includingMixin.owner] includingMixin.home.imports =
      [1, 2] := by
    simp [depthFirst, includingLibrary, includingMixin]
  have htargets : includingMixin.targets includingLibrary (Index.build includingLibrary 3) =
      [4, 0, 2, 5] := by
    unfold ListedMixin.targets ListedMixin.target?
    rw [himports, hindex]
    decide
  have hwarnings : includingMixin.warnings includingLibrary (Index.build includingLibrary 3) =
      [.includeNotResolved "user".toList "ghost".toList] := by
    unfold ListedMixin.warnings ListedMixin.target?
    rw [himports, hindex]
    decide
  obtain ⟨-, hresolved⟩ := resolveIncludes_byPriority hlisted 3
  refine ⟨hlisted, hmem, hwarnings, ?_, hresolved⟩
  rw [hresolved.listed includingMixin hmem, htargets]
  rfl

end Library

end ClassHints.Model
