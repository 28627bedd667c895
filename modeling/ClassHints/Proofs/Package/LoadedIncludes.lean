import ClassHints.Proofs.Model.Includes
import ClassHints.Proofs.Package.LoadedModules

/-!
# The includes of a loaded package

Every mixin of a loaded package belongs to one module, and the index reaches all modules, so
that an include is resolved exactly if some mixin of the package has its name. All other
includes have one warning each.
-/

namespace ClassHints

open Files (Path Place Tree)
open Model (Library Mixin Warning Resolution Index)

/-- Whether a warning is about an include. -/
def Model.Warning.isInclude : Warning → Bool
  | .includeNotResolved .. => true
  | .importNotResolved .. | .unreadableImport .. => false

/-- The warnings that come from resolving are about includes. -/
theorem Model.Resolution.isInclude_of_mem_warnings {r : Resolution} {w : Warning}
    (h : w ∈ r.warnings) : w.isInclude = true := by
  obtain ⟨⟨name, target⟩, -, hw⟩ := List.mem_filterMap.1 h
  cases target with
  | none =>
    obtain rfl := Option.some.inj hw
    rfl
  | some id => cases hw

namespace Package

/-- Nothing is known about includes yet: no targets, no marks and no warnings. -/
structure Loading.Unresolved (s : Loading) : Prop where
  mixins : ∀ m ∈ s.library.mixins, m.resolved = [] ∧ m.included = false
  warnings : ∀ w ∈ s.warnings, w.isInclude = false

/-- A warning about something else leaves the includes unknown. -/
theorem Loading.Unresolved.warn {s : Loading} (h : s.Unresolved) {w : Warning}
    (hw : w.isInclude = false) : (s.warn w).Unresolved where
  mixins := h.mixins
  warnings w' hw' := by
    rcases List.mem_append.1 hw' with hmem | hnew
    · exact h.warnings w' hmem
    · rwa [List.mem_singleton.1 hnew]

/-- A task leaves the includes unknown. -/
theorem Task.Step.unresolved_includes {tree : Tree} {extension : Text} {s s₁ : Loading}
    {task : Task} {more : List Task} (h : task.Step tree extension s s₁ more)
    (hs : s.Unresolved) : s₁.Unresolved := by
  cases h with
  | addMixin params body description hwork =>
    refine ⟨fun m hm => ?_, hs.warnings⟩
    rcases Array.mem_push.1 hm with hm | rfl
    · exact hs.mixins m hm
    · exact ⟨rfl, rfl⟩
  | addVariable v hwork => exact ⟨hs.mixins, hs.warnings⟩
  | unresolved path hwork hplace => exact hs.warn rfl
  | known path target id hwork hplace hfound => exact ⟨hs.mixins, hs.warnings⟩
  | unreadable path target reason hwork hplace hnew hfailed => exact hs.warn rfl
  | fresh path target text nodes hwork hplace hnew hread hparsed =>
    exact ⟨hs.mixins, hs.warnings⟩

section

variable {tree : Tree} {entry : Path} {options : Options} {s : Loading}

/-- While the modules are loaded, nothing is known about includes. -/
theorem unresolved_of_loadModules (h : loadModules tree entry options = .ok s) :
    s.Unresolved := by
  obtain ⟨file, text, nodes, -, -, -, hrun⟩ := loadModules_eq_ok_iff.1 h
  refine loaded_invariant (motive := Loading.Unresolved) ⟨?_, ?_⟩ ?_ hrun
  · intro m hm
    simp [Loading.first, Loading.addModule, Library.empty] at hm
  · intro w hw
    simp [Loading.first, Loading.addModule] at hw
  · exact fun s task s₁ more hstep _ hs => hstep.unresolved_includes hs

/-- The index reaches all mixins of a package. -/
theorem covers_of_loadModules (h : loadModules tree entry options = .ok s) :
    s.library.Covers 0 := by
  obtain ⟨file, text, nodes, -, -, -, hrun⟩ := loadModules_eq_ok_iff.1 h
  have horder := inOrder_of_runTasks hrun
  exact ⟨horder.visited, horder.mixins⟩

end

/-! ## Mixins of the package -/

namespace Loading

variable {s : Loading}

/-- The includes of the mixins that are loaded with what they stand for. -/
def resolutions (s : Loading) : List Resolution := s.library.resolutions (Index.build s.library 0)

/-- A package has the warnings of the loader, then those about includes. -/
theorem warnings_package (s : Loading) :
    s.package.warnings = s.warnings ++ s.resolutions.flatMap Resolution.warnings := rfl

/-- The warnings of a package about includes are those of resolving them, -/
theorem Unresolved.filter_isInclude (h : s.Unresolved) :
    s.package.warnings.filter Warning.isInclude = s.resolutions.flatMap Resolution.warnings := by
  have hown : s.warnings.filter Warning.isInclude = [] :=
    List.filter_eq_nil_iff.2 fun w hw => by simp [h.warnings w hw]
  have hincludes : (s.resolutions.flatMap Resolution.warnings).filter Warning.isInclude =
      s.resolutions.flatMap Resolution.warnings := by
    refine List.filter_eq_self.2 fun w hw => ?_
    obtain ⟨r, -, hr⟩ := List.mem_flatMap.1 hw
    exact Resolution.isInclude_of_mem_warnings hr
  rw [warnings_package, List.filter_append, hown, hincludes, List.nil_append]

/-- and all other warnings are those of loading. -/
theorem Unresolved.filter_not_isInclude (h : s.Unresolved) :
    s.package.warnings.filter (!·.isInclude) = s.warnings := by
  have hown : s.warnings.filter (!·.isInclude) = s.warnings :=
    List.filter_eq_self.2 fun w hw => by simp [h.warnings w hw]
  have hincludes : (s.resolutions.flatMap Resolution.warnings).filter (!·.isInclude) = [] := by
    refine List.filter_eq_nil_iff.2 fun w hw => ?_
    obtain ⟨r, -, hr⟩ := List.mem_flatMap.1 hw
    simp [Resolution.isInclude_of_mem_warnings hr]
  rw [warnings_package, List.filter_append, hown, hincludes, List.append_nil]

/-- Resolving and linking leave the names and the includes of mixins as they were. -/
theorem map_written (s : Loading) :
    (s.package.library.mixins.toList.map fun m => (m.name, m.includes)) =
      s.library.mixins.toList.map fun m => (m.name, m.includes) :=
  Library.map_link_resolveIncludes (fun _ _ _ _ => rfl) s.library _

/-- Resolving and linking leave the names of the mixins alone. -/
theorem nameOf?_package (s : Loading) : s.package.library.nameOf? = s.library.nameOf? := by
  have hnames : s.package.library.mixins.toList.map Mixin.name =
      s.library.mixins.toList.map Mixin.name :=
    Library.map_link_resolveIncludes (fun _ _ _ _ => rfl) s.library _
  funext id
  simpa [Library.nameOf?] using congrArg (·[id]?) hnames

/-- Resolving and linking add no names of mixins. -/
theorem hasMixin_package (s : Loading) : s.package.library.hasMixin = s.library.hasMixin := by
  funext name
  rw [Bool.eq_iff_iff, Library.hasMixin_iff, Library.hasMixin_iff, nameOf?_package]

/-- Resolving and linking leave the names that are included alone. -/
theorem includeWarnings_package (s : Loading) :
    s.package.library.includeWarnings = s.library.includeWarnings := by
  have hsame := congrArg (List.flatMap fun m : Text × List Text =>
    (m.2.filter (!s.library.hasMixin ·)).map (Warning.includeNotResolved m.1)) (map_written s)
  rw [List.flatMap_map, List.flatMap_map] at hsame
  rw [Library.includeWarnings, hasMixin_package, hsame]
  rfl

/-- The mixin of a package has the targets of its includes written down, and is marked if it is
a target of any include. -/
theorem exists_written (hcovers : s.library.Covers 0) (hnew : s.Unresolved) {r : Resolution}
    (hr : r ∈ s.resolutions) {m : Mixin} (hof : r.Of s.library m) :
    ∃ classTrees, s.package.library.mixins[r.mixin]? = some { m with
      classTrees := classTrees
      resolved := r.found
      included := s.resolutions.any (·.found.contains r.mixin) } := by
  have hpairs := hcovers.pairwise_resolutions (Index.build s.library 0)
  have hwritten := Model.getElem?_foldl_apply hpairs hr s.library.mixins
  obtain ⟨hnone, hunmarked⟩ := hnew.mixins m (Array.mem_of_getElem? hof.mixin)
  rw [hof.mixin, Option.map_some, r.written_eq_found hnone, hunmarked, Bool.false_or] at hwritten
  obtain ⟨classTrees, hlinked⟩ := (s.library.resolveIncludes (Index.build s.library 0)).1
    |>.exists_getElem?_link (Index.build s.library 0) r.mixin
  exact ⟨_, hlinked.trans (congrArg _ hwritten)⟩

/-- A mixin of a package is one that was loaded, with its includes resolved. -/
theorem exists_resolution (hcovers : s.library.Covers 0) (hnew : s.Unresolved) {id : Nat}
    {m : Mixin} (hm : s.package.library.mixins[id]? = some m) :
    ∃ r ∈ s.resolutions, ∃ old, r.mixin = id ∧ r.Of s.library old ∧
      m.name = old.name ∧ m.includes = old.includes ∧ m.resolved = r.found ∧
      m.included = s.resolutions.any (·.found.contains id) := by
  have hold : ∃ old, s.library.mixins[id]? = some old := by
    have hlength := congrArg List.length (map_written s)
    simp only [List.length_map, Array.length_toList] at hlength
    have hid := (Array.getElem?_eq_some_iff.1 hm).1
    exact ⟨_, Array.getElem?_eq_getElem (by omega)⟩
  obtain ⟨old, hold⟩ := hold
  obtain ⟨r, hr, rfl, hof⟩ := hcovers.exists_resolution hold
  obtain ⟨classTrees, hwritten⟩ := exists_written hcovers hnew hr hof
  obtain rfl := Option.some.inj (hwritten.symm.trans hm)
  exact ⟨r, hr, old, rfl, hof, rfl, rfl, rfl, rfl⟩

end Loading

/-- How the includes of a package are resolved. -/
structure IncludesResolved (p : Package) : Prop where
  /-- There is one warning for each include that no mixin has the name of, and no other warning
  is about an include. -/
  warned : (p.warnings.filter Warning.isInclude).Perm p.library.includeWarnings
  /-- The targets of a mixin have the names of those of its includes that some mixin has. -/
  resolved : ∀ m ∈ p.library.mixins, m.resolved.map p.library.nameOf? =
    (m.includes.filter p.library.hasMixin).map some
  /-- The mixins that are marked are the targets. -/
  included : ∀ id m, p.library.mixins[id]? = some m →
    (m.included = true ↔ ∃ m' ∈ p.library.mixins, id ∈ m'.resolved)

/-- The includes of every package that is loaded are resolved as far as there are mixins. -/
theorem includesResolved_of_load {tree : Tree} {entry : Path} {options : Options} {p : Package}
    (h : load tree entry options = .ok p) : IncludesResolved p := by
  obtain ⟨s, hs, rfl⟩ := load_eq_ok_iff.1 h
  have hcovers := covers_of_loadModules hs
  have hnew := unresolved_of_loadModules hs
  constructor
  case warned =>
    rw [hnew.filter_isInclude, Loading.includeWarnings_package]
    exact hcovers.perm_warnings
  case resolved =>
    intro m hm
    obtain ⟨id, hid, rfl⟩ := Array.getElem_of_mem hm
    obtain ⟨r, -, old, -, hof, -, hincludes, hfound, -⟩ :=
      Loading.exists_resolution hcovers hnew (Array.getElem?_eq_getElem hid)
    rw [hfound, hincludes, Loading.nameOf?_package, Loading.hasMixin_package]
    exact hof.map_nameOf?_found
  case included =>
    intro id m hm
    obtain ⟨-, -, -, -, -, -, -, -, hincluded⟩ := Loading.exists_resolution hcovers hnew hm
    rw [hincluded, List.any_eq_true]
    constructor
    · rintro ⟨r, hr, hid⟩
      obtain ⟨old, hof⟩ := hcovers.exists_of_mem_resolutions hr
      obtain ⟨classTrees, hwritten⟩ := Loading.exists_written hcovers hnew hr hof
      exact ⟨_, Array.mem_of_getElem? hwritten, by simpa using hid⟩
    · rintro ⟨m', hm', hid⟩
      obtain ⟨id', hid', rfl⟩ := Array.getElem_of_mem hm'
      obtain ⟨r, hr, -, -, -, -, -, hfound, -⟩ :=
        Loading.exists_resolution hcovers hnew (Array.getElem?_eq_getElem hid')
      rw [hfound] at hid
      exact ⟨r, hr, by simpa using hid⟩

/-- A mixin that includes a later one, itself and one that is missing. -/
def includingTree : Tree :=
  ⟨[(["a.scss".toList], .file (.text
    "@mixin a \x7b @include b; @include a; @include c; \x7d @mixin b \x7b\x7d".toList))]⟩

/-- Only the missing include has a warning. -/
theorem includesResolved_of_load_includingTree :
    ∃ p, load includingTree "/a.scss".toList ⟨"scss".toList, none⟩ = .ok p ∧
      p.library.includeWarnings = [.includeNotResolved "a".toList "c".toList] ∧
      IncludesResolved p := by
  have hparse : Sheet.parse
      "@mixin a \x7b @include b; @include a; @include c; \x7d @mixin b \x7b\x7d".toList =
      .ok [.block "mixin".toList "a".toList
          [.statement "include".toList "b".toList ⟨11, 22, 1, 12⟩,
            .statement "include".toList "a".toList ⟨23, 34, 1, 24⟩,
            .statement "include".toList "c".toList ⟨35, 46, 1, 36⟩] ⟨0, 48, 1, 1⟩,
        .block "mixin".toList "b".toList [] ⟨49, 60, 1, 50⟩] := by rfl
  obtain ⟨s, hrun, hwarnings⟩ : ∃ s, Relation.ReflTransGen (Next includingTree "scss".toList)
      (.first ⟨"scss".toList, none⟩ ["a.scss".toList],
        [⟨0, ["a.scss".toList], .mixin "a".toList
          [.statement "include".toList "b".toList ⟨11, 22, 1, 12⟩,
            .statement "include".toList "a".toList ⟨23, 34, 1, 24⟩,
            .statement "include".toList "c".toList ⟨35, 46, 1, 36⟩] none⟩,
          ⟨0, ["a.scss".toList], .mixin "b".toList [] none⟩]) (s, []) ∧
      s.library.includeWarnings = [.includeNotResolved "a".toList "c".toList] :=
    ⟨_, .head ⟨.addMixin _ _ none rfl⟩ (.head ⟨.addMixin _ _ none rfl⟩ .refl), by decide +kernel⟩
  have hload : loadModules includingTree "/a.scss".toList ⟨"scss".toList, none⟩ = .ok s :=
    loadModules_eq_ok_iff.2 ⟨_, _, _, rfl, rfl, hparse, runTasks_eq_ok_iff.2 hrun⟩
  have hp := load_eq_ok_iff.2 ⟨s, hload, rfl⟩
  refine ⟨s.package, hp, ?_, includesResolved_of_load hp⟩
  rw [Loading.includeWarnings_package, hwarnings]

end Package

end ClassHints
