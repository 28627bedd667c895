import ClassHints.Proofs.Model.Names
import ClassHints.Proofs.Package.LoadOrder
import Mathlib.Data.List.Induction

/-!
# The modules of a loaded package

Every load ends. When it succeeds, no file has two modules, no module is out of reach of the
entry module, and the index lists the modules in the order they were loaded, so that the index
is described by the modules in the order of their numbers.
-/

namespace ClassHints.Package

open Files (Path Place Tree)
open Model (Library Module Mixin Variable Index)

/-! ## Mixins -/

/-- What a change leaves alone is the same everywhere after it. -/
theorem map_modify_of_eq {α β : Type} {f : α → α} {g : α → β} (hf : ∀ a, g (f a) = g a)
    (as : Array α) (i : Nat) : (as.modify i f).toList.map g = as.toList.map g := by
  have hlist (l : List α) (i : Nat) : (l.modify i f).map g = l.map g := by
    induction l generalizing i with
    | nil => simp
    | cons a l ih =>
      cases i with
      | zero => rw [List.modify_zero_cons, List.map_cons, List.map_cons, hf]
      | succ i => rw [List.modify_succ_cons, List.map_cons, List.map_cons, ih]
  rw [Array.toList_modify, hlist]

/-- One more element at the end of one part is one more element of all parts. -/
theorem perm_flatMap_modify {α β : Type} {f : α → α} {g : α → List β} {x : β}
    (hf : ∀ a, g (f a) = g a ++ [x]) {l : List α} {i : Nat} (hi : i < l.length) :
    ((l.modify i f).flatMap g).Perm (l.flatMap g ++ [x]) := by
  induction l generalizing i with
  | nil => simp at hi
  | cons a l ih =>
    cases i with
    | zero =>
      rw [List.modify_zero_cons, List.flatMap_cons, List.flatMap_cons, hf, List.append_assoc,
        List.append_assoc]
      exact List.perm_append_comm.append_left (g a)
    | succ i =>
      rw [List.modify_succ_cons, List.flatMap_cons, List.flatMap_cons, List.append_assoc]
      exact (ih (Nat.lt_of_succ_lt_succ hi)).append_left (g a)

/-- The elements of a list by number are its elements with their numbers. -/
theorem filterMap_range_getElem? {α : Type} (l : List α) :
    (List.range l.length).filterMap (fun i => l[i]?.map (i, ·)) = l.zipIdx.map Prod.swap := by
  induction l using List.reverseRecOn with
  | nil => rfl
  | append_singleton l a ih =>
    have hinit : (List.range l.length).filterMap (fun i => (l ++ [a])[i]?.map (i, ·)) =
        (List.range l.length).filterMap fun i => l[i]?.map (i, ·) := by
      refine List.filterMap_congr fun i hi => ?_
      rw [List.getElem?_append_left (List.mem_range.1 hi)]
    rw [List.length_append, List.length_singleton, List.range_succ, List.filterMap_append, hinit,
      ih, List.zipIdx_append, List.map_append]
    simp

namespace Loading

/-- The mixins of all modules, by number. -/
def mixinNumbers (s : Loading) : List Nat := s.library.modules.toList.flatMap Module.mixins

/-- Every mixin belongs to exactly one module, and to it once. -/
def MixinsOnce (s : Loading) : Prop := s.mixinNumbers.Perm (List.range s.library.mixins.size)

/-- A change to one module that leaves its mixins alone leaves all mixins of the modules alone. -/
theorem flatMap_mixins_modify (modules : Array Module) (id : Nat) (f : Module → Module)
    (hf : ∀ m, (f m).mixins = m.mixins) :
    (modules.modify id f).toList.flatMap Module.mixins =
      modules.toList.flatMap Module.mixins := by
  rw [List.flatMap_def, List.flatMap_def, map_modify_of_eq hf]

/-- A variable adds no mixin. -/
@[simp]
theorem mixinNumbers_addVariable (s : Loading) (owner : Nat) (v : Variable) :
    (s.addVariable owner v).mixinNumbers = s.mixinNumbers :=
  flatMap_mixins_modify _ _ _ fun _ => rfl

/-- An import adds no mixin. -/
@[simp]
theorem mixinNumbers_addImport (s : Loading) (owner target : Nat) :
    (s.addImport owner target).mixinNumbers = s.mixinNumbers :=
  flatMap_mixins_modify _ _ _ fun _ => rfl

/-- A new module has no mixins yet. -/
@[simp]
theorem mixinNumbers_addModule (s : Loading) (name : Text) (file : Place) :
    (s.addModule name file).mixinNumbers = s.mixinNumbers := by
  simp [mixinNumbers, addModule]

/-- A mixin that is added takes the next number. -/
theorem mixinNumbers_addMixin {s : Loading} {owner : Nat} (howner : owner < s.size)
    (params : Text) (body : List Sheet.Node) (description : Option Text) :
    (s.addMixin owner params body description).mixinNumbers.Perm
      (s.mixinNumbers ++ [s.library.mixins.size]) := by
  unfold mixinNumbers
  simp only [addMixin, Array.toList_modify]
  exact perm_flatMap_modify (fun _ => rfl) howner

/-- Where every mixin belongs to one module, the mixins of all modules are all mixins. -/
theorem MixinsOnce.perm_allMixins {s : Loading} (h : s.MixinsOnce) :
    s.library.allMixins.Perm (s.library.mixins.toList.zipIdx.map Prod.swap) := by
  have hall : s.library.allMixins =
      s.mixinNumbers.filterMap fun id => s.library.mixins[id]?.map (id, ·) := by
    unfold Library.allMixins mixinNumbers Library.mixinsOf
    rw [List.filterMap_flatMap]
  have hrange : (List.range s.library.mixins.size).filterMap
      (fun id => s.library.mixins[id]?.map (id, ·)) =
      s.library.mixins.toList.zipIdx.map Prod.swap := by
    rw [← filterMap_range_getElem?]
    simp
  rw [hall, ← hrange]
  exact h.filterMap _

end Loading

/-- A task gives every new mixin to one module. -/
theorem Task.Step.mixinsOnce {tree : Tree} {extension : Text} {s s₁ : Loading} {task : Task}
    {more : List Task} (h : task.Step tree extension s s₁ more) (howner : task.owner < s.size)
    (honce : s.MixinsOnce) : s₁.MixinsOnce := by
  unfold Loading.MixinsOnce at honce ⊢
  cases h with
  | addVariable v hwork => rwa [Loading.mixinNumbers_addVariable]
  | addMixin params body description hwork =>
    have hsize : (s.addMixin task.owner params body description).library.mixins.size =
        s.library.mixins.size + 1 := by
      simp [Loading.addMixin]
    rw [hsize, List.range_succ]
    exact (Loading.mixinNumbers_addMixin howner ..).trans (honce.append_right _)
  | unresolved path hwork hplace => exact honce
  | known path target id hwork hplace hfound => rwa [Loading.mixinNumbers_addImport]
  | unreadable path target reason hwork hplace hnew hfailed => exact honce
  | fresh path target text nodes hwork hplace hnew hread hparsed =>
    rwa [Loading.mixinNumbers_addImport, Loading.mixinNumbers_addModule]

/-! ## Loaded packages -/

/-- The entry module with nothing in it. -/
def Loading.first (options : Options) (file : Place) : Loading :=
  Loading.addModule ⟨.empty, []⟩ (options.rootName.getD (moduleName file)) file

/-- Once the entry stylesheet is read, its tasks are done. -/
theorem loadModules_eq_runTasks {tree : Tree} {entry : Path} {options : Options} {file : Place}
    {text : Text} {nodes : List Sheet.Node} (hfile : tree.resolve entry = .ok file)
    (htext : tree.read file = .ok text) (hnodes : Sheet.parse text = .ok nodes) :
    loadModules tree entry options =
      runTasks tree options.extension (.first options file) (tasksOf 0 file nodes) := by
  unfold loadModules
  rw [hfile]
  simp only [Except.mapError, bind, Except.bind, htext, hnodes]
  rfl

/-- A load that succeeds has done all tasks of the entry stylesheet. -/
theorem loadModules_eq_ok_iff {tree : Tree} {entry : Path} {options : Options} {s : Loading} :
    loadModules tree entry options = .ok s ↔ ∃ file text nodes,
      tree.resolve entry = .ok file ∧ tree.read file = .ok text ∧ Sheet.parse text = .ok nodes ∧
      runTasks tree options.extension (.first options file) (tasksOf 0 file nodes) = .ok s := by
  constructor
  · intro h
    cases hfile : tree.resolve entry with
    | error reason => simp [loadModules, hfile, Except.mapError, bind, Except.bind] at h
    | ok file =>
      cases htext : tree.read file with
      | error reason => simp [loadModules, hfile, htext, Except.mapError, bind, Except.bind] at h
      | ok text =>
        cases hnodes : Sheet.parse text with
        | error fault =>
          simp [loadModules, hfile, htext, hnodes, Except.mapError, bind, Except.bind] at h
        | ok nodes =>
          rw [loadModules_eq_runTasks hfile htext hnodes] at h
          exact ⟨file, text, nodes, rfl, htext, hnodes, h⟩
  · rintro ⟨file, text, nodes, hfile, htext, hnodes, hrun⟩
    rw [loadModules_eq_runTasks hfile htext hnodes]
    exact hrun

/-- The package that loaded modules make: includes are resolved, and mixins linked. -/
def Loading.package (s : Loading) : Package :=
  let index := Index.build s.library 0
  ⟨(s.library.resolveIncludes index).1.link index, index,
    s.warnings ++ (s.library.resolveIncludes index).2⟩

/-- A package is loaded once its modules are. -/
theorem load_eq_ok_iff {tree : Tree} {entry : Path} {options : Options} {p : Package} :
    load tree entry options = .ok p ↔
      ∃ s, loadModules tree entry options = .ok s ∧ p = s.package := by
  unfold load
  cases loadModules tree entry options with
  | error fault => simp [bind, Except.bind]
  | ok s =>
    simp only [bind, Except.bind, pure, Except.pure, Except.ok.injEq, exists_eq_left']
    exact eq_comm

/-- A package is refused because of its modules. -/
theorem load_eq_error_iff {tree : Tree} {entry : Path} {options : Options} {fault : Fault} :
    load tree entry options = .error fault ↔ loadModules tree entry options = .error fault := by
  unfold load
  cases loadModules tree entry options <;> simp [bind, Except.bind, pure, Except.pure]

section

variable {tree : Tree} {options : Options} {file : Place} {nodes : List Sheet.Node} {s : Loading}

/-- At the start all tasks are for the entry. -/
theorem owned_first (options : Options) (file : Place) (nodes : List Sheet.Node) :
    (Loading.first options file).Owned (tasksOf 0 file nodes) := by
  intro task htask
  rw [owner_of_mem_tasksOf htask]
  simp [Loading.first]

/-- What holds of the entry module alone and is kept by the tasks of loaded modules holds of
the loaded package. -/
theorem loaded_invariant {motive : Loading → Prop} (start : motive (.first options file))
    (step : ∀ s task s₁ more, Task.Step tree options.extension s task s₁ more →
      task.owner < s.size → motive s → motive s₁)
    (h : runTasks tree options.extension (.first options file) (tasksOf 0 file nodes) = .ok s) :
    motive s := by
  have hboth := runTasks_invariant (motive := fun s tasks => s.Owned tasks ∧ motive s)
    ⟨owned_first options file nodes, start⟩ ?_ h
  · exact hboth.2
  · rintro s task tasks s₁ more hstep ⟨howned, hs⟩
    exact ⟨hstep.owned howned, step s task s₁ more hstep (howned task List.mem_cons_self) hs⟩

/-- The first file of a package is the one its entry leads to. -/
theorem head?_files_of_runTasks
    (h : runTasks tree options.extension (.first options file) (tasksOf 0 file nodes) = .ok s) :
    s.files.head? = some file := by
  obtain ⟨more, hfiles, -⟩ := extends_of_runTasks h
  rw [hfiles, Loading.first, Loading.files_addModule]
  rfl

/-- The index lists the modules in the order they were loaded. -/
theorem reachable_eq_numbered
    (h : runTasks tree options.extension (.first options file) (tasksOf 0 file nodes) = .ok s) :
    s.library.reachable 0 = s.library.numbered := by
  have howned := owned_first options file nodes
  have hsize : (Loading.first options file).size = 1 := by
    rw [Loading.first, Loading.size_addModule]
    rfl
  have hlt : 0 < s.library.modules.size := by
    have hle := (extends_of_runTasks h).size_le
    rw [hsize] at hle
    exact hle
  have himports : s.importsOf 0 =
      (tasksOf 0 file nodes).filterMap (Task.target? tree options.extension s) := by
    have hfilter : (tasksOf 0 file nodes).filter (·.owner = 0) = tasksOf 0 file nodes :=
      List.filter_eq_self.2 fun task htask => by simp [owner_of_mem_tasksOf htask]
    have hfirst : (Loading.first options file).importsOf 0 = [] := by
      rw [Loading.first, Loading.importsOf_addModule]
      rfl
    rw [importsOf_of_runTasks h howned (by omega), hfilter, hfirst, List.nil_append]
  have hvisited (id : Nat) : id ∈ [0] ↔ id < (Loading.first options file).size := by
    simp [hsize]
  have hvisit := visit_targets h howned hvisited
  rw [hsize] at hvisit
  unfold Library.reachable
  rw [Library.visit_new List.not_mem_nil hlt, Loading.imports_getElem hlt, himports,
    List.append_nil, hvisit, ← Library.numbered_drop hlt, List.drop_zero]

end

/-- The entry module of a package has the file that the entry leads to. -/
theorem root?_of_load {tree : Tree} {entry : Path} {options : Options} {p : Package}
    (h : load tree entry options = .ok p) :
    ∃ file, tree.resolve entry = .ok file ∧ p.root?.map Module.file = some file := by
  obtain ⟨s, hs, rfl⟩ := load_eq_ok_iff.1 h
  obtain ⟨file, text, nodes, hfile, -, -, hrun⟩ := loadModules_eq_ok_iff.1 hs
  refine ⟨file, hfile, ?_⟩
  have hhead := head?_files_of_runTasks hrun
  rwa [Loading.files, List.head?_map, List.head?_eq_getElem?, Array.getElem?_toList] at hhead

/-- The modules of a loaded package, and what the index makes of them. -/
structure Loading.InOrder (s : Loading) : Prop where
  /-- No two modules have one file. -/
  nodup_files : s.files.Nodup
  /-- All modules are reached from the entry module. -/
  reached : ∀ id < s.library.modules.size, Relation.ReflTransGen s.library.Imports 0 id
  /-- The index visits each module once, in the order they were loaded. -/
  visited : s.library.reachable 0 = s.library.numbered
  /-- The first definition of a variable counts. -/
  vars : (Index.build s.library 0).vars = s.library.allVars.eraseDupsBy (·.name == ·.name)
  /-- The mixins of the modules are all mixins, each once. -/
  mixins : s.library.allMixins.Perm (s.library.mixins.toList.zipIdx.map Prod.swap)
  /-- Mixins are listed in the order in which their names first appear, -/
  mixinNames : (Index.build s.library 0).mixins.names =
    (s.library.allMixins.map (·.2.name)).eraseDups
  /-- and the last mixin of a name counts. -/
  lastMixin : ∀ name, (Index.build s.library 0).mixins.get? name =
    (s.library.allMixins.filter (·.2.name = name)).getLast?.map Prod.fst
  /-- The first module of a name counts. -/
  firstModule : ∀ name, (Index.build s.library 0).modules.get? name =
    s.library.modules.findIdx? (·.name == name)

/-- The modules that a run of tasks has loaded are in order. -/
theorem inOrder_of_runTasks {tree : Tree} {options : Options} {file : Place}
    {nodes : List Sheet.Node} {s : Loading}
    (h : runTasks tree options.extension (.first options file) (tasksOf 0 file nodes) = .ok s) :
    s.InOrder := by
  have hnumbered := reachable_eq_numbered h
  constructor
  case nodup_files =>
    refine loaded_invariant (motive := fun s => s.files.Nodup) ?_ ?_ h
    · simp [Loading.first, Loading.files, Loading.addModule, Library.empty]
    · exact fun s task s₁ more hstep _ hs => hstep.nodup_files hs
  case reached =>
    intro id hid
    have hmem : (id, s.library.modules[id]) ∈ s.library.reachable 0 := by
      rw [hnumbered]
      exact Library.mem_numbered hid
    obtain ⟨root, hroot, hpath⟩ := Library.exists_reachable_of_mem_visit hmem
    rwa [List.mem_singleton.1 hroot] at hpath
  case visited => exact hnumbered
  case vars => exact Index.vars_build hnumbered
  case mixins =>
    refine Loading.MixinsOnce.perm_allMixins (loaded_invariant ?_ ?_ h)
    · rw [Loading.MixinsOnce, Loading.first, Loading.mixinNumbers_addModule]
      exact List.Perm.refl _
    · exact fun s task s₁ more hstep howner hs => hstep.mixinsOnce howner hs
  case mixinNames => exact Index.names_mixins_build hnumbered
  case lastMixin => exact Index.get?_mixins_build hnumbered
  case firstModule => exact Index.get?_modules_build hnumbered

/-- Every load ends: no sequence of tasks goes on forever, a load that succeeds is what the
tasks of the entry stylesheet lead to, and a load that fails behind its entry does so at a task
that they lead to. The modules of a load that succeeds are in order. -/
theorem loadModules_inOrder (tree : Tree) (entry : Path) (options : Options) :
    (WellFounded fun c' c => Next tree options.extension c c') ∧
    (∀ s, loadModules tree entry options = .ok s ↔ ∃ file text nodes,
      tree.resolve entry = .ok file ∧ tree.read file = .ok text ∧ Sheet.parse text = .ok nodes ∧
      Relation.ReflTransGen (Next tree options.extension)
        (.first options file, tasksOf 0 file nodes) (s, [])) ∧
    (∀ file text nodes fault, tree.resolve entry = .ok file → tree.read file = .ok text →
      Sheet.parse text = .ok nodes → loadModules tree entry options = .error fault →
      ∃ s task rest target reason, Relation.ReflTransGen (Next tree options.extension)
        (.first options file, tasksOf 0 file nodes) (s, task :: rest) ∧
        Task.Fails tree options.extension s task target reason ∧
        fault = .parse target.path reason) ∧
    ∀ s, loadModules tree entry options = .ok s → s.InOrder := by
  refine ⟨wellFounded_next tree options.extension, ?_, ?_, ?_⟩
  · intro s
    simp only [loadModules_eq_ok_iff, runTasks_eq_ok_iff]
  · intro file text nodes fault hfile htext hnodes h
    rw [loadModules_eq_runTasks hfile htext hnodes] at h
    exact exists_fails_of_runTasks h
  · intro s h
    obtain ⟨file, text, nodes, -, -, -, hrun⟩ := loadModules_eq_ok_iff.1 h
    exact inOrder_of_runTasks hrun

/-- Two files that import each other. -/
def cyclicTree : Tree :=
  ⟨[(["a.scss".toList], .file (.text "@import 'b';".toList)),
    (["_b.scss".toList], .file (.text "$x: 1; @import 'a';".toList))]⟩

/-- Files that import each other are loaded once and visited in the order of loading. -/
theorem loadModules_inOrder_cyclicTree :
    ∃ s, loadModules cyclicTree "/a.scss".toList ⟨"scss".toList, none⟩ = .ok s ∧
      s.importsOf 0 = [1] ∧ s.importsOf 1 = [0] ∧
      s.library.reachable 0 = s.library.numbered := by
  have hfirst : Sheet.parse "@import 'b';".toList =
      .ok [.statement "import".toList "'b'".toList ⟨0, 12, 1, 1⟩] := by rfl
  have hsecond : Sheet.parse "$x: 1; @import 'a';".toList =
      .ok [.declaration "$x".toList "1".toList ⟨0, 6, 1, 1⟩,
        .statement "import".toList "'a'".toList ⟨7, 19, 1, 8⟩] := by rfl
  obtain ⟨s, hrun, himports⟩ : ∃ s, Relation.ReflTransGen (Next cyclicTree "scss".toList)
      (.first ⟨"scss".toList, none⟩ ["a.scss".toList],
        [⟨0, ["a.scss".toList], .follow "b".toList⟩]) (s, []) ∧
      s.importsOf 0 = [1] ∧ s.importsOf 1 = [0] := by
    exact ⟨_, .head ⟨.fresh "b".toList ["_b.scss".toList] _ _ rfl rfl (by decide +kernel) rfl
      hsecond⟩ (.head ⟨.addVariable _ rfl⟩ (.head ⟨.known "a".toList ["a.scss".toList] 0 rfl rfl
        (by decide +kernel)⟩ .refl)), by decide +kernel, by decide +kernel⟩
  obtain ⟨-, hiff, -, hloaded⟩ :=
    loadModules_inOrder cyclicTree "/a.scss".toList ⟨"scss".toList, none⟩
  have hload := (hiff s).2 ⟨_, _, _, rfl, rfl, hfirst, hrun⟩
  exact ⟨s, hload, himports.1, himports.2, (hloaded s hload).visited⟩

end ClassHints.Package
