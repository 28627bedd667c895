import ClassHints.Model.Include
import ClassHints.Model.TopLevel
import ClassHints.Package.Basic
import ClassHints.Package.Import
import ClassHints.Sheet.Reader

/-!
# Loading a package

Loading starts with the entry stylesheet and follows imports. What remains to be done is kept
as a list of tasks, so that the items of an imported file come right after its import. Every
file is read once: a module is numbered before its items are looked at, and files that import
each other find it there. An import that cannot be followed is passed over with a warning; a
file that cannot be parsed ends the load.
-/

namespace ClassHints.Package

open Text
open Files (Path Place Tree)
open Model (Library Module Warning Item Index)

/-- How a package is loaded. -/
structure Options where
  /-- Extension of stylesheets, without the dot. -/
  extension : Text
  /-- Name of the entry module, instead of the one its file name gives. -/
  rootName : Option Text

/-- Something that remains to be done for a module. -/
inductive Work where
  | variable (v : Model.Variable)
  | follow (path : Text)
  | mixin (params : Text) (body : List Sheet.Node) (description : Option Text)

/-- Work for the module with a number, whose file is at a place. -/
structure Task where
  owner : Nat
  file : Place
  work : Work

/-- What an item of a stylesheet asks for. -/
def Work.ofItem : Item → List Work
  | .variable v => [.variable v]
  | .imports paths => paths.map .follow
  | .mixin params body description => [.mixin params body description]

/-- The tasks that the nodes of a module ask for. -/
def tasksOf (owner : Nat) (file : Place) (nodes : List Sheet.Node) : List Task :=
  (Model.classify nodes).flatMap fun item => (Work.ofItem item).map (⟨owner, file, ·⟩)

/-- A package while it is loaded. -/
structure Loading where
  library : Library
  warnings : List Warning

namespace Loading

/-- The files of the modules loaded so far. -/
def files (s : Loading) : List Place := s.library.modules.toList.map Module.file

/-- The module of a file, if it is loaded already. -/
def moduleAt? (s : Loading) (file : Place) : Option Nat :=
  s.library.modules.findIdx? (·.file == file)

/-- Note a problem that is passed over. -/
def warn (s : Loading) (w : Warning) : Loading := { s with warnings := s.warnings ++ [w] }

/-- Add a module without content. -/
def addModule (s : Loading) (name : Text) (file : Place) : Loading :=
  { s with library.modules := s.library.modules.push ⟨name, file, [], [], []⟩ }

/-- Add a variable to a module. -/
def addVariable (s : Loading) (owner : Nat) (v : Model.Variable) : Loading :=
  { s with library.modules := s.library.modules.modify owner fun m =>
      { m with vars := m.vars ++ [v] } }

/-- Add an import to a module. -/
def addImport (s : Loading) (owner target : Nat) : Loading :=
  { s with library.modules := s.library.modules.modify owner fun m =>
      { m with imports := m.imports ++ [target] } }

/-- Add a mixin, with the trees of its body, to a module. -/
def addMixin (s : Loading) (owner : Nat) (params : Text) (body : List Sheet.Node)
    (description : Option Text) : Loading :=
  let (mixin, trees) := Model.readMixin params body description s.library.trees
  let id := s.library.mixins.size
  { s with library :=
      { modules := s.library.modules.modify owner fun m => { m with mixins := m.mixins ++ [id] }
        mixins := s.library.mixins.push mixin
        trees := trees } }

/-- A change to one module that leaves its file alone leaves all files alone. -/
theorem map_file_modify (modules : Array Module) (id : Nat) (f : Module → Module)
    (hf : ∀ m, (f m).file = m.file) :
    (modules.modify id f).toList.map Module.file = modules.toList.map Module.file := by
  apply List.ext_getElem?
  intro i
  simp only [List.getElem?_map, Array.getElem?_toList, Array.getElem?_modify]
  by_cases h : id = i
  · simp only [h, if_true, Option.map_map]
    congr 1
    funext m
    exact hf m
  · simp [h]

/-- A warning adds no file. -/
@[simp]
theorem files_warn (s : Loading) (w : Warning) : (s.warn w).files = s.files := rfl

/-- A new module adds its file behind all others. -/
@[simp]
theorem files_addModule (s : Loading) (name : Text) (file : Place) :
    (s.addModule name file).files = s.files ++ [file] := by
  simp [files, addModule]

/-- A variable adds no file. -/
@[simp]
theorem files_addVariable (s : Loading) (owner : Nat) (v : Model.Variable) :
    (s.addVariable owner v).files = s.files :=
  map_file_modify _ _ _ fun _ => rfl

/-- An import that is noted adds no file: its target is there already. -/
@[simp]
theorem files_addImport (s : Loading) (owner target : Nat) :
    (s.addImport owner target).files = s.files :=
  map_file_modify _ _ _ fun _ => rfl

/-- A mixin adds no file. -/
@[simp]
theorem files_addMixin (s : Loading) (owner : Nat) (params : Text) (body : List Sheet.Node)
    (description : Option Text) : (s.addMixin owner params body description).files = s.files :=
  map_file_modify _ _ _ fun _ => rfl

/-- A file without a module is none of the files loaded so far. -/
theorem not_mem_files_of_moduleAt? {s : Loading} {file : Place} (h : s.moduleAt? file = none) :
    file ∉ s.files := by
  intro hmem
  obtain ⟨m, hm, rfl⟩ := List.mem_map.1 hmem
  have hnone := Array.findIdx?_eq_none_iff.1 h m (by simpa using hm)
  simp at hnone

/-- Places of a tree whose files are not loaded yet. -/
def unread (tree : Tree) (s : Loading) : List Place :=
  (tree.entries.map Prod.fst).filter (· ∉ s.files)

/-- Which files of the tree are not read yet depends on the files read so far only. -/
theorem unread_congr {tree : Tree} {s s' : Loading} (h : s'.files = s.files) :
    s'.unread tree = s.unread tree := by
  simp only [unread, h]

/-- Loading a file leaves fewer to load. -/
theorem length_unread_addModule {tree : Tree} {s : Loading} {name text : Text} {file : Place}
    (hnew : file ∉ s.files) (hread : tree.read file = .ok text) :
    ((s.addModule name file).unread tree).length < (s.unread tree).length := by
  have hfilter : (s.addModule name file).unread tree = (s.unread tree).filter (· ≠ file) := by
    unfold unread
    rw [List.filter_filter]
    congr 1
    funext x
    simp [Bool.and_comm]
  rw [hfilter]
  apply List.length_filter_lt_length_iff_exists.2
  exact ⟨file, List.mem_filter.2 ⟨Tree.mem_of_read_eq_ok hread, by simpa using hnew⟩, by simp⟩

end Loading

/-- Do tasks one after the other; the tasks of a file that is met come before the others. -/
def runTasks (tree : Tree) (extension : Text) (s : Loading) :
    List Task → Except Fault Loading
  | [] => .ok s
  | ⟨owner, file, work⟩ :: tasks =>
    match work with
    | .variable v => runTasks tree extension (s.addVariable owner v) tasks
    | .mixin params body description =>
      runTasks tree extension (s.addMixin owner params body description) tasks
    | .follow path =>
      match importPlace? tree path (Place.path file.dropLast) extension with
      | none => runTasks tree extension (s.warn (.importNotResolved path file)) tasks
      | some target =>
        match _hmodule : s.moduleAt? target with
        | some id => runTasks tree extension (s.addImport owner id) tasks
        | none =>
          match _hread : tree.read target with
          | .error reason => runTasks tree extension (s.warn (.unreadableImport target reason)) tasks
          | .ok text =>
            match Sheet.parse text with
            | .error fault => .error (.parse target.path fault)
            | .ok nodes =>
              let id := s.library.modules.size
              runTasks tree extension ((s.addModule path target).addImport owner id)
                (tasksOf id target nodes ++ tasks)
termination_by tasks => ((s.unread tree).length, tasks.length)
decreasing_by
  · rw [Loading.unread_congr (Loading.files_addVariable ..)]
    exact Prod.Lex.right _ (by simp)
  · rw [Loading.unread_congr (Loading.files_addMixin ..)]
    exact Prod.Lex.right _ (by simp)
  · rw [Loading.unread_congr (Loading.files_warn ..)]
    exact Prod.Lex.right _ (by simp)
  · rw [Loading.unread_congr (Loading.files_addImport ..)]
    exact Prod.Lex.right _ (by simp)
  · rw [Loading.unread_congr (Loading.files_warn ..)]
    exact Prod.Lex.right _ (by simp)
  · rw [Loading.unread_congr (Loading.files_addImport ..)]
    exact Prod.Lex.left _ _ (Loading.length_unread_addModule
      (Loading.not_mem_files_of_moduleAt? _hmodule) _hread)

/-- The name of an entry module: its file name without extension and partial underscore. -/
def moduleName (file : Place) : Text :=
  let stem := Path.stem (file.getLast?.getD [])
  (after? ['_'] stem).getD stem

/-- Load the modules of a package; the entry module has number zero. -/
def loadModules (tree : Tree) (entry : Path) (options : Options) : Except Fault Loading := do
  let file ← (tree.resolve entry).mapError (.io entry)
  let text ← (tree.read file).mapError (.io file.path)
  let nodes ← (Sheet.parse text).mapError (.parse file.path)
  let name := options.rootName.getD (moduleName file)
  runTasks tree options.extension (Loading.addModule ⟨.empty, []⟩ name file)
    (tasksOf 0 file nodes)

/-- Load the package with a given entry stylesheet. -/
def load (tree : Tree) (entry : Path) (options : Options) : Except Fault Package := do
  let loading ← loadModules tree entry options
  let index := Index.build loading.library 0
  let (library, warnings) := loading.library.resolveIncludes index
  return ⟨library.link index, index, loading.warnings ++ warnings⟩

end ClassHints.Package
