import ClassHints.Proofs.Package.LoadedModules

/-!
# What imports come to

An import leads to a file that can be read, or there is a warning about it. While files are
loaded, the imports done so far and those that remain make up the imports of all files that are
loaded.
-/

namespace ClassHints.Package

open Files (Path Place Tree)
open Model (Library Module Warning Item)

/-- The paths of the imports at the top level of a stylesheet, in order. -/
def importsIn (nodes : List Sheet.Node) : List Text :=
  nodes.flatMap fun
    | .statement name params _ | .block name params _ _ =>
      if name = "import".toList then Model.importPaths params else []
    | .declaration .. | .rule .. | .comment _ => []

/-- The nodes of the stylesheet at a place, if it can be read and parsed. -/
def sheetAt? (tree : Tree) (file : Place) : Option (List Sheet.Node) :=
  (tree.read file).toOption.bind fun text => (Sheet.parse text).toOption

/-- What an import in a file comes to: the place of a file that can be read, or a warning. -/
def importOutcome (tree : Tree) (extension : Text) (file : Place) (path : Text) :
    Place ⊕ Warning :=
  match importPlace? tree path (Place.path file.dropLast) extension with
  | none => .inr (.importNotResolved path file)
  | some target =>
    match tree.read target with
    | .ok _ => .inl target
    | .error reason => .inr (.unreadableImport target reason)

/-- What the imports of the stylesheet at a place come to, in order. -/
def outcomesAt (tree : Tree) (extension : Text) (file : Place) : List (Place ⊕ Warning) :=
  ((sheetAt? tree file).elim [] importsIn).map (importOutcome tree extension file)

/-- The files that the imports of a stylesheet lead to. -/
def targetsAt (tree : Tree) (extension : Text) (file : Place) : List Place :=
  (outcomesAt tree extension file).filterMap Sum.getLeft?

/-- The warnings about the imports of a stylesheet. -/
def warningsAt (tree : Tree) (extension : Text) (file : Place) : List Warning :=
  (outcomesAt tree extension file).filterMap Sum.getRight?

/-- The files that are reached from a file through imports that lead to files which can be
read. -/
inductive Reached (tree : Tree) (extension : Text) (root : Place) : Place → Prop where
  | root : Reached tree extension root root
  | follow {file target : Place} (reached : Reached tree extension root file)
    (target_mem : target ∈ targetsAt tree extension file) : Reached tree extension root target

/-- A file that can be read and parsed has the stylesheet that was parsed. -/
theorem sheetAt?_eq_some {tree : Tree} {file : Place} {text : Text} {nodes : List Sheet.Node}
    (hread : tree.read file = .ok text) (hparsed : Sheet.parse text = .ok nodes) :
    sheetAt? tree file = some nodes := by
  simp [sheetAt?, hread, hparsed, Except.toOption]

/-- A file that has a stylesheet can be read and parsed. -/
theorem exists_read_of_sheetAt? {tree : Tree} {file : Place} {nodes : List Sheet.Node}
    (h : sheetAt? tree file = some nodes) :
    ∃ text, tree.read file = .ok text ∧ Sheet.parse text = .ok nodes := by
  cases hread : tree.read file with
  | error reason => simp [sheetAt?, hread, Except.toOption] at h
  | ok text =>
    cases hparsed : Sheet.parse text with
    | error fault => simp [sheetAt?, hread, hparsed, Except.toOption] at h
    | ok nodes' =>
      obtain rfl : nodes' = nodes := by simpa [sheetAt?, hread, hparsed, Except.toOption] using h
      exact ⟨text, rfl, hparsed⟩

/-! ## Tasks -/

/-- The path that a task follows. -/
def Task.path? (task : Task) : Option Text :=
  match task.work with
  | .follow path => some path
  | .variable _ | .mixin .. => none

/-- What a task that follows an import comes to. -/
def Task.outcome? (tree : Tree) (extension : Text) (task : Task) : Option (Place ⊕ Warning) :=
  task.path?.map (importOutcome tree extension task.file)

/-- The tasks of a stylesheet follow its imports in order. -/
theorem filterMap_path?_tasksOf (owner : Nat) (file : Place) (nodes : List Sheet.Node) :
    (tasksOf owner file nodes).filterMap Task.path? = importsIn nodes := by
  have hitem (item : Item) :
      ((Work.ofItem item).map (Task.mk owner file)).filterMap Task.path? =
        match item with
        | .imports paths => paths
        | _ => [] := by
    cases item with
    | «variable» v => rfl
    | mixin params body description => rfl
    | imports paths =>
      rw [Work.ofItem, List.map_map, List.filterMap_map]
      exact List.filterMap_some
  have hrule (name params : Text) (body : List Sheet.Node) (pending : Option Text) :
      ((Item.ofAtRule? name params body pending).toList.flatMap fun item =>
        ((Work.ofItem item).map (Task.mk owner file)).filterMap Task.path?) =
        if name = "import".toList then Model.importPaths params else [] := by
    unfold Item.ofAtRule?
    split
    · rw [Option.toList_some, List.flatMap_singleton, hitem]
    · split
      · rw [Option.toList_some, List.flatMap_singleton, hitem]
      · rfl
  -- the comment before a node decides nothing about imports
  have hall (pending : Option Text) : ((Model.itemsFrom pending nodes).flatMap fun item =>
      ((Work.ofItem item).map (Task.mk owner file)).filterMap Task.path?) = importsIn nodes := by
    induction nodes generalizing pending with
    | nil => rfl
    | cons node nodes ih =>
      unfold importsIn at ih ⊢
      rw [List.flatMap_cons]
      cases node with
      | comment c => exact ih _
      | statement name params span =>
        rw [Model.itemsFrom, List.flatMap_append, ih none, Item.ofNode?, hrule]
        nofun
      | block name params body span =>
        rw [Model.itemsFrom, List.flatMap_append, ih none, Item.ofNode?, hrule]
        nofun
      | rule selector body span =>
        rw [Model.itemsFrom, List.flatMap_append, ih none, Item.ofNode?]
        · rfl
        · nofun
      | declaration property value span =>
        rw [Model.itemsFrom, List.flatMap_append, ih none, Item.ofNode?]
        · split
          · rw [Option.toList_some, List.flatMap_singleton, hitem]
          · rfl
        · nofun
  rw [tasksOf, List.filterMap_flatMap]
  exact hall none

/-- What the import tasks of a stylesheet come to is what its imports come to. -/
theorem filterMap_outcome?_tasksOf {tree : Tree} {extension : Text} {file : Place}
    {nodes : List Sheet.Node} (h : sheetAt? tree file = some nodes) (owner : Nat) :
    (tasksOf owner file nodes).filterMap (Task.outcome? tree extension) =
      outcomesAt tree extension file := by
  have htasks : (tasksOf owner file nodes).filterMap (Task.outcome? tree extension) =
      (tasksOf owner file nodes).filterMap fun task =>
        task.path?.map (importOutcome tree extension file) := by
    refine List.filterMap_congr fun task htask => ?_
    rw [Task.outcome?, file_of_mem_tasksOf htask]
  rw [htasks, ← List.map_filterMap, filterMap_path?_tasksOf, outcomesAt, h]
  rfl

namespace Task

variable {tree : Tree} {extension : Text} {task : Task} {path : Text} {target : Place}

/-- An import that leads to no file comes to a warning that says so. -/
theorem outcome?_of_unresolved (hwork : task.work = .follow path)
    (hplace : task.place? tree extension = none) :
    task.outcome? tree extension = some (.inr (.importNotResolved path task.file)) := by
  simp only [place?, hwork] at hplace
  simp [outcome?, path?, hwork, importOutcome, hplace]

/-- An import that leads to a file which cannot be read comes to a warning with the reason. -/
theorem outcome?_of_unreadable {reason : Files.Failure} (hwork : task.work = .follow path)
    (hplace : task.place? tree extension = some target)
    (hfailed : tree.read target = .error reason) :
    task.outcome? tree extension = some (.inr (.unreadableImport target reason)) := by
  simp only [place?, hwork] at hplace
  simp [outcome?, path?, hwork, importOutcome, hplace, hfailed]

/-- An import that leads to a file which can be read comes to that file. -/
theorem outcome?_of_read {text : Text} (hwork : task.work = .follow path)
    (hplace : task.place? tree extension = some target) (hread : tree.read target = .ok text) :
    task.outcome? tree extension = some (.inl target) := by
  simp only [place?, hwork] at hplace
  simp [outcome?, path?, hwork, importOutcome, hplace, hread]

/-- What a task does, by what it comes to: a task that follows no import changes neither imports
nor warnings; a warning is noted and nothing else changes; a file that is loaded is imported; a
file that is new is loaded, imported, and brings its tasks. -/
theorem Step.outcome_cases {s s₁ : Loading} {more : List Task}
    (h : task.Step tree extension s s₁ more)
    (hsheets : ∀ file ∈ s.files, ∃ nodes, sheetAt? tree file = some nodes) :
    (more = [] ∧ task.outcome? tree extension = none ∧ s₁.files = s.files ∧
        s₁.warnings = s.warnings ∧ ∀ id, s₁.importsOf id = s.importsOf id) ∨
      (∃ w, more = [] ∧ task.outcome? tree extension = some (.inr w) ∧ s₁ = s.warn w) ∨
      (∃ id target, more = [] ∧ task.outcome? tree extension = some (.inl target) ∧
        s.files[id]? = some target ∧ s₁ = s.addImport task.owner id) ∨
      ∃ path target nodes, more = tasksOf s.size target nodes ∧
        task.outcome? tree extension = some (.inl target) ∧
        sheetAt? tree target = some nodes ∧
        s₁ = (s.addModule path target).addImport task.owner s.size := by
  cases h with
  | addVariable v hwork =>
    exact Or.inl ⟨rfl, by simp [outcome?, path?, hwork], by simp, rfl, by simp⟩
  | addMixin params body description hwork =>
    exact Or.inl ⟨rfl, by simp [outcome?, path?, hwork], by simp, rfl, by simp⟩
  | unresolved path hwork hplace =>
    exact Or.inr (Or.inl ⟨_, rfl, outcome?_of_unresolved hwork hplace, rfl⟩)
  | known path target id hwork hplace hfound =>
    have hfile := Loading.getElem?_files_of_moduleAt? hfound
    obtain ⟨nodes, hnodes⟩ := hsheets target (List.mem_of_getElem? hfile)
    obtain ⟨text, hread, -⟩ := exists_read_of_sheetAt? hnodes
    exact Or.inr (Or.inr (Or.inl ⟨id, target, rfl, outcome?_of_read hwork hplace hread, hfile,
      rfl⟩))
  | unreadable path target reason hwork hplace hnew hfailed =>
    exact Or.inr (Or.inl ⟨_, rfl, outcome?_of_unreadable hwork hplace hfailed, rfl⟩)
  | fresh path target text nodes hwork hplace hnew hread hparsed =>
    exact Or.inr (Or.inr (Or.inr ⟨path, target, nodes, rfl,
      outcome?_of_read hwork hplace hread, sheetAt?_eq_some hread hparsed, rfl⟩))

end Task

/-! ## Imports done and imports that remain -/

namespace Loading

/-- The files of the modules that a module imports so far. -/
def importedFiles (s : Loading) (id : Nat) : List (Option Place) :=
  (s.importsOf id).map (s.files[·]?)

/-- The files that the tasks of a module lead to. -/
def remainingTargets (tree : Tree) (extension : Text) (tasks : List Task) (id : Nat) :
    List Place :=
  ((tasks.filter (·.owner = id)).filterMap (Task.outcome? tree extension)).filterMap Sum.getLeft?

/-- The warnings that the tasks bring. -/
def remainingWarnings (tree : Tree) (extension : Text) (tasks : List Task) : List Warning :=
  (tasks.filterMap (Task.outcome? tree extension)).filterMap Sum.getRight?

/-- All imports of the files loaded so far are accounted for: done already, or a task that
remains. -/
structure Accounted (tree : Tree) (extension : Text) (root : Place) (s : Loading)
    (tasks : List Task) : Prop where
  /-- Every file is reached from the root, -/
  reached : ∀ file ∈ s.files, Reached tree extension root file
  /-- and is a stylesheet. -/
  sheets : ∀ file ∈ s.files, ∃ nodes, sheetAt? tree file = some nodes
  /-- A task belongs to the module of its file. -/
  owners : ∀ task ∈ tasks, s.files[task.owner]? = some task.file
  imports : ∀ id file, s.files[id]? = some file →
    s.importedFiles id ++ (remainingTargets tree extension tasks id).map some =
      (targetsAt tree extension file).map some
  warnings : (s.warnings ++ remainingWarnings tree extension tasks).Perm
    (s.files.flatMap (warningsAt tree extension))

/-- A module that is added imports nothing, and what others import stays where it is. -/
theorem importedFiles_addModule {s : Loading} {id : Nat} (h : ∀ k ∈ s.importsOf id, k < s.size)
    (name : Text) (file : Place) : (s.addModule name file).importedFiles id = s.importedFiles id := by
  unfold importedFiles
  rw [importsOf_addModule, files_addModule]
  refine List.map_congr_left fun k hk => ?_
  rw [List.getElem?_append_left (by rw [length_files]; exact h k hk)]

/-- An import that is noted adds its target to the files of its module, and to no other. -/
theorem importedFiles_addImport {s : Loading} {owner : Nat} (howner : owner < s.size)
    (target id : Nat) : (s.addImport owner target).importedFiles id =
      s.importedFiles id ++ if owner = id then [s.files[target]?] else [] := by
  unfold importedFiles
  rw [importsOf_addImport howner, files_addImport, List.map_append]
  split <;> rfl

/-- The targets of some tasks and then of others are those of both, in this order. -/
theorem remainingTargets_append (tree : Tree) (extension : Text) (tasks more : List Task)
    (id : Nat) : remainingTargets tree extension (tasks ++ more) id =
      remainingTargets tree extension tasks id ++ remainingTargets tree extension more id := by
  simp [remainingTargets]

/-- The warnings of some tasks and then of others are those of both, in this order. -/
theorem remainingWarnings_append (tree : Tree) (extension : Text) (tasks more : List Task) :
    remainingWarnings tree extension (tasks ++ more) =
      remainingWarnings tree extension tasks ++ remainingWarnings tree extension more := by
  simp [remainingWarnings]

/-- The target of the first task comes before those of the other tasks. -/
theorem remainingTargets_cons (tree : Tree) (extension : Text) (task : Task) (tasks : List Task)
    (id : Nat) : remainingTargets tree extension (task :: tasks) id =
      remainingTargets tree extension [task] id ++ remainingTargets tree extension tasks id :=
  remainingTargets_append tree extension [task] tasks id

/-- The warning of the first task comes before those of the other tasks. -/
theorem remainingWarnings_cons (tree : Tree) (extension : Text) (task : Task)
    (tasks : List Task) : remainingWarnings tree extension (task :: tasks) =
      remainingWarnings tree extension [task] ++ remainingWarnings tree extension tasks :=
  remainingWarnings_append tree extension [task] tasks

/-- Tasks of other modules lead a module nowhere. -/
theorem remainingTargets_eq_nil {tree : Tree} {extension : Text} {tasks : List Task} {id : Nat}
    (h : ∀ task ∈ tasks, task.owner ≠ id) : remainingTargets tree extension tasks id = [] := by
  have hnone : tasks.filter (·.owner = id) = [] :=
    List.filter_eq_nil_iff.2 fun task htask => by simpa using h task htask
  rw [remainingTargets, hnone]
  rfl

/-- The tasks of a stylesheet lead to all of its targets. -/
theorem remainingTargets_tasksOf {tree : Tree} {extension : Text} {file : Place}
    {nodes : List Sheet.Node} (h : sheetAt? tree file = some nodes) (owner : Nat) :
    remainingTargets tree extension (tasksOf owner file nodes) owner =
      targetsAt tree extension file := by
  have hall : (tasksOf owner file nodes).filter (·.owner = owner) = tasksOf owner file nodes :=
    List.filter_eq_self.2 fun task htask => by simp [owner_of_mem_tasksOf htask]
  rw [remainingTargets, hall, filterMap_outcome?_tasksOf h, targetsAt]

/-- The tasks of a stylesheet bring the warnings about its imports. -/
theorem remainingWarnings_tasksOf {tree : Tree} {extension : Text} {file : Place}
    {nodes : List Sheet.Node} (h : sheetAt? tree file = some nodes) (owner : Nat) :
    remainingWarnings tree extension (tasksOf owner file nodes) = warningsAt tree extension file := by
  rw [remainingWarnings, filterMap_outcome?_tasksOf h, warningsAt]

namespace Accounted

variable {tree : Tree} {extension : Text} {root : Place} {s s₁ : Loading} {task : Task}
  {tasks : List Task}

/-- The module of a task is loaded. -/
theorem owner_lt (h : s.Accounted tree extension root tasks) (htask : task ∈ tasks) :
    task.owner < s.size := by
  rw [← length_files]
  exact (List.getElem?_eq_some_iff.1 (h.owners task htask)).1

/-- When no task remains, a module imports all that its file does. -/
theorem importedFiles_eq (h : s.Accounted tree extension root []) {id : Nat} {file : Place}
    (hfile : s.files[id]? = some file) :
    s.importedFiles id = (targetsAt tree extension file).map some := by
  rw [← h.imports id file hfile, remainingTargets_eq_nil (by simp), List.map_nil, List.append_nil]

/-- Only modules that are loaded are imported. -/
theorem lt_of_mem_importsOf (h : s.Accounted tree extension root tasks) (id : Nat) :
    ∀ k ∈ s.importsOf id, k < s.size := by
  intro k hk
  by_cases hid : id < s.size
  · obtain ⟨file, hfile⟩ : ∃ file, s.files[id]? = some file :=
      ⟨_, List.getElem?_eq_getElem (by rwa [length_files])⟩
    have hmem : s.files[k]? ∈ (targetsAt tree extension file).map some := by
      rw [← h.imports id file hfile]
      exact List.mem_append_left _ (List.mem_map_of_mem hk)
    obtain ⟨target, -, htarget⟩ := List.mem_map.1 hmem
    rw [← length_files]
    exact (List.getElem?_eq_some_iff.1 htarget.symm).1
  · rw [importsOf_eq_nil (Nat.le_of_not_lt hid)] at hk
    cases hk

/-- The first task leads to a target of its file. -/
theorem target_mem (h : s.Accounted tree extension root (task :: tasks)) {target : Place}
    (hout : task.outcome? tree extension = some (.inl target)) :
    target ∈ targetsAt tree extension task.file := by
  have hmem : some target ∈ (targetsAt tree extension task.file).map some := by
    rw [← h.imports task.owner task.file (h.owners task List.mem_cons_self)]
    refine List.mem_append_right _ (List.mem_map_of_mem ?_)
    simp [remainingTargets, hout]
  simpa using hmem

/-- A task that follows no import. -/
theorem skip (h : s.Accounted tree extension root (task :: tasks))
    (hout : task.outcome? tree extension = none) (hfiles : s₁.files = s.files)
    (hwarnings : s₁.warnings = s.warnings) (himports : ∀ id, s₁.importsOf id = s.importsOf id) :
    s₁.Accounted tree extension root tasks where
  reached := hfiles ▸ h.reached
  sheets := hfiles ▸ h.sheets
  owners other hother := by
    rw [hfiles]
    exact h.owners other (List.mem_cons_of_mem task hother)
  imports id file hfile := by
    rw [hfiles] at hfile
    have hbefore := h.imports id file hfile
    rw [remainingTargets_cons] at hbefore
    have hnone : remainingTargets tree extension [task] id = [] := by
      by_cases howner : task.owner = id <;> simp [remainingTargets, howner, hout]
    rw [hnone, List.nil_append] at hbefore
    rwa [importedFiles, hfiles, himports]
  warnings := by
    have hbefore := h.warnings
    simp only [remainingWarnings, List.filterMap_cons_none hout] at hbefore
    rwa [hfiles, hwarnings]

/-- A task that brings a warning. -/
theorem warn (h : s.Accounted tree extension root (task :: tasks)) {w : Warning}
    (hout : task.outcome? tree extension = some (.inr w)) :
    (s.warn w).Accounted tree extension root tasks where
  reached := h.reached
  sheets := h.sheets
  owners other hother := h.owners other (List.mem_cons_of_mem task hother)
  imports id file hfile := by
    have hbefore := h.imports id file hfile
    rw [remainingTargets_cons] at hbefore
    have hnone : remainingTargets tree extension [task] id = [] := by
      by_cases howner : task.owner = id <;> simp [remainingTargets, howner, hout]
    rwa [hnone, List.nil_append] at hbefore
  warnings := by
    have hbefore := h.warnings
    simp only [remainingWarnings, List.filterMap_cons_some hout] at hbefore
    rw [Loading.warn, List.append_assoc]
    exact hbefore

/-- A task that leads to a file which is loaded. -/
theorem addImport (h : s.Accounted tree extension root (task :: tasks)) {target : Place}
    {id : Nat} (hout : task.outcome? tree extension = some (.inl target))
    (hid : s.files[id]? = some target) :
    (s.addImport task.owner id).Accounted tree extension root tasks where
  reached := by
    rw [files_addImport]
    exact h.reached
  sheets := by
    rw [files_addImport]
    exact h.sheets
  owners other hother := by
    rw [files_addImport]
    exact h.owners other (List.mem_cons_of_mem task hother)
  imports owner file hfile := by
    rw [files_addImport] at hfile
    have hbefore := h.imports owner file hfile
    rw [remainingTargets_cons] at hbefore
    rw [importedFiles_addImport (h.owner_lt List.mem_cons_self), hid, ← hbefore, List.map_append,
      List.append_assoc]
    congr 2
    by_cases howner : task.owner = owner <;> simp [remainingTargets, howner, hout]
  warnings := by
    have hbefore := h.warnings
    simp only [remainingWarnings, List.filterMap_cons_some hout] at hbefore
    rw [files_addImport]
    exact hbefore

/-- The file that a task leads to is loaded, and brings its tasks. -/
theorem addModule (h : s.Accounted tree extension root (task :: tasks)) {target : Place}
    {nodes : List Sheet.Node} (hout : task.outcome? tree extension = some (.inl target))
    (hnodes : sheetAt? tree target = some nodes) (path : Text) :
    (s.addModule path target).Accounted tree extension root
      (task :: (tasksOf s.size target nodes ++ tasks)) where
  reached file hfile := by
    rw [files_addModule] at hfile
    rcases List.mem_append.1 hfile with hfile | hfile
    · exact h.reached file hfile
    · obtain rfl := List.mem_singleton.1 hfile
      have howner := List.mem_of_getElem? (h.owners task List.mem_cons_self)
      exact .follow (h.reached task.file howner) (h.target_mem hout)
  sheets file hfile := by
    rw [files_addModule] at hfile
    rcases List.mem_append.1 hfile with hfile | hfile
    · exact h.sheets file hfile
    · obtain rfl := List.mem_singleton.1 hfile
      exact ⟨nodes, hnodes⟩
  owners other hother := by
    rw [files_addModule]
    have hold (other : Task) (hmem : other ∈ task :: tasks) :
        (s.files ++ [target])[other.owner]? = some other.file := by
      rw [List.getElem?_append_left (by rw [length_files]; exact h.owner_lt hmem)]
      exact h.owners other hmem
    rcases List.mem_cons.1 hother with rfl | hother
    · exact hold other List.mem_cons_self
    · rcases List.mem_append.1 hother with hnew | hother
      · rw [owner_of_mem_tasksOf hnew, file_of_mem_tasksOf hnew, ← length_files]
        simp
      · exact hold other (List.mem_cons_of_mem task hother)
  imports id file hfile := by
    rw [importedFiles_addModule (h.lt_of_mem_importsOf id)]
    rw [files_addModule] at hfile
    rw [remainingTargets_cons, remainingTargets_append]
    by_cases hid : id < s.size
    · -- the tasks of the new module are none of an old one
      rw [List.getElem?_append_left (by rwa [length_files])] at hfile
      have hbefore := h.imports id file hfile
      have hnone : remainingTargets tree extension (tasksOf s.size target nodes) id = [] := by
        refine remainingTargets_eq_nil fun other hother => ?_
        rw [owner_of_mem_tasksOf hother]
        omega
      rw [hnone, List.nil_append, ← remainingTargets_cons]
      exact hbefore
    · -- and the tasks of old modules are none of the new one
      obtain ⟨rfl, rfl⟩ : id = s.size ∧ file = target := by
        rw [List.getElem?_append_right (by rw [length_files]; omega)] at hfile
        obtain ⟨hlt, hget⟩ := List.getElem?_eq_some_iff.1 hfile
        rw [List.length_singleton, length_files] at hlt
        exact ⟨by omega, by simpa using hget.symm⟩
      have hnone (old : List Task) (hold : ∀ other ∈ old, other ∈ task :: tasks) :
          remainingTargets tree extension old s.size = [] :=
        remainingTargets_eq_nil fun other hother => Nat.ne_of_lt (h.owner_lt (hold other hother))
      rw [importedFiles, importsOf_eq_nil (Nat.le_refl _), hnone [task] (by simp),
        hnone tasks (by simp +contextual), remainingTargets_tasksOf hnodes]
      simp
  warnings := by
    have hbefore := h.warnings.append_right (warningsAt tree extension target)
    rw [files_addModule, List.flatMap_append, List.flatMap_singleton]
    refine List.Perm.trans ?_ hbefore
    rw [remainingWarnings_cons tree extension task (_ ++ tasks),
      remainingWarnings_cons tree extension task tasks, remainingWarnings_append,
      remainingWarnings_tasksOf hnodes, List.append_assoc, List.append_assoc]
    exact (List.perm_append_comm.append_left _).append_left _

end Accounted

end Loading

/-- A task keeps all imports accounted for. -/
theorem Task.Step.accounted {tree : Tree} {extension : Text} {root : Place} {s s₁ : Loading}
    {task : Task} {tasks more : List Task} (h : task.Step tree extension s s₁ more)
    (hs : s.Accounted tree extension root (task :: tasks)) :
    s₁.Accounted tree extension root (more ++ tasks) := by
  rcases h.outcome_cases hs.sheets with ⟨rfl, hout, hfiles, hwarnings, himports⟩ |
    ⟨w, rfl, hout, rfl⟩ | ⟨id, target, rfl, hout, hid, rfl⟩ |
    ⟨path, target, nodes, rfl, hout, hnodes, rfl⟩
  · exact hs.skip hout hfiles hwarnings himports
  · exact hs.warn hout
  · exact hs.addImport hout hid
  · refine (hs.addModule hout hnodes path).addImport hout ?_
    rw [Loading.files_addModule, ← Loading.length_files]
    simp

/-- At the start all imports of the entry are tasks that remain. -/
theorem accounted_first {tree : Tree} {options : Options} {file : Place}
    {nodes : List Sheet.Node} (h : sheetAt? tree file = some nodes) :
    (Loading.first options file).Accounted tree options.extension file (tasksOf 0 file nodes) := by
  have hfiles : (Loading.first options file).files = [file] := by
    rw [Loading.first, Loading.files_addModule]
    rfl
  constructor
  case reached =>
    intro other hother
    rw [hfiles, List.mem_singleton] at hother
    exact hother ▸ .root
  case sheets =>
    intro other hother
    rw [hfiles, List.mem_singleton] at hother
    exact ⟨nodes, hother ▸ h⟩
  case owners =>
    intro task htask
    rw [hfiles, owner_of_mem_tasksOf htask, file_of_mem_tasksOf htask]
    rfl
  case imports =>
    intro id other hother
    obtain ⟨rfl, rfl⟩ : id = 0 ∧ other = file := by
      rw [hfiles] at hother
      obtain ⟨hlt, hget⟩ := List.getElem?_eq_some_iff.1 hother
      exact ⟨by simpa using hlt, by simpa using hget.symm⟩
    have himports : (Loading.first options other).importsOf 0 = [] := by
      rw [Loading.first, Loading.importsOf_addModule]
      rfl
    rw [Loading.importedFiles, himports, Loading.remainingTargets_tasksOf h]
    rfl
  case warnings =>
    rw [hfiles, Loading.remainingWarnings_tasksOf h, List.flatMap_singleton]
    exact List.Perm.refl _

/-- All imports are accounted for in whatever one task after the other leads to. -/
theorem accounted_of_reflTransGen {tree : Tree} {options : Options} {file : Place}
    {nodes : List Sheet.Node} {s : Loading} {tasks : List Task}
    (hnodes : sheetAt? tree file = some nodes)
    (h : Relation.ReflTransGen (Next tree options.extension)
      (.first options file, tasksOf 0 file nodes) (s, tasks)) :
    s.Accounted tree options.extension file tasks := by
  have hall (c : Loading × List Task) (hc : Relation.ReflTransGen (Next tree options.extension)
      (.first options file, tasksOf 0 file nodes) c) :
      c.1.Accounted tree options.extension file c.2 := by
    induction hc with
    | refl => exact accounted_first hnodes
    | tail _ hnext ih =>
      obtain ⟨hstep⟩ := hnext
      exact hstep.accounted ih
  exact hall (s, tasks) h

end ClassHints.Package
