import ClassHints.Proofs.Model.Visit
import ClassHints.Proofs.Package.Tasks

/-!
# The order of modules

Files are loaded in the order in which a depth-first visit of the finished library meets their
modules. While files are loaded, a task that follows an import stands for the module that it
leads to in the end, so that the tasks that remain are the stack of the visit.
-/

namespace ClassHints.Package

open Files (Place Tree)
open Model (Library Module Variable)

namespace Loading

/-- Number of modules loaded so far. -/
def size (s : Loading) : Nat := s.library.modules.size

/-- The imports of a module so far. -/
def importsOf (s : Loading) (id : Nat) : List Nat := s.library.modules[id]?.elim [] Module.imports

/-- There is one file for each module. -/
theorem length_files (s : Loading) : s.files.length = s.size := by simp [files, size]

/-- A variable adds no module. -/
@[simp]
theorem size_addVariable (s : Loading) (owner : Nat) (v : Variable) :
    (s.addVariable owner v).size = s.size := by
  simp [size, addVariable]

/-- An import adds no module. -/
@[simp]
theorem size_addImport (s : Loading) (owner target : Nat) :
    (s.addImport owner target).size = s.size := by
  simp [size, addImport]

/-- A mixin adds no module. -/
@[simp]
theorem size_addMixin (s : Loading) (owner : Nat) (params : Text) (body : List Sheet.Node)
    (description : Option Text) : (s.addMixin owner params body description).size = s.size := by
  simp [size, addMixin]

/-- A new module is one more. -/
@[simp]
theorem size_addModule (s : Loading) (name : Text) (file : Place) :
    (s.addModule name file).size = s.size + 1 := by
  simp [size, addModule]

/-- Changing a module without its imports leaves all imports as they were. -/
theorem elim_imports_modify (modules : Array Module) (owner id : Nat) (f : Module → Module)
    (hf : ∀ m, (f m).imports = m.imports) :
    (modules.modify owner f)[id]?.elim [] Module.imports =
      modules[id]?.elim [] Module.imports := by
  rw [Array.getElem?_modify]
  split
  · cases modules[id]? with
    | none => rfl
    | some m => exact hf m
  · rfl

/-- A variable adds no import. -/
@[simp]
theorem importsOf_addVariable (s : Loading) (owner : Nat) (v : Variable) (id : Nat) :
    (s.addVariable owner v).importsOf id = s.importsOf id :=
  elim_imports_modify _ _ _ _ fun _ => rfl

/-- A mixin adds no import. -/
@[simp]
theorem importsOf_addMixin (s : Loading) (owner : Nat) (params : Text) (body : List Sheet.Node)
    (description : Option Text) (id : Nat) :
    (s.addMixin owner params body description).importsOf id = s.importsOf id :=
  elim_imports_modify _ _ _ _ fun _ => rfl

/-- An import is added to its owner and to no other module. -/
theorem importsOf_addImport {s : Loading} {owner : Nat} (howner : owner < s.size)
    (target id : Nat) : (s.addImport owner target).importsOf id =
      s.importsOf id ++ if owner = id then [target] else [] := by
  unfold importsOf addImport
  rw [Array.getElem?_modify]
  by_cases h : owner = id
  · subst h
    have hget : s.library.modules[owner]? = some s.library.modules[owner] :=
      Array.getElem?_eq_getElem howner
    simp [hget]
  · simp [h]

/-- A module that is added has no imports yet, and no other module is touched. -/
theorem importsOf_addModule (s : Loading) (name : Text) (file : Place) (id : Nat) :
    (s.addModule name file).importsOf id = s.importsOf id := by
  unfold importsOf addModule
  rw [Array.getElem?_push]
  split
  · next h => simp [h]
  · rfl

/-- The imports of a module are those that are noted for its number. -/
theorem imports_getElem {s : Loading} {id : Nat} (h : id < s.library.modules.size) :
    s.library.modules[id].imports = s.importsOf id := by
  unfold importsOf
  rw [Array.getElem?_eq_getElem h]
  rfl

/-- A number without a module has no imports. -/
theorem importsOf_eq_nil {s : Loading} {id : Nat} (h : s.size ≤ id) : s.importsOf id = [] := by
  unfold importsOf
  rw [Array.getElem?_eq_none h]
  rfl

/-! ## Files -/

/-- The module of a file is the first one that has the file. -/
theorem moduleAt?_eq_findIdx? (s : Loading) (file : Place) :
    s.moduleAt? file = s.files.findIdx? (· == file) := by
  unfold moduleAt? files
  rw [List.findIdx?_map, ← List.findIdx?_toArray, Array.toArray_toList]
  rfl

/-- A module that is found has been loaded. -/
theorem lt_size_of_moduleAt? {s : Loading} {file : Place} {id : Nat}
    (h : s.moduleAt? file = some id) : id < s.size := by
  rw [moduleAt?_eq_findIdx?] at h
  obtain ⟨hlt, -⟩ := List.findIdx?_eq_some_iff_getElem.1 h
  rwa [length_files] at hlt

/-- A module that is found has the file that was looked for. -/
theorem getElem?_files_of_moduleAt? {s : Loading} {file : Place} {id : Nat}
    (h : s.moduleAt? file = some id) : s.files[id]? = some file := by
  rw [moduleAt?_eq_findIdx?] at h
  obtain ⟨hlt, hfile, -⟩ := List.findIdx?_eq_some_iff_getElem.1 h
  rw [List.getElem?_eq_getElem hlt, beq_iff_eq.1 hfile]

/-- More has been loaded: the modules are still there, and all files behind them could be
read. -/
def Extends (tree : Tree) (s s' : Loading) : Prop :=
  ∃ more, s'.files = s.files ++ more ∧ ∀ file ∈ more, ∃ text, tree.read file = .ok text

/-- With the same files nothing more has been loaded. -/
theorem Extends.of_files_eq {tree : Tree} {s s' : Loading} (h : s'.files = s.files) :
    s.Extends tree s' := ⟨[], by simp [h], by simp⟩

/-- What is loaded in two stretches is loaded in one. -/
theorem Extends.trans {tree : Tree} {s s₁ s' : Loading} (h : s.Extends tree s₁)
    (h' : s₁.Extends tree s') : s.Extends tree s' := by
  obtain ⟨more, hfiles, hread⟩ := h
  obtain ⟨more', hfiles', hread'⟩ := h'
  refine ⟨more ++ more', by rw [hfiles', hfiles, List.append_assoc], ?_⟩
  intro file hfile
  exact (List.mem_append.1 hfile).elim (hread file) (hread' file)

/-- Modules are never taken away. -/
theorem Extends.size_le {tree : Tree} {s s' : Loading} (h : s.Extends tree s') :
    s.size ≤ s'.size := by
  obtain ⟨more, hfiles, -⟩ := h
  rw [← length_files, ← length_files, hfiles, List.length_append]
  omega

/-- A module that was found is found at the same number later. -/
theorem Extends.moduleAt?_eq {tree : Tree} {s s' : Loading} (h : s.Extends tree s')
    {file : Place} {id : Nat} (hfound : s.moduleAt? file = some id) :
    s'.moduleAt? file = some id := by
  obtain ⟨more, hfiles, -⟩ := h
  rw [moduleAt?_eq_findIdx?] at hfound ⊢
  rw [hfiles, List.findIdx?_append, hfound]
  rfl

/-- A file that is not loaded and cannot be read is not loaded later either. -/
theorem Extends.moduleAt?_eq_none {tree : Tree} {s s' : Loading} (h : s.Extends tree s')
    {file : Place} {reason : Files.Failure} (hnew : s.moduleAt? file = none)
    (hfailed : tree.read file = .error reason) : s'.moduleAt? file = none := by
  obtain ⟨more, hfiles, hread⟩ := h
  rw [moduleAt?_eq_findIdx?, List.findIdx?_eq_none_iff] at hnew ⊢
  intro other hother
  rw [hfiles] at hother
  rcases List.mem_append.1 hother with hother | hother
  · exact hnew other hother
  · obtain ⟨text, htext⟩ := hread other hother
    rw [beq_eq_false_iff_ne]
    rintro rfl
    rw [hfailed] at htext
    cases htext

/-- A file that is new is found at the next number once it is loaded. -/
theorem moduleAt?_addModule {s : Loading} {file : Place} (hnew : s.moduleAt? file = none)
    (name : Text) : (s.addModule name file).moduleAt? file = some s.size := by
  rw [moduleAt?_eq_findIdx?] at hnew ⊢
  rw [files_addModule, List.findIdx?_append, hnew, ← length_files]
  simp

/-- All tasks are for modules that are loaded. -/
def Owned (s : Loading) (tasks : List Task) : Prop := ∀ task ∈ tasks, task.owner < s.size

end Loading

/-- The tasks of a stylesheet belong to its module. -/
theorem owner_of_mem_tasksOf {owner : Nat} {file : Place} {nodes : List Sheet.Node} {task : Task}
    (h : task ∈ tasksOf owner file nodes) : task.owner = owner := by
  obtain ⟨item, -, hitem⟩ := List.mem_flatMap.1 h
  obtain ⟨work, -, rfl⟩ := List.mem_map.1 hitem
  rfl

/-- The tasks of a stylesheet name its file. -/
theorem file_of_mem_tasksOf {owner : Nat} {file : Place} {nodes : List Sheet.Node} {task : Task}
    (h : task ∈ tasksOf owner file nodes) : task.file = file := by
  obtain ⟨item, -, hitem⟩ := List.mem_flatMap.1 h
  obtain ⟨work, -, rfl⟩ := List.mem_map.1 hitem
  rfl

/-- The module that a task follows an import to, in what is loaded in the end. -/
def Task.target? (tree : Tree) (extension : Text) (s' : Loading) (task : Task) : Option Nat :=
  (task.place? tree extension).bind s'.moduleAt?

namespace Task.Step

variable {tree : Tree} {extension : Text} {s s₁ s' : Loading} {task : Task}
  {more tasks : List Task}

/-- One task only adds modules. -/
theorem extends_next (h : task.Step tree extension s s₁ more) : s.Extends tree s₁ := by
  cases h with
  | addVariable v hwork => exact .of_files_eq (Loading.files_addVariable ..)
  | addMixin params body description hwork => exact .of_files_eq (Loading.files_addMixin ..)
  | unresolved path hwork hplace => exact .of_files_eq (Loading.files_warn ..)
  | known path target id hwork hplace hfound => exact .of_files_eq (Loading.files_addImport ..)
  | unreadable path target reason hwork hplace hnew hfailed =>
    exact .of_files_eq (Loading.files_warn ..)
  | fresh path target text nodes hwork hplace hnew hread hparsed =>
    refine ⟨[target], by rw [Loading.files_addImport, Loading.files_addModule], ?_⟩
    intro file hfile
    obtain rfl := List.mem_singleton.1 hfile
    exact ⟨text, hread⟩

/-- A task adds no module and brings no tasks, or adds one module with its tasks. -/
theorem size_eq (h : task.Step tree extension s s₁ more) :
    s₁.size = s.size ∧ more = [] ∨
      s₁.size = s.size + 1 ∧ ∀ task ∈ more, task.owner = s.size := by
  cases h with
  | addVariable v hwork => exact Or.inl ⟨Loading.size_addVariable .., rfl⟩
  | addMixin params body description hwork => exact Or.inl ⟨Loading.size_addMixin .., rfl⟩
  | unresolved path hwork hplace => exact Or.inl ⟨rfl, rfl⟩
  | known path target id hwork hplace hfound => exact Or.inl ⟨Loading.size_addImport .., rfl⟩
  | unreadable path target reason hwork hplace hnew hfailed => exact Or.inl ⟨rfl, rfl⟩
  | fresh path target text nodes hwork hplace hnew hread hparsed =>
    exact Or.inr ⟨by simp, fun task htask => owner_of_mem_tasksOf htask⟩

/-- The tasks that are left after one task are for modules that are loaded. -/
theorem owned (h : task.Step tree extension s s₁ more) (howned : s.Owned (task :: tasks)) :
    s₁.Owned (more ++ tasks) := by
  intro other hother
  rcases h.size_eq with ⟨hsize, rfl⟩ | ⟨hsize, hmore⟩
  · rw [hsize]
    exact howned other (List.mem_cons_of_mem task hother)
  · rw [hsize]
    rcases List.mem_append.1 hother with hother | hother
    · rw [hmore other hother]
      omega
    · have hlt := howned other (List.mem_cons_of_mem task hother)
      omega

/-- The files of modules stay distinct. -/
theorem nodup_files (h : task.Step tree extension s s₁ more) (hnodup : s.files.Nodup) :
    s₁.files.Nodup := by
  cases h with
  | addVariable v hwork => rwa [Loading.files_addVariable]
  | addMixin params body description hwork => rwa [Loading.files_addMixin]
  | unresolved path hwork hplace => exact hnodup
  | known path target id hwork hplace hfound => rwa [Loading.files_addImport]
  | unreadable path target reason hwork hplace hnew hfailed => exact hnodup
  | fresh path target text nodes hwork hplace hnew hread hparsed =>
    rw [Loading.files_addImport, Loading.files_addModule]
    refine List.nodup_append.2 ⟨hnodup, by simp, ?_⟩
    intro file hfile other hother heq
    rw [heq, List.mem_singleton.1 hother] at hfile
    exact Loading.not_mem_files_of_moduleAt? hnew hfile

/-- What a task does to modules and imports, seen from what is loaded in the end: nothing, or
it imports a module that is known already, or it adds a module and imports that. -/
theorem import_cases (h : task.Step tree extension s s₁ more) (hext : s₁.Extends tree s') :
    (more = [] ∧ task.target? tree extension s' = none ∧ s₁.size = s.size ∧
        ∀ id, s₁.importsOf id = s.importsOf id) ∨
      (∃ known < s.size, more = [] ∧ task.target? tree extension s' = some known ∧
        s₁ = s.addImport task.owner known) ∨
      ∃ path file, (∀ task ∈ more, task.owner = s.size) ∧
        task.target? tree extension s' = some s.size ∧
        s₁ = (s.addModule path file).addImport task.owner s.size := by
  have hafter := h.extends_next.trans hext
  cases h with
  | addVariable v hwork =>
    exact Or.inl ⟨rfl, by simp [target?, place?, hwork], by simp, by simp⟩
  | addMixin params body description hwork =>
    exact Or.inl ⟨rfl, by simp [target?, place?, hwork], by simp, by simp⟩
  | unresolved path hwork hplace =>
    exact Or.inl ⟨rfl, by simp [target?, hplace], rfl, fun _ => rfl⟩
  | known path target id hwork hplace hfound =>
    have hfound' : s'.moduleAt? target = some id := hafter.moduleAt?_eq hfound
    refine Or.inr (Or.inl ⟨id, Loading.lt_size_of_moduleAt? hfound, rfl, ?_, rfl⟩)
    rw [target?, hplace, Option.bind_some, hfound']
  | unreadable path target reason hwork hplace hnew hfailed =>
    have hnone : s'.moduleAt? target = none := hext.moduleAt?_eq_none hnew hfailed
    exact Or.inl ⟨rfl, by simp [target?, hplace, hnone], rfl, fun _ => rfl⟩
  | fresh path target text nodes hwork hplace hnew hread hparsed =>
    have hfound : s'.moduleAt? target = some s.size := by
      refine hext.moduleAt?_eq ?_
      rw [Loading.moduleAt?_eq_findIdx?, Loading.files_addImport,
        ← Loading.moduleAt?_eq_findIdx?]
      exact Loading.moduleAt?_addModule hnew path
    refine Or.inr (Or.inr ⟨path, target, fun task htask => owner_of_mem_tasksOf htask, ?_, rfl⟩)
    rw [target?, hplace, Option.bind_some, hfound]

/-- A task adds the module it leads to, if any, to the imports of its owner. -/
theorem importsOf_eq (h : task.Step tree extension s s₁ more) (hext : s₁.Extends tree s')
    (howner : task.owner < s.size) (id : Nat) :
    s₁.importsOf id =
      s.importsOf id ++ if task.owner = id then (task.target? tree extension s').toList else [] := by
  rcases h.import_cases hext with ⟨-, htarget, -, hsame⟩ | ⟨known, -, -, htarget, rfl⟩ |
    ⟨path, file, -, htarget, rfl⟩
  · rw [hsame, htarget]
    simp
  · rw [Loading.importsOf_addImport howner, htarget]
    rfl
  · have howner' : task.owner < (s.addModule path file).size := by
      rw [Loading.size_addModule]
      omega
    rw [Loading.importsOf_addImport howner', Loading.importsOf_addModule, htarget]
    rfl

end Task.Step

/-! ## Loading as a visit -/

section

variable {tree : Tree} {extension : Text} {s s' : Loading} {tasks : List Task}

/-- A run of tasks only adds modules. -/
theorem extends_of_runTasks (h : runTasks tree extension s tasks = .ok s') :
    s.Extends tree s' := by
  refine runTasks_induction (motive := fun s _ => s.Extends tree s') (.of_files_eq rfl) ?_ h
  intro s task tasks s₁ more hstep _ ih
  exact hstep.extends_next.trans ih

/-- The imports of a module in the end: those it has already, and the modules that its tasks
lead to. -/
theorem importsOf_of_runTasks (h : runTasks tree extension s tasks = .ok s')
    (howned : s.Owned tasks) {id : Nat} (hid : id < s.size) :
    s'.importsOf id = s.importsOf id ++
      (tasks.filter (·.owner = id)).filterMap (Task.target? tree extension s') := by
  refine runTasks_induction (motive := fun s tasks => s.Owned tasks → id < s.size →
    s'.importsOf id = s.importsOf id ++
      (tasks.filter (·.owner = id)).filterMap (Task.target? tree extension s')) ?_ ?_ h howned hid
  · intro _ _
    simp
  · intro s task tasks s₁ more hstep hrest ih howned hid
    have hext := extends_of_runTasks hrest
    have hlt : id < s₁.size := by
      rcases hstep.size_eq with ⟨hsize, -⟩ | ⟨hsize, -⟩ <;> omega
    -- the tasks that a new module brings belong to that module
    have hmore : more.filter (·.owner = id) = [] := by
      rcases hstep.size_eq with ⟨-, rfl⟩ | ⟨-, hmore⟩
      · rfl
      · refine List.filter_eq_nil_iff.2 fun task htask => ?_
        rw [hmore task htask, decide_eq_true_eq]
        omega
    rw [ih (hstep.owned howned) hlt, hstep.importsOf_eq hext (howned task (by simp)) id,
      List.filter_append, hmore, List.nil_append, List.append_assoc, List.filter_cons]
    congr 1
    by_cases howner : task.owner = id
    · cases htarget : task.target? tree extension s' <;> simp [howner, htarget]
    · simp [howner]

/-- The imports of a module that is new, in the end, are what its tasks lead to. -/
theorem importsOf_of_fresh {task : Task} {more : List Task} {path : Text} {file : Place}
    (h : runTasks tree extension ((s.addModule path file).addImport task.owner s.size)
      (more ++ tasks) = .ok s')
    (howned : s.Owned (task :: tasks))
    (howned₁ : ((s.addModule path file).addImport task.owner s.size).Owned (more ++ tasks))
    (hmore : ∀ task ∈ more, task.owner = s.size) :
    s'.importsOf s.size = more.filterMap (Task.target? tree extension s') := by
  have howner : task.owner < s.size := howned task List.mem_cons_self
  have hsize : ((s.addModule path file).addImport task.owner s.size).size = s.size + 1 := by simp
  have hnone : ((s.addModule path file).addImport task.owner s.size).importsOf s.size = [] := by
    rw [Loading.importsOf_addImport (by rw [Loading.size_addModule]; omega),
      Loading.importsOf_addModule, Loading.importsOf_eq_nil (Nat.le_refl _), if_neg (by omega)]
    rfl
  have hfilter : (more ++ tasks).filter (·.owner = s.size) = more := by
    rw [List.filter_append, List.filter_eq_self.2 fun task htask => by simp [hmore task htask],
      List.filter_eq_nil_iff.2, List.append_nil]
    intro other hother
    have hlt := howned other (List.mem_cons_of_mem task hother)
    rw [decide_eq_true_eq]
    omega
  rw [importsOf_of_runTasks h howned₁ (by omega), hnone, hfilter, List.nil_append]

/-- Where all modules so far have been visited, the tasks that remain lead the visit through
the modules that they add, in the order of their numbers. -/
theorem visit_targets (h : runTasks tree extension s tasks = .ok s') (howned : s.Owned tasks)
    {visited : List Nat} (hvisited : ∀ id, id ∈ visited ↔ id < s.size) :
    s'.library.visit visited (tasks.filterMap (Task.target? tree extension s')) =
      s'.library.numbered.drop s.size := by
  refine runTasks_induction (motive := fun s tasks => s.Owned tasks → ∀ visited : List Nat,
    (∀ id, id ∈ visited ↔ id < s.size) →
    s'.library.visit visited (tasks.filterMap (Task.target? tree extension s')) =
      s'.library.numbered.drop s.size) ?_ ?_ h howned visited hvisited
  · intro _ visited _
    rw [List.filterMap_nil, Library.visit_nil, List.drop_eq_nil_of_le]
    simp [Library.numbered, Loading.size]
  · intro s task tasks s₁ more hstep hrest ih howned visited hvisited
    have hext := extends_of_runTasks hrest
    have howned₁ := hstep.owned howned
    rcases hstep.import_cases hext with ⟨rfl, htarget, hsize, -⟩ |
      ⟨known, hknown, rfl, htarget, rfl⟩ | ⟨path, file, hmore, htarget, rfl⟩
    · rw [List.filterMap_cons, htarget]
      have hrest := ih howned₁ visited (by simpa [hsize] using hvisited)
      rwa [hsize] at hrest
    · rw [List.filterMap_cons, htarget, Library.visit_seen ((hvisited known).2 hknown)]
      have hrest := ih howned₁ visited (by simpa using hvisited)
      rwa [Loading.size_addImport] at hrest
    · have himports := importsOf_of_fresh hrest howned howned₁ hmore
      have hsize : ((s.addModule path file).addImport task.owner s.size).size = s.size + 1 := by
        simp
      have hlt : s.size < s'.library.modules.size := by
        have hle := hext.size_le
        rw [hsize] at hle
        exact hle
      have hnew : s.size ∉ visited := fun hmem => Nat.lt_irrefl _ ((hvisited s.size).1 hmem)
      have hvisited₁ (id : Nat) : id ∈ s.size :: visited ↔ id < s.size + 1 := by
        rw [List.mem_cons, hvisited]
        omega
      have hrest := ih howned₁ (s.size :: visited) (by rw [hsize]; exact hvisited₁)
      rw [hsize, List.filterMap_append] at hrest
      rw [List.filterMap_cons, htarget]
      dsimp only
      rw [Library.visit_new hnew hlt, Loading.imports_getElem hlt, himports, hrest,
        Library.numbered_drop hlt]

end

end ClassHints.Package
