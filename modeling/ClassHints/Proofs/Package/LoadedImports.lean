import ClassHints.Proofs.Package.ImportOutcomes
import ClassHints.Proofs.Package.LoadedIncludes

/-!
# The imports of a loaded package

A load fails at its entry, or at a file that is reached through imports and cannot be parsed.
When it succeeds, each import of the files that are reached is an import of their module or has
a warning.
-/

namespace ClassHints.Package

open Files (Path Place Tree)
open Model (Module Warning)

/-- Why a load is refused: the entry leads nowhere or cannot be read, or a file that is reached
from it cannot be parsed. -/
inductive Refusal (tree : Tree) (entry : Path) (options : Options) : Fault → Prop where
  | nowhere {reason : Files.Failure} (failed : tree.resolve entry = .error reason) :
    Refusal tree entry options (.io entry reason)
  | unreadable {file : Place} {reason : Files.Failure} (found : tree.resolve entry = .ok file)
    (failed : tree.read file = .error reason) : Refusal tree entry options (.io file.path reason)
  | broken {file target : Place} {text : Text} {fault : Sheet.Fault}
    (found : tree.resolve entry = .ok file)
    (reached : Reached tree options.extension file target) (read : tree.read target = .ok text)
    (failed : Sheet.parse text = .error fault) :
    Refusal tree entry options (.parse target.path fault)

/-- A task that fails follows an import to a file that can be read. -/
theorem Task.Fails.outcome?_eq {tree : Tree} {extension : Text} {s : Loading} {task : Task}
    {target : Place} {fault : Sheet.Fault} (h : task.Fails tree extension s target fault) :
    task.outcome? tree extension = some (.inl target) := by
  obtain ⟨hplace, -, text, hread, -⟩ := h
  cases hwork : task.work with
  | follow path => exact outcome?_of_read hwork hplace hread
  | «variable» v => simp [place?, hwork] at hplace
  | mixin params body description => simp [place?, hwork] at hplace

/-- When all imports are done, every file that is reached is loaded. -/
theorem Loading.Accounted.mem_files {tree : Tree} {extension : Text} {root file : Place}
    {s : Loading} (h : s.Accounted tree extension root []) (hroot : root ∈ s.files)
    (hreached : Reached tree extension root file) : file ∈ s.files := by
  induction hreached with
  | root => exact hroot
  | @follow file target _ htarget ih =>
    obtain ⟨id, hid⟩ := List.getElem?_of_mem ih
    have hmem : some target ∈ s.importedFiles id := by
      rw [h.importedFiles_eq hid]
      exact List.mem_map_of_mem htarget
    obtain ⟨k, -, hk⟩ := List.mem_map.1 hmem
    exact List.mem_of_getElem? hk

section

variable {tree : Tree} {entry : Path} {options : Options}

/-- A load fails for one of three reasons. -/
theorem refusal_of_load {fault : Fault} (h : load tree entry options = .error fault) :
    Refusal tree entry options fault := by
  rw [load_eq_error_iff] at h
  cases hfile : tree.resolve entry with
  | error reason =>
    obtain rfl : fault = .io entry reason := by
      simpa [loadModules, hfile, Except.mapError, bind, Except.bind] using h.symm
    exact .nowhere hfile
  | ok file =>
    cases htext : tree.read file with
    | error reason =>
      obtain rfl : fault = .io file.path reason := by
        simpa [loadModules, hfile, htext, Except.mapError, bind, Except.bind] using h.symm
      exact .unreadable hfile htext
    | ok text =>
      cases hnodes : Sheet.parse text with
      | error cause =>
        obtain rfl : fault = .parse file.path cause := by
          simpa [loadModules, hfile, htext, hnodes, Except.mapError, bind, Except.bind]
            using h.symm
        exact .broken hfile .root htext hnodes
      | ok nodes =>
        rw [loadModules_eq_runTasks hfile htext hnodes] at h
        obtain ⟨s, task, rest, target, reason, hrun, hfails, rfl⟩ := exists_fails_of_runTasks h
        have hs := accounted_of_reflTransGen (sheetAt?_eq_some htext hnodes) hrun
        have howner := List.mem_of_getElem? (hs.owners task List.mem_cons_self)
        have htarget := hs.target_mem hfails.outcome?_eq
        obtain ⟨text', hread, hparse⟩ := hfails.broken
        exact .broken hfile (.follow (hs.reached task.file howner) htarget) hread hparse

/-- All imports of a load that succeeds are accounted for, and what is loaded is what is
reached. -/
theorem accounted_of_loadModules {s : Loading} (h : loadModules tree entry options = .ok s) :
    ∃ file, tree.resolve entry = .ok file ∧ s.Accounted tree options.extension file [] ∧
      ∀ target, Reached tree options.extension file target ↔ target ∈ s.files := by
  obtain ⟨file, text, nodes, hfile, htext, hnodes, hrun⟩ := loadModules_eq_ok_iff.1 h
  have hs := accounted_of_reflTransGen (sheetAt?_eq_some htext hnodes) (runTasks_eq_ok_iff.1 hrun)
  have hroot : file ∈ s.files := List.mem_of_mem_head? (head?_files_of_runTasks hrun)
  exact ⟨file, hfile, hs, fun target => ⟨hs.mem_files hroot, hs.reached target⟩⟩

/-- A load succeeds exactly if the entry leads to a file that can be read, and every file that is
reached from it can be parsed. -/
theorem exists_load_iff : (∃ p, load tree entry options = .ok p) ↔
    ∃ file, tree.resolve entry = .ok file ∧ (∃ text, tree.read file = .ok text) ∧
      ∀ target, Reached tree options.extension file target →
        ∃ text nodes, tree.read target = .ok text ∧ Sheet.parse text = .ok nodes := by
  constructor
  · rintro ⟨p, hp⟩
    obtain ⟨s, hs, rfl⟩ := load_eq_ok_iff.1 hp
    obtain ⟨file, hfile, hall, hreached⟩ := accounted_of_loadModules hs
    have hparsed (target : Place) (htarget : Reached tree options.extension file target) :
        ∃ text nodes, tree.read target = .ok text ∧ Sheet.parse text = .ok nodes := by
      obtain ⟨nodes, hnodes⟩ := hall.sheets target ((hreached target).1 htarget)
      obtain ⟨text, hread⟩ := exists_read_of_sheetAt? hnodes
      exact ⟨text, nodes, hread⟩
    obtain ⟨text, -, htext, -⟩ := hparsed file .root
    exact ⟨file, hfile, ⟨text, htext⟩, hparsed⟩
  · rintro ⟨file, hfile, ⟨text, htext⟩, hparsed⟩
    cases hload : load tree entry options with
    | ok p => exact ⟨p, rfl⟩
    | error fault =>
      exfalso
      cases refusal_of_load hload with
      | nowhere hfailed => cases hfile.symm.trans hfailed
      | unreadable hfound hfailed =>
        obtain rfl := Except.ok.inj (hfile.symm.trans hfound)
        cases htext.symm.trans hfailed
      | broken hfound hreached hread hfailed =>
        obtain rfl := Except.ok.inj (hfile.symm.trans hfound)
        obtain ⟨text', nodes, hread', hnodes⟩ := hparsed _ hreached
        obtain rfl := Except.ok.inj (hread.symm.trans hread')
        cases hnodes.symm.trans hfailed

end

/-- What the imports of a package come to. -/
structure ImportsAccounted (tree : Tree) (extension : Text) (root : Place) (p : Package) :
    Prop where
  /-- The modules are those of the files that are reached. -/
  files : ∀ file, (∃ m ∈ p.library.modules, m.file = file) ↔ Reached tree extension root file
  /-- A module imports the modules of the files that its imports lead to, in order. -/
  imports : ∀ m ∈ p.library.modules,
    (m.imports.map fun id => p.library.modules[id]?.map Module.file) =
      (targetsAt tree extension m.file).map some
  /-- There is one warning for each import that leads to no file which can be read, and all
  other warnings are about includes. -/
  warnings : (p.warnings.filter (!·.isInclude)).Perm
    (p.library.modules.toList.flatMap fun m => warningsAt tree extension m.file)

/-- After a load every import of a loaded file is an import of its module or a warning. -/
theorem importsAccounted_of_load {tree : Tree} {entry : Path} {options : Options} {p : Package}
    (h : load tree entry options = .ok p) : ∃ root, tree.resolve entry = .ok root ∧
      ImportsAccounted tree options.extension root p := by
  obtain ⟨s, hs, rfl⟩ := load_eq_ok_iff.1 h
  obtain ⟨root, hroot, hall, hreached⟩ := accounted_of_loadModules hs
  -- resolving and linking includes leave the modules alone
  have hmodules : s.package.library.modules = s.library.modules := rfl
  refine ⟨root, hroot, ?_⟩
  constructor
  case files =>
    intro file
    rw [hreached, hmodules, Loading.files, List.mem_map]
    simp
  case imports =>
    intro m hm
    rw [hmodules] at hm ⊢
    obtain ⟨id, hid, rfl⟩ := Array.getElem_of_mem hm
    have hfile : s.files[id]? = some s.library.modules[id].file := by
      simp [Loading.files, hid]
    rw [← hall.importedFiles_eq hfile, Loading.importedFiles, ← Loading.imports_getElem hid]
    refine List.map_congr_left fun k _ => ?_
    simp [Loading.files]
  case warnings =>
    have hperm := hall.warnings
    rw [Loading.remainingWarnings, List.filterMap_nil, List.filterMap_nil, List.append_nil,
      Loading.files, List.flatMap_map] at hperm
    rw [(unresolved_of_loadModules hs).filter_not_isInclude, hmodules]
    exact hperm

/-- An import that comes to a warning is passed over. -/
theorem runTasks_of_warning {tree : Tree} {options : Options} {file : Place}
    {nodes : List Sheet.Node} {s : Loading} {task : Task} {rest : List Task} {w : Warning}
    (hnodes : sheetAt? tree file = some nodes)
    (hrun : Relation.ReflTransGen (Next tree options.extension)
      (.first options file, tasksOf 0 file nodes) (s, task :: rest))
    (hout : task.outcome? tree options.extension = some (.inr w)) :
    runTasks tree options.extension s (task :: rest) =
      runTasks tree options.extension (s.warn w) rest := by
  have hs := accounted_of_reflTransGen hnodes hrun
  rcases task.step_or_fails tree options.extension s with ⟨s₁, more, hstep⟩ | ⟨target, fault, hfails⟩
  · -- the file is none of those that are loaded, since these can all be read
    rcases hstep.outcome_cases hs.sheets with ⟨-, hnone, -⟩ | ⟨w', rfl, hwarn, rfl⟩ |
      ⟨id, target, -, htarget, -⟩ | ⟨path, target, nodes', -, htarget, -⟩
    · cases hnone.symm.trans hout
    · obtain rfl : w = w' := by simpa using hout.symm.trans hwarn
      exact hstep.runTasks_eq rest
    · cases htarget.symm.trans hout
    · cases htarget.symm.trans hout
  · cases hfails.outcome?_eq.symm.trans hout

/-- The failures and the warnings of a load account for all imports. -/
structure Accounts (tree : Tree) (entry : Path) (options : Options) : Prop where
  /-- A load fails at its entry, or at a file that is reached and cannot be parsed. -/
  refused : ∀ fault, load tree entry options = .error fault → Refusal tree entry options fault
  /-- An import that no file answers to, or a package that is not found, is no reason to fail. -/
  never : ∀ path base start, load tree entry options ≠ .error (.importNotResolved path base) ∧
    load tree entry options ≠ .error (.packageNotFound start)
  /-- A load succeeds exactly if the entry can be read and all files that are reached from it
  can be parsed. -/
  succeeds : (∃ p, load tree entry options = .ok p) ↔
    ∃ file, tree.resolve entry = .ok file ∧ (∃ text, tree.read file = .ok text) ∧
      ∀ target, Reached tree options.extension file target →
        ∃ text nodes, tree.read target = .ok text ∧ Sheet.parse text = .ok nodes
  /-- Each import is then an import of its module, or has one warning. -/
  accounted : ∀ p, load tree entry options = .ok p → ∃ root, tree.resolve entry = .ok root ∧
    ImportsAccounted tree options.extension root p
  /-- An import that leads to no file which can be read is passed over: only its warning is
  noted. -/
  passedOver : ∀ file nodes s task rest w, tree.resolve entry = .ok file →
    sheetAt? tree file = some nodes →
    Relation.ReflTransGen (Next tree options.extension)
      (.first options file, tasksOf 0 file nodes) (s, task :: rest) →
    task.outcome? tree options.extension = some (.inr w) →
    ∃ s₁, runTasks tree options.extension s (task :: rest) =
        runTasks tree options.extension s₁ rest ∧
      s₁.library = s.library ∧ (∀ place, s₁.moduleAt? place = s.moduleAt? place) ∧
      s₁.warnings = s.warnings ++ [w]

/-- Every load accounts for all imports. -/
theorem load_accounts (tree : Tree) (entry : Path) (options : Options) :
    Accounts tree entry options where
  refused _ h := refusal_of_load h
  never path base start := by
    constructor
    · intro h
      cases refusal_of_load h
    · intro h
      cases refusal_of_load h
  succeeds := exists_load_iff
  accounted _ h := importsAccounted_of_load h
  passedOver file nodes s task rest w _ hnodes hrun hout :=
    ⟨s.warn w, runTasks_of_warning hnodes hrun hout, rfl, fun _ => rfl, rfl⟩

/-- A file with an import that is missing, one that is not text and one that is fine. -/
def brokenImports : Tree :=
  ⟨[(["a.scss".toList], .file (.text "@import 'b', 'c'; @import 'd';".toList)),
    (["c.scss".toList], .file (.bytes ⟨#[255]⟩)),
    (["d.scss".toList], .file (.text []))]⟩

/-- The first two imports have a warning each, and the third one is followed. -/
theorem load_accounts_brokenImports :
    ∃ p, load brokenImports "/a.scss".toList ⟨"scss".toList, none⟩ = .ok p ∧
      targetsAt brokenImports "scss".toList ["a.scss".toList] = [["d.scss".toList]] ∧
      warningsAt brokenImports "scss".toList ["a.scss".toList] =
        [.importNotResolved "b".toList ["a.scss".toList],
          .unreadableImport ["c.scss".toList] .notText] ∧
      ImportsAccounted brokenImports "scss".toList ["a.scss".toList] p := by
  have hnodes : sheetAt? brokenImports ["a.scss".toList] =
      some [.statement "import".toList "'b', 'c'".toList ⟨0, 17, 1, 1⟩,
        .statement "import".toList "'d'".toList ⟨18, 30, 1, 19⟩] :=
    sheetAt?_eq_some rfl (by rfl)
  have htargets : targetsAt brokenImports "scss".toList ["a.scss".toList] =
      [["d.scss".toList]] := by
    rw [targetsAt, outcomesAt, hnodes]
    decide +kernel
  have hwarnings : warningsAt brokenImports "scss".toList ["a.scss".toList] =
      [.importNotResolved "b".toList ["a.scss".toList],
        .unreadableImport ["c.scss".toList] .notText] := by
    rw [warningsAt, outcomesAt, hnodes]
    decide +kernel
  have hempty : sheetAt? brokenImports ["d.scss".toList] = some [] :=
    @sheetAt?_eq_some brokenImports _ [] _ rfl (by rfl)
  have hreached (target : Place)
      (h : Reached brokenImports "scss".toList ["a.scss".toList] target) :
      target = ["a.scss".toList] ∨ target = ["d.scss".toList] := by
    induction h with
    | root => exact Or.inl rfl
    | follow _ hmem ih =>
      rcases ih with rfl | rfl
      · rw [htargets] at hmem
        exact Or.inr (List.mem_singleton.1 hmem)
      · rw [targetsAt, outcomesAt, hempty] at hmem
        cases hmem
  have hall := load_accounts brokenImports "/a.scss".toList ⟨"scss".toList, none⟩
  obtain ⟨p, hp⟩ : ∃ p, load brokenImports "/a.scss".toList ⟨"scss".toList, none⟩ = .ok p := by
    refine hall.succeeds.2 ⟨["a.scss".toList], rfl, ⟨_, rfl⟩, fun target htarget => ?_⟩
    rcases hreached target htarget with rfl | rfl
    · obtain ⟨text, hread⟩ := exists_read_of_sheetAt? hnodes
      exact ⟨text, _, hread⟩
    · obtain ⟨text, hread⟩ := exists_read_of_sheetAt? hempty
      exact ⟨text, _, hread⟩
  obtain ⟨root, hroot, hp'⟩ := hall.accounted p hp
  obtain rfl : ["a.scss".toList] = root := Except.ok.inj hroot
  exact ⟨p, hp, htargets, hwarnings, hp'⟩

end ClassHints.Package
