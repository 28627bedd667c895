import ClassHints.Package.Loader
import Mathlib.Logic.Relation

/-!
# The tasks of the loader

What one task can do, as an inductive relation with one case for each effect, and the induction
over all tasks. A task changes what is loaded so far and may bring tasks of its own, which come
before all others. No sequence of tasks goes on forever.
-/

namespace ClassHints.Package

open Files (Place Tree)

/-- The place of the file that a task follows an import to. -/
def Task.place? (tree : Tree) (extension : Text) (task : Task) : Option Place :=
  match task.work with
  | .follow path => importPlace? tree path (Place.path task.file.dropLast) extension
  | .variable _ | .mixin .. => none

/-- The effects that a task can have: what is loaded after it, and the tasks it brings. -/
inductive Task.Step (tree : Tree) (extension : Text) (s : Loading) (task : Task) :
    Loading → List Task → Prop where
  | addVariable (v : Model.Variable) (work : task.work = .variable v) :
    Step tree extension s task (s.addVariable task.owner v) []
  | addMixin (params : Text) (body : List Sheet.Node) (description : Option Text)
    (work : task.work = .mixin params body description) :
    Step tree extension s task (s.addMixin task.owner params body description) []
  | unresolved (path : Text) (work : task.work = .follow path)
    (place : task.place? tree extension = none) :
    Step tree extension s task (s.warn (.importNotResolved path task.file)) []
  | known (path : Text) (target : Place) (id : Nat) (work : task.work = .follow path)
    (place : task.place? tree extension = some target)
    (found : s.moduleAt? target = some id) :
    Step tree extension s task (s.addImport task.owner id) []
  | unreadable (path : Text) (target : Place) (reason : Files.Failure)
    (work : task.work = .follow path)
    (place : task.place? tree extension = some target) (new : s.moduleAt? target = none)
    (failed : tree.read target = .error reason) :
    Step tree extension s task (s.warn (.unreadableImport target reason)) []
  | fresh (path : Text) (target : Place) (text : Text) (nodes : List Sheet.Node)
    (work : task.work = .follow path) (place : task.place? tree extension = some target)
    (new : s.moduleAt? target = none) (read : tree.read target = .ok text)
    (parsed : Sheet.parse text = .ok nodes) :
    Step tree extension s task
      ((s.addModule path target).addImport task.owner s.library.modules.size)
      (tasksOf s.library.modules.size target nodes)

/-- A task fails: it follows an import to a file that is new and cannot be parsed. -/
structure Task.Fails (tree : Tree) (extension : Text) (s : Loading) (task : Task) (target : Place)
    (fault : Sheet.Fault) : Prop where
  place : task.place? tree extension = some target
  new : s.moduleAt? target = none
  broken : ∃ text, tree.read target = .ok text ∧ Sheet.parse text = .error fault

/-- Every task has one of the effects or fails. -/
theorem Task.step_or_fails (tree : Tree) (extension : Text) (s : Loading) (task : Task) :
    (∃ s₁ more, task.Step tree extension s s₁ more) ∨
      ∃ target fault, task.Fails tree extension s target fault := by
  cases hwork : task.work with
  | «variable» v => exact Or.inl ⟨_, _, .addVariable v hwork⟩
  | mixin params body description => exact Or.inl ⟨_, _, .addMixin params body description hwork⟩
  | follow path =>
    cases hplace : task.place? tree extension with
    | none => exact Or.inl ⟨_, _, .unresolved path hwork hplace⟩
    | some target =>
      cases hfound : s.moduleAt? target with
      | some id => exact Or.inl ⟨_, _, .known path target id hwork hplace hfound⟩
      | none =>
        cases hread : tree.read target with
        | error reason =>
          exact Or.inl ⟨_, _, .unreadable path target reason hwork hplace hfound hread⟩
        | ok text =>
          cases hparsed : Sheet.parse text with
          | error fault => exact Or.inr ⟨target, fault, hplace, hfound, text, hread, hparsed⟩
          | ok nodes =>
            exact Or.inl ⟨_, _, .fresh path target text nodes hwork hplace hfound hread hparsed⟩

/-- A task with a known effect can be done first. -/
theorem Task.Step.runTasks_eq {tree : Tree} {extension : Text} {s s₁ : Loading} {task : Task}
    {more : List Task} (h : task.Step tree extension s s₁ more) (tasks : List Task) :
    runTasks tree extension s (task :: tasks) = runTasks tree extension s₁ (more ++ tasks) := by
  obtain ⟨owner, file, work⟩ := task
  rw [runTasks.eq_def tree extension s]
  -- the lookups are split, not rewritten: the loop keeps their equations for its termination
  cases h with
  | addVariable v hwork =>
    obtain rfl : work = .variable v := hwork
    rfl
  | addMixin params body description hwork =>
    obtain rfl : work = .mixin params body description := hwork
    rfl
  | unresolved path hwork hplace =>
    obtain rfl : work = .follow path := hwork
    simp only [Task.place?] at hplace
    simp only [hplace]
    rfl
  | known path target id hwork hplace hfound =>
    obtain rfl : work = .follow path := hwork
    simp only [Task.place?] at hplace
    simp only [hplace]
    split
    · next id' hid =>
      obtain rfl := Option.some.inj (hfound.symm.trans hid)
      rfl
    · next hnone =>
      rw [hfound] at hnone
      cases hnone
  | unreadable path target reason hwork hplace hnew hfailed =>
    obtain rfl : work = .follow path := hwork
    simp only [Task.place?] at hplace
    simp only [hplace]
    split
    · next id hid =>
      rw [hnew] at hid
      cases hid
    · split
      · next reason' hreason =>
        obtain rfl := Except.error.inj (hfailed.symm.trans hreason)
        rfl
      · next text hread =>
        rw [hfailed] at hread
        cases hread
  | fresh path target text nodes hwork hplace hnew hread hparsed =>
    obtain rfl : work = .follow path := hwork
    simp only [Task.place?] at hplace
    simp only [hplace]
    split
    · next id hid =>
      rw [hnew] at hid
      cases hid
    · split
      · next reason hreason =>
        rw [hread] at hreason
        cases hreason
      · next text' htext =>
        obtain rfl := Except.ok.inj (hread.symm.trans htext)
        simp only [hparsed]

/-- A task that fails ends the load. -/
theorem Task.Fails.runTasks_eq {tree : Tree} {extension : Text} {s : Loading} {task : Task}
    {target : Place} {fault : Sheet.Fault} (h : task.Fails tree extension s target fault)
    (tasks : List Task) :
    runTasks tree extension s (task :: tasks) = .error (.parse target.path fault) := by
  obtain ⟨hplace, hnew, text, hread, hparsed⟩ := h
  obtain ⟨owner, file, work⟩ := task
  rw [runTasks.eq_def tree extension s]
  cases work with
  | «variable» v => cases hplace
  | mixin params body description => cases hplace
  | follow path =>
    simp only [Task.place?] at hplace
    simp only [hplace]
    split
    · next id hid =>
      rw [hnew] at hid
      cases hid
    · split
      · next reason hreason =>
        rw [hread] at hreason
        cases hreason
      · next text' htext =>
        obtain rfl := Except.ok.inj (hread.symm.trans htext)
        simp only [hparsed]

/-! ## Every load ends -/

/-- One task done: the tasks it brings come before the others. -/
inductive Next (tree : Tree) (extension : Text) :
    Loading × List Task → Loading × List Task → Prop where
  | task {s s₁ : Loading} {task : Task} {tasks more : List Task}
    (step : task.Step tree extension s s₁ more) :
    Next tree extension (s, task :: tasks) (s₁, more ++ tasks)

/-- A task leaves fewer files unread, or as many and fewer tasks. -/
theorem Task.Step.decreases {tree : Tree} {extension : Text} {s s₁ : Loading} {task : Task}
    {more : List Task} (h : task.Step tree extension s s₁ more) :
    (s₁.unread tree).length < (s.unread tree).length ∨
      s₁.unread tree = s.unread tree ∧ more = [] := by
  cases h with
  | addVariable v hwork => exact Or.inr ⟨Loading.unread_congr (Loading.files_addVariable ..), rfl⟩
  | addMixin params body description hwork =>
    exact Or.inr ⟨Loading.unread_congr (Loading.files_addMixin ..), rfl⟩
  | unresolved path hwork hplace =>
    exact Or.inr ⟨Loading.unread_congr (Loading.files_warn ..), rfl⟩
  | known path target id hwork hplace hfound =>
    exact Or.inr ⟨Loading.unread_congr (Loading.files_addImport ..), rfl⟩
  | unreadable path target reason hwork hplace hnew hfailed =>
    exact Or.inr ⟨Loading.unread_congr (Loading.files_warn ..), rfl⟩
  | fresh path target text nodes hwork hplace hnew hread hparsed =>
    rw [Loading.unread_congr (Loading.files_addImport ..)]
    exact Or.inl (Loading.length_unread_addModule (Loading.not_mem_files_of_moduleAt? hnew) hread)

/-- No sequence of tasks goes on forever. -/
theorem wellFounded_next (tree : Tree) (extension : Text) :
    WellFounded fun c' c => Next tree extension c c' := by
  have hlex : WellFounded (Prod.Lex (· < ·) (· < ·) : Nat × Nat → Nat × Nat → Prop) :=
    (Prod.lex Nat.lt_wfRel Nat.lt_wfRel).wf
  refine Subrelation.wf ?_ (InvImage.wf (fun c : Loading × List Task =>
    ((c.1.unread tree).length, c.2.length)) hlex)
  rintro c' c ⟨hstep⟩
  rcases hstep.decreases with hless | ⟨hsame, rfl⟩
  · exact Prod.Lex.left _ _ hless
  · unfold InvImage
    dsimp only
    rw [hsame]
    exact Prod.Lex.right _ (by simp)

/-- Induction over tasks: the cases are that none is left, that the first fails, and that the
first has an effect and the others remain. -/
theorem tasks_induction (tree : Tree) (extension : Text) {motive : Loading → List Task → Prop}
    (done : ∀ s, motive s [])
    (fails : ∀ s task tasks target fault, Task.Fails tree extension s task target fault →
      motive s (task :: tasks))
    (step : ∀ s task tasks s₁ more, task.Step tree extension s s₁ more →
      motive s₁ (more ++ tasks) → motive s (task :: tasks)) (s : Loading) (tasks : List Task) :
    motive s tasks := by
  have hall (c : Loading × List Task) : motive c.1 c.2 := by
    induction c using (wellFounded_next tree extension).induction with
    | _ c ih =>
      obtain ⟨s, tasks⟩ := c
      cases tasks with
      | nil => exact done s
      | cons task tasks =>
        rcases task.step_or_fails tree extension s with ⟨s₁, more, hstep⟩ | ⟨target, fault, hfails⟩
        · exact step s task tasks s₁ more hstep (ih (s₁, more ++ tasks) ⟨hstep⟩)
        · exact fails s task tasks target fault hfails
  exact hall (s, tasks)

/-- Induction from the result back: what holds of the result without tasks, and of a state
before a task if it holds after it, holds of every state that leads to the result. -/
theorem runTasks_induction {tree : Tree} {extension : Text} {s' : Loading}
    {motive : Loading → List Task → Prop} (done : motive s' [])
    (step : ∀ s task tasks s₁ more, task.Step tree extension s s₁ more →
      runTasks tree extension s₁ (more ++ tasks) = .ok s' → motive s₁ (more ++ tasks) →
      motive s (task :: tasks)) {s : Loading} {tasks : List Task}
    (h : runTasks tree extension s tasks = .ok s') : motive s tasks := by
  refine tasks_induction tree extension (motive := fun s tasks =>
    runTasks tree extension s tasks = .ok s' → motive s tasks) ?_ ?_ ?_ s tasks h
  · intro s hrun
    rw [runTasks] at hrun
    obtain rfl := Except.ok.inj hrun
    exact done
  · intro s task tasks target fault hfails hrun
    rw [hfails.runTasks_eq] at hrun
    cases hrun
  · intro s task tasks s₁ more hstep ih hrun
    rw [hstep.runTasks_eq] at hrun
    exact step s task tasks s₁ more hstep hrun (ih hrun)

/-- What holds at the start and is kept by every task holds when all tasks are done. -/
theorem runTasks_invariant {tree : Tree} {extension : Text} {s s' : Loading} {tasks : List Task}
    {motive : Loading → List Task → Prop} (start : motive s tasks)
    (step : ∀ s task tasks s₁ more, task.Step tree extension s s₁ more →
      motive s (task :: tasks) → motive s₁ (more ++ tasks))
    (h : runTasks tree extension s tasks = .ok s') : motive s' [] := by
  refine runTasks_induction (motive := fun s tasks => motive s tasks → motive s' []) id ?_ h start
  intro s task tasks s₁ more hstep _ ih hbefore
  exact ih (step s task tasks s₁ more hstep hbefore)

/-- The result of all tasks is the state that one task after the other leads to. -/
theorem runTasks_eq_ok_iff {tree : Tree} {extension : Text} {s s' : Loading}
    {tasks : List Task} : runTasks tree extension s tasks = .ok s' ↔
      Relation.ReflTransGen (Next tree extension) (s, tasks) (s', []) := by
  constructor
  · intro h
    refine runTasks_induction (motive := fun s tasks =>
      Relation.ReflTransGen (Next tree extension) (s, tasks) (s', [])) .refl ?_ h
    intro s task tasks s₁ more hstep _ ih
    exact .head ⟨hstep⟩ ih
  · intro h
    have hall (c : Loading × List Task)
        (hc : Relation.ReflTransGen (Next tree extension) c (s', [])) :
        runTasks tree extension c.1 c.2 = .ok s' := by
      induction hc using Relation.ReflTransGen.head_induction_on with
      | refl => rw [runTasks]
      | head hnext _ ih =>
        obtain ⟨hstep⟩ := hnext
        rw [hstep.runTasks_eq]
        exact ih
    exact hall _ h

/-- The fault of a load is the fault of a task that one task after the other leads to. -/
theorem exists_fails_of_runTasks {tree : Tree} {extension : Text} {s : Loading}
    {tasks : List Task} {fault : Fault} (h : runTasks tree extension s tasks = .error fault) :
    ∃ s₁ task rest target reason,
      Relation.ReflTransGen (Next tree extension) (s, tasks) (s₁, task :: rest) ∧
      Task.Fails tree extension s₁ task target reason ∧ fault = .parse target.path reason := by
  refine tasks_induction tree extension (motive := fun s tasks =>
    runTasks tree extension s tasks = .error fault → ∃ s₁ task rest target reason,
      Relation.ReflTransGen (Next tree extension) (s, tasks) (s₁, task :: rest) ∧
      Task.Fails tree extension s₁ task target reason ∧ fault = .parse target.path reason)
    ?_ ?_ ?_ s tasks h
  · intro s hrun
    rw [runTasks] at hrun
    cases hrun
  · intro s task tasks target reason hfails hrun
    rw [hfails.runTasks_eq] at hrun
    exact ⟨s, task, tasks, target, reason, .refl, hfails, (Except.error.inj hrun).symm⟩
  · intro s task tasks s₁ more hstep ih hrun
    rw [hstep.runTasks_eq] at hrun
    obtain ⟨s₂, task', rest, target, reason, hreach, hend⟩ := ih hrun
    exact ⟨s₂, task', rest, target, reason, .head ⟨hstep⟩ hreach, hend⟩

end ClassHints.Package
