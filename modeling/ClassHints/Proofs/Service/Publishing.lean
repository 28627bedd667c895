import ClassHints.Proofs.Package.LoadedModules
import ClassHints.Proofs.Service.Calls

/-!
# What interleaved calls publish

However calls are interleaved and files change, what is published is a package together with
the entry that one call loaded it from. Every call that has come somewhere took a step to get
there, and what the step did is told by the world at that time.
-/

namespace ClassHints.Service.World

open Files (Path Tree)

section

variable {settings : Settings} {files : Tree} {actions : List Action} {id : Nat} {call : Call}
  {request : Request}

/-- After one more action the world has made one more step. -/
theorem after_snoc (settings : Settings) (files : Tree) (actions : List Action) (a : Action) :
    after settings files (actions ++ [a]) = (after settings files actions).step a := by
  simp [after]

/-- The settings are those that the service was made with. -/
theorem settings_after (settings : Settings) (files : Tree) (actions : List Action) :
    (after settings files actions).service.settings = settings := by
  induction actions using List.reverseRecOn with
  | nil => rfl
  | append_singleton actions a ih => rw [after_snoc, settings_step, ih]

/-- Packages are loaded with the extension of the settings, and under no other name. -/
theorem options_after (settings : Settings) (files : Tree) (actions : List Action) :
    (after settings files actions).service.options = ⟨settings.package.extension, none⟩ := by
  rw [options, settings_after]

/-- After the actions `before`, a call that was not at its end took a step to where it is now. -/
structure Took (settings : Settings) (files : Tree) (before : List Action) (id : Nat)
    (old call : Call) : Prop where
  found : (after settings files before).calls[id]? = some old
  request : old.request = call.request
  going : ∀ outcome, old.phase ≠ .ended outcome
  step : old.Step (after settings files before).files (after settings files before).service
    call.phase (after settings files (before ++ [.advance id])).service

/-- A call that is no longer where it began took a step to where it is. -/
theorem exists_took (h : (after settings files actions).calls[id]? = some call)
    (hphase : call.phase ≠ .asked) :
    ∃ before later old, actions = before ++ .advance id :: later ∧
      Took settings files before id old call := by
  induction actions using List.reverseRecOn with
  | nil => simp [after] at h
  | append_singleton actions a ih =>
    have hearlier (h : (after settings files actions).calls[id]? = some call) :
        ∃ before later old, actions ++ [a] = before ++ .advance id :: later ∧
          Took settings files before id old call := by
      obtain ⟨before, later, old, rfl, htook⟩ := ih h
      exact ⟨before, later ++ [a], old, by simp, htook⟩
    rw [after_snoc] at h
    rcases getElem?_step_cases h with hasked | ⟨-, hsame⟩ | ⟨old, rfl, hold, hrequest, hnew⟩
    · exact absurd hasked hphase
    · exact hearlier hsame
    · by_cases hended : ∃ outcome, old.phase = .ended outcome
      · -- a call at its end stays where it is
        obtain ⟨outcome, houtcome⟩ := hended
        have hsame : call = old := by
          obtain ⟨request, phase⟩ := call
          obtain ⟨request', phase'⟩ := old
          obtain rfl : phase' = .ended outcome := houtcome
          rw [Call.mk.injEq]
          exact ⟨hrequest, hnew⟩
        exact hearlier (hsame ▸ hold)
      · refine ⟨actions, [], old, rfl, hold, hrequest.symm, not_exists.1 hended, ?_⟩
        rw [hnew, after_snoc, (step_advance hold).1]
        exact old.step_advance _ _

/-- A call that has ended stays ended. -/
theorem ended_after {outcome : Outcome}
    (h : (after settings files actions).calls[id]? = some ⟨request, .ended outcome⟩)
    (more : List Action) :
    (after settings files (actions ++ more)).calls[id]? = some ⟨request, .ended outcome⟩ := by
  induction more using List.reverseRecOn with
  | nil => rwa [List.append_nil]
  | append_singleton more a ih =>
    rw [← List.append_assoc, after_snoc]
    by_cases ha : a = .advance id
    · rw [ha, getElem?_step_advance ih]
      rfl
    · exact getElem?_step_of_ne ih ha

/-! ## Loading -/

/-- A call that has built a package did so when its entry was chosen, from the files as they were
then. -/
theorem exists_build {entry : Path} {p : Package}
    (h : (after settings files actions).calls[id]? = some ⟨request, .built entry p⟩) :
    ∃ before later, actions = before ++ .advance id :: later ∧
      (after settings files before).calls[id]? = some ⟨request, .chosen entry⟩ ∧
      Package.load (after settings files before).files entry
        ⟨settings.package.extension, none⟩ = .ok p := by
  obtain ⟨before, later, ⟨_, phase⟩, rfl, hold, rfl, -, hstep⟩ := exists_took h nofun
  generalize (after settings files (before ++ [.advance id])).service = s₁ at hstep
  cases hstep with
  | build hchosen hload =>
    obtain rfl : phase = .chosen entry := hchosen
    rw [options_after] at hload
    exact ⟨before, later, rfl, hold, hload⟩

/-- Only calls that load choose an entry. -/
theorem loads_of_chosen {entry : Path}
    (h : (after settings files actions).calls[id]? = some ⟨request, .chosen entry⟩) :
    request.loads = true := by
  obtain ⟨before, later, old, -, -, rfl, -, hstep⟩ := exists_took h nofun
  generalize (after settings files (before ++ [.advance id])).service = s₁ at hstep
  cases hstep with
  | choose _ hloads => exact hloads

/-- A call that does not load never has an entry chosen or a package built. -/
theorem phase_of_not_loads {phase : Phase}
    (h : (after settings files actions).calls[id]? = some ⟨request, phase⟩)
    (hloads : request.loads = false) :
    (∀ entry, phase ≠ .chosen entry) ∧ ∀ entry p, phase ≠ .built entry p := by
  constructor
  · rintro entry rfl
    rw [loads_of_chosen h] at hloads
    cases hloads
  · rintro entry p rfl
    obtain ⟨before, later, -, hchosen, -⟩ := exists_build h
    rw [loads_of_chosen hchosen] at hloads
    cases hloads

/-- A call that does not load leaves the service as it is. -/
theorem service_after_of_not_loads {phase : Phase}
    (h : (after settings files actions).calls[id]? = some ⟨request, phase⟩)
    (hloads : request.loads = false) :
    (after settings files (actions ++ [.advance id])).service =
      (after settings files actions).service := by
  rw [after_snoc]
  rcases service_step_cases (after settings files actions) (.advance id) with hsame |
    ⟨id', request', entry, p, hid, hbuilt, -⟩
  · exact hsame
  · obtain rfl := Action.advance.inj hid
    obtain ⟨rfl, rfl⟩ := Call.mk.inj (Option.some.inj (h.symm.trans hbuilt))
    exact absurd rfl ((phase_of_not_loads h hloads).2 entry p)

/-- A call that fails in the end leaves the service as it is all the time. -/
theorem service_after_of_failed {before later : List Action} {fault : Fault}
    (h : (after settings files (before ++ .advance id :: later)).calls[id]? =
      some ⟨request, .ended (.failed fault)⟩) :
    (after settings files (before ++ [.advance id])).service =
      (after settings files before).service := by
  rw [after_snoc]
  rcases service_step_cases (after settings files before) (.advance id) with hsame |
    ⟨id', request', entry, p, hid, -, -, hended⟩
  · exact hsame
  · -- a call that publishes has succeeded for good
    obtain rfl := Action.advance.inj hid
    rw [← after_snoc] at hended
    have hlater := ended_after hended later
    rw [List.append_assoc, List.singleton_append, h] at hlater
    obtain ⟨-, hphase⟩ := Call.mk.inj (Option.some.inj hlater)
    cases request' <;> cases hphase

/-! ## Publishing -/

/-- How a call came to publish a snapshot: it had chosen the entry after the actions `before`,
built the package in its next step, and still had it when `between` was over. -/
structure Publication (settings : Settings) (files : Tree) (id : Nat) (request : Request)
    (before between : List Action) (snapshot : Snapshot) : Prop where
  chosen : (after settings files before).calls[id]? = some ⟨request, .chosen snapshot.entry⟩
  /-- The package is what the entry loaded to, from the files as they were at that step. -/
  loaded : Package.load (after settings files before).files snapshot.entry
    ⟨settings.package.extension, none⟩ = .ok snapshot.package
  /-- The entry module has the file that the entry led to at that step. -/
  rooted : ∃ file, (after settings files before).files.resolve snapshot.entry = .ok file ∧
    snapshot.package.root?.map Model.Module.file = some file
  built : (after settings files (before ++ .advance id :: between)).calls[id]? =
    some ⟨request, .built snapshot.entry snapshot.package⟩

/-- What is published was published by one call, and nothing was published since. -/
theorem exists_publication {snapshot : Snapshot}
    (h : (after settings files actions).service.published = some snapshot) :
    ∃ id request before between later,
      actions = before ++ .advance id :: (between ++ .advance id :: later) ∧
      Publication settings files id request before between snapshot ∧
      (after settings files actions).service =
        (after settings files (before ++ .advance id :: (between ++ [.advance id]))).service := by
  induction actions using List.reverseRecOn with
  | nil => cases h
  | append_singleton actions a ih =>
    rw [after_snoc] at h ⊢
    rcases service_step_cases (after settings files actions) a with hsame |
      ⟨id, request, entry, p, rfl, hbuilt, hpublished, -⟩
    · rw [hsame] at h ⊢
      obtain ⟨id, request, before, between, later, rfl, hpub, hservice⟩ := ih h
      exact ⟨id, request, before, between, later ++ [a], by simp, hpub, hservice⟩
    · rw [hpublished] at h
      obtain rfl : (⟨entry, p⟩ : Snapshot) = snapshot := Option.some.inj h
      obtain ⟨before, between, rfl, hchosen, hload⟩ := exists_build hbuilt
      refine ⟨id, request, before, between, [], by simp,
        ⟨hchosen, hload, Package.root?_of_load hload, hbuilt⟩, ?_⟩
      rw [← after_snoc, List.append_assoc, List.cons_append]

/-! ## Completing -/

/-- A call for candidates ends with an answer from what was published when it looked. -/
theorem exists_look {question : Question} {outcome : Outcome}
    (h : (after settings files actions).calls[id]? =
      some ⟨.complete question, .ended outcome⟩) :
    ∃ before between later, actions = before ++ .advance id :: (between ++ .advance id :: later) ∧
      (after settings files before).calls[id]? = some ⟨.complete question, .asked⟩ ∧
      outcome = .answered ((after settings files before).service.complete question.language
        question.text question.position) := by
  obtain ⟨middle, later, ⟨request, phase⟩, rfl, hold, hrequest, hgoing, hstep⟩ :=
    exists_took h nofun
  obtain rfl : request = .complete question := hrequest
  obtain ⟨hunchosen, hunbuilt⟩ := phase_of_not_loads hold rfl
  generalize (after settings files (middle ++ [.advance id])).service = s₁ at hstep
  cases hstep with
  | answer hphase =>
    obtain rfl : phase = _ := hphase
    obtain ⟨before, between, ⟨_, phase⟩, rfl, hasked, rfl, -, hlook⟩ := exists_took hold nofun
    generalize (after settings files (before ++ [.advance id])).service = s₁ at hlook
    cases hlook with
    | look hphase hrequest =>
      obtain rfl : phase = .asked := hphase
      obtain rfl := Request.complete.inj hrequest
      refine ⟨before, between, later, by simp, hasked, ?_⟩
      rw [answer, complete, complete, settings_after, settings_after]
  | notChosen _ hloads => cases hloads
  | noChanges _ hrequest => cases hrequest
  | notBuilt hphase => exact absurd hphase (hunchosen _)
  | publish hphase => exact absurd hphase (hunbuilt _ _)
  | rest hphase => exact absurd hphase (hgoing _)

/-- A call that is not interrupted does what the service does. -/
theorem after_uninterrupted (settings : Settings) (files : Tree) (actions : List Action)
    (request : Request) :
    let w := after settings files actions
    after settings files (actions ++ .ask request :: List.replicate 3 (.advance w.calls.length)) =
      ⟨w.files, (request.perform w.service w.files).2,
        w.calls ++ [⟨request, .ended (request.perform w.service w.files).1⟩]⟩ := by
  intro w
  have hsteps : after settings files
      (actions ++ .ask request :: List.replicate 3 (.advance w.calls.length)) =
      (((w.step (.ask request)).step (.advance w.calls.length)).step
        (.advance w.calls.length)).step (.advance w.calls.length) := by
    simp [w, after, List.replicate]
  have hasked : w.step (.ask request) = ⟨w.files, w.service, w.calls ++ [⟨request, .asked⟩]⟩ := rfl
  rw [hsteps, hasked, step_advance_last w.files w.calls (⟨request, .asked⟩, w.service),
    step_advance_last, step_advance_last, Call.next_asked]

/-! ## Interleaved calls -/

/-- What holds after any actions: calls that are interleaved, and files that change. -/
structure Consistent (settings : Settings) (files : Tree) (actions : List Action) : Prop where
  /-- What is published is a package with the entry that one call loaded it from. The service,
  which counts what is published, is as that call left it. -/
  published : ∀ snapshot, (after settings files actions).service.published = some snapshot →
    ∃ id request before between later,
      actions = before ++ .advance id :: (between ++ .advance id :: later) ∧
      Publication settings files id request before between snapshot ∧
      (after settings files actions).service =
        (after settings files (before ++ .advance id :: (between ++ [.advance id]))).service
  /-- No step of a call that failed has changed the service. -/
  failed : ∀ id request fault before later, actions = before ++ .advance id :: later →
    (after settings files actions).calls[id]? = some ⟨request, .ended (.failed fault)⟩ →
    (after settings files (before ++ [.advance id])).service =
      (after settings files before).service
  /-- No step of a call without changes does either. -/
  unchanged : ∀ id phase,
    (after settings files actions).calls[id]? = some ⟨.applyChanges [], phase⟩ →
    (after settings files (actions ++ [.advance id])).service =
      (after settings files actions).service
  /-- A call for candidates ends with the answer of the service as it was when the call looked
  at what is published. -/
  answered : ∀ id question outcome,
    (after settings files actions).calls[id]? = some ⟨.complete question, .ended outcome⟩ →
    ∃ before between later, actions = before ++ .advance id :: (between ++ .advance id :: later) ∧
      (after settings files before).calls[id]? = some ⟨.complete question, .asked⟩ ∧
      outcome = .answered ((after settings files before).service.complete question.language
        question.text question.position)
  /-- A call that is not interrupted does what the service does. -/
  alone : ∀ request w, after settings files actions = w →
    after settings files (actions ++ .ask request :: List.replicate 3 (.advance w.calls.length)) =
      ⟨w.files, (request.perform w.service w.files).2,
        w.calls ++ [⟨request, .ended (request.perform w.service w.files).1⟩]⟩

/-- What the service publishes is consistent, however calls are interleaved. -/
theorem consistent_after (settings : Settings) (files : Tree) (actions : List Action) :
    Consistent settings files actions where
  published _ h := exists_publication h
  failed id request fault before later hactions h := by
    rw [hactions] at h
    exact service_after_of_failed h
  unchanged _ _ h := service_after_of_not_loads h rfl
  answered _ _ _ h := exists_look h
  alone request w hw := by
    rw [← hw]
    exact after_uninterrupted settings files actions request

/-- Two stylesheets with nothing in them. -/
def twoSheets : Tree :=
  ⟨[(["a.scss".toList], .file (.text [])), (["b.scss".toList], .file (.text []))]⟩

/-- Two entries are loaded at once and published in the other order. Then the files are gone,
and a call to load again fails. -/
def overlapping (first second : Path) : List Action :=
  [.ask (.loadEntry first), .ask (.loadEntry second), .advance 0, .advance 1, .advance 0,
    .advance 1, .advance 1, .advance 0, .change .empty, .ask .reload, .advance 2, .advance 2]

/-- The entry that was published last stays published. -/
theorem consistent_after_overlapping :
    (after {} twoSheets (overlapping "/a.scss".toList "/b.scss".toList)).service.published.map
        Snapshot.entry = some "/a.scss".toList ∧
      Consistent {} twoSheets (overlapping "/a.scss".toList "/b.scss".toList) := by
  have hload (entry : Path) (file : Files.Place) (hfile : twoSheets.resolve entry = .ok file)
      (hread : twoSheets.read file = .ok []) :
      ∃ p, Package.load twoSheets entry ⟨"scss".toList, none⟩ = .ok p := by
    have hmodules : Package.loadModules twoSheets entry ⟨"scss".toList, none⟩ =
        .ok (.first ⟨"scss".toList, none⟩ file) :=
      Package.loadModules_eq_ok_iff.2 ⟨file, [], [], hfile, hread, by rfl,
        Package.runTasks_eq_ok_iff.2 .refl⟩
    exact ⟨_, Package.load_eq_ok_iff.2 ⟨_, hmodules, rfl⟩⟩
  have hpublished (settings : Settings) (files : Tree) (a b : Path) (p q : Package)
      (fault : Package.Fault)
      (ha : Package.load files a ⟨settings.package.extension, none⟩ = .ok p)
      (hb : Package.load files b ⟨settings.package.extension, none⟩ = .ok q)
      (hgone : Package.load .empty a ⟨settings.package.extension, none⟩ = .error fault) :
      (after settings files (overlapping a b)).service.published = some ⟨a, p⟩ := by
    simp [after, overlapping, step, Call.advance, choose, chooseAgain, start, options, publish, ha,
      hb, hgone]
  obtain ⟨p, hp⟩ := hload "/a.scss".toList ["a.scss".toList] rfl rfl
  obtain ⟨q, hq⟩ := hload "/b.scss".toList ["b.scss".toList] rfl rfl
  refine ⟨?_, consistent_after {} twoSheets _⟩
  rw [hpublished {} twoSheets _ _ p q (.io "/a.scss".toList .missing) hp hq rfl]
  rfl

end

end ClassHints.Service.World
