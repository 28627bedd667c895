import ClassHints.Service.Basic

/-!
# Calls of the service

Many calls of the service can be under way at once, each of them taking one step after the
other. A call that loads chooses the entry, builds the package from the files as they are then,
and publishes it. A call for candidates takes what is published, and computes its answer from
that. Between two steps of a call, other calls take steps of theirs and files change.
-/

namespace ClassHints.Service

open Files (Path Tree)
open Completion (Candidate Language)

/-- A position in a document that candidates are wanted for. -/
structure Question where
  language : Language
  text : Text
  position : Cursor.Position

/-- What can be asked of the service. -/
inductive Request where
  | load (workspace : Option Path)
  | loadEntry (entry : Path)
  | reload
  | applyChanges (changes : List Change)
  | complete (question : Question)

/-- What a call ends with. -/
inductive Outcome where
  | loaded (package : Package)
  /-- Whether a package was loaded because of changes. -/
  | applied (reloaded : Bool)
  | failed (fault : Fault)
  | answered (candidates : List Candidate)

/-- How far a call has come. -/
inductive Phase where
  | asked
  | chosen (entry : Path)
  | built (entry : Path) (package : Package)
  /-- The answer will be computed from what was published when the call looked. -/
  | looked (question : Question) (published : Option Snapshot)
  | ended (outcome : Outcome)

/-- A call of the service. -/
structure Call where
  request : Request
  phase : Phase

/-- Whether a request makes the service load a package. -/
def Request.loads : Request → Bool
  | load _ | loadEntry _ | reload => true
  | applyChanges changes => !changes.isEmpty
  | complete _ => false

/-- What a request ends with once its package is published. -/
def Request.done (p : Package) : Request → Outcome
  | applyChanges _ => .applied true
  | load _ | loadEntry _ | reload | complete _ => .loaded p

/-- Choose the entry of the published package. -/
def chooseAgain (s : Service) : Phase :=
  match s.published with
  | some snapshot => .chosen snapshot.entry
  | none => .ended (.failed .notLoaded)

/-- The first step of a call. -/
def choose (s : Service) (files : Tree) : Request → Phase
  | .load workspace =>
    match s.locate? files workspace with
    | some entry => .chosen entry
    | none => .ended (.failed (.package (.packageNotFound (workspace.getD []))))
  | .loadEntry entry => .chosen entry
  | .reload => s.chooseAgain
  | .applyChanges changes => if changes.isEmpty then .ended (.applied false) else s.chooseAgain
  | .complete question => .looked question s.published

/-- The answer to a question from what was published at some time. -/
def answer (s : Service) (q : Question) (published : Option Snapshot) : List Candidate :=
  { s with published := published }.complete q.language q.text q.position

/-- One step of a call: how far it has come then, and the service after it. -/
def Call.advance (files : Tree) (s : Service) (call : Call) : Phase × Service :=
  match call.phase with
  | .asked => (s.choose files call.request, s)
  | .chosen entry =>
    match Package.load files entry s.options with
    | .ok p => (.built entry p, s)
    | .error fault => (.ended (.failed (.package fault)), s)
  | .built entry p => (.ended (call.request.done p), s.publish entry p)
  | .looked question published => (.ended (.answered (s.answer question published)), s)
  | .ended outcome => (.ended outcome, s)

/-! ## What one step does -/

/-- The first step of a call that loads chooses an entry or fails. Other calls for changes end
at once, and calls for candidates look at what is published. -/
theorem choose_cases (s : Service) (files : Tree) (request : Request) :
    (request.loads = true ∧
        ((∃ entry, s.choose files request = .chosen entry) ∨
          ∃ fault, s.choose files request = .ended (.failed fault))) ∨
      (request = .applyChanges [] ∧ s.choose files request = .ended (.applied false)) ∨
      ∃ question, request = .complete question ∧
        s.choose files request = .looked question s.published := by
  have hagain : (∃ entry, s.chooseAgain = .chosen entry) ∨
      ∃ fault, s.chooseAgain = .ended (.failed fault) := by
    unfold chooseAgain
    cases s.published with
    | some snapshot => exact Or.inl ⟨snapshot.entry, rfl⟩
    | none => exact Or.inr ⟨.notLoaded, rfl⟩
  cases request with
  | load workspace =>
    refine Or.inl ⟨rfl, ?_⟩
    rw [choose]
    cases s.locate? files workspace with
    | some entry => exact Or.inl ⟨entry, rfl⟩
    | none => exact Or.inr ⟨_, rfl⟩
  | loadEntry entry => exact Or.inl ⟨rfl, Or.inl ⟨entry, rfl⟩⟩
  | reload => exact Or.inl ⟨rfl, hagain⟩
  | applyChanges changes =>
    cases changes with
    | nil => exact Or.inr (Or.inl ⟨rfl, rfl⟩)
    | cons change changes => exact Or.inl ⟨rfl, hagain⟩
  | complete question => exact Or.inr (Or.inr ⟨question, rfl, rfl⟩)

/-- The effects that a step of a call can have. -/
inductive Call.Step (files : Tree) (s : Service) (call : Call) : Phase → Service → Prop where
  | choose {entry : Path} (phase : call.phase = .asked) (loads : call.request.loads = true)
    (chosen : s.choose files call.request = .chosen entry) :
    Step files s call (.chosen entry) s
  | notChosen {fault : Fault} (phase : call.phase = .asked) (loads : call.request.loads = true)
    (failed : s.choose files call.request = .ended (.failed fault)) :
    Step files s call (.ended (.failed fault)) s
  | noChanges (phase : call.phase = .asked) (request : call.request = .applyChanges []) :
    Step files s call (.ended (.applied false)) s
  | look {question : Question} (phase : call.phase = .asked)
    (request : call.request = .complete question) :
    Step files s call (.looked question s.published) s
  | build {entry : Path} {p : Package} (phase : call.phase = .chosen entry)
    (loaded : Package.load files entry s.options = .ok p) : Step files s call (.built entry p) s
  | notBuilt {entry : Path} {fault : Package.Fault} (phase : call.phase = .chosen entry)
    (failed : Package.load files entry s.options = .error fault) :
    Step files s call (.ended (.failed (.package fault))) s
  | publish {entry : Path} {p : Package} (phase : call.phase = .built entry p) :
    Step files s call (.ended (call.request.done p)) (s.publish entry p)
  | answer {question : Question} {published : Option Snapshot}
    (phase : call.phase = .looked question published) :
    Step files s call (.ended (.answered (s.answer question published))) s
  | rest {outcome : Outcome} (phase : call.phase = .ended outcome) :
    Step files s call (.ended outcome) s

/-- Every step of a call has one of the effects. -/
theorem Call.step_advance (files : Tree) (s : Service) (call : Call) :
    call.Step files s (call.advance files s).1 (call.advance files s).2 := by
  unfold advance
  cases hphase : call.phase with
  | asked =>
    rcases s.choose_cases files call.request with ⟨hloads, ⟨entry, h⟩ | ⟨fault, h⟩⟩ |
      ⟨hrequest, h⟩ | ⟨question, hrequest, h⟩
    · rw [h]
      exact .choose hphase hloads h
    · rw [h]
      exact .notChosen hphase hloads h
    · rw [h]
      exact .noChanges hphase hrequest
    · rw [h]
      exact .look hphase hrequest
  | chosen entry =>
    dsimp only
    cases hload : Package.load files entry s.options with
    | ok p => exact .build hphase hload
    | error fault => exact .notBuilt hphase hload
  | built entry p => exact .publish hphase
  | looked question published => exact .answer hphase
  | ended outcome => exact .rest hphase

/-- Only a call that has built a package changes the service: it publishes that package. -/
theorem Call.Step.service_cases {files : Tree} {s s₁ : Service} {call : Call} {phase : Phase}
    (h : call.Step files s phase s₁) :
    s₁ = s ∨ ∃ entry p, call.phase = .built entry p ∧ phase = .ended (call.request.done p) ∧
      s₁ = s.publish entry p := by
  cases h with
  | publish hphase => exact Or.inr ⟨_, _, hphase, rfl, rfl⟩
  | choose | notChosen | noChanges | look | build | notBuilt | answer | rest => exact Or.inl rfl

/-! ## Calls without interruption -/

/-- What the result of a call is as an outcome. -/
def Outcome.of {α : Type} (f : α → Outcome) : Except Fault α → Outcome
  | .ok a => f a
  | .error fault => .failed fault

/-- What the service does if a request is carried out at once. -/
def Request.perform (s : Service) (files : Tree) : Request → Outcome × Service
  | load workspace => (s.load files workspace).map (.of .loaded) id
  | loadEntry entry => (s.loadEntry files entry).map (.of .loaded) id
  | reload => (s.reload files).map (.of .loaded) id
  | applyChanges changes => (s.applyChanges files changes).map (.of .applied) id
  | complete question =>
    (.answered (s.complete question.language question.text question.position), s)

/-- The next step of a call, with the service after it. -/
def Call.next (files : Tree) (c : Call × Service) : Call × Service :=
  (⟨c.1.request, (c.1.advance files c.2).1⟩, (c.1.advance files c.2).2)

/-- Once the entry is chosen, two more steps load and publish the package. -/
theorem Call.next_chosen (files : Tree) (s : Service) (request : Request) (entry : Path) :
    next files (next files (⟨request, .chosen entry⟩, s)) =
      (⟨request, .ended (.of (request.done ·) (s.loadEntry files entry).1)⟩,
        (s.loadEntry files entry).2) := by
  unfold loadEntry
  cases hload : Package.load files entry s.options with
  | ok p =>
    have hbuilt : next files (⟨request, .chosen entry⟩, s) = (⟨request, .built entry p⟩, s) := by
      simp [next, advance, hload]
    rw [hbuilt]
    rfl
  | error fault =>
    have hended : next files (⟨request, .chosen entry⟩, s) =
        (⟨request, .ended (.failed (.package fault))⟩, s) := by
      simp [next, advance, hload]
    rw [hended]
    rfl

/-- A call that is not interrupted takes at most three steps, and does what the service does if
the request is carried out at once. -/
theorem Call.next_asked (files : Tree) (s : Service) (request : Request) :
    next files (next files (next files (⟨request, .asked⟩, s))) =
      (⟨request, .ended (request.perform s files).1⟩, (request.perform s files).2) := by
  have hagain (request : Request) (h : s.choose files request = s.chooseAgain) :
      next files (next files (next files (⟨request, .asked⟩, s))) =
        (⟨request, .ended (.of (request.done ·) (s.reload files).1)⟩, (s.reload files).2) := by
    have hfirst : next files (⟨request, .asked⟩, s) = (⟨request, s.chooseAgain⟩, s) := by
      rw [← h]
      rfl
    rw [hfirst]
    unfold chooseAgain reload
    cases s.published with
    | some snapshot => exact next_chosen files s request snapshot.entry
    | none => rfl
  cases request with
  | load workspace =>
    cases hlocate : s.locate? files workspace with
    | some entry =>
      have hfirst : next files (⟨.load workspace, .asked⟩, s) =
          (⟨.load workspace, .chosen entry⟩, s) := by
        simp [next, advance, choose, hlocate]
      have hload : s.load files workspace = s.loadEntry files entry := by
        simp [Service.load, hlocate]
      rw [hfirst, next_chosen, Request.perform, hload]
      rfl
    | none =>
      have hfirst : next files (⟨.load workspace, .asked⟩, s) = (⟨.load workspace,
          .ended (.failed (.package (.packageNotFound (workspace.getD []))))⟩, s) := by
        simp [next, advance, choose, hlocate]
      have hload : s.load files workspace =
          (.error (.package (.packageNotFound (workspace.getD []))), s) := by
        simp [Service.load, hlocate]
      rw [hfirst, Request.perform, hload]
      rfl
  | loadEntry entry => exact next_chosen files s (.loadEntry entry) entry
  | reload => exact hagain .reload rfl
  | applyChanges changes =>
    cases changes with
    | nil => rfl
    | cons change changes =>
      rw [hagain (.applyChanges (change :: changes)) rfl]
      unfold Request.perform applyChanges
      cases hreload : s.reload files with
      | mk result s₁ => cases result <;> rfl
  | complete question => rfl

/-! ## Interleaved calls -/

/-- The files, the service, and the calls made so far. -/
structure World where
  files : Tree
  service : Service
  calls : List Call

/-- What can happen next. -/
inductive Action where
  /-- The files change, in whatever way. -/
  | change (files : Tree)
  | ask (request : Request)
  /-- The call with a number takes a step. -/
  | advance (id : Nat)

namespace World

/-- What happens next. -/
def step (w : World) : Action → World
  | .change files => { w with files := files }
  | .ask request => { w with calls := w.calls ++ [⟨request, .asked⟩] }
  | .advance id =>
    match w.calls[id]? with
    | some call =>
      { w with
        service := (call.advance w.files w.service).2
        calls := w.calls.set id ⟨call.request, (call.advance w.files w.service).1⟩ }
    | none => w

/-- The world after some actions, when there was nothing but files and settings before. -/
def after (settings : Settings) (files : Tree) (actions : List Action) : World :=
  actions.foldl step ⟨files, .start settings, []⟩

variable {w : World} {id : Nat} {call : Call} {a : Action}

/-- A call that takes a step comes further, and the others stay where they are. -/
theorem step_advance (h : w.calls[id]? = some call) :
    (w.step (.advance id)).service = (call.advance w.files w.service).2 ∧
      (w.step (.advance id)).calls =
        w.calls.set id ⟨call.request, (call.advance w.files w.service).1⟩ := by
  simp [step, h]

/-- The call whose turn it is takes its step. -/
theorem getElem?_step_advance (h : w.calls[id]? = some call) :
    (w.step (.advance id)).calls[id]? =
      some ⟨call.request, (call.advance w.files w.service).1⟩ := by
  have hid := (List.getElem?_eq_some_iff.1 h).1
  rw [(step_advance h).2, List.getElem?_set_self hid]

/-- A call that does not take a step stays where it is. -/
theorem getElem?_step_of_ne (h : w.calls[id]? = some call) (ha : a ≠ .advance id) :
    (w.step a).calls[id]? = some call := by
  cases a with
  | change files => exact h
  | ask request =>
    have hid := (List.getElem?_eq_some_iff.1 h).1
    exact (List.getElem?_append_left hid).trans h
  | advance other =>
    have hne : other ≠ id := fun heq => ha (heq ▸ rfl)
    cases hother : w.calls[other]? with
    | none => simpa [step, hother] using h
    | some call' => rw [(step_advance hother).2, List.getElem?_set_ne hne, h]

/-- Where a call is after something happened: it was asked just then, or took a step, or is
where it was. -/
theorem getElem?_step_cases (h : (w.step a).calls[id]? = some call) :
    call.phase = .asked ∨
      (a ≠ .advance id ∧ w.calls[id]? = some call) ∨
      ∃ before, a = .advance id ∧ w.calls[id]? = some before ∧ call.request = before.request ∧
        call.phase = (before.advance w.files w.service).1 := by
  by_cases ha : a = .advance id
  · subst ha
    cases hcall : w.calls[id]? with
    | none =>
      simp only [step, hcall] at h
      cases h
    | some before =>
      rw [getElem?_step_advance hcall] at h
      obtain rfl := Option.some.inj h
      exact Or.inr (Or.inr ⟨before, rfl, rfl, rfl, rfl⟩)
  · cases hcall : w.calls[id]? with
    | some before =>
      obtain rfl := Option.some.inj ((getElem?_step_of_ne hcall ha).symm.trans h)
      exact Or.inr (Or.inl ⟨ha, rfl⟩)
    | none =>
      refine Or.inl ?_
      have hid := List.getElem?_eq_none_iff.1 hcall
      cases a with
      | change files => cases hcall.symm.trans h
      | ask request =>
        rw [step, List.getElem?_append_right hid, List.getElem?_singleton] at h
        split at h
        · obtain rfl := Option.some.inj h
          rfl
        · cases h
      | advance other =>
        cases hother : w.calls[other]? with
        | none =>
          simp only [step, hother] at h
          cases hcall.symm.trans h
        | some call' =>
          rw [(step_advance hother).2, List.getElem?_eq_none (by simpa using hid)] at h
          cases h

/-- What happens leaves the service as it is, unless a call publishes what it has built. -/
theorem service_step_cases (w : World) (a : Action) :
    (w.step a).service = w.service ∨ ∃ id request entry p, a = .advance id ∧
      w.calls[id]? = some ⟨request, .built entry p⟩ ∧
      (w.step a).service = w.service.publish entry p ∧
      (w.step a).calls[id]? = some ⟨request, .ended (request.done p)⟩ := by
  cases a with
  | change files => exact Or.inl rfl
  | ask request => exact Or.inl rfl
  | advance id =>
    cases hcall : w.calls[id]? with
    | none =>
      refine Or.inl ?_
      simp only [step, hcall]
    | some call =>
      have hservice := (step_advance hcall).1
      have hcalls := getElem?_step_advance hcall
      rcases (call.step_advance w.files w.service).service_cases with hsame |
        ⟨entry, p, hphase, hended, hpublished⟩
      · exact Or.inl (hservice.trans hsame)
      · rw [hended] at hcalls
        exact Or.inr ⟨id, call.request, entry, p, rfl, by rw [hcall, ← hphase],
          hservice.trans hpublished, hcalls⟩

/-- A step of the call that was made last. -/
theorem step_advance_last (files : Tree) (calls : List Call) (c : Call × Service) :
    step ⟨files, c.2, calls ++ [c.1]⟩ (.advance calls.length) =
      ⟨files, (Call.next files c).2, calls ++ [(Call.next files c).1]⟩ := by
  simp [step, Call.next]

/-- Nothing that happens changes the settings. -/
theorem settings_step (w : World) (a : Action) :
    (w.step a).service.settings = w.service.settings := by
  rcases service_step_cases w a with hsame | ⟨id, request, entry, p, -, -, hpublished, -⟩
  · rw [hsame]
  · rw [hpublished]
    rfl

end World

end ClassHints.Service
