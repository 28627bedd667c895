import ClassHints.Proofs.Sheet.Reading

/-!
# The steps of the reader

What one lexeme can do to the reader, as an inductive relation with one case for each effect,
and the induction over a whole run. Every invariant of reading is a case analysis over these
steps.
-/

namespace ClassHints.Sheet

open Text

/-- A computation in two parts that succeeds has succeeded in both. -/
theorem exists_of_bind_eq_ok {ε α β : Type} {x : Except ε α} {f : α → Except ε β} {b : β}
    (h : x >>= f = .ok b) : ∃ a, x = .ok a ∧ f a = .ok b := by
  cases x with
  | error fault => cases h
  | ok a => exact ⟨a, rfl, h⟩

/-- A computation that goes well has a result. -/
theorem exists_of_isOk {ε α : Type} {x : Except ε α} (h : x.isOk = true) : ∃ a, x = .ok a := by
  cases x with
  | error fault => cases h
  | ok a => exact ⟨a, rfl⟩

/-- Whether a token ends a prelude where no group is open. An opening brace right after a
number sign interpolates and ends nothing. -/
def Token.endsPrelude (afterSharp : Bool) : Token → Bool
  | .semicolon | .closing .curly => true
  | .opening .curly => !afterSharp
  | _ => false

/-- A token that starts the prelude of a declaration or rule. -/
def Token.startsPrelude : Token → Bool
  | .opening .round | .opening .square | .closing .round | .closing .square | .sharp | .plain =>
    true
  | _ => false

namespace Prelude

/-- Whether a lexeme ends a prelude. -/
def ends (p : Prelude) (lexeme : Lexeme) : Bool :=
  p.pending.isEmpty && lexeme.token.endsPrelude p.afterSharp

/-- The prelude after a lexeme that does not end it: passed over inside a group, taken
otherwise. -/
def next (p : Prelude) (lexeme : Lexeme) : Prelude :=
  if p.pending.isEmpty then p.take lexeme else p.pass lexeme

end Prelude

namespace Reader

/-- The effects that a lexeme can have on the reader. -/
inductive Step (r : Reader) (lexeme : Lexeme) : Reader → Prop where
  | skip (idle : r.prelude = none) (token : lexeme.token = .blank ∨ lexeme.token = .semicolon) :
    Step r lexeme (r.moved lexeme.text)
  | comment (idle : r.prelude = none) (text : Text) (token : lexeme.token = .comment text) :
    Step r lexeme ((r.settled.push (.comment
      ⟨.block, text, r.spot.mark.to (r.spot.advance lexeme.text).mark⟩)).moved lexeme.text)
  | atWord (idle : r.prelude = none) (name : Text) (token : lexeme.token = .atWord name) :
    Step r lexeme ({ r.settled with
      prelude := some ⟨.atWord name, r.spot.mark, [], [], [], false⟩ }.moved lexeme.text)
  | start (idle : r.prelude = none) (token : lexeme.token.startsPrelude = true) :
    Step r lexeme ({ r.settled with
      prelude := some (Prelude.begin r.spot.mark lexeme) }.moved lexeme.text)
  | close (idle : r.prelude = none) (token : lexeme.token = .closing .curly) (f : Frame)
    (outer : List Frame) (frames : r.frames = f :: outer) :
    Step r lexeme ((r.closeBlock f outer r.spot.mark
      (r.spot.advance lexeme.text).mark).moved lexeme.text)
  | proceed (p : Prelude) (prelude : r.prelude = some p) (continues : p.ends lexeme = false) :
    Step r lexeme ({ r with prelude := some (p.next lexeme) }.moved lexeme.text)
  | finish (p : Prelude) (prelude : r.prelude = some p) (ended : p.ends lexeme = true)
    (token : lexeme.token = .semicolon) :
    Step r lexeme ((r.endStatement p (r.spot.advance lexeme.text).mark).moved lexeme.text)
  | enter (p : Prelude) (prelude : r.prelude = some p) (ended : p.ends lexeme = true)
    (token : lexeme.token = .opening .curly) :
    Step r lexeme ((r.openBlock p).moved lexeme.text)
  | leave (p : Prelude) (prelude : r.prelude = some p) (ended : p.ends lexeme = true)
    (token : lexeme.token = .closing .curly) (f : Frame) (outer : List Frame)
    (frames : r.frames = f :: outer) :
    Step r lexeme (((r.endStatement p r.spot.mark).closeBlock f outer r.spot.mark
      (r.spot.advance lexeme.text).mark).moved lexeme.text)

/-- Between nodes a successful step skips, adds a comment, starts a prelude or closes a block. -/
theorem Step.of_stepIdle {r r' : Reader} {lexeme : Lexeme} (hidle : r.prelude = none)
    (h : r.stepIdle lexeme (r.spot.advance lexeme.text).mark = .ok r') :
    r.Step lexeme { r' with spot := r.spot.advance lexeme.text } := by
  unfold stepIdle at h
  dsimp only at h
  split at h
  case h_1 htoken => cases h; exact .skip hidle (Or.inl htoken)
  case h_2 htoken => cases h; exact .skip hidle (Or.inr htoken)
  case h_3 text htoken => cases h; exact .comment hidle text htoken
  case h_4 name htoken => cases h; exact .atWord hidle name htoken
  case h_5 => cases h
  case h_6 htoken =>
    split at h
    · cases h
    · next f outer hframes => cases h; exact .close hidle htoken f outer hframes
  case h_7 => cases h
  case h_8 bracket hcurly htoken =>
    cases h
    refine .start hidle ?_
    rw [htoken]
    cases bracket with
    | round | square => rfl
    | curly => exact absurd rfl hcurly
  case h_9 bracket hcurly htoken =>
    cases h
    refine .start hidle ?_
    rw [htoken]
    cases bracket with
    | round | square => rfl
    | curly => exact absurd rfl hcurly
  case h_10 htoken => cases h; exact .start hidle (by rw [htoken]; rfl)
  case h_11 htoken => cases h; exact .start hidle (by rw [htoken]; rfl)

/-- Inside a prelude a successful step goes on with it or ends it. -/
theorem Step.of_stepPrelude {r r' : Reader} {p : Prelude} {lexeme : Lexeme}
    (hp : r.prelude = some p)
    (h : r.stepPrelude p lexeme (r.spot.advance lexeme.text).mark = .ok r') :
    r.Step lexeme { r' with spot := r.spot.advance lexeme.text } := by
  unfold stepPrelude at h
  dsimp only at h
  cases hpending : p.pending.isEmpty with
  | false =>
    simp only [hpending, Bool.not_false, if_true, Except.ok.injEq] at h
    subst h
    have hnext : p.next lexeme = p.pass lexeme := by simp [Prelude.next, hpending]
    rw [← hnext]
    exact .proceed p hp (by simp [Prelude.ends, hpending])
  | true =>
    have hnext : p.next lexeme = p.take lexeme := by simp [Prelude.next, hpending]
    simp only [hpending, Bool.not_true, Bool.false_eq_true, if_false, ← hnext] at h
    split at h
    case h_1 htoken =>
      cases h
      exact .finish p hp (by simp [Prelude.ends, hpending, htoken, Token.endsPrelude]) htoken
    case h_2 htoken =>
      split at h
      · next hsharp =>
        cases h
        exact .proceed p hp (by simp [Prelude.ends, htoken, Token.endsPrelude, hsharp])
      · next hsharp =>
        cases h
        exact .enter p hp (by simp [Prelude.ends, hpending, htoken, Token.endsPrelude, hsharp])
          htoken
    case h_3 htoken =>
      split at h
      · cases h
      · next f outer hframes =>
        cases h
        exact .leave p hp (by simp [Prelude.ends, hpending, htoken, Token.endsPrelude]) htoken f
          outer hframes
    case h_4 => cases h
    case h_5 hsemicolon hopening hclosing hbroken =>
      cases h
      refine .proceed p hp ?_
      unfold Prelude.ends Token.endsPrelude
      split <;> simp_all

/-- A successful step has one of the effects. -/
theorem Step.of_step {r r' : Reader} {lexeme : Lexeme} (h : r.step lexeme = .ok r') :
    r.Step lexeme r' := by
  cases hp : r.prelude with
  | none =>
    simp only [step, hp] at h
    obtain ⟨r'', hstep, hmoved⟩ := exists_of_bind_eq_ok h
    obtain rfl := Except.ok.inj hmoved
    exact .of_stepIdle hp hstep
  | some p =>
    simp only [step, hp] at h
    obtain ⟨r'', hstep, hmoved⟩ := exists_of_bind_eq_ok h
    obtain rfl := Except.ok.inj hmoved
    exact .of_stepPrelude hp hstep

section Runs

variable {motive : List Lexeme → Reader → Prop} {all : List Lexeme} {r : Reader}
  (start : motive [] r)
  (step : ∀ done lexeme rest r₁ r₂, all = done ++ lexeme :: rest → motive done r₁ →
    r₁.Step lexeme r₂ → motive (done ++ [lexeme]) r₂)

include start step

/-- A run comes to its end or fails at one lexeme. What holds before the first lexeme and is kept
by every step holds until then. The motive may speak of the lexemes read so far. -/
theorem read_cases : (∃ r', all.foldlM Reader.step r = .ok r' ∧ motive all r') ∨
    ∃ done lexeme rest r' fault, all = done ++ lexeme :: rest ∧ motive done r' ∧
      r'.step lexeme = .error fault ∧ all.foldlM Reader.step r = .error fault := by
  have hrun (rest : List Lexeme) : ∀ done r₁, all = done ++ rest → motive done r₁ →
      (∃ r', rest.foldlM Reader.step r₁ = .ok r' ∧ motive all r') ∨
      ∃ done lexeme behind r' fault, all = done ++ lexeme :: behind ∧ motive done r' ∧
        r'.step lexeme = .error fault ∧ rest.foldlM Reader.step r₁ = .error fault := by
    induction rest with
    | nil =>
      intro done r₁ hall hdone
      rw [List.append_nil] at hall
      exact Or.inl ⟨r₁, rfl, hall ▸ hdone⟩
    | cons lexeme rest ih =>
      intro done r₁ hall hdone
      rw [List.foldlM_cons]
      cases hs : r₁.step lexeme with
      | error fault => exact Or.inr ⟨done, lexeme, rest, r₁, fault, hall, hdone, hs, rfl⟩
      | ok r₂ =>
        apply ih (done ++ [lexeme]) r₂
        · rw [hall, List.append_assoc, List.singleton_append]
        · exact step done lexeme rest r₁ r₂ hall hdone (.of_step hs)
  exact hrun all [] r rfl start

/-- Induction over a run that comes to its end. -/
theorem read_induction {r' : Reader} (h : all.foldlM Reader.step r = .ok r') : motive all r' := by
  rcases read_cases start step with ⟨r'', hread, hall⟩ | ⟨_, _, _, _, fault, -, -, -, hread⟩
  · obtain rfl := Except.ok.inj (h.symm.trans hread)
    exact hall
  · cases h.symm.trans hread

/-- A run that fails does so at one lexeme. -/
theorem exists_step_eq_error {fault : Fault} (h : all.foldlM Reader.step r = .error fault) :
    ∃ done lexeme rest r', all = done ++ lexeme :: rest ∧ motive done r' ∧
      r'.step lexeme = .error fault := by
  rcases read_cases start step with
    ⟨r', hread, -⟩ | ⟨done, lexeme, rest, r', fault', hall, hdone, hs, hread⟩
  · cases h.symm.trans hread
  · obtain rfl := Except.error.inj (h.symm.trans hread)
    exact ⟨done, lexeme, rest, r', hall, hdone, hs⟩

end Runs

end Reader

end ClassHints.Sheet
