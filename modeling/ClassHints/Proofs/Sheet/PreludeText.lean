import ClassHints.Proofs.Sheet.Forest
import ClassHints.Proofs.Sheet.Steps

/-!
# The text of a prelude

A prelude runs up to the semicolon or brace that ends it, or to the end of its block. The text
of its node is cut out of what was taken by then; the bracket group that stands directly before
the end has only been passed over. This file says which text a node should be cut out of and
when the two differ.
-/

namespace ClassHints.Sheet

open Text

namespace Prelude

/-- A prelude before its first lexeme. -/
def empty (head : Head) (start : Mark) : Prelude := ⟨head, start, [], [], [], false⟩

/-- The prelude after the lexemes up to the first one that ends it. -/
def run (p : Prelude) : List Lexeme → Prelude
  | [] => p
  | lexeme :: rest => if p.ends lexeme then p else (p.next lexeme).run rest

/-- The text of the group passed over since the last token taken. -/
def passedText (p : Prelude) : Text := p.passed.reverse.flatten

/-- The whole text of a prelude: what was taken and what was passed over after it. -/
def whole (p : Prelude) : Text := p.text ++ p.passedText

/-- A lexeme does not change how a prelude starts. -/
@[simp]
theorem head_next (p : Prelude) (lexeme : Lexeme) : (p.next lexeme).head = p.head := by
  unfold next
  split <;> rfl

/-- A lexeme does not change where a prelude starts. -/
@[simp]
theorem start_next (p : Prelude) (lexeme : Lexeme) : (p.next lexeme).start = p.start := by
  unfold next
  split <;> rfl

/-- A lexeme adds its text to the whole text of a prelude, taken or passed over. -/
theorem whole_next (p : Prelude) (lexeme : Lexeme) :
    (p.next lexeme).whole = p.whole ++ lexeme.text := by
  unfold next
  split <;> simp [whole, text, passedText, take, pass]

/-- Reading `ls` from the prelude `p` leads to the prelude `q` without ending it. -/
def Reaches (p : Prelude) (ls : List Lexeme) (q : Prelude) : Prop :=
  ∀ rest, p.run (ls ++ rest) = q.run rest

/-- One more lexeme that does not end the prelude is read. -/
theorem Reaches.next {p q : Prelude} {ls : List Lexeme} {lexeme : Lexeme} (h : p.Reaches ls q)
    (hcontinues : q.ends lexeme = false) : p.Reaches (ls ++ [lexeme]) (q.next lexeme) := by
  intro rest
  rw [List.append_assoc, h, List.singleton_append, run, hcontinues]
  rfl

/-- What ends a prelude stops the run: the end of the text, or a lexeme that ends it. -/
def Stops (p : Prelude) (rest : List Lexeme) : Prop := ∀ lexeme ∈ rest.head?, p.ends lexeme = true

/-- What ends a prelude leaves it as it is. -/
theorem Stops.run_eq {p : Prelude} {rest : List Lexeme} (h : p.Stops rest) : p.run rest = p := by
  cases rest with
  | nil => rfl
  | cons lexeme rest => rw [run, h lexeme rfl, if_pos rfl]

/-- A group is passed over only right after the bracket that opens it. -/
def GroupAfterBracket (p : Prelude) : Prop :=
  p.passed ≠ [] ∨ p.pending ≠ [] → ∃ b : Bracket, p.text.getLast? = some b.openChar

/-- A lexeme keeps a group that is passed over right behind its bracket. -/
theorem GroupAfterBracket.next {p : Prelude} {lexeme : Lexeme} (h : p.GroupAfterBracket)
    (hshaped : lexeme.Shaped) : (p.next lexeme).GroupAfterBracket := by
  unfold Prelude.next
  split
  · rintro (hpassed | hpending)
    · exact absurd rfl hpassed
    · cases htoken : lexeme.token with
      | opening b =>
        refine ⟨b, ?_⟩
        have hlast := hshaped.opening b htoken
        simp [text, take, hlast]
      | _ => simp [take, htoken, Token.opened?] at hpending
  · next hpending =>
    exact fun _ => h (Or.inr (by simpa using hpending))

end Prelude

/-- Whether the text passed over adds nothing to a text without comments. -/
def AddsBlanks (taken whole : Text) : Prop :=
  ∃ b, AllBlank b ∧ stripComments whole = stripComments taken ++ b

/-- A group changes what is cut out of a prelude exactly if it has more than blanks and
comments in it. -/
theorem Prelude.GroupAfterBracket.eq_trim_iff {p : Prelude} (h : p.GroupAfterBracket)
    {field : Text} (hfield : field = trim (stripComments p.text)) :
    field = trim (stripComments p.whole) ↔ AddsBlanks p.text p.whole := by
  have hprefix : ∃ v, stripComments p.whole = stripComments p.text ++ v := by
    by_cases hpassed : p.passed = []
    · exact ⟨[], by simp [whole, passedText, hpassed]⟩
    · obtain ⟨b, hlast⟩ := h (Or.inl hpassed)
      apply exists_stripComments_append
      intro c hc
      rw [hlast] at hc
      obtain rfl := Option.some.inj hc
      cases b <;> decide
  rw [hfield]
  constructor
  · intro htrim
    obtain ⟨v, hv⟩ := hprefix
    refine ⟨v, ?_, hv⟩
    rw [hv] at htrim
    exact trim_append_eq_iff.1 htrim.symm
  · rintro ⟨b, hblank, hb⟩
    rw [hb, trim_append_right _ hblank]

end ClassHints.Sheet
