import ClassHints.Proofs.Lines
import ClassHints.Proofs.Text
import ClassHints.Sheet.Lexeme

/-!
# The two rulers of a stylesheet

Line comments are placed by newlines and characters, tokens by all line breaks of the token grammar
and by UTF-16 units. Both count what lies before a place, and they give the same line and column
exactly if every break before it is a newline, alone or behind a carriage return, and no character
to its left takes two units.
-/

namespace ClassHints

open Text Sheet

/-- Lines and columns of line comments: newlines end a line, and all characters are alike. -/
def Ruler.newlines : Ruler where
  ends c := c == '\n'
  width _ := 1
  ends_newline := rfl
  width_pos _ := Nat.one_pos

/-- Lines and columns of tokens: form feeds and carriage returns end a line too, and columns are
UTF-16 units. -/
def Ruler.tokens : Ruler where
  ends := isBreak
  width := unitSize
  ends_newline := rfl
  width_pos := unitSize_pos

namespace Sheet

open Ruler

/-- Line and column of a byte offset, both from one: newlines end lines, and every character
fills one column. -/
def lineColumn (t : Text) (offset : Nat) : Nat × Nat :=
  let before := Cursor.takeBytes offset t
  (before.count '\n' + 1, (before.rtakeWhile (· != '\n')).length + 1)

/-- Only newlines end the lines of line comments. -/
theorem breaks_newlines (t : Text) : newlines.breaks t = t.count '\n' := by
  induction t with
  | nil => rfl
  | cons c t ih =>
    by_cases hc : c = '\n'
    · rw [hc, newlines.breaks_cons_of_ends rfl (by simp [CutsLineEnd]), ih, List.count_cons_self]
    · rw [newlines.breaks_cons_of_not_ends t (by simpa [newlines] using hc), ih,
        List.count_cons_of_ne hc]

/-- Every character fills one column of a line comment. -/
theorem columns_newlines (t : Text) : newlines.columns t = t.length := by
  induction t with
  | nil => rfl
  | cons c t ih => rw [columns_cons, ih, List.length_cons, Nat.add_comm]; rfl

/-- The last line is what stands behind the last newline. -/
theorem lastLine_newlines (t : Text) : newlines.lastLine t = t.rtakeWhile (· != '\n') := rfl

/-- Newlines are counted part by part, and columns behind the last part with a newline in it. -/
theorem place_newlines_append (s t : Text) : newlines.place (s ++ t) =
    (s.count '\n' + t.count '\n',
      if t.count '\n' = 0 then (newlines.place s).2 + (newlines.place t).2
      else (newlines.place t).2) := by
  unfold place
  rw [breaks_newlines, List.count_append, Prod.mk.injEq]
  refine ⟨rfl, ?_⟩
  split
  · next hzero =>
    have hno : ∀ c ∈ t, newlines.ends c = false := by
      rwa [← newlines.breaks_eq_zero_iff, breaks_newlines]
    have hall : newlines.lastLine t = t := by
      simpa using newlines.lastLine_append [] hno
    rw [newlines.lastLine_append s hno, columns_append, hall]
  · next hpos =>
    have hmem : '\n' ∈ t := List.count_pos_iff.1 (Nat.pos_of_ne_zero hpos)
    rw [newlines.lastLine_append_of_ends s ⟨'\n', hmem, rfl⟩]

/-- A mark counts by newlines and characters. -/
theorem Mark.advance_start (t : Text) : Mark.start.advance t =
    ⟨byteLength t, (newlines.place t).1 + 1, (newlines.place t).2 + 1⟩ := by
  induction t using List.reverseRecOn with
  | nil => rfl
  | append_singleton t c ih =>
    rw [Mark.advance_append, ih]
    change Mark.next _ c = _
    unfold Mark.next place
    rw [newlines.breaks_concat, newlines.lastLine_concat, byteLength_append]
    by_cases hc : c = '\n'
    · simp [hc, newlines]
    · simp [hc, newlines]

/-- A spot counts by the breaks of the token grammar and by UTF-16 units. -/
theorem Spot.advance_start (t : Text) : Spot.start.advance t =
    ⟨⟨byteLength t, (tokens.place t).1 + 1, (tokens.place t).2 + 1⟩,
      t.getLast? = some '\r'⟩ := by
  induction t using List.reverseRecOn with
  | nil => rfl
  | append_singleton t c ih =>
    have hwidth : tokens.width c = unitSize c := rfl
    have hreturn : tokens.ends '\r' = true := rfl
    rw [Spot.advance_append, ih]
    change Spot.next _ c = _
    unfold Spot.next place
    rw [tokens.breaks_concat, tokens.lastLine_concat, byteLength_append]
    cases hends : tokens.ends c with
    | false =>
      have hno : (c ≠ '\n' ∧ c ≠ '\r') ∧ c ≠ formFeed := by
        simpa [tokens, isBreak] using hends
      simp [hno, hwidth]
      omega
    | true =>
      have hcases : (c = '\n' ∨ c = '\r') ∨ c = formFeed := by
        simpa [tokens, isBreak] using hends
      by_cases hpair : c = '\n' ∧ t.getLast? = some '\r'
      · simp [hpair, hreturn]
      · have hsome : c = '\n' ∨ c = formFeed ∨ c = '\r' := by tauto
        have hkeep : ¬(c = '\n' ∧ t.getLast? = some '\r' ∧ tokens.ends '\r' = true) := by tauto
        simp only [Bool.and_eq_true, decide_eq_true_eq, if_neg hpair, if_neg hkeep]
        simp [or_assoc, hsome]

/-- The line and the column behind a text are those of its place, from one. -/
theorem lineColumn_append (before after : Text) :
    lineColumn (before ++ after) (byteLength before) =
      ((newlines.place before).1 + 1, (newlines.place before).2 + 1) := by
  unfold lineColumn place
  rw [takeBytes_append, breaks_newlines, columns_newlines, lastLine_newlines]

/-- The mark behind a text says its line and column. -/
theorem lineColumn_mark (before after : Text) :
    lineColumn (before ++ after) (byteLength before) =
      ((Mark.start.advance before).line, (Mark.start.advance before).column) := by
  rw [lineColumn_append, Mark.advance_start]

/-! ## Where the rulers agree -/

/-- Every carriage return is the first part of a line end. -/
def PairedReturns (t : Text) : Prop :=
  ∀ lead rest, t = lead ++ '\r' :: rest → rest.head? = some '\n'

/-- The returns of a text are paired if the first one is, and those behind it are. -/
theorem pairedReturns_cons {c : Char} {t : Text} :
    PairedReturns (c :: t) ↔ (c = '\r' → t.head? = some '\n') ∧ PairedReturns t := by
  constructor
  · intro h
    exact ⟨fun hc => h [] t (by rw [hc]; rfl),
      fun lead rest ht => h (c :: lead) rest (by rw [ht]; rfl)⟩
  · rintro ⟨hfirst, hrest⟩ lead rest heq
    cases lead with
    | nil =>
      obtain ⟨hc, rfl⟩ := List.cons.inj heq
      exact hfirst hc
    | cons d lead => exact hrest lead rest (List.cons.inj heq).2

/-- Tokens count at least the lines that line comments count. -/
theorem breaks_newlines_le (t : Text) : newlines.breaks t ≤ tokens.breaks t := by
  induction t with
  | nil => exact Nat.le_refl _
  | cons c t ih =>
    by_cases hfeed : c = '\n'
    · subst hfeed
      rw [newlines.breaks_cons_of_ends rfl (by simp [CutsLineEnd]),
        tokens.breaks_cons_of_ends rfl (by simp [CutsLineEnd])]
      exact Nat.succ_le_succ ih
    · rw [newlines.breaks_cons_of_not_ends t (by simpa [newlines] using hfeed), breaks]
      omega

/-- Tokens are on later lines for every form feed and every carriage return that stands alone. -/
theorem breaks_tokens_eq_iff {t : Text} :
    tokens.breaks t = newlines.breaks t ↔ formFeed ∉ t ∧ PairedReturns t := by
  induction t with
  | nil => simp [PairedReturns]
  | cons c t ih =>
    have hle := breaks_newlines_le t
    have hform : formFeed ≠ '\n' ∧ formFeed ≠ '\r' := by decide
    rw [List.mem_cons, not_or, pairedReturns_cons]
    by_cases hfeed : c = '\n'
    · subst hfeed
      rw [newlines.breaks_cons_of_ends rfl (by simp [CutsLineEnd]),
        tokens.breaks_cons_of_ends rfl (by simp [CutsLineEnd]), Nat.add_right_cancel_iff, ih]
      simp [hform]
    rw [newlines.breaks_cons_of_not_ends t (by simpa [newlines] using hfeed)]
    by_cases hpair : CutsLineEnd [c] t
    · -- the line feed of the pair ends the line for both rulers
      obtain ⟨hreturn, hhead⟩ := hpair
      obtain rfl := Option.some.inj hreturn
      have hkeep : tokens.breaks ('\r' :: t) = tokens.breaks t := by simp [breaks, hhead]
      rw [hkeep, ih]
      simp [hform, hhead]
    · cases hends : tokens.ends c with
      | true =>
        have hcases : c = '\r' ∨ c = formFeed := by
          simpa [tokens, isBreak, hfeed] using hends
        rw [tokens.breaks_cons_of_ends hends hpair]
        refine ⟨fun heq => by omega, ?_⟩
        rintro ⟨⟨hne, -⟩, hfirst, -⟩
        rcases hcases with rfl | rfl
        · exact absurd ⟨rfl, hfirst rfl⟩ hpair
        · exact absurd rfl hne
      | false =>
        have hno : c ≠ '\r' ∧ c ≠ formFeed := by
          simpa [tokens, isBreak, hfeed] using hends
        rw [tokens.breaks_cons_of_not_ends t hends, ih]
        simp [hno, hno.2.symm]

/-- Where all breaks are newlines, the last line is the same for both rulers. -/
theorem lastLine_tokens_eq {t : Text} (hform : formFeed ∉ t) (hpaired : PairedReturns t) :
    tokens.lastLine t = newlines.lastLine t := by
  have hsplit : t.rdropWhile (· != '\n') ++ newlines.lastLine t = t :=
    List.rdropWhile_append_rtakeWhile
  have hno : ∀ c ∈ newlines.lastLine t, c ≠ '\n' := by
    intro c hc
    simpa [newlines] using List.mem_rtakeWhile_imp hc
  have hfirst : tokens.lastLine (t.rdropWhile (· != '\n')) = [] := by
    rw [lastLine, List.rtakeWhile_eq_nil_iff]
    intro hne
    have hlast := List.rdropWhile_last_not _ _ hne
    have heq : (t.rdropWhile (· != '\n')).getLast hne = '\n' := by simpa using hlast
    rw [heq]
    decide
  have hends : ∀ c ∈ newlines.lastLine t, tokens.ends c = false := by
    intro c hc
    have hmem : c ∈ t := (List.rtakeWhile_suffix _ _).subset hc
    have hreturn : c ≠ '\r' := by
      rintro rfl
      obtain ⟨lead, rest, heq⟩ := List.append_of_mem hc
      have hhead := hpaired (t.rdropWhile (· != '\n') ++ lead) rest (by
        rw [List.append_assoc, ← heq, hsplit])
      have hfeed : '\n' ∈ newlines.lastLine t := by
        rw [heq]
        exact List.mem_append_right _ (List.mem_cons_of_mem _ (List.mem_of_mem_head? hhead))
      exact hno '\n' hfeed rfl
    have hne : c ≠ formFeed := fun heq => hform (heq ▸ hmem)
    simp [tokens, isBreak, hno c hc, hreturn, hne]
  calc tokens.lastLine t
      = tokens.lastLine (t.rdropWhile (· != '\n') ++ newlines.lastLine t) := by rw [hsplit]
    _ = newlines.lastLine t := by rw [tokens.lastLine_append _ hends, hfirst, List.nil_append]

/-- A text has as many UTF-16 units as characters if every character takes one. -/
theorem columns_tokens_eq_iff {t : Text} :
    tokens.columns t = newlines.columns t ↔ ∀ c ∈ t, unitSize c = 1 := by
  have hle (u : Text) : u.length ≤ tokens.columns u := by
    induction u with
    | nil => exact Nat.le_refl _
    | cons c u ih =>
      have hpos := tokens.width_pos c
      rw [columns_cons, List.length_cons]
      omega
  rw [columns_newlines]
  induction t with
  | nil => simp
  | cons c t ih =>
    have hpos := tokens.width_pos c
    have hwidth : tokens.width c = unitSize c := rfl
    have hrest := hle t
    rw [columns_cons, List.length_cons, List.forall_mem_cons]
    refine ⟨fun heq => ⟨by omega, ih.1 (by omega)⟩, fun ⟨hc, hnarrow⟩ => ?_⟩
    have heq := ih.2 hnarrow
    omega

/-- What lies before a place is counted alike by both rulers. -/
structure CountedAlike (before : Text) : Prop where
  noFormFeed : formFeed ∉ before
  paired : PairedReturns before
  /-- Behind the last newline every character takes one unit. -/
  narrow : ∀ c ∈ before.rtakeWhile (· != '\n'), unitSize c = 1

/-- The two rulers give the same place exactly if they count alike. -/
theorem place_tokens_eq_iff {before : Text} :
    tokens.place before = newlines.place before ↔ CountedAlike before := by
  unfold place
  rw [Prod.mk.injEq, breaks_tokens_eq_iff]
  constructor
  · rintro ⟨⟨hform, hpaired⟩, hcolumns⟩
    rw [lastLine_tokens_eq hform hpaired, columns_tokens_eq_iff] at hcolumns
    exact ⟨hform, hpaired, hcolumns⟩
  · rintro ⟨hform, hpaired, hnarrow⟩
    rw [lastLine_tokens_eq hform hpaired, columns_tokens_eq_iff]
    exact ⟨⟨hform, hpaired⟩, hnarrow⟩

end Sheet

end ClassHints
