import ClassHints.Cursor.Position
import ClassHints.Proofs.Lines

/-!
# Editor positions and offsets

A position leads to one place of a text: the last one on its line whose column is not greater. So
every place that is not inside a line end is found again from its own line and column, whatever
its line ends with, and places follow each other as their positions do.
-/

namespace ClassHints

open Text

/-- Lines as editors count them: line feeds and carriage returns end a line, and columns are
UTF-16 units. -/
def Ruler.editor : Ruler where
  ends c := c == '\n' || c == '\r'
  width := unitSize
  ends_newline := rfl
  width_pos := unitSize_pos

example : Ruler.editor.breaks "a\r\nb\rc\n\r".toList = 4 := by decide

/-- The columns that editors count are the UTF-16 units of a text. -/
theorem Ruler.columns_editor (t : Text) : editor.columns t = unitLength t := by
  induction t with
  | nil => rfl
  | cons c t ih => rw [columns_cons, ih, unitLength_cons]; rfl

namespace Cursor

open Ruler

/-! ## Lines -/

/-- For editors two characters end a line. -/
theorem editor_ends_iff {c : Char} : editor.ends c = true ↔ c = '\n' ∨ c = '\r' := by
  simp [editor]

/-- Characters that are read one by one do not make a line end together. -/
theorem not_cutsLineEnd_of_ne {c : Char} {t : Text}
    (h : ∀ rest, c = '\r' → t = '\n' :: rest → False) : ¬CutsLineEnd [c] t := by
  rintro ⟨hreturn, hfeed⟩
  obtain ⟨rest, hrest⟩ := List.head?_eq_some_iff.1 hfeed
  exact h rest (Option.some.inj hreturn) hrest

/-- The text from a line on is what is left behind as many line ends. -/
theorem exists_of_fromLine? {n : Nat} {t rest : Text} (h : fromLine? n t = some rest) :
    ∃ before, t = before ++ rest ∧ editor.breaks before = n ∧
      (∀ c ∈ before.getLast?, editor.ends c = true) ∧ ¬CutsLineEnd before rest := by
  fun_induction fromLine? n t generalizing rest with
  | case1 t =>
    obtain rfl := Option.some.inj h
    exact ⟨[], rfl, rfl, by simp, by simp [CutsLineEnd]⟩
  | case2 n t ih =>
    obtain ⟨before, rfl, hbreaks, hlast, hcut⟩ := ih h
    refine ⟨'\r' :: '\n' :: before, rfl, by rw [breaks_pair, hbreaks], ?_⟩
    cases before with
    | nil => simp [editor, CutsLineEnd]
    | cons d before => exact ⟨by simpa using hlast, by simpa [CutsLineEnd] using hcut⟩
  | case3 n c t hpair hends ih =>
    obtain ⟨before, rfl, hbreaks, hlast, hcut⟩ := ih h
    have hsingle := not_cutsLineEnd_of_ne hpair
    cases before with
    | nil =>
      refine ⟨[c], rfl, ?_, ?_, hsingle⟩
      · rw [editor.breaks_cons_of_ends hends (by simp [CutsLineEnd]), hbreaks]
      · intro d hd
        obtain rfl := Option.some.inj hd
        exact hends
    | cons d before =>
      refine ⟨c :: d :: before, rfl, ?_, by simpa using hlast, by simpa [CutsLineEnd] using hcut⟩
      rw [editor.breaks_cons_of_ends hends (by simpa [CutsLineEnd] using hsingle), hbreaks]
  | case4 n c t hpair hends ih =>
    obtain ⟨before, rfl, hbreaks, hlast, hcut⟩ := ih h
    refine ⟨c :: before, rfl, ?_, ?_⟩
    · rw [editor.breaks_cons_of_not_ends before (Bool.eq_false_iff.2 hends), hbreaks]
    · cases before with
      | nil => simp at hbreaks
      | cons d before => exact ⟨by simpa using hlast, by simpa [CutsLineEnd] using hcut⟩
  | case5 => cases h

/-- There is no text from a line on exactly if the text has fewer lines. -/
theorem fromLine?_eq_none_iff {n : Nat} {t : Text} :
    fromLine? n t = none ↔ editor.breaks t < n := by
  fun_induction fromLine? n t with
  | case1 => simp
  | case2 n t ih => rw [ih, breaks_pair, Nat.succ_lt_succ_iff]
  | case3 n c t hpair hends ih =>
    rw [ih, editor.breaks_cons_of_ends hends (not_cutsLineEnd_of_ne hpair), Nat.succ_lt_succ_iff]
  | case4 n c t hpair hends ih =>
    rw [ih, editor.breaks_cons_of_not_ends t (Bool.eq_false_iff.2 hends)]
  | case5 n => simp

/-! ## Columns -/

/-- The text from a column on is what is left behind characters of the line with that many
columns at most. It starts with a line end, or the column is inside its first character. -/
theorem exists_of_fromColumn (column : Nat) (t : Text) :
    ∃ line, t = line ++ fromColumn column t ∧ (∀ c ∈ line, editor.ends c = false) ∧
      editor.columns line ≤ column ∧ ∀ c ∈ (fromColumn column t).head?,
        editor.ends c = false → column < editor.columns line + unitSize c := by
  fun_induction fromColumn column t with
  | case1 => exact ⟨[], rfl, by simp, by simp, by simp⟩
  | case2 column c rest hstop =>
    refine ⟨[], rfl, by simp, by simp, ?_⟩
    intro d hd hends
    obtain rfl := Option.some.inj hd
    have hno : (c = '\n' || c = '\r') = false := by simpa [editor] using hends
    simpa [hno] using hstop
  | case3 column c rest hstop ih =>
    obtain ⟨line, hline, hno, hle, htight⟩ := ih
    obtain ⟨⟨hfeed, hreturn⟩, hwide⟩ : (c ≠ '\n' ∧ c ≠ '\r') ∧ unitSize c ≤ column := by
      simpa using hstop
    refine ⟨c :: line, by rw [List.cons_append, ← hline], ?_, ?_, ?_⟩
    · refine List.forall_mem_cons.2 ⟨?_, hno⟩
      simp [editor, hfeed, hreturn]
    · rw [columns_cons]
      change unitSize c + _ ≤ _
      omega
    · intro d hd hends
      have hlt := htight d hd hends
      rw [columns_cons]
      change _ < unitSize c + _ + _
      omega

/-! ## Places -/

/-- A position leads to the place between two texts: the place is on its line and not inside a
line end, its own column is not greater, and that of the next character of the line is. -/
structure LeadsTo (p : Position) (before after : Text) : Prop where
  whole : ¬CutsLineEnd before after
  line : editor.breaks before = p.line
  column : editor.columns (editor.lastLine before) ≤ p.column
  tight : ∀ c ∈ after.head?, editor.ends c = false →
    p.column < editor.columns (editor.lastLine before) + unitSize c

/-- Positions in order lead to places in order. -/
theorem LeadsTo.isPrefix {p q : Position} {before after before' after' : Text}
    (hp : LeadsTo p before after) (hq : LeadsTo q before' after')
    (htext : before ++ after = before' ++ after')
    (hle : toLex (p.line, p.column) ≤ toLex (q.line, q.column)) : before <+: before' := by
  rcases List.append_eq_append_iff.1 htext with ⟨m, hm, -⟩ | ⟨m, rfl, rfl⟩
  · exact ⟨m, hm.symm⟩
  cases m with
  | nil => simp
  | cons c u =>
    -- a character of the line between the two places would have room in the column of `q`
    have hline := hp.line
    have hcolumn := hp.column
    have hline' := hq.line
    rw [Prod.Lex.toLex_le_toLex] at hle
    dsimp only at hle
    cases hends : editor.ends c with
    | true =>
      have hlt := editor.breaks_lt hends (u := u) (s := before') (by
        simpa [CutsLineEnd] using hq.whole)
      omega
    | false =>
      have htight := hq.tight c rfl hends
      have hwidth : editor.width c = unitSize c := rfl
      rcases editor.breaks_lt_or before' u hends with hlt | ⟨heq, hgrown⟩
      · omega
      · omega

/-- The offset of a position is that of the place it leads to. -/
theorem exists_leadsTo_of_offsetAt {t : Text} {p : Position} {offset : Nat}
    (h : offsetAt t p = some offset) : ∃ before after, t = before ++ after ∧
      byteLength before = offset ∧ LeadsTo p before after := by
  obtain ⟨rest, hrest, rfl⟩ := Option.map_eq_some_iff.1 h
  obtain ⟨lines, rfl, hbreaks, hlast, hcut⟩ := exists_of_fromLine? hrest
  obtain ⟨line, hline, hno, hle, htight⟩ := exists_of_fromColumn p.column rest
  have hfirst : editor.lastLine lines = [] := by
    rw [lastLine, List.rtakeWhile_eq_nil_iff]
    intro hne
    have hends := hlast _ (List.getLast?_eq_some_getLast hne)
    simp [hends]
  have hlastLine : editor.lastLine (lines ++ line) = line := by
    rw [editor.lastLine_append lines hno, hfirst, List.nil_append]
  have hsum : editor.breaks (lines ++ line) = p.line := by
    cases line with
    | nil => rwa [List.append_nil]
    | cons c line =>
      have hne : c ≠ '\n' := by
        rintro rfl
        cases hno '\n' List.mem_cons_self
      rw [editor.breaks_append (by simp [CutsLineEnd, hne]), hbreaks,
        editor.breaks_eq_zero_iff.2 hno, Nat.add_zero]
  refine ⟨lines ++ line, fromColumn p.column rest, ?_, ?_, ?_, hsum, ?_, ?_⟩
  · rw [List.append_assoc, ← hline]
  · have htotal := congrArg byteLength hline
    simp only [byteLength_append] at htotal ⊢
    omega
  · rintro ⟨hreturn, hfeed⟩
    cases line with
    | nil =>
      rw [List.append_nil] at hreturn
      rw [List.nil_append] at hline
      rw [← hline] at hfeed
      exact hcut ⟨hreturn, hfeed⟩
    | cons c line =>
      have hmem : '\r' ∈ c :: line := by
        rw [List.getLast?_append_of_ne_nil _ (List.cons_ne_nil c line)] at hreturn
        exact List.mem_of_getLast? hreturn
      cases hno '\r' hmem
  · rwa [hlastLine]
  · rwa [hlastLine]

/-- A place that a position leads to is found from it. -/
theorem LeadsTo.offsetAt_eq {p : Position} {before after : Text} (h : LeadsTo p before after) :
    offsetAt (before ++ after) p = some (byteLength before) := by
  cases hoffset : offsetAt (before ++ after) p with
  | none =>
    have hlt := fromLine?_eq_none_iff.1 (Option.map_eq_none_iff.1 hoffset)
    rw [editor.breaks_append h.whole, h.line] at hlt
    omega
  | some offset =>
    obtain ⟨before', after', htext, rfl, h'⟩ := exists_leadsTo_of_offsetAt hoffset
    have hle := (h.isPrefix h' htext le_rfl).length_le
    have hge := (h'.isPrefix h htext.symm le_rfl).length_le
    have heq : before = before' := List.append_inj_left htext (by omega)
    rw [heq]

/-- Positions and offsets of a text. Lines end with a line feed, a carriage return or both, and
columns are UTF-16 units from the start of the line. -/
structure InvertsPositions (t : Text) : Prop where
  missing : ∀ p, offsetAt t p = none ↔ 1 + editor.breaks t ≤ p.line
  /-- An offset is between two characters, behind as many line ends as its line has before it, and
  not inside a line end. -/
  onLine : ∀ p offset, offsetAt t p = some offset → ∃ before after, t = before ++ after ∧
    byteLength before = offset ∧ editor.breaks before = p.line ∧ ¬CutsLineEnd before after
  /-- A place is found again from its own line and column, -/
  inverse : ∀ before after, t = before ++ after → ¬CutsLineEnd before after →
    offsetAt t ⟨editor.breaks before, unitLength (editor.lastLine before)⟩ =
      some (byteLength before)
  /-- from a column inside the character behind it, -/
  insideCharacter : ∀ before c after, t = before ++ c :: after → unitSize c = 2 →
    offsetAt t ⟨editor.breaks before, unitLength (editor.lastLine before) + 1⟩ =
      some (byteLength before)
  /-- and, if its line ends there, from every greater column. -/
  pastEnd : ∀ before after column, t = before ++ after → ¬CutsLineEnd before after →
    (∀ c ∈ after.head?, c = '\n' ∨ c = '\r') → unitLength (editor.lastLine before) ≤ column →
    offsetAt t ⟨editor.breaks before, column⟩ = some (byteLength before)
  /-- A greater column, or a later line with any column, gives no smaller offset. -/
  monotone : ∀ p q a b, toLex (p.line, p.column) ≤ toLex (q.line, q.column) →
    offsetAt t p = some a → offsetAt t q = some b → a ≤ b

/-- Offsets of positions are inverse to positions of offsets in every text. -/
theorem offsetAt_inverts (t : Text) : InvertsPositions t := by
  refine ⟨fun p => ?_, ?_, ?_, ?_, ?_, ?_⟩
  · rw [offsetAt, Option.map_eq_none_iff, fromLine?_eq_none_iff]
    omega
  · intro p offset h
    obtain ⟨before, after, htext, hoffset, hleads⟩ := exists_leadsTo_of_offsetAt h
    exact ⟨before, after, htext, hoffset, hleads.line, hleads.whole⟩
  · rintro before after rfl hcut
    refine LeadsTo.offsetAt_eq ⟨hcut, rfl, Nat.le_of_eq (columns_editor _), fun c _ _ => ?_⟩
    have hwidth := editor.width_pos c
    rw [columns_editor]
    exact Nat.lt_add_of_pos_right hwidth
  · rintro before c after rfl hsize
    have hne : c ≠ '\n' := by
      rintro rfl
      cases hsize
    refine LeadsTo.offsetAt_eq ⟨by simp [CutsLineEnd, hne], rfl, ?_, fun d hd _ => ?_⟩
    · rw [columns_editor]
      exact Nat.le_succ _
    · obtain rfl := Option.some.inj hd
      rw [columns_editor, hsize]
      exact Nat.lt_succ_self _
  · rintro before after column rfl hcut hends hle
    refine LeadsTo.offsetAt_eq ⟨hcut, rfl, by rwa [columns_editor], fun c hc hno => ?_⟩
    rw [editor_ends_iff.2 (hends c hc)] at hno
    cases hno
  · intro p q a b hle ha hb
    obtain ⟨before, after, htext, rfl, hp⟩ := exists_leadsTo_of_offsetAt ha
    obtain ⟨before', after', htext', rfl, hq⟩ := exists_leadsTo_of_offsetAt hb
    obtain ⟨m, rfl⟩ := hp.isPrefix hq (htext.symm.trans htext') hle
    rw [byteLength_append]
    omega

end Cursor

end ClassHints
