import ClassHints.Proofs.Sheet.Masking
import ClassHints.Proofs.Sheet.Rulers

/-!
# Line comments as they are written

A line comment runs from two slashes up to the next newline or the end of the text. So no newline
is blanked out, and behind a line comment a new line starts: whatever stands further on has the
line and column that it has in the original text, counted by newlines and characters.
-/

namespace ClassHints.Sheet

open Text Ruler

/-- The first line of a text, and the newline behind it or nothing. -/
theorem exists_eq_line_append (t : Text) : ∃ line after, t = line ++ after ∧
    t.takeWhile (· != '\n') = line ∧ '\n' ∉ line ∧ ∀ d ∈ after.head?, d = '\n' := by
  refine ⟨t.takeWhile (· != '\n'), t.dropWhile (· != '\n'), ?_, rfl, ?_, ?_⟩
  · exact List.takeWhile_append_dropWhile.symm
  · intro hmem
    simpa using List.mem_takeWhile_imp hmem
  · intro d hd
    have hhead := List.head?_dropWhile_not (· != '\n') t
    rw [hd] at hhead
    simpa using hhead

/-- A line comment is cut off from two slashes up to the end of its line. -/
theorem Piece.of_front_eq_lineComment {previous : Option Char} {depth : Nat} {c : Char} {u : Text}
    (h : (Piece.front previous depth c u).1 = .lineComment) :
    ∃ body after, c = '/' ∧ u = '/' :: (body ++ after) ∧ '\n' ∉ body ∧
      (∀ d ∈ after.head?, d = '\n') ∧
      (Piece.front previous depth c u).2 = body.length + 1 := by
  unfold Piece.front at h ⊢
  split at h
  · cases h
  · split at h
    case h_1 => cases h
    case h_2 | h_3 => split at h <;> cases h
    case h_4 => split at h <;> cases h
    case h_5 v _ =>
      split at h
      · next hstarts =>
        obtain ⟨body, after, hv, hbody, hno, hafter⟩ := exists_eq_line_append v
        exact ⟨body, after, rfl, by rw [← hv], hno, hafter, by simp [hstarts, hbody]⟩
      · cases h
    case h_6 | h_7 | h_8 => cases h

/-- Line comments are written with two slashes in front and end with their line. -/
def CommentsWritten (ps : List Piece) : Prop :=
  ∀ before p after, ps = before ++ p :: after → p.kind = .lineComment →
    ∃ body, p.text = '/' :: '/' :: body ∧ '\n' ∉ body ∧
      ∀ d ∈ (after.flatMap Piece.text).head?, d = '\n'

/-- Comments behind the first piece are written as they should be if all are. -/
theorem CommentsWritten.tail {p : Piece} {ps : List Piece} (h : CommentsWritten (p :: ps)) :
    CommentsWritten ps := by
  rintro before q after rfl hkind
  exact h (p :: before) q after rfl hkind

/-- Line comments are cut off at the end of their line wherever the cutting starts. -/
theorem commentsWritten_piecesFrom (previous : Option Char) (depth skip : Nat) (t : Text) :
    CommentsWritten (piecesFrom previous depth skip t) := by
  induction t generalizing previous depth skip with
  | nil =>
    intro before p after h
    simp [piecesFrom] at h
  | cons c u ih =>
    cases skip with
    | succ skip => exact ih _ _ _
    | zero =>
      intro before p after h hkind
      rw [piecesFrom] at h
      dsimp only at h
      cases before with
      | cons q before =>
        obtain ⟨-, hrest⟩ := List.cons.inj h
        exact ih _ _ _ before p after hrest hkind
      | nil =>
        obtain ⟨rfl, hrest⟩ := List.cons.inj h
        obtain ⟨body, behind, rfl, rfl, hno, hend, hlength⟩ :=
          Piece.of_front_eq_lineComment hkind
        refine ⟨body, ?_, hno, ?_⟩
        · dsimp only
          rw [hlength, List.take_succ_cons, List.take_left]
        · rwa [← hrest, flatMap_piecesFrom, hlength, List.drop_succ_cons, List.drop_left]

/-- The pieces of a source have its line comments as they are written. -/
theorem commentsWritten_pieces (source : Text) : CommentsWritten (pieces source) :=
  commentsWritten_piecesFrom none 0 0 source

/-! ## Newlines that stay -/

/-- Blanking out keeps the number of newlines. -/
theorem count_newline_masked {p : Piece} {ps : List Piece} (h : CommentsWritten (p :: ps)) :
    p.masked.count '\n' = p.text.count '\n' := by
  unfold Piece.masked
  split
  · next hkind =>
    obtain ⟨body, htext, hno, -⟩ := h [] p ps rfl hkind
    have hnone : '\n' ∉ p.text := by simp [htext, hno]
    rw [List.count_eq_zero.2 hnone, List.count_replicate]
    rfl
  · rfl

/-- Blanking out what lies before a character that is no newline keeps its line and column: a
line comment would have a newline behind it that stays. -/
theorem place_newlines_masked {done rest : List Piece} {p : Piece} {lead tail : Text} {c : Char}
    (h : CommentsWritten (done ++ p :: rest)) (htext : p.text = lead ++ c :: tail)
    (hc : c ≠ '\n') : newlines.place (done.flatMap Piece.masked ++ lead) =
      newlines.place (done.flatMap Piece.text ++ lead) := by
  induction done with
  | nil => rfl
  | cons q done ih =>
    have hplace := ih h.tail
    have hcount : (done.flatMap Piece.masked ++ lead).count '\n' =
        (done.flatMap Piece.text ++ lead).count '\n' := by
      rw [← breaks_newlines, ← breaks_newlines]
      exact congrArg Prod.fst hplace
    rw [List.flatMap_cons, List.flatMap_cons, List.append_assoc, List.append_assoc,
      place_newlines_append q.masked, place_newlines_append q.text, hplace, hcount,
      count_newline_masked h, Prod.mk.injEq]
    refine ⟨rfl, ?_⟩
    split
    · next hzero =>
      have hkind : q.kind ≠ .lineComment := by
        intro hkind
        obtain ⟨body, -, -, hend⟩ := h [] q (done ++ p :: rest) rfl hkind
        have hbehind : (done ++ p :: rest).flatMap Piece.text =
            (done.flatMap Piece.text ++ lead) ++ c :: (tail ++ rest.flatMap Piece.text) := by
          simp [htext]
        rw [hbehind] at hend
        cases hfirst : done.flatMap Piece.text ++ lead with
        | nil =>
          rw [hfirst] at hend
          exact hc (hend c rfl)
        | cons d u =>
          rw [hfirst] at hend hzero
          rw [hend d rfl, List.count_cons_self] at hzero
          omega
      have hplain : q.masked = q.text := by
        unfold Piece.masked
        split
        · next hline => exact absurd hline hkind
        · rfl
      rw [hplain]
    · rfl

namespace Masked

variable {source : Text} {m : Masked} (h : ofSource source = .ok m)

include h

/-- A line comment as it is written in the source. -/
theorem exists_written {c : Comment} (hc : c ∈ m.comments) : ∃ before body after,
    source = before ++ '/' :: '/' :: body ++ after ∧ '\n' ∉ body ∧
      (∀ d ∈ after.head?, d = '\n') ∧ c = ⟨.line, trim body,
        (Mark.start.advance before).to (Mark.start.advance (before ++ '/' :: '/' :: body))⟩ := by
  rw [eq_of_ofSource h] at hc
  obtain ⟨before, p, after, hps, hcomment⟩ := exists_comment?_of_mem_commentsFrom hc
  obtain ⟨hkind, rfl⟩ := Piece.of_comment?_eq_some hcomment
  obtain ⟨body, htext, hno, hend⟩ := commentsWritten_pieces source before p after hps hkind
  refine ⟨before.flatMap Piece.text, body, after.flatMap Piece.text, ?_, hno, hend, ?_⟩
  · rw [← flatMap_pieces source, hps, List.flatMap_append, List.flatMap_cons, htext,
      List.append_assoc]
  · rw [htext, Mark.advance_append]
    rfl

/-- What stands outside of line comments has the line and column that it has in the source. -/
theorem lineColumn_eq {before after : Text} {c : Char} (htext : m.text = before ++ c :: after)
    (hc : c ≠ ' ') (hnewline : c ≠ '\n') :
    lineColumn source (byteLength before) =
      ((newlines.place before).1 + 1, (newlines.place before).2 + 1) := by
  rw [eq_of_ofSource h] at htext
  obtain ⟨done, p, rest, lead, tail, hps, hp, rfl⟩ := exists_piece_of_masked htext hc
  have hwritten := commentsWritten_pieces source
  rw [hps] at hwritten
  have hsource : source =
      done.flatMap Piece.text ++ lead ++ c :: (tail ++ rest.flatMap Piece.text) := by
    rw [← flatMap_pieces source, hps]
    simp [hp]
  have hlength : byteLength (done.flatMap Piece.masked ++ lead) =
      byteLength (done.flatMap Piece.text ++ lead) := by
    rw [byteLength_append, byteLength_append, byteLength_flatMap_masked]
  rw [hsource, hlength, lineColumn_append, place_newlines_masked hwritten hp hnewline]

end Masked

end ClassHints.Sheet
