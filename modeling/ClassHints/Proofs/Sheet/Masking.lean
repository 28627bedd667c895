import ClassHints.Proofs.Text
import ClassHints.Sheet.Masked

/-!
# Blanked line comments

Where line comments are blanked out, the text has nothing but blanks, so that no token starts or
ends there. An offset next to any other character is an offset of the original text as well, and
it lies outside of all line comments.
-/

namespace ClassHints.Sheet

open Text

/-! ## Line comments among the pieces -/

/-- A masked text is made of the masks of its pieces, and lists the comments among them. -/
theorem Masked.eq_of_ofSource {source : Text} {m : Masked} (h : ofSource source = .ok m) :
    m = ⟨(pieces source).flatMap Piece.masked, commentsFrom .start (pieces source)⟩ := by
  cases hf : faultFrom .start [] (pieces source) with
  | some fault => simp [ofSource, hf] at h
  | none =>
    simp only [ofSource, hf, Except.ok.injEq] at h
    exact h.symm

/-- No piece is empty. -/
theorem text_ne_nil_of_mem_piecesFrom {previous : Option Char} {depth skip : Nat} {t : Text}
    {p : Piece} (h : p ∈ piecesFrom previous depth skip t) : p.text ≠ [] := by
  induction t generalizing previous depth skip with
  | nil => simp [piecesFrom] at h
  | cons c rest ih =>
    cases skip with
    | zero =>
      rcases List.mem_cons.1 h with rfl | h
      · exact List.cons_ne_nil _ _
      · exact ih h
    | succ skip => exact ih h

/-- A line comment is what a piece says at its place. -/
theorem exists_comment?_of_mem_commentsFrom {m : Mark} {ps : List Piece} {c : Comment}
    (h : c ∈ commentsFrom m ps) : ∃ before p after, ps = before ++ p :: after ∧
      p.comment? (m.advance (before.flatMap Piece.text)) = some c := by
  induction ps generalizing m with
  | nil => simp [commentsFrom] at h
  | cons p ps ih =>
    rw [commentsFrom, List.mem_append, Option.mem_toList] at h
    rcases h with h | h
    · exact ⟨[], p, ps, rfl, h⟩
    · obtain ⟨before, q, after, rfl, hc⟩ := ih h
      refine ⟨p :: before, q, after, rfl, ?_⟩
      rwa [List.flatMap_cons, Mark.advance_append]

/-- Only a line comment is one, with the text behind its slashes. -/
theorem Piece.of_comment?_eq_some {m : Mark} {p : Piece} {c : Comment} (h : p.comment? m = some c) :
    p.kind = .lineComment ∧ c = ⟨.line, trim (p.text.drop 2), m.to (m.advance p.text)⟩ := by
  unfold comment? at h
  split at h
  · next hkind => exact ⟨hkind, (Option.some.inj h).symm⟩
  · cases h

/-- A line comment is one of the pieces, at the place that its span says. -/
theorem exists_piece_of_mem_commentsFrom {m : Mark} {ps : List Piece} {c : Comment}
    (h : c ∈ commentsFrom m ps) :
    ∃ before p after, ps = before ++ p :: after ∧ p.kind = .lineComment ∧ c.style = .line ∧
      c.span.start = m.offset + byteLength (before.flatMap Piece.text) ∧
      c.span.stop = c.span.start + byteLength p.text := by
  obtain ⟨before, p, after, hps, hc⟩ := exists_comment?_of_mem_commentsFrom h
  obtain ⟨hkind, rfl⟩ := Piece.of_comment?_eq_some hc
  exact ⟨before, p, after, hps, hkind, rfl, Mark.offset_advance _ _, Mark.offset_advance _ _⟩

/-- Line comments start at or after the place where their pieces start. -/
theorem le_start_of_mem_commentsFrom {m : Mark} {ps : List Piece} {c : Comment}
    (h : c ∈ commentsFrom m ps) : m.offset ≤ c.span.start := by
  obtain ⟨before, p, after, -, -, -, hstart, -⟩ := exists_piece_of_mem_commentsFrom h
  omega

/-- Line comments follow each other. -/
theorem pairwise_commentsFrom (m : Mark) (ps : List Piece) :
    (commentsFrom m ps).Pairwise fun c d => c.span.stop ≤ d.span.start := by
  induction ps generalizing m with
  | nil => exact .nil
  | cons p ps ih =>
    rw [commentsFrom]
    apply List.pairwise_append.2
    refine ⟨by cases p.comment? m <;> simp, ih _, ?_⟩
    intro c hc d hd
    have hstart := le_start_of_mem_commentsFrom hd
    rw [Option.mem_toList] at hc
    obtain ⟨-, rfl⟩ := Piece.of_comment?_eq_some hc
    exact hstart

/-! ## Characters that are no blanks -/

/-- A character that is no blank stands behind an offset. -/
def SolidAt (t : Text) (offset : Nat) : Prop :=
  ∃ before c after, t = before ++ c :: after ∧ c ≠ ' ' ∧ byteLength before = offset

/-- A place where a token that is no run of blanks may end: behind a character that is no blank,
before one, or at the end of the text. -/
def EdgeAt (t : Text) (offset : Nat) : Prop :=
  (∃ before c after, t = before ++ c :: after ∧ c ≠ ' ' ∧ byteLength (before ++ [c]) = offset) ∨
    SolidAt t offset ∨ offset = byteLength t

/-- A character that is no blank stands before a run of blanks or behind it. -/
theorem byteLength_le_of_solid {before run after lead rest : Text} {c : Char}
    (h : before ++ run ++ after = lead ++ c :: rest) (hrun : ∀ d ∈ run, d = ' ') (hc : c ≠ ' ') :
    byteLength (lead ++ [c]) ≤ byteLength before ∨ byteLength (before ++ run) ≤ byteLength lead := by
  rw [List.append_assoc] at h
  rcases List.append_eq_append_iff.1 h with ⟨m, rfl, hm⟩ | ⟨m, rfl, hm⟩
  · rcases List.append_eq_append_iff.1 hm with ⟨m, rfl, -⟩ | ⟨m, rfl, hrest⟩
    · right
      simp only [byteLength_append]
      omega
    · cases m with
      | nil =>
        right
        simp
      | cons d m =>
        obtain ⟨rfl, -⟩ := List.cons.inj hrest
        exact absurd (hrun c (by simp)) hc
  · cases m with
    | nil =>
      cases run with
      | nil =>
        right
        simp
      | cons d run =>
        obtain ⟨rfl, -⟩ := List.cons.inj hm
        exact absurd (hrun c (by simp)) hc
    | cons d m =>
      obtain ⟨rfl, -⟩ := List.cons.inj hm
      left
      simp only [byteLength_append, byteLength_cons, byteLength_nil]
      omega

/-- A character that blanking left belongs to a piece that is no line comment. -/
theorem exists_piece_of_masked {ps : List Piece} {before after : Text} {c : Char}
    (h : ps.flatMap Piece.masked = before ++ c :: after) (hc : c ≠ ' ') :
    ∃ done p rest lead tail, ps = done ++ p :: rest ∧ p.text = lead ++ c :: tail ∧
      before = done.flatMap Piece.masked ++ lead := by
  induction ps generalizing before with
  | nil => simp at h
  | cons p ps ih =>
    rw [List.flatMap_cons] at h
    have hlater {lead : Text} (hlead : ps.flatMap Piece.masked = lead ++ c :: after) :
        ∃ done q rest first tail, p :: ps = done ++ q :: rest ∧ q.text = first ++ c :: tail ∧
          p.masked ++ lead = done.flatMap Piece.masked ++ first := by
      obtain ⟨done, q, rest, first, tail, rfl, htext, rfl⟩ := ih hlead
      exact ⟨p :: done, q, rest, first, tail, rfl, htext, by simp⟩
    rcases List.append_eq_append_iff.1 h with ⟨lead, rfl, hlead⟩ | ⟨m, hm, hrest⟩
    · exact hlater hlead
    · cases m with
      | nil =>
        rw [List.append_nil] at hm
        have hfound := @hlater [] hrest.symm
        rwa [List.append_nil, hm] at hfound
      | cons d m =>
        obtain ⟨rfl, rfl⟩ := List.cons.inj hrest
        -- the character is in the piece itself, which is no comment then
        have hplain : p.masked = p.text := by
          unfold Piece.masked at hm ⊢
          split at hm
          · have hmem : c ∈ List.replicate (byteLength p.text) ' ' := by rw [hm]; simp
            exact absurd (List.eq_of_mem_replicate hmem) hc
          · rfl
        rw [hplain] at hm
        exact ⟨[], p, ps, before, m, rfl, hm, rfl⟩

/-- A character that blanking left is where it was. -/
theorem exists_text_of_masked {ps : List Piece} {before after : Text} {c : Char}
    (h : ps.flatMap Piece.masked = before ++ c :: after) (hc : c ≠ ' ') :
    ∃ before' after', ps.flatMap Piece.text = before' ++ c :: after' ∧
      byteLength before' = byteLength before := by
  obtain ⟨done, p, rest, lead, tail, rfl, htext, rfl⟩ := exists_piece_of_masked h hc
  refine ⟨done.flatMap Piece.text ++ lead, tail ++ rest.flatMap Piece.text, ?_, ?_⟩
  · simp [htext]
  · rw [byteLength_append, byteLength_append, byteLength_flatMap_masked]

namespace Masked

variable {source : Text} {m : Masked} (h : ofSource source = .ok m)

include h

/-- Line comments do not overlap, and are listed in order. -/
theorem pairwise_comments : m.comments.Pairwise fun c d => c.span.stop ≤ d.span.start := by
  rw [eq_of_ofSource h]
  exact pairwise_commentsFrom _ _

/-- Only line comments are masked. -/
theorem style_eq {c : Comment} (hc : c ∈ m.comments) : c.style = .line := by
  rw [eq_of_ofSource h] at hc
  obtain ⟨-, -, -, -, -, hstyle, -⟩ := exists_piece_of_mem_commentsFrom hc
  exact hstyle

/-- A line comment is not empty and lies between two characters of the text. -/
theorem comment_bounds {c : Comment} (hc : c ∈ m.comments) :
    c.span.start < c.span.stop ∧ c.span.stop ≤ byteLength source ∧
      source.IsBoundary c.span.start ∧ source.IsBoundary c.span.stop := by
  rw [eq_of_ofSource h] at hc
  obtain ⟨before, p, after, hps, -, -, hstart, hstop⟩ := exists_piece_of_mem_commentsFrom hc
  have hsource : source = before.flatMap Piece.text ++ p.text ++ after.flatMap Piece.text := by
    rw [← flatMap_pieces source, hps]
    simp
  have hpos : 0 < byteLength p.text := by
    apply byteLength_pos
    have hmem : p ∈ pieces source := by simp [hps]
    exact text_ne_nil_of_mem_piecesFrom hmem
  have hzero : Mark.start.offset = 0 := rfl
  have hfirst : byteLength (before.flatMap Piece.text) = c.span.start := by omega
  have hlast : byteLength (before.flatMap Piece.text ++ p.text) = c.span.stop := by
    rw [byteLength_append]
    omega
  refine ⟨by omega, ?_, ?_, ?_⟩
  · rw [hsource, byteLength_append, hlast]
    omega
  · exact ⟨_, p.text ++ after.flatMap Piece.text, by rw [hsource, List.append_assoc], hfirst⟩
  · exact ⟨_, after.flatMap Piece.text, hsource, hlast⟩

/-- The blanks of a line comment. -/
theorem exists_blanks {c : Comment} (hc : c ∈ m.comments) :
    ∃ before run after, m.text = before ++ run ++ after ∧ (∀ d ∈ run, d = ' ') ∧
      byteLength before = c.span.start ∧ byteLength (before ++ run) = c.span.stop := by
  rw [eq_of_ofSource h] at hc ⊢
  obtain ⟨before, p, after, hps, hkind, -, hstart, hstop⟩ := exists_piece_of_mem_commentsFrom hc
  have hzero : Mark.start.offset = 0 := rfl
  refine ⟨before.flatMap Piece.masked, p.masked, after.flatMap Piece.masked, ?_, ?_, ?_, ?_⟩
  · simp [hps]
  · intro d hd
    unfold Piece.masked at hd
    rw [hkind] at hd
    exact List.eq_of_mem_replicate hd
  · rw [byteLength_flatMap_masked]
    omega
  · rw [byteLength_append, byteLength_flatMap_masked, Piece.byteLength_masked]
    omega

/-- Where a character stands that is no blank, there is no line comment. -/
theorem apart_of_solidAt {offset : Nat} (hsolid : SolidAt m.text offset) {c : Comment}
    (hc : c ∈ m.comments) : offset < c.span.start ∨ c.span.stop ≤ offset := by
  obtain ⟨lead, d, rest, htext, hd, rfl⟩ := hsolid
  obtain ⟨before, run, after, hblanks, hrun, hstart, hstop⟩ := exists_blanks h hc
  have hsize := d.utf8Size_pos
  rcases byteLength_le_of_solid (hblanks.symm.trans htext) hrun hd with hle | hle
  · simp only [byteLength_append, byteLength_cons, byteLength_nil] at hle
    omega
  · omega

/-- No token ends inside a line comment. -/
theorem apart_of_edgeAt {offset : Nat} (hedge : EdgeAt m.text offset) {c : Comment}
    (hc : c ∈ m.comments) : offset ≤ c.span.start ∨ c.span.stop ≤ offset := by
  rcases hedge with ⟨lead, d, rest, htext, hd, rfl⟩ | hsolid | rfl
  · obtain ⟨before, run, after, hblanks, hrun, hstart, hstop⟩ := exists_blanks h hc
    rcases byteLength_le_of_solid (hblanks.symm.trans htext) hrun hd with hle | hle
    · omega
    · rw [byteLength_append]
      omega
  · have hapart := apart_of_solidAt h hsolid hc
    omega
  · obtain ⟨-, hle, -⟩ := comment_bounds h hc
    rw [byteLength_text h]
    omega

/-- The places where tokens start and end lie between two characters of the original text. -/
theorem isBoundary_of_edgeAt {offset : Nat} (hedge : EdgeAt m.text offset) :
    source.IsBoundary offset := by
  have hsource {before after : Text} {c : Char} (htext : m.text = before ++ c :: after)
      (hc : c ≠ ' ') : ∃ before' after', source = before' ++ c :: after' ∧
        byteLength before' = byteLength before := by
    rw [eq_of_ofSource h] at htext
    have hfound := exists_text_of_masked htext hc
    rwa [flatMap_pieces] at hfound
  rcases hedge with ⟨before, c, after, htext, hc, rfl⟩ | ⟨before, c, after, htext, hc, rfl⟩ | rfl
  · obtain ⟨before', after', hsplit, hlength⟩ := hsource htext hc
    refine ⟨before' ++ [c], after', by simp [hsplit], ?_⟩
    rw [byteLength_append, byteLength_append, hlength]
  · obtain ⟨before', after', hsplit, hlength⟩ := hsource htext hc
    exact ⟨before', c :: after', hsplit, hlength⟩
  · exact ⟨source, [], (List.append_nil source).symm, (byteLength_text h).symm⟩

end Masked

end ClassHints.Sheet
