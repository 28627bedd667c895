import ClassHints.Proofs.Sheet.ByteRounds

/-!
# Blanking keeps all offsets

The pass over bytes refuses what the pieces of a stylesheet refuse, and leaves the text and the
comments that they leave. So it never cuts a character in two and always comes to its end. In the
text that is left, every byte is where it was: a blank in a line comment, itself everywhere else.
-/

namespace ClassHints.Sheet

open Text

/-! ## All pieces -/

/-- Blanks have one byte each. -/
theorem utf8_replicate_blank (n : Nat) : utf8 (List.replicate n ' ') = List.replicate n 0x20 := by
  have hblank : String.utf8EncodeChar ' ' = [0x20] := by decide
  induction n with
  | zero => rfl
  | succ n ih => rw [List.replicate_succ, List.replicate_succ, utf8_cons, hblank, ih]; rfl

/-- The braces that are open behind a piece at a mark, innermost first, or why it is refused. -/
def openedAfter (m : Mark) (p : Piece) (opened : List Mark) : Except Fault (List Mark) :=
  match p.kind, opened with
  | .broken cause, _ => .error (Fault.at m cause)
  | .opening, _ => .ok (m :: opened)
  | .closing, [] => .error (Fault.at m .strayBrace)
  | .closing, _ :: outer => .ok outer
  | .plain, _ | .lineComment, _ => .ok opened

/-- A fault at the first piece counts, and else the first one behind it. -/
theorem faultFrom_cons (m : Mark) (opened : List Mark) (p : Piece) (ps : List Piece) :
    faultFrom m opened (p :: ps) =
      match openedAfter m p opened with
      | .error fault => some fault
      | .ok opened' => faultFrom (m.advance p.text) opened' ps := by
  obtain ⟨kind, text⟩ := p
  cases kind with
  | closing => cases opened <;> rfl
  | _ => rfl

/-- A brace that is open behind a piece was open before it or is the piece itself. -/
theorem mem_of_openedAfter {m : Mark} {p : Piece} {opened opened' : List Mark}
    (h : openedAfter m p opened = .ok opened') {mark : Mark} (hmem : mark ∈ opened') :
    mark = m ∨ mark ∈ opened := by
  unfold openedAfter at h
  split at h <;> cases h
  · exact List.mem_cons.1 hmem
  · exact .inr (List.mem_cons_of_mem _ hmem)
  · exact .inr hmem
  · exact .inr hmem

/-- What the pass keeps behind a piece is what the piece leaves. -/
theorem ByteScan.afterPiece_eq {m : Mark} {lead : Text} (hm : m.offset = byteLength lead)
    (p : Piece) (rest : Text) (comments : List Comment) (opened : List Mark) (depth : Nat) :
    afterPiece m p ⟨utf8 (lead ++ p.text ++ rest), comments, opened.map Mark.offset, depth⟩ =
      match openedAfter m p opened with
      | .error fault => .error (.fault fault)
      | .ok opened' => .ok ⟨utf8 (lead ++ p.masked ++ rest), comments ++ (p.comment? m).toList,
          opened'.map Mark.offset, depthAfter depth p.kind p.text⟩ := by
  obtain ⟨kind, text⟩ := p
  cases kind with
  | closing => cases opened <;> simp [afterPiece, openedAfter, Piece.masked, Piece.comment?]
  | lineComment =>
    have htake : (utf8 (lead ++ text ++ rest)).take m.offset = utf8 lead := by
      rw [hm, List.append_assoc, take_utf8_append]
    have hdrop : (utf8 (lead ++ text ++ rest)).drop (m.offset + byteLength text) = utf8 rest := by
      rw [hm, ← byteLength_append, drop_utf8_append]
    simp only [afterPiece, openedAfter, Piece.masked, htake, hdrop]
    rw [utf8_append, utf8_append, utf8_replicate_blank]
  | _ => simp [afterPiece, openedAfter, Piece.masked, Piece.comment?]

/-- The stylesheet that pieces leave behind a text `lead` and `comments`, where `opened` are the
braces that are open. -/
def maskedFrom (m : Mark) (opened : List Mark) (lead : Text) (comments : List Comment)
    (ps : List Piece) : Except ByteFailure Masked :=
  match faultFrom m opened ps with
  | some fault => .error (.fault fault)
  | none => .ok ⟨lead ++ ps.flatMap Piece.masked, comments ++ commentsFrom m ps⟩

/-- The first piece is masked, or refused, before those behind it. -/
theorem maskedFrom_cons (m : Mark) (opened : List Mark) (lead : Text) (comments : List Comment)
    (p : Piece) (ps : List Piece) : maskedFrom m opened lead comments (p :: ps) =
      match openedAfter m p opened with
      | .error fault => .error (.fault fault)
      | .ok opened' => maskedFrom (m.advance p.text) opened' (lead ++ p.masked)
          (comments ++ (p.comment? m).toList) ps := by
  rw [maskedFrom, faultFrom_cons]
  cases openedAfter m p opened with
  | error fault => rfl
  | ok opened' => simp [maskedFrom, commentsFrom]

/-- At the end of the text what is left is decoded, or a brace is open. -/
theorem ByteScan.finish_eq {source lead : Text} {opened : List Mark}
    (hopened : ∀ mark ∈ opened, ∃ s t, source = s ++ t ∧ mark = Mark.start.advance s)
    (comments : List Comment) (depth : Nat) (m : Mark) :
    finish source ⟨utf8 lead, comments, opened.map Mark.offset, depth⟩ =
      maskedFrom m opened lead comments [] := by
  cases opened with
  | nil => simp [finish, maskedFrom, faultFrom, commentsFrom, decode?_utf8]
  | cons mark outer =>
    obtain ⟨before, after, rfl, rfl⟩ := hopened mark List.mem_cons_self
    have hoffset : (Mark.start.advance before).offset = byteLength before := by
      simp [Mark.start]
    rw [finish, List.map_cons, hoffset]
    exact refuse_append before after .openBlock

/-- From a place between two characters on, the pass over bytes gives what the pieces from there on
leave. -/
theorem ByteScan.run_finish_eq {source before rest lead : Text} (hsource : source = before ++ rest)
    (hlead : byteLength lead = byteLength before) {opened : List Mark}
    (hopened : ∀ mark ∈ opened, ∃ s t, source = s ++ t ∧ mark = Mark.start.advance s)
    (comments : List Comment) (depth : Nat) :
    (run source (byteLength before)
      ⟨utf8 (lead ++ rest), comments, opened.map Mark.offset, depth⟩ >>= finish source) =
      maskedFrom (Mark.start.advance before) opened lead comments
        (piecesFrom before.getLast? depth 0 rest) := by
  -- the rounds through one piece lead to a shorter rest
  induction hn : rest.length using Nat.strong_induction_on
    generalizing before rest lead opened comments depth with
  | _ n ih =>
    cases rest with
    | nil =>
      rw [run_of_le (by simp [hsource]), List.append_nil]
      exact finish_eq hopened comments depth _
    | cons c u =>
      have hruns : RunsThrough (before ++ c :: u) before
          ⟨utf8 (lead ++ c :: u), comments, opened.map Mark.offset, depth⟩ _ := runsThrough_front c
      rw [piecesFrom]
      dsimp only at hruns ⊢
      generalize hfront : Piece.front before.getLast? depth c u = front at hruns ⊢
      obtain ⟨kind, more⟩ := front
      dsimp only at hruns ⊢
      have hm : (Mark.start.advance before).offset = byteLength lead := by
        simp [Mark.start, hlead]
      have hsplit : lead ++ c :: u = lead ++ (c :: u.take more) ++ u.drop more := by simp
      have hprevious : piecesFrom (some c) (depthAfter depth kind (c :: u.take more)) more u =
          piecesFrom (before ++ c :: u.take more).getLast?
            (depthAfter depth kind (c :: u.take more)) 0 (u.drop more) := by
        rw [piecesFrom_eq, List.getLast?_append_of_ne_nil _ (by simp), List.getLast?_cons]
        cases (u.take more).getLast? <;> rfl
      rw [RunsThrough, ← hsource, hsplit, afterPiece_eq hm] at hruns
      rw [hsplit, hruns, hprevious, maskedFrom_cons]
      cases hafter : openedAfter (Mark.start.advance before) ⟨kind, c :: u.take more⟩ opened with
      | error fault => rfl
      | ok opened' =>
        have hshort : (u.drop more).length < n := by
          rw [← hn, List.length_cons, List.length_drop]
          omega
        have hlead' : byteLength (lead ++ (Piece.mk kind (c :: u.take more)).masked) =
            byteLength (before ++ c :: u.take more) := by
          rw [byteLength_append, byteLength_append, Piece.byteLength_masked, hlead]
        have hopened' : ∀ mark ∈ opened', ∃ s t, source = s ++ t ∧ mark = Mark.start.advance s := by
          intro mark hmark
          rcases mem_of_openedAfter hafter hmark with rfl | hmark
          · exact ⟨before, c :: u, hsource, rfl⟩
          · exact hopened mark hmark
        dsimp only
        rw [← Mark.advance_append]
        exact ih _ hshort (by simp [hsource]) hlead' hopened' _ _ rfl

/-- Byte by byte a stylesheet is blanked out as it is piece by piece. -/
theorem maskBytes_eq (source : Text) :
    maskBytes source = (Masked.ofSource source).mapError .fault := by
  have hrun : maskBytes source = maskedFrom .start [] [] [] (pieces source) :=
    ByteScan.run_finish_eq (List.nil_append source).symm rfl (List.forall_mem_nil _) [] 0
  rw [hrun, maskedFrom, Masked.ofSource]
  cases faultFrom .start [] (pieces source) with
  | some fault => rfl
  | none => rfl

/-! ## What is blanked -/

/-- Where no line comment is, the bytes stay. -/
theorem getElem?_utf8_masked {m : Mark} {ps : List Piece} {i : Nat}
    (h : ∀ c ∈ commentsFrom m ps, m.offset + i < c.span.start ∨ c.span.stop ≤ m.offset + i) :
    (utf8 (ps.flatMap Piece.masked))[i]? = (utf8 (ps.flatMap Piece.text))[i]? := by
  induction ps generalizing m i with
  | nil => rfl
  | cons p ps ih =>
    rw [commentsFrom, List.forall_mem_append] at h
    rw [List.flatMap_cons, List.flatMap_cons, utf8_append, utf8_append]
    by_cases hi : i < byteLength p.text
    · rw [List.getElem?_append_left (by simpa using hi),
        List.getElem?_append_left (by simpa using hi)]
      have hplain : p.masked = p.text := by
        unfold Piece.masked
        split
        · next hkind =>
          have hcomment := h.1 ⟨.line, trim (p.text.drop 2), m.to (m.advance p.text)⟩
            (by simp [Piece.comment?, hkind])
          simp only [Mark.to, Mark.offset_advance] at hcomment
          omega
        · rfl
      rw [hplain]
    · rw [List.getElem?_append_right (by simpa using hi),
        List.getElem?_append_right (by simpa using hi), length_utf8, length_utf8,
        Piece.byteLength_masked]
      apply ih (m := m.advance p.text)
      intro c hc
      have hplace := h.2 c hc
      rw [Mark.offset_advance]
      omega

/-- No character but blanks is put in. -/
theorem count_masked_le (ps : List Piece) {c : Char} (hc : c ≠ ' ') :
    (ps.flatMap Piece.masked).count c ≤ (ps.flatMap Piece.text).count c := by
  induction ps with
  | nil => exact Nat.le_refl _
  | cons p ps ih =>
    have hfirst : p.masked.count c ≤ p.text.count c := by
      unfold Piece.masked
      split
      · rw [List.count_replicate, beq_false_of_ne hc.symm]
        exact Nat.zero_le _
      · exact Nat.le_refl _
    rw [List.flatMap_cons, List.flatMap_cons, List.count_append, List.count_append]
    omega

/-- A text in which line comments are blanked out: all offsets stay valid. -/
structure KeepsOffsets (source : Text) (m : Masked) : Prop where
  /-- The length in bytes stays. -/
  length : byteLength m.text = byteLength source
  /-- Line comments are filled with blanks. -/
  blanked : ∀ c ∈ m.comments, ∀ i : Nat, c.span.start ≤ i → i < c.span.stop →
    (utf8 m.text)[i]? = some 0x20
  /-- All other bytes stay. -/
  kept : ∀ i : Nat, (∀ c ∈ m.comments, i < c.span.start ∨ c.span.stop ≤ i) →
    (utf8 m.text)[i]? = (utf8 source)[i]?
  /-- No character but blanks is put in, and so no replacement character. -/
  faithful : ∀ c, c ≠ ' ' → m.text.count c ≤ source.count c
  /-- A line comment starts with two slashes, has no newline in it and ends at a newline or at the
  end; its text is what stands behind the slashes, without the blanks around it. -/
  written : ∀ c ∈ m.comments, ∃ before body after, source = before ++ '/' :: '/' :: body ++ after ∧
    '\n' ∉ body ∧ (∀ d ∈ after.head?, d = '\n') ∧ c.text = trim body ∧
    c.span.start = byteLength before ∧ c.span.stop = byteLength (before ++ '/' :: '/' :: body)
  /-- Line comments follow each other. -/
  apart : m.comments.Pairwise fun c d => c.span.stop ≤ d.span.start
  /-- No newline is blanked. -/
  newlines : ∀ i : Nat, (utf8 source)[i]? = some 0x0A → (utf8 m.text)[i]? = some 0x0A

namespace Masked

variable {source : Text} {m : Masked} (h : ofSource source = .ok m)

include h

/-- Every byte of a line comment is masked by a blank. -/
theorem getElem?_blanked {c : Comment} (hc : c ∈ m.comments) {i : Nat} (hstart : c.span.start ≤ i)
    (hstop : i < c.span.stop) : (utf8 m.text)[i]? = some 0x20 := by
  obtain ⟨before, run, after, htext, hrun, hbefore, hlength⟩ := exists_blanks h hc
  have hblanks : utf8 run = List.replicate run.length 0x20 := by
    rw [List.eq_replicate_of_mem hrun, utf8_replicate_blank, List.length_replicate]
  have hinside : i - byteLength before < run.length := by
    have hsize := congrArg List.length hblanks
    rw [length_utf8, List.length_replicate] at hsize
    rw [byteLength_append] at hlength
    omega
  rw [htext, utf8_append, utf8_append, List.append_assoc,
    List.getElem?_append_right (by rw [length_utf8]; omega), length_utf8, hblanks,
    List.getElem?_append_left (by rwa [List.length_replicate]),
    List.getElem?_replicate_of_lt hinside]

/-- Every byte outside the line comments stays as it is. -/
theorem getElem?_kept {i : Nat} (hi : ∀ c ∈ m.comments, i < c.span.start ∨ c.span.stop ≤ i) :
    (utf8 m.text)[i]? = (utf8 source)[i]? := by
  rw [eq_of_ofSource h] at hi ⊢
  have hzero : Mark.start.offset = 0 := rfl
  rw [← Nat.zero_add i, ← hzero] at hi
  rw [getElem?_utf8_masked hi, flatMap_pieces]

/-- Newlines stay newlines. -/
theorem getElem?_newline {i : Nat} (hi : (utf8 source)[i]? = some 0x0A) :
    (utf8 m.text)[i]? = some 0x0A := by
  rw [← hi]
  apply getElem?_kept h
  intro c hc
  by_contra hinside
  obtain ⟨before, body, after, rfl, hno, -, rfl⟩ := exists_written h hc
  simp only [Mark.to, Mark.offset_advance, Mark.start, Nat.zero_add, not_or, not_lt,
    not_le] at hinside
  -- the byte would be a newline inside the comment
  rw [utf8_append, List.getElem?_append_left (by rw [length_utf8]; exact hinside.2), utf8_append,
    List.getElem?_append_right (by rw [length_utf8]; exact hinside.1)] at hi
  have hmem := toChar_mem_of_mem_utf8 (List.mem_of_getElem? hi) (by decide)
  have hnone : '\n' ∉ '/' :: '/' :: body := by simp [hno]
  exact hnone hmem

/-- Masking leaves all offsets valid. -/
theorem keepsOffsets : KeepsOffsets source m := by
  refine ⟨byteLength_text h, fun c hc i => getElem?_blanked h hc, fun i => getElem?_kept h, ?_, ?_,
    pairwise_comments h, fun i => getElem?_newline h⟩
  · intro c hc
    have hcount := count_masked_le (pieces source) hc
    rw [flatMap_pieces] at hcount
    rwa [eq_of_ofSource h]
  · intro c hc
    obtain ⟨before, body, after, hsource, hno, hafter, rfl⟩ := exists_written h hc
    refine ⟨before, body, after, hsource, hno, hafter, rfl, ?_, ?_⟩
    · simp [Mark.to, Mark.start]
    · simp [Mark.to, Mark.start]

end Masked

/-- Every stylesheet is blanked out byte by byte without cutting a character in two and without
standing still, and if it is not refused, all its offsets stay valid. -/
theorem maskBytes_keepsOffsets (source : Text) :
    maskBytes source = (Masked.ofSource source).mapError .fault ∧
      ∀ m, Masked.ofSource source = .ok m → KeepsOffsets source m :=
  ⟨maskBytes_eq source, fun _ => Masked.keepsOffsets⟩

/-- Escapes lead into characters of two and three bytes, an address and a string hold slashes, and
the line comment has a character of two bytes. -/
theorem maskBytes_keepsOffsets_escapes :
    ∃ source m, source = "a\\\u00e9 url(//\u00fc) '//\\\u20ac' // \u00f6\n.b\x7b\x7d".toList ∧
      maskBytes source = .ok m ∧ m.comments.length = 1 ∧ KeepsOffsets source m := by
  have hok : (Masked.ofSource
      "a\\\u00e9 url(//\u00fc) '//\\\u20ac' // \u00f6\n.b\x7b\x7d".toList).isOk = true := by
    decide +kernel
  obtain ⟨hbytes, hkeeps⟩ := maskBytes_keepsOffsets
    "a\\\u00e9 url(//\u00fc) '//\\\u20ac' // \u00f6\n.b\x7b\x7d".toList
  cases hm : Masked.ofSource
      "a\\\u00e9 url(//\u00fc) '//\\\u20ac' // \u00f6\n.b\x7b\x7d".toList with
  | error fault =>
    rw [hm] at hok
    cases hok
  | ok m =>
    rw [hm] at hbytes
    refine ⟨_, m, rfl, hbytes, ?_, hkeeps m hm⟩
    rw [Masked.eq_of_ofSource hm]
    decide +kernel

end ClassHints.Sheet
