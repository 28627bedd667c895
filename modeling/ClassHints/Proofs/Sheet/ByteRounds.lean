import ClassHints.Proofs.Sheet.ByteScan
import ClassHints.Proofs.Sheet.LineComments

/-!
# Rounds through one piece

Where the pass over bytes stands between two characters, its next rounds go to the end of the piece
that starts there, and the text is cut only where a piece starts or ends. Bytes beyond ASCII change
nothing, so that a round which an escape has led into the middle of a character comes out at its
end.
-/

namespace ClassHints.Sheet

open Text

/-! ## Cuts between characters -/

/-- A text is cut behind its front. -/
theorem cutAtByte_append (s t : Text) : cutAtByte (s ++ t) (byteLength s) = .ok (s, t) := by
  rw [cutAtByte, splitByte?_append]

/-- The part between two other parts is cut out. -/
theorem sliceBytes_append (s t u : Text) :
    sliceBytes (s ++ t ++ u) (byteLength s) (byteLength (s ++ t)) = .ok t := by
  rw [sliceBytes, cutAtByte_append]
  change (cutAtByte (s ++ t) (byteLength s) >>= fun parts => pure parts.2) = .ok t
  rw [cutAtByte_append]
  rfl

/-- A refusal is placed behind the text that was read before it. -/
theorem refuse_append {α : Type} (s t : Text) (cause : Cause) :
    (refuse (s ++ t) (byteLength s) cause : Except ByteFailure α) =
      .error (.fault (Fault.at (Mark.start.advance s) cause)) := by
  rw [refuse, cutAtByte_append, lineColumn_mark]
  rfl

/-! ## Rounds -/

namespace ByteScan

section Rounds

variable {source : Text} {i j : Nat} {b : UInt8} {s s' : ByteScan}

/-- A round that goes well is followed by the rounds from where it stopped. -/
theorem run_of_round (hb : (utf8 source)[i]? = some b) (hround : s.round source i b = .ok (j, s'))
    (hlt : i < j) : s.run source i = s'.run source j := by
  obtain ⟨h, hget⟩ := List.getElem?_eq_some_iff.1 hb
  rw [run, dif_pos h, hget, hround]
  exact if_pos hlt

/-- A round that fails ends the pass. -/
theorem run_of_error {failure : ByteFailure} (hb : (utf8 source)[i]? = some b)
    (hround : s.round source i b = .error failure) : s.run source i = .error failure := by
  obtain ⟨h, hget⟩ := List.getElem?_eq_some_iff.1 hb
  rw [run, dif_pos h, hget, hround]

/-- Behind the last byte there are no more rounds. -/
theorem run_of_le (h : byteLength source ≤ i) : s.run source i = .ok s := by
  rw [run, dif_neg (by simpa using h)]

/-- A byte beyond ASCII changes nothing. -/
theorem round_of_le (hb : (utf8 source)[i]? = some b) (hle : 0x80 ≤ b.toChar.toNat) :
    s.round source i b = .ok (i + 1, s) := by
  obtain ⟨h, hget⟩ := List.getElem?_eq_some_iff.1 hb
  have hne {a : Char} (ha : a.toNat < 0x80) : b.toChar ≠ a := ne_of_le_of_lt hle ha
  rw [round, List.drop_eq_getElem_cons h, hget, addressBytes?_of_le _ hle]
  simp [readByte, hne]

/-- Bytes beyond ASCII are passed over. -/
theorem run_of_forall_le {lead bs tail : List UInt8} (hsource : utf8 source = lead ++ bs ++ tail)
    (hbs : ∀ b ∈ bs, 0x80 ≤ b.toChar.toNat) :
    s.run source lead.length = s.run source (lead.length + bs.length) := by
  induction bs generalizing lead with
  | nil => rfl
  | cons b bs ih =>
    obtain ⟨hb, hrest⟩ := List.forall_mem_cons.1 hbs
    have hget : (utf8 source)[lead.length]? = some b := by simp [hsource]
    have hnext : s.run source (lead ++ [b]).length =
        s.run source ((lead ++ [b]).length + bs.length) := ih (by simp [hsource]) hrest
    rw [List.length_append, List.length_singleton] at hnext
    rw [run_of_round hget (round_of_le hget hb) (by omega), hnext, List.length_cons,
      Nat.add_assoc, Nat.add_comm 1]

end Rounds

/-! ## Rounds between characters -/

section Characters

variable {before rest : Text} {c : Char} {b : UInt8} {s : ByteScan}

/-- A round between two characters goes to the end of an address. -/
theorem round_of_address {n : Nat} (haddress : address? before.getLast? (c :: rest) = some n) :
    s.round (before ++ c :: rest) (byteLength before) b =
      .ok (byteLength before + byteLength ((c :: rest).take n), s) := by
  rw [round]
  rw [take_utf8_append, drop_utf8_append, addressBytes?_utf8, haddress]
  rfl

variable (hb : String.utf8EncodeChar c = [b])

include hb

/-- A character of one byte is the byte that stands where the characters before it end. -/
theorem getElem?_utf8_of_single : (utf8 (before ++ c :: rest))[byteLength before]? = some b := by
  rw [utf8_append, utf8_cons, hb, List.getElem?_append_right (by simp)]
  simp

/-- Behind a character of one byte the bytes of the rest begin. -/
theorem drop_succ_utf8_of_single :
    (utf8 (before ++ c :: rest)).drop (byteLength before + 1) = utf8 rest := by
  rw [← List.drop_drop, drop_utf8_append, utf8_cons, hb]
  rfl

/-- Where no address starts, a round between two characters sees one byte before and one behind. -/
theorem round_of_no_address (haddress : address? before.getLast? (c :: rest) = none) :
    s.round (before ++ c :: rest) (byteLength before) b =
      s.readByte (before ++ c :: rest) (byteLength before) b
        ((utf8 before).getLast?.map UInt8.toChar) ((utf8 rest).head?.map UInt8.toChar) := by
  have hnext : (utf8 (before ++ c :: rest))[byteLength before + 1]? = (utf8 rest).head? := by
    rw [← List.head?_drop, drop_succ_utf8_of_single hb]
  rw [round]
  rw [take_utf8_append, drop_utf8_append, addressBytes?_utf8, haddress, hnext]
  rfl

end Characters

/-! ## One piece -/

/-- What a piece at a mark does to what the pass keeps. -/
def afterPiece (m : Mark) (p : Piece) (s : ByteScan) : Except ByteFailure ByteScan :=
  let depth := depthAfter s.depth p.kind p.text
  match p.kind, s.opened with
  | .broken cause, _ => .error (.fault (Fault.at m cause))
  | .opening, _ => .ok { s with opened := m.offset :: s.opened, depth := depth }
  | .closing, [] => .error (.fault (Fault.at m .strayBrace))
  | .closing, _ :: outer => .ok { s with opened := outer, depth := depth }
  | .plain, _ => .ok { s with depth := depth }
  | .lineComment, _ => .ok { s with
      masked := s.masked.take m.offset ++ List.replicate (byteLength p.text) 0x20 ++
        s.masked.drop (m.offset + byteLength p.text)
      comments := s.comments ++ (p.comment? m).toList
      depth := depth }

/-- The rounds from the start of a piece go to its end. -/
def RunsThrough (source before : Text) (s : ByteScan) (p : Piece) : Prop :=
  s.run source (byteLength before) =
    afterPiece (Mark.start.advance before) p s >>= fun s' =>
      s'.run source (byteLength (before ++ p.text))

/-- A piece leaves the depth as it was, unless it is a parenthesis or a brace. -/
theorem depthAfter_plain {depth : Nat} {text : Text} (hopening : text ≠ ['('])
    (hclosing : text ≠ [')']) : depthAfter depth .plain text = depth := by
  unfold depthAfter
  split <;> simp_all

section Rules

variable {before rest : Text} {s : ByteScan}

/-- A piece that one round reads to its end. -/
theorem runsThrough_of_round {source : Text} {b : UInt8} {p : Piece} {s' : ByteScan}
    (hget : (utf8 source)[byteLength before]? = some b) (htext : p.text ≠ [])
    (hround : s.round source (byteLength before) b = .ok (byteLength (before ++ p.text), s'))
    (hafter : afterPiece (Mark.start.advance before) p s = .ok s') :
    RunsThrough source before s p := by
  have hpos := byteLength_pos htext
  rw [RunsThrough, hafter, run_of_round hget hround]
  · rfl
  · rw [byteLength_append]
    omega

/-- A piece that is refused in its first round. -/
theorem runsThrough_of_error {source : Text} {b : UInt8} {p : Piece} {failure : ByteFailure}
    (hget : (utf8 source)[byteLength before]? = some b)
    (hround : s.round source (byteLength before) b = .error failure)
    (hafter : afterPiece (Mark.start.advance before) p s = .error failure) :
    RunsThrough source before s p := by
  rw [RunsThrough, hafter, run_of_error hget hround]
  rfl

/-- A piece that is handed on as it stands and is no parenthesis. -/
theorem runsThrough_plain {source text : Text} {b : UInt8}
    (hget : (utf8 source)[byteLength before]? = some b) (htext : text ≠ [])
    (hdepth : depthAfter s.depth .plain text = s.depth)
    (hround : s.round source (byteLength before) b =
      .ok (byteLength before + byteLength text, s)) :
    RunsThrough source before s ⟨.plain, text⟩ := by
  have hafter : afterPiece (Mark.start.advance before) ⟨.plain, text⟩ s = .ok s := by
    simp only [afterPiece, hdepth]
  apply runsThrough_of_round hget htext _ hafter
  rw [hround, byteLength_append]

/-- A character beyond ASCII. -/
theorem runsThrough_of_le {c : Char} (hc : 0x80 ≤ c.toNat) :
    RunsThrough (before ++ c :: rest) before s ⟨.plain, [c]⟩ := by
  have hne : c ≠ '(' ∧ c ≠ ')' := ⟨ne_of_le_of_lt hc (by decide), ne_of_le_of_lt hc (by decide)⟩
  have hdepth : depthAfter s.depth .plain [c] = s.depth :=
    depthAfter_plain (by simp [hne]) (by simp [hne])
  have hbytes : utf8 (before ++ c :: rest) =
      utf8 before ++ String.utf8EncodeChar c ++ utf8 rest := by
    rw [utf8_append, utf8_cons, List.append_assoc]
  have hrun := run_of_forall_le (s := s) hbytes fun b hb => le_of_mem_utf8EncodeChar hc hb
  rw [length_utf8, String.length_utf8EncodeChar] at hrun
  rw [RunsThrough, hrun, byteLength_append]
  simp only [afterPiece, hdepth]
  rfl

/-- An address. -/
theorem runsThrough_address {c : Char} {n : Nat}
    (haddress : address? before.getLast? (c :: rest) = some n) :
    RunsThrough (before ++ c :: rest) before s ⟨.plain, c :: rest.take (n - 1)⟩ := by
  have hlong := isAddress_of_address? haddress .plain
  have hdepth : depthAfter s.depth .plain (c :: rest.take (n - 1)) = s.depth := by
    unfold Piece.isAddress at hlong
    apply depthAfter_plain <;> intro heq <;> simp [heq] at hlong
  have hpos : n ≠ 0 := by
    rintro rfl
    simp [Piece.isAddress] at hlong
  have htake : (c :: rest).take n = c :: rest.take (n - 1) := by
    obtain ⟨m, rfl⟩ := Nat.exists_eq_succ_of_ne_zero hpos
    rfl
  rcases utf8EncodeChar_cases c with ⟨-, b, hb, hc⟩ | ⟨hle, b, bs, hb, -, hhigh⟩
  · apply runsThrough_plain (getElem?_utf8_of_single hb) (by simp) hdepth
    rw [round_of_address haddress, htake]
  · -- an address starts with a letter
    have hnone := addressBytes?_utf8 before (c :: rest)
    rw [haddress, utf8_cons, hb, List.cons_append,
      addressBytes?_of_le _ (hhigh b (by simp))] at hnone
    cases hnone

/-- An escape: behind the first byte of the escaped character the pass comes out at its end. -/
theorem runsThrough_escape (haddress : address? before.getLast? ('\\' :: rest) = none) :
    RunsThrough (before ++ '\\' :: rest) before s ⟨.plain, '\\' :: rest.take 1⟩ := by
  have hone : '\\'.utf8Size = 1 := by decide
  have hb : String.utf8EncodeChar '\\' = [0x5C] := by decide
  have hdepth : depthAfter s.depth .plain ('\\' :: rest.take 1) = s.depth :=
    depthAfter_plain (by simp) (by simp)
  have hround : s.round (before ++ '\\' :: rest) (byteLength before) 0x5C =
      .ok (byteLength before + 2, s) := by
    rw [round_of_no_address hb haddress]
    rfl
  rw [RunsThrough, run_of_round (getElem?_utf8_of_single hb) hround (by omega)]
  simp only [afterPiece, hdepth]
  change _ = s.run _ _
  cases rest with
  | nil => rw [run_of_le (by simp [hone]), run_of_le (by simp)]
  | cons d u =>
    obtain ⟨e, es, he, hsize, hhigh⟩ := exists_utf8EncodeChar_eq d
    have hbytes : utf8 (before ++ '\\' :: d :: u) = utf8 before ++ [0x5C, e] ++ es ++ utf8 u := by
      simp [utf8_cons, hb, he]
    have hrun := run_of_forall_le (s := s) hbytes hhigh
    have hlead : (utf8 before ++ [0x5C, e]).length = byteLength before + 2 := by simp
    rw [hlead] at hrun
    rw [hrun]
    congr 1
    simp [hone]
    omega

/-- A string, or a quote that is not closed. -/
theorem runsThrough_string {quote : Char} (hquote : quote = '"' ∨ quote = '\'')
    (haddress : address? before.getLast? (quote :: rest) = none) :
    RunsThrough (before ++ quote :: rest) before s
      (match stringEnd? quote false rest with
      | some n => ⟨.plain, quote :: rest.take n⟩
      | none => ⟨.broken .openString, quote :: rest⟩) := by
  have hascii : quote.toNat < 0x80 := by rcases hquote with rfl | rfl <;> decide
  have hescape : quote ≠ '\\' := by rcases hquote with rfl | rfl <;> decide
  obtain ⟨b, hb, hc⟩ := utf8EncodeChar_of_lt hascii
  have hsize := String.length_utf8EncodeChar quote
  have hread := round_of_no_address (s := s) hb haddress
  rw [readByte, hc, if_neg hescape, if_pos hquote, drop_succ_utf8_of_single hb,
    closingByte?_utf8 hascii hescape] at hread
  cases hend : stringEnd? quote false rest with
  | some n =>
    rw [hend] at hread
    apply runsThrough_plain (getElem?_utf8_of_single hb) (by simp)
    · apply depthAfter_plain <;> rcases hquote with rfl | rfl <;> simp
    · rw [hread]
      simp [← hsize, hb, Nat.add_assoc]
  | none =>
    rw [hend, Option.map_none] at hread
    dsimp only at hread
    rw [refuse_append] at hread
    exact runsThrough_of_error (getElem?_utf8_of_single hb) hread rfl

/-- A block comment, or one that is not closed. -/
theorem runsThrough_comment {body : Text}
    (haddress : address? before.getLast? ('/' :: '*' :: body) = none) :
    RunsThrough (before ++ '/' :: '*' :: body) before s
      (match commentEnd? body with
      | some n => ⟨.plain, '/' :: ('*' :: body).take (n + 1)⟩
      | none => ⟨.broken .openComment, '/' :: '*' :: body⟩) := by
  have hb : String.utf8EncodeChar '/' = [0x2F] := by decide
  have hsize : '/'.utf8Size = 1 ∧ '*'.utf8Size = 1 := by decide
  have hnext : (utf8 ('*' :: body)).head?.map UInt8.toChar = some '*' :=
    (head?_utf8_eq_some_iff (by decide)).2 rfl
  have hcut : cutAtByte (before ++ '/' :: '*' :: body) (byteLength before + 2) =
      .ok (before ++ ['/', '*'], body) := by
    have happend := cutAtByte_append (before ++ ['/', '*']) body
    simpa [hsize] using happend
  have hround : s.round (before ++ '/' :: '*' :: body) (byteLength before) 0x2F =
      (cut? "*/".toList body).elim
        (refuse (before ++ '/' :: '*' :: body) (byteLength before) .openComment)
        fun parts => .ok (byteLength before + byteLength parts.1 + 4, s) := by
    rw [round_of_no_address hb haddress, readByte, hnext, if_neg (by decide), if_neg (by decide),
      if_pos (by decide), hcut]
    simp only [bind, Except.bind]
    cases cut? "*/".toList body <;> rfl
  cases hend : cut? "*/".toList body with
  | some parts =>
    obtain ⟨inner, tail⟩ := parts
    have hbody := eq_append_of_cut? hend
    rw [toList_commentEnd] at hbody
    have hcomment : commentEnd? body = some (inner.length + 2) := by rw [commentEnd?, hend]; rfl
    have htake : ('*' :: body).take (inner.length + 3) = '*' :: (inner ++ ['*', '/']) := by
      rw [List.take_succ_cons, hbody]
      congr 1
      exact List.take_left' (by simp)
    rw [hcomment]
    apply runsThrough_plain (getElem?_utf8_of_single hb) (by simp)
    · apply depthAfter_plain <;> simp
    · rw [hround, hend, htake]
      simp [hsize]
      omega
  | none =>
    have hcomment : commentEnd? body = none := by rw [commentEnd?, hend]; rfl
    rw [hcomment]
    rw [hend, Option.elim_none, refuse_append] at hround
    exact runsThrough_of_error (getElem?_utf8_of_single hb) hround rfl

/-- Two slashes start a comment for the byte before them as they do for the character. -/
theorem startsLineComment_utf8 (before : Text) (depth : Nat) :
    startsLineComment ((utf8 before).getLast?.map UInt8.toChar) depth =
      startsLineComment before.getLast? depth := by
  have hsame {a : Char} (ha : a.toNat < 0x80) :
      ((utf8 before).getLast?.map UInt8.toChar == some a) = (before.getLast? == some a) := by
    rw [Bool.eq_iff_iff, beq_iff_eq, beq_iff_eq, getLast?_utf8_eq_some_iff ha]
  unfold startsLineComment
  rw [hsame (by decide), hsame (by decide)]

/-- A line comment is cut out up to the newline behind it or to the end of the text. -/
theorem takeComment_eq {body after : Text} (hno : '\n' ∉ body)
    (hafter : ∀ d ∈ after.head?, d = '\n') :
    s.takeComment (before ++ '/' :: '/' :: body ++ after) (byteLength before) =
      .ok (byteLength (before ++ '/' :: '/' :: body), { s with
        masked := s.masked.take (byteLength before) ++
          List.replicate (byteLength ('/' :: '/' :: body)) 0x20 ++
          s.masked.drop (byteLength before + byteLength ('/' :: '/' :: body))
        comments := s.comments ++ [⟨.line, trim body, (Mark.start.advance before).to
          (Mark.start.advance (before ++ '/' :: '/' :: body))⟩] }) := by
  have hnone : '\n' ∉ '/' :: '/' :: body := by simp [hno]
  have hstop : ((cutAt? '\n' ('/' :: '/' :: body ++ after)).map fun parts =>
      byteLength before + byteLength parts.1).getD
        (byteLength (before ++ '/' :: '/' :: body ++ after)) =
      byteLength (before ++ '/' :: '/' :: body) := by
    cases after with
    | nil =>
      rw [List.append_nil, cutAt?_eq_none hnone, List.append_nil, Option.map_none,
        Option.getD_none]
    | cons d after =>
      obtain rfl := hafter d rfl
      rw [cutAt?_append hnone, Option.map_some, Option.getD_some, byteLength_append]
  have hslashes : byteLength (before ++ ['/', '/']) = byteLength before + 2 := by
    have hone : '/'.utf8Size = 1 := by decide
    simp [hone]
  have hcut := cutAtByte_append before ('/' :: '/' :: body ++ after)
  rw [← List.append_assoc] at hcut
  have hjoin : before ++ ['/', '/'] ++ body = before ++ '/' :: '/' :: body := by simp
  have hslice := sliceBytes_append (before ++ ['/', '/']) body after
  rw [hslashes, hjoin] at hslice
  have hplace := lineColumn_mark before ('/' :: '/' :: body ++ after)
  rw [← List.append_assoc] at hplace
  have hsize : byteLength (before ++ '/' :: '/' :: body) - byteLength before =
      byteLength ('/' :: '/' :: body) := by
    rw [byteLength_append]
    omega
  simp only [takeComment, hcut, bind, Except.bind, hstop, hslice, hplace, hsize]
  rw [← byteLength_append, Mark.to, Mark.offset_advance, Mark.offset_advance]
  simp [Mark.start, pure, Except.pure]

/-- A line comment is passed in one round, up to the end of its line. -/
theorem runsThrough_lineComment {body after : Text} (hno : '\n' ∉ body)
    (hafter : ∀ d ∈ after.head?, d = '\n')
    (haddress : address? before.getLast? ('/' :: '/' :: (body ++ after)) = none)
    (hstarts : startsLineComment before.getLast? s.depth = true) :
    RunsThrough (before ++ '/' :: '/' :: (body ++ after)) before s
      ⟨.lineComment, '/' :: '/' :: body⟩ := by
  have hb : String.utf8EncodeChar '/' = [0x2F] := by decide
  have hnext : (utf8 ('/' :: (body ++ after))).head?.map UInt8.toChar = some '/' :=
    (head?_utf8_eq_some_iff (by decide)).2 rfl
  have hround := round_of_no_address (s := s) hb haddress
  rw [readByte, hnext, startsLineComment_utf8, hstarts, if_neg (by decide), if_neg (by decide),
    if_neg (by decide), if_pos (by decide)] at hround
  have hjoin : before ++ '/' :: '/' :: (body ++ after) = before ++ '/' :: '/' :: body ++ after := by
    simp
  rw [hjoin, takeComment_eq hno hafter, ← hjoin] at hround
  apply runsThrough_of_round (getElem?_utf8_of_single hb) (by simp) hround
  simp [afterPiece, depthAfter, Piece.comment?, Mark.advance_append, Mark.start]

/-- An opening brace is passed in one round. -/
theorem runsThrough_opening (haddress : address? before.getLast? ('{' :: rest) = none) :
    RunsThrough (before ++ '{' :: rest) before s ⟨.opening, ['{']⟩ := by
  have hb : String.utf8EncodeChar '{' = [0x7B] := by decide
  have hsize : '{'.utf8Size = 1 := by decide
  have hround : s.round (before ++ '{' :: rest) (byteLength before) 0x7B =
      .ok (byteLength before + 1,
        { s with depth := 0, opened := byteLength before :: s.opened }) := by
    rw [round_of_no_address hb haddress]
    rfl
  apply runsThrough_of_round (getElem?_utf8_of_single hb) (by simp)
  · rw [hround, byteLength_append, byteLength_cons, hsize]
    rfl
  · simp [afterPiece, depthAfter, Mark.start]

/-- A closing brace, or one without an opening brace. -/
theorem runsThrough_closing (haddress : address? before.getLast? ('}' :: rest) = none) :
    RunsThrough (before ++ '}' :: rest) before s ⟨.closing, ['}']⟩ := by
  have hb : String.utf8EncodeChar '}' = [0x7D] := by decide
  have hsize : '}'.utf8Size = 1 := by decide
  obtain ⟨masked, comments, opened, depth⟩ := s
  have hround := round_of_no_address (s := ⟨masked, comments, opened, depth⟩) hb haddress
  cases opened with
  | nil =>
    apply runsThrough_of_error (getElem?_utf8_of_single hb)
    · rw [hround]
      exact refuse_append before _ .strayBrace
    · rfl
  | cons i outer =>
    apply runsThrough_of_round (getElem?_utf8_of_single hb) (by simp)
    · rw [hround, byteLength_append, byteLength_cons, hsize]
      rfl
    · simp [afterPiece, depthAfter]

/-- A character by itself. -/
theorem runsThrough_single {c : Char} (hlong : startsLongPiece c = false)
    (hblock : c = '/' → rest.head? ≠ some '*')
    (hline : c = '/' → rest.head? = some '/' → startsLineComment before.getLast? s.depth = false)
    (haddress : address? before.getLast? (c :: rest) = none) :
    RunsThrough (before ++ c :: rest) before s ⟨.plain, [c]⟩ := by
  rcases utf8EncodeChar_cases c with ⟨hsize, b, hb, rfl⟩ | ⟨hle, -⟩
  · have hne : b.toChar ≠ '\\' ∧ b.toChar ≠ '"' ∧ b.toChar ≠ '\'' ∧ b.toChar ≠ '{' ∧
        b.toChar ≠ '}' := by
      simpa [startsLongPiece] using hlong
    have hcomment : ¬(b.toChar = '/' ∧ (utf8 rest).head?.map UInt8.toChar = some '*') := by
      rintro ⟨hslash, hnext⟩
      exact hblock hslash ((head?_utf8_eq_some_iff (by decide)).1 hnext)
    have hslashes : ¬(b.toChar = '/' ∧ (utf8 rest).head?.map UInt8.toChar = some '/' ∧
        startsLineComment before.getLast? s.depth = true) := by
      rintro ⟨hslash, hnext, hstarts⟩
      rw [hline hslash ((head?_utf8_eq_some_iff (by decide)).1 hnext)] at hstarts
      cases hstarts
    have hround := round_of_no_address (s := s) hb haddress
    rw [readByte, startsLineComment_utf8, if_neg hne.1, if_neg (not_or.2 ⟨hne.2.1, hne.2.2.1⟩),
      if_neg hcomment, if_neg hslashes, if_neg hne.2.2.2.1, if_neg hne.2.2.2.2] at hround
    have hlength : byteLength (before ++ [b.toChar]) = byteLength before + 1 := by simp [hsize]
    by_cases hopening : b.toChar = '('
    · rw [if_pos hopening, ← hlength] at hround
      apply runsThrough_of_round (getElem?_utf8_of_single hb) (by simp) hround
      simp [afterPiece, hopening, depthAfter]
    · rw [if_neg hopening] at hround
      by_cases hclosing : b.toChar = ')'
      · rw [if_pos hclosing, ← hlength] at hround
        apply runsThrough_of_round (getElem?_utf8_of_single hb) (by simp) hround
        simp [afterPiece, hclosing, depthAfter]
      · rw [if_neg hclosing] at hround
        apply runsThrough_plain (getElem?_utf8_of_single hb) (by simp)
        · exact depthAfter_plain (by simp [hopening]) (by simp [hclosing])
        · rw [hround, ← byteLength_append, hlength]
  · exact runsThrough_of_le hle

/-- The rounds from a place between two characters go to the end of the piece there. -/
theorem runsThrough_front (c : Char) :
    RunsThrough (before ++ c :: rest) before s
      ⟨(Piece.front before.getLast? s.depth c rest).1,
        c :: rest.take (Piece.front before.getLast? s.depth c rest).2⟩ := by
  unfold Piece.front
  split
  · next n haddress => exact runsThrough_address haddress
  · next haddress =>
    split
    case h_1 => exact runsThrough_escape haddress
    case h_2 =>
      have hstring := runsThrough_string (s := s) (.inl rfl) haddress
      split
      · next n hend => simpa [hend] using hstring
      · next hend => simpa [hend] using hstring
    case h_3 =>
      have hstring := runsThrough_string (s := s) (.inr rfl) haddress
      split
      · next n hend => simpa [hend] using hstring
      · next hend => simpa [hend] using hstring
    case h_4 =>
      have hcomment := runsThrough_comment (s := s) haddress
      split
      · next n hend => simpa [hend] using hcomment
      · next hend => simpa [hend] using hcomment
    case h_5 _ v =>
      split
      · next hstarts =>
        obtain ⟨body, after, hv, hbody, hno, hafter⟩ := exists_eq_line_append v
        have htake : v.take body.length = body := by
          rw [hv, List.take_left]
        rw [hv] at haddress
        have hcomment := runsThrough_lineComment hno hafter haddress hstarts
        rw [← hv] at hcomment
        simpa [hbody, htake] using hcomment
      · next hstarts =>
        refine runsThrough_single (by decide) (by simp) (fun _ _ => ?_) haddress
        rwa [Bool.not_eq_true] at hstarts
    case h_6 => exact runsThrough_opening haddress
    case h_7 => exact runsThrough_closing haddress
    case h_8 hescape hdouble hsingle hopening hclosing hblock hline =>
      apply runsThrough_single _ _ _ haddress
      · simpa [startsLongPiece] using ⟨hescape, hdouble, hsingle, hopening, hclosing⟩
      · rintro rfl hstar
        obtain ⟨body, rfl⟩ := List.head?_eq_some_iff.1 hstar
        exact hblock body rfl rfl
      · rintro rfl hslash
        obtain ⟨body, rfl⟩ := List.head?_eq_some_iff.1 hslash
        exact absurd rfl (hline body rfl)

end Rules

end ByteScan

end ClassHints.Sheet
