import ClassHints.Proofs.Sheet.Masking
import ClassHints.Proofs.Sheet.Printing

/-!
# The pieces of a printed stylesheet

A printed forest has a brace piece for every brace it was written with, one piece for every
comment, and single characters for all the rest. Hence the pass over the pieces finds no fault
in it, and finds exactly the line comments that were written.
-/

namespace ClassHints.Sheet

open Text

/-! ## No address in a safe run -/

/-- The parenthesis is the only character that becomes one without its case. -/
theorem eq_round_of_toLower {c : Char} (h : c.toLower = '(') : c = '(' := by
  unfold Char.toLower at h
  split at h
  · next hc =>
    have hlow : 65 ≤ c.toNat := UInt32.le_iff_toNat_le.1 hc.1
    have hhigh : c.toNat ≤ 90 := UInt32.le_iff_toNat_le.1 hc.2
    have hnat := congrArg UInt32.toNat (congrArg Char.val h)
    simp only [UInt32.toNat_add, Char.toNat_val] at hnat
    simp at hnat
    omega
  · exact h

/-- An address is found only where the letters of its keyword and the parenthesis stand. -/
theorem address?_eq_none {previous : Option Char} {t : Text}
    (h : lower (t.take 4) ≠ ['u', 'r', 'l', '(']) : address? previous t = none := by
  have hlower : lower "url(".toList = ['u', 'r', 'l', '('] := by decide
  unfold address? sameLetters
  rw [hlower, if_neg]
  simp [h]

/-- An address starts with its keyword, and so with one letter. -/
theorem address?_eq_none_of_head {previous : Option Char} {c : Char} (h : c.toLower ≠ 'u')
    (rest : Text) : address? previous (c :: rest) = none := by
  apply address?_eq_none
  simp [lower, h]

/-- Inside a safe run no address starts, since its parenthesis would have to be in the run or
be the character after it. -/
theorem address?_eq_none_of_run (previous : Option Char) {c d : Char} {s : Text}
    (hs : SafeRun (c :: s)) (hd : d.toLower ∉ ['u', 'r', 'l', '(']) (t : Text) :
    address? previous (c :: s ++ d :: t) = none := by
  apply address?_eq_none
  intro h
  have hround : ∀ e ∈ c :: s, e.toLower ≠ '(' := fun e he hlower =>
    (isSafeChar_iff.1 (hs e he)).2.2.2.1 (eq_round_of_toLower hlower)
  match s with
  | [] => simp_all [lower]
  | [b] => simp_all [lower]
  | [b, e] => simp_all [lower]
  | b :: e :: f :: s => simp_all [lower]

/-! ## Pieces of the parts of a printed forest -/

/-- Every character of a text as a piece of its own. -/
def plainPieces (t : Text) : List Piece := t.map fun c => ⟨.plain, [c]⟩

/-- The characters of two texts one after the other. -/
theorem plainPieces_append (s t : Text) :
    plainPieces (s ++ t) = plainPieces s ++ plainPieces t := List.map_append

/-- The piece of a comment. -/
def Comment.piece (c : Comment) : Piece :=
  match c.style with
  | .block => ⟨.plain, c.print⟩
  | .line => ⟨.lineComment, c.print⟩

/-- The pieces of a block with the pieces of its nodes in it. -/
def blockPieces (lead : Text) (inner : List Piece) : List Piece :=
  plainPieces (lead ++ [' ']) ++ ⟨.opening, ['{']⟩ :: ⟨.plain, ['\n']⟩ :: inner ++
    [⟨.closing, ['}']⟩, ⟨.plain, ['\n']⟩]

mutual

/-- The pieces of a printed node. -/
def Node.pieces : Node → List Piece
  | .declaration property value _ => plainPieces (declarationText property value ++ [';', '\n'])
  | .statement name params _ => plainPieces (atRuleText name params ++ [';', '\n'])
  | .block name params nodes _ => blockPieces (atRuleText name params) (piecesAll nodes)
  | .rule selector nodes _ => blockPieces selector (piecesAll nodes)
  | .comment c => [c.piece, ⟨.plain, ['\n']⟩]

/-- The pieces of a printed forest. -/
def piecesAll : List Node → List Piece
  | [] => []
  | node :: nodes => node.pieces ++ piecesAll nodes

end

/-- The pieces of two forests one after the other. -/
theorem piecesAll_append (nodes nodes' : List Node) :
    piecesAll (nodes ++ nodes') = piecesAll nodes ++ piecesAll nodes' := by
  induction nodes with
  | nil => rfl
  | cons node nodes ih => rw [List.cons_append, piecesAll, ih, piecesAll, List.append_assoc]

/-- The pieces of `s` come first in the pieces of `s` and any text of the kind `next` after it,
whatever stands before. -/
def CutInto (s : Text) (ps : List Piece) (next : Text → Prop) : Prop :=
  ∀ previous t, next t → ∃ previous',
    piecesFrom previous 0 0 (s ++ t) = ps ++ piecesFrom previous' 0 0 t

/-- A text that is cut into pieces whatever is behind it can be followed by another such text. -/
theorem CutInto.append {s t : Text} {ps qs : List Piece} {middle next : Text → Prop}
    (hs : CutInto s ps middle) (ht : CutInto t qs next) (h : ∀ u, next u → middle (t ++ u)) :
    CutInto (s ++ t) (ps ++ qs) next := by
  intro previous u hu
  obtain ⟨p, hp⟩ := hs previous (t ++ u) (h u hu)
  obtain ⟨q, hq⟩ := ht p u hu
  exact ⟨q, by rw [List.append_assoc, hp, hq, List.append_assoc]⟩

/-- A text that starts with a character no keyword of an address has. -/
def StartsApart (t : Text) : Prop := ∃ d rest, t = d :: rest ∧ d.toLower ∉ ['u', 'r', 'l', '(']

/-- A safe character where no address starts is a piece by itself. -/
theorem front_eq_of_safe {previous : Option Char} {c : Char} (hc : isSafeChar c = true)
    {rest : Text} (h : address? previous (c :: rest) = none) :
    Piece.front previous 0 c rest = (.plain, 0) := by
  obtain ⟨-, h2, h3, -, -, -, -, h8, h9, h10, h11, -⟩ := isSafeChar_iff.1 hc
  unfold Piece.front
  rw [h]
  dsimp only
  split <;> first | contradiction | rfl

/-- A safe character opens and closes nothing. -/
theorem depthAfter_safe {c : Char} (hc : isSafeChar c = true) :
    depthAfter 0 .plain [c] = 0 := by
  obtain ⟨-, -, -, h4, h5, -⟩ := isSafeChar_iff.1 hc
  unfold depthAfter
  split <;> simp_all

/-- A safe run is cut into its characters. -/
theorem cutInto_safe {s : Text} (hs : SafeRun s) : CutInto s (plainPieces s) StartsApart := by
  induction s with
  | nil => exact fun previous t _ => ⟨previous, rfl⟩
  | cons c s ih =>
    rintro previous t ⟨d, rest, rfl, hd⟩
    have hc : isSafeChar c = true := hs c (by simp)
    have haddress := address?_eq_none_of_run previous hs hd rest
    obtain ⟨q, hq⟩ := ih hs.tail (some c) (d :: rest) ⟨d, rest, rfl, hd⟩
    refine ⟨q, ?_⟩
    rw [List.cons_append] at haddress ⊢
    rw [piecesFrom, front_eq_of_safe hc haddress]
    simp only [List.take_zero, depthAfter_safe hc, hq]
    rfl

/-- Characters that belong to a piece before them are skipped. -/
theorem piecesFrom_append (previous : Option Char) (depth : Nat) (u t : Text) :
    ∃ previous', piecesFrom previous depth u.length (u ++ t) = piecesFrom previous' depth 0 t := by
  induction u generalizing previous with
  | nil => exact ⟨previous, rfl⟩
  | cons c u ih => exact ih (some c)

/-- A text whose first character takes the others with it into one piece. -/
theorem cutInto_piece {c : Char} {u : Text} {kind : PieceKind} {next : Text → Prop}
    (h : c.toLower ≠ 'u')
    (hfront : ∀ previous t, next t → address? previous (c :: (u ++ t)) = none →
      Piece.front previous 0 c (u ++ t) = (kind, u.length))
    (hdepth : depthAfter 0 kind (c :: u) = 0) : CutInto (c :: u) [⟨kind, c :: u⟩] next := by
  intro previous t ht
  obtain ⟨q, hq⟩ := piecesFrom_append (some c) 0 u t
  refine ⟨q, ?_⟩
  rw [List.cons_append, piecesFrom, hfront previous t ht (address?_eq_none_of_head h (u ++ t))]
  simp only [List.take_left, hdepth, hq]
  rfl

/-- Each character that punctuates a printed forest is a piece of its own. -/
theorem cutInto_punctuation {c : Char} {kind : PieceKind}
    (h : (c, kind) ∈ [(';', .plain), ('@', .plain), ('\n', .plain), ('{', PieceKind.opening),
      ('}', PieceKind.closing)]) : CutInto [c] [⟨kind, [c]⟩] fun _ => True := by
  simp only [List.mem_cons, Prod.mk.injEq, List.not_mem_nil, or_false] at h
  rcases h with ⟨rfl, rfl⟩ | ⟨rfl, rfl⟩ | ⟨rfl, rfl⟩ | ⟨rfl, rfl⟩ | ⟨rfl, rfl⟩ <;>
    · refine cutInto_piece (by decide) (fun previous t _ haddress => ?_) rfl
      unfold Piece.front
      rw [haddress]
      rfl

/-- A block comment is one piece. -/
theorem cutInto_blockComment {text : Text} (h : mentions text "*/".toList = false) :
    CutInto ('/' :: '*' :: text ++ ['*', '/']) [⟨.plain, '/' :: '*' :: text ++ ['*', '/']⟩]
      fun _ => True := by
  have hend (t : Text) : commentEnd? (text ++ '*' :: '/' :: t) = some (text.length + 2) := by
    simp only [commentEnd?, cut?_commentEnd h t, Option.map_some]
  refine cutInto_piece (by decide) (fun previous t _ haddress => ?_) rfl
  unfold Piece.front
  rw [haddress]
  simp [hend]

/-- A line comment takes everything up to the newline after it. -/
theorem cutInto_lineComment {text : Text} (h : '\n' ∉ text) :
    CutInto ('/' :: '/' :: text) [⟨.lineComment, '/' :: '/' :: text⟩]
      fun t => ∃ rest, t = '\n' :: rest := by
  refine cutInto_piece (by decide) ?_ rfl
  rintro previous t ⟨rest, rfl⟩ haddress
  have hline : ∀ c ∈ '/' :: text, (c != '\n') = true := by
    intro c hc
    rcases List.mem_cons.1 hc with rfl | hc
    · decide
    · have hne : c ≠ '\n' := fun heq => h (heq ▸ hc)
      simpa using hne
  have htake : ('/' :: text ++ '\n' :: rest).takeWhile (· != '\n') = '/' :: text := by
    rw [List.takeWhile_append_of_pos hline]
    simp
  rw [List.cons_append] at htake
  unfold Piece.front
  rw [haddress]
  simp [startsLineComment, htake]

/-! ## Pieces of a printed forest -/

/-- Characters of names are safe. -/
theorem isSafeChar_of_isNameChar {c : Char} (h : isNameChar c = true) : isSafeChar c = true := by
  rw [isSafeChar_iff]
  refine ⟨?_, ?_, ?_, ?_, ?_, ?_, ?_, ?_, ?_, ?_, ?_, ?_⟩ <;>
    · rintro rfl
      revert h
      decide

/-- A safe text is made of safe characters. -/
theorem safeRun_of_isSafe {t : Text} (h : isSafe t = true) : SafeRun t := by
  simp only [isSafe, Bool.and_eq_true, List.all_eq_true] at h
  exact h.2

/-- So is a text that is safe or empty. -/
theorem safeRun_of_isSafeOrEmpty {t : Text} (h : isSafeOrEmpty t = true) : SafeRun t := by
  rcases Bool.or_eq_true_iff.1 h with h | h
  · rw [List.isEmpty_iff.1 h]
    exact fun c hc => absurd hc List.not_mem_nil
  · exact safeRun_of_isSafe h

/-- So is the name of an at-rule. -/
theorem safeRun_of_isAtName {name : Text} (h : isAtName name = true) : SafeRun name := by
  cases name with
  | nil => simp [isAtName] at h
  | cons c name =>
    simp only [isAtName, Bool.and_eq_true, List.all_eq_true] at h
    intro d hd
    rcases List.mem_cons.1 hd with rfl | hd
    · apply isSafeChar_of_isNameChar
      have hnul : d ≠ '\x00' := by
        rintro rfl
        simp at h
      simp [isNameChar, continuesName, startsName, h.1, hnul]
    · exact isSafeChar_of_isNameChar (h.2 d hd)

/-- A safe character is a safe text. -/
theorem safeRun_singleton {c : Char} (h : isSafeChar c = true) : SafeRun [c] := by
  intro d hd
  rw [List.mem_singleton.1 hd]
  exact h

/-- A declaration with a safe property and value is written safely. -/
theorem safeRun_declarationText {property value : Text} (hp : SafeRun property)
    (hv : SafeRun value) : SafeRun (declarationText property value) :=
  hp.append ((safeRun_singleton (by decide)).append ((safeRun_singleton (by decide)).append hv))

/-- A lead is cut into its characters: safe runs, and the at sign before them. -/
theorem cutInto_atRuleText {name params : Text} (hn : SafeRun name) (hp : SafeRun params) :
    CutInto (atRuleText name params) (plainPieces (atRuleText name params)) StartsApart := by
  have hat : CutInto ['@'] (plainPieces ['@']) fun _ => True := cutInto_punctuation (by simp)
  exact hat.append (cutInto_safe (hn.append ((safeRun_singleton (by decide)).append hp)))
    fun _ _ => trivial

/-- A statement is cut into single characters, with the semicolon and the newline behind it. -/
theorem cutInto_statement {lead : Text} (h : CutInto lead (plainPieces lead) StartsApart) :
    CutInto (lead ++ [';', '\n']) (plainPieces (lead ++ [';', '\n'])) fun _ => True := by
  have hend : CutInto [';', '\n'] (plainPieces [';', '\n']) fun _ => True :=
    (cutInto_punctuation (by simp)).append (cutInto_punctuation (by simp)) fun _ _ => trivial
  rw [plainPieces_append]
  exact h.append hend fun t _ => ⟨';', '\n' :: t, rfl, by decide⟩

/-- A block is cut into the characters of its lead, the pieces inside it and its braces. -/
theorem cutInto_block {lead inner : Text} {ps : List Piece}
    (h : CutInto lead (plainPieces lead) StartsApart) (hinner : CutInto inner ps fun _ => True) :
    CutInto (lead ++ [' ', '{', '\n'] ++ inner ++ ['}', '\n']) (blockPieces lead ps)
      fun _ => True := by
  have hblank := h.append (cutInto_safe (safeRun_singleton (show isSafeChar ' ' = true by decide)))
    fun t _ => ⟨' ', t, rfl, by decide⟩
  have hopen : CutInto ['{', '\n'] [⟨.opening, ['{']⟩, ⟨.plain, ['\n']⟩] fun _ => True :=
    (cutInto_punctuation (by simp)).append (cutInto_punctuation (by simp)) fun _ _ => trivial
  have hclose : CutInto ['}', '\n'] [⟨.closing, ['}']⟩, ⟨.plain, ['\n']⟩] fun _ => True :=
    (cutInto_punctuation (by simp)).append (cutInto_punctuation (by simp)) fun _ _ => trivial
  have hwhole := hblank.append (hopen.append (hinner.append hclose fun _ _ => trivial)
    fun _ _ => trivial) fun t _ => ⟨'{', _, rfl, by decide⟩
  unfold blockPieces
  rw [plainPieces_append]
  simpa only [List.append_assoc, List.cons_append, List.nil_append] using hwhole

/-- A comment is one piece, with the newline behind it. -/
theorem cutInto_comment {c : Comment} (h : c.isPrintable = true) :
    CutInto (c.print ++ ['\n']) [c.piece, ⟨.plain, ['\n']⟩] fun _ => True := by
  obtain ⟨style, text, span⟩ := c
  cases style with
  | block =>
    have hend : mentions text "*/".toList = false := by simpa [Comment.isPrintable] using h
    exact (cutInto_blockComment hend).append (cutInto_punctuation (by simp)) fun _ _ => trivial
  | line =>
    have hline : '\n' ∉ text := by
      simp only [Comment.isPrintable, Bool.and_eq_true, Bool.not_eq_true', List.contains_eq_mem,
        decide_eq_false_iff_not] at h
      exact h.2
    exact (cutInto_lineComment hline).append (cutInto_punctuation (by simp)) fun t _ => ⟨t, rfl⟩

/-- The pieces of a printed forest are the pieces it was printed from. -/
theorem cutInto_printAll {nodes : List Node} (h : allPrintable nodes = true) :
    CutInto (printAll nodes) (piecesAll nodes) fun _ => True := by
  induction nodes using Node.forest_induction with
  | nil => exact fun previous t _ => ⟨previous, rfl⟩
  | declaration property value span nodes ih =>
    simp only [allPrintable, Node.isPrintable, Bool.and_eq_true] at h
    have hrun := safeRun_declarationText (safeRun_of_isSafe h.1.1.1) (safeRun_of_isSafeOrEmpty h.1.2)
    exact (cutInto_statement (cutInto_safe hrun)).append (ih h.2) fun _ _ => trivial
  | statement name params span nodes ih =>
    simp only [allPrintable, Node.isPrintable, Bool.and_eq_true] at h
    have hlead := cutInto_atRuleText (safeRun_of_isAtName h.1.1) (safeRun_of_isSafeOrEmpty h.1.2)
    exact (cutInto_statement hlead).append (ih h.2) fun _ _ => trivial
  | block name params inner span nodes ihinner ih =>
    simp only [allPrintable, Node.isPrintable, Bool.and_eq_true] at h
    have hlead := cutInto_atRuleText (safeRun_of_isAtName h.1.1.1)
      (safeRun_of_isSafeOrEmpty h.1.1.2)
    exact (cutInto_block hlead (ihinner h.1.2)).append (ih h.2) fun _ _ => trivial
  | rule selector inner span nodes ihinner ih =>
    simp only [allPrintable, Node.isPrintable, Bool.and_eq_true] at h
    have hlead := cutInto_safe (safeRun_of_isSafe h.1.1)
    exact (cutInto_block hlead (ihinner h.1.2)).append (ih h.2) fun _ _ => trivial
  | comment c nodes ih =>
    simp only [allPrintable, Node.isPrintable, Bool.and_eq_true] at h
    exact (cutInto_comment h.1).append (ih h.2) fun _ _ => trivial

/-! ## Blanking out the line comments of a printed forest -/

/-- Single characters make up the text again. -/
@[simp]
theorem flatMap_text_plainPieces (s : Text) : (plainPieces s).flatMap Piece.text = s := by
  induction s with
  | nil => rfl
  | cons c s ih => simpa [plainPieces] using ih

/-- The piece of a comment is the comment as it is written. -/
@[simp]
theorem Comment.text_piece (c : Comment) : c.piece.text = c.print := by
  obtain ⟨style, text, span⟩ := c
  cases style <;> rfl

/-- The pieces of a printed forest make up its text. -/
theorem flatMap_text_piecesAll (nodes : List Node) :
    (piecesAll nodes).flatMap Piece.text = printAll nodes := by
  induction nodes using Node.forest_induction with
  | nil => rfl
  | declaration _ _ _ _ ih | statement _ _ _ _ ih =>
    simp [piecesAll, printAll, Node.pieces, Node.print, ih]
  | block _ _ _ _ _ ihinner ih | rule _ _ _ _ ihinner ih =>
    simp [piecesAll, printAll, Node.pieces, Node.print, blockPieces, ih, ihinner]
  | comment c nodes ih => simp [piecesAll, printAll, Node.pieces, Node.print, ih]

/-- Single characters bring no fault. -/
theorem faultFrom_plainPieces (m : Mark) (opened : List Mark) (s : Text) (ps : List Piece) :
    faultFrom m opened (plainPieces s ++ ps) = faultFrom (m.advance s) opened ps := by
  induction s generalizing m with
  | nil => rfl
  | cons c s ih => exact ih (m.next c)

/-- A comment brings no fault. -/
theorem faultFrom_comment (m : Mark) (opened : List Mark) (c : Comment) (ps : List Piece) :
    faultFrom m opened (c.piece :: ps) = faultFrom (m.advance c.print) opened ps := by
  obtain ⟨style, text, span⟩ := c
  cases style <;> rfl

/-- A block brings no fault if the nodes inside it bring none, since its braces are balanced. -/
theorem faultFrom_blockPieces {inner : Text} {ps : List Piece}
    (h : ∀ m opened qs, faultFrom m opened (ps ++ qs) = faultFrom (m.advance inner) opened qs)
    (m : Mark) (opened : List Mark) (lead : Text) (qs : List Piece) :
    faultFrom m opened (blockPieces lead ps ++ qs) =
      faultFrom (m.advance (lead ++ [' ', '{', '\n'] ++ inner ++ ['}', '\n'])) opened qs := by
  simp only [blockPieces, List.append_assoc, List.cons_append, List.nil_append,
    faultFrom_plainPieces, faultFrom, h, ← Mark.advance_append]

/-- Every block of a printed forest is closed, so that no fault is found in it. -/
theorem faultFrom_piecesAll (nodes : List Node) (m : Mark) (opened : List Mark)
    (ps : List Piece) :
    faultFrom m opened (piecesAll nodes ++ ps) =
      faultFrom (m.advance (printAll nodes)) opened ps := by
  induction nodes using Node.forest_induction generalizing m opened ps with
  | nil => rfl
  | declaration _ _ _ _ ih | statement _ _ _ _ ih =>
    rw [piecesAll, printAll, Node.pieces, Node.print, List.append_assoc, faultFrom_plainPieces, ih,
      ← Mark.advance_append]
  | block _ _ _ _ _ ihinner ih | rule _ _ _ _ ihinner ih =>
    rw [piecesAll, printAll, Node.pieces, Node.print, List.append_assoc,
      faultFrom_blockPieces ihinner, ih, ← Mark.advance_append]
  | comment c nodes ih =>
    rw [piecesAll, printAll, Node.pieces, Node.print, List.append_assoc, List.cons_append,
      faultFrom_comment]
    change faultFrom _ opened (plainPieces ['\n'] ++ (piecesAll nodes ++ ps)) = _
    rw [faultFrom_plainPieces, ih, ← Mark.advance_append, ← Mark.advance_append,
      List.append_assoc]

/-- The comments among two runs of pieces are those of the first, then of the second. -/
theorem commentsFrom_append (m : Mark) (ps qs : List Piece) :
    commentsFrom m (ps ++ qs) =
      commentsFrom m ps ++ commentsFrom (m.advance (ps.flatMap Piece.text)) qs := by
  induction ps generalizing m with
  | nil => rfl
  | cons p ps ih =>
    rw [List.cons_append, commentsFrom, ih, commentsFrom, List.flatMap_cons, Mark.advance_append,
      List.append_assoc]

/-- Single characters are no comments. -/
@[simp]
theorem commentsFrom_plainPieces (m : Mark) (s : Text) : commentsFrom m (plainPieces s) = [] := by
  induction s generalizing m with
  | nil => rfl
  | cons c s ih => exact ih (m.next c)

/-- The comments of a block are the comments of its nodes. -/
theorem commentsFrom_blockPieces (m : Mark) (lead : Text) (ps : List Piece) :
    commentsFrom m (blockPieces lead ps) =
      commentsFrom (m.advance (lead ++ [' ', '{', '\n'])) ps := by
  simp [blockPieces, commentsFrom_append, commentsFrom, Piece.comment?, Mark.advance]

/-- Single characters are not masked. -/
@[simp]
theorem flatMap_masked_plainPieces (s : Text) : (plainPieces s).flatMap Piece.masked = s := by
  induction s with
  | nil => rfl
  | cons c s ih => simpa [plainPieces, Piece.masked] using ih

/-- A block is masked inside only. -/
theorem flatMap_masked_blockPieces (lead : Text) (ps : List Piece) :
    (blockPieces lead ps).flatMap Piece.masked =
      lead ++ [' ', '{', '\n'] ++ ps.flatMap Piece.masked ++ ['}', '\n'] := by
  simp [blockPieces, Piece.masked]

/-- A printed forest is accepted, and only its line comments are blanked out and listed. -/
theorem ofSource_printAll {nodes : List Node} (h : allPrintable nodes = true) :
    Masked.ofSource (printAll nodes) =
      .ok ⟨(piecesAll nodes).flatMap Piece.masked, commentsFrom .start (piecesAll nodes)⟩ := by
  obtain ⟨previous, hcut⟩ := cutInto_printAll h none [] trivial
  have hpieces : pieces (printAll nodes) = piecesAll nodes := by
    simpa [pieces, piecesFrom] using hcut
  have hfault := faultFrom_piecesAll nodes .start [] []
  rw [List.append_nil] at hfault
  unfold Masked.ofSource
  simp only [hpieces, hfault]
  rfl

end ClassHints.Sheet
