import ClassHints.Proofs.Text
import ClassHints.Sheet.Masked

/-!
# The rules of pieces

What a piece of a stylesheet can be, with one case for each rule by which pieces are cut. The
text behind a piece matters to two of them only: a backslash stands alone at the end of the text,
and a single slash is not followed by a star.
-/

namespace ClassHints.Sheet

open Text

/-! ## Ends that do not depend on what follows -/

/-- A string that ends in a text ends there when the text goes on. -/
theorem stringEnd?_append {quote : Char} {escaped : Bool} {s : Text} {n : Nat}
    (h : stringEnd? quote escaped s = some n) (t : Text) :
    stringEnd? quote escaped (s ++ t) = some n := by
  induction s generalizing escaped n with
  | nil => cases h
  | cons c s ih =>
    have hrest {escaped : Bool} (h : (stringEnd? quote escaped s).map (· + 1) = some n) :
        (stringEnd? quote escaped (s ++ t)).map (· + 1) = some n := by
      obtain ⟨m, hm, rfl⟩ := Option.map_eq_some_iff.1 h
      rw [ih hm]
      rfl
    rw [stringEnd?] at h
    rw [List.cons_append, stringEnd?]
    split at h
    · next hescaped => rw [if_pos hescaped, hrest h]
    · next hescaped =>
      rw [if_neg hescaped]
      split at h
      · next hquote => rw [if_pos hquote, h]
      · next hquote =>
        rw [if_neg hquote]
        split at h
        · cases h
        · next hbreak => rw [if_neg hbreak, hrest h]

/-- A string ends inside the text, and its own part of the text says so. -/
theorem stringEnd?_take {quote : Char} {escaped : Bool} {t : Text} {n : Nat}
    (h : stringEnd? quote escaped t = some n) :
    n ≤ t.length ∧ stringEnd? quote escaped (t.take n) = some n := by
  induction t generalizing escaped n with
  | nil => cases h
  | cons c t ih =>
    have hrest {escaped : Bool} (h : (stringEnd? quote escaped t).map (· + 1) = some n) :
        ∃ m, n = m + 1 ∧ m ≤ t.length ∧
          (stringEnd? quote escaped (t.take m)).map (· + 1) = some (m + 1) := by
      obtain ⟨m, hm, rfl⟩ := Option.map_eq_some_iff.1 h
      obtain ⟨hle, htake⟩ := ih hm
      exact ⟨m, rfl, hle, by rw [htake]; rfl⟩
    rw [stringEnd?] at h
    split at h
    · next hescaped =>
      obtain ⟨m, rfl, hle, htake⟩ := hrest h
      refine ⟨by simpa using hle, ?_⟩
      rw [List.take_succ_cons, stringEnd?, if_pos hescaped, htake]
    · next hescaped =>
      split at h
      · next hquote =>
        obtain rfl := Option.some.inj h
        refine ⟨by simp, ?_⟩
        rw [List.take_succ_cons, stringEnd?, if_neg hescaped, if_pos hquote]
      · next hquote =>
        split at h
        · cases h
        · next hbreak =>
          obtain ⟨m, rfl, hle, htake⟩ := hrest h
          refine ⟨by simpa using hle, ?_⟩
          rw [List.take_succ_cons, stringEnd?, if_neg hescaped, if_neg hquote, if_neg hbreak, htake]

/-- What comes before the first occurrence does not hold the piece. -/
theorem mentions_of_cut? {piece t before rest : Text} (hpiece : piece ≠ [])
    (h : cut? piece t = some (before, rest)) : mentions before piece = false := by
  obtain ⟨a, lead, rfl⟩ := List.exists_cons_of_ne_nil hpiece
  induction t generalizing before with
  | nil =>
    obtain ⟨r, hr, -⟩ := Option.map_eq_some_iff.1 h
    cases hr
  | cons c t ih =>
    cases ha : after? (a :: lead) (c :: t) with
    | some r =>
      simp only [cut?, ha, Option.some.injEq, Prod.mk.injEq] at h
      rw [← h.1]
      rfl
    | none =>
      simp only [cut?, ha] at h
      obtain ⟨⟨b, r⟩, hc, heq⟩ := Option.map_eq_some_iff.1 h
      obtain ⟨rfl, rfl⟩ := Prod.mk.inj heq
      have hsplit := eq_append_of_cut? hc
      have hnone : after? (a :: lead) (c :: b) = none := by
        cases hb : after? (a :: lead) (c :: b) with
        | none => rfl
        | some r' =>
          have hwhole := eq_append_of_after? hb
          have hfound : after? (a :: lead) (c :: t) = some (r' ++ (a :: lead) ++ r) := by
            rw [hsplit, ← List.cons_append, ← List.cons_append, hwhole, List.append_assoc,
              List.append_assoc, after?_append]
            simp
          rw [ha] at hfound
          cases hfound
      have hrest := ih hc
      simp only [mentions, Option.isSome_eq_false_iff, Option.isNone_iff_eq_none] at hrest ⊢
      rw [cut?, hnone, hrest]
      rfl

/-! ## Rules -/

/-- Whether a piece is an address: no other piece that starts with a letter is longer than one
character. -/
def Piece.isAddress (p : Piece) : Bool :=
  match p.text with
  | c :: _ :: _ => c.toLower == 'u'
  | _ => false

/-- The characters that start no piece of one plain character. -/
def startsLongPiece (c : Char) : Bool := "\\\"'\x7b\x7d".toList.contains c

/-- The rules by which a piece is cut off with `rest` behind it. -/
inductive Piece.CutAt (rest : Text) : Piece → Prop where
  | address (p : Piece) (plain : p.kind = .plain) (address : p.isAddress = true) : CutAt rest p
  | escape (escaped : Text) (short : escaped.length ≤ 1) (last : escaped = [] → rest = []) :
    CutAt rest ⟨.plain, '\\' :: escaped⟩
  | string (quote : Char) (body : Text) (delimiter : quote = '"' ∨ quote = '\'')
    (ends : stringEnd? quote false body = some body.length) : CutAt rest ⟨.plain, quote :: body⟩
  | comment (body : Text) (inner : mentions body "*/".toList = false) :
    CutAt rest ⟨.plain, '/' :: '*' :: (body ++ ['*', '/'])⟩
  | lineComment (text : Text) : CutAt rest ⟨.lineComment, '/' :: text⟩
  | opening : CutAt rest ⟨.opening, ['{']⟩
  | closing : CutAt rest ⟨.closing, ['}']⟩
  | single (c : Char) (short : startsLongPiece c = false)
    (noComment : c = '/' → rest.head? ≠ some '*') : CutAt rest ⟨.plain, [c]⟩
  | broken (cause : Cause) (text : Text) : CutAt rest ⟨.broken cause, text⟩

/-- A piece that is cut off as an address is one. -/
theorem isAddress_of_address? {previous : Option Char} {c : Char} {u : Text} {n : Nat}
    (h : address? previous (c :: u) = some n) (kind : PieceKind) :
    (Piece.mk kind (c :: u.take (n - 1))).isAddress = true := by
  have hlower : lower "url(".toList = ['u', 'r', 'l', '('] := by decide
  unfold address? at h
  split at h
  · next hkeyword =>
    simp only [Bool.and_eq_true, sameLetters, hlower, beq_iff_eq] at hkeyword
    have hlength : 4 ≤ n := by
      dsimp only at h
      split at h
      · cases h
      · cases h
      · obtain ⟨m, -, rfl⟩ := Option.map_eq_some_iff.1 h
        omega
    obtain ⟨m, hm⟩ : ∃ m, n - 1 = m + 1 := ⟨n - 2, by omega⟩
    cases u with
    | nil => simp [lower] at hkeyword
    | cons d u =>
      have hfirst : c.toLower = 'u' := by
        simp only [List.take_succ_cons, lower, List.map_cons, List.cons.injEq] at hkeyword
        exact hkeyword.1.1
      rw [hm, List.take_succ_cons]
      simp [Piece.isAddress, hfirst]
  · cases h

/-- Every piece is cut off by one of the rules. -/
theorem Piece.cutAt_front (previous : Option Char) (depth : Nat) (c : Char) (u : Text) :
    CutAt (u.drop (Piece.front previous depth c u).2)
      ⟨(Piece.front previous depth c u).1, c :: u.take (Piece.front previous depth c u).2⟩ := by
  unfold Piece.front
  split
  · next n haddress => exact .address _ rfl (isAddress_of_address? haddress _)
  · split
    case h_1 =>
      apply CutAt.escape
      · rw [List.length_take]
        omega
      · cases u with
        | nil => simp
        | cons d u => simp
    case h_2 | h_3 =>
      split
      · next n hend =>
        obtain ⟨hle, htake⟩ := stringEnd?_take hend
        have hlength : (u.take n).length = n := by simp [hle]
        refine .string _ _ (by simp) ?_
        rw [hlength]
        exact htake
      · exact .broken _ _
    case h_4 body _ =>
      split
      · next n hend =>
        obtain ⟨⟨inner, rest⟩, hcut, rfl⟩ := Option.map_eq_some_iff.1 hend
        have hsplit := eq_append_of_cut? hcut
        rw [toList_commentEnd] at hsplit
        have htake : body.take (inner.length + 2) = inner ++ ['*', '/'] := by
          rw [hsplit]
          exact List.take_left' (by simp)
        rw [List.take_succ_cons, htake]
        exact .comment inner (mentions_of_cut? (by simp) hcut)
      · exact .broken _ _
    case h_5 =>
      split
      · exact .lineComment _
      · exact .single _ (by decide) (by simp)
    case h_6 => exact .opening
    case h_7 => exact .closing
    case h_8 hescape hdouble hsingle hopening hclosing hblock hline =>
      apply CutAt.single
      · simpa [startsLongPiece] using ⟨hescape, hdouble, hsingle, hopening, hclosing⟩
      · rintro rfl hstar
        obtain ⟨body, rfl⟩ := List.head?_eq_some_iff.1 hstar
        exact hblock body rfl rfl

/-- Every piece of a list is cut off by one of the rules, with the pieces after it behind it. -/
inductive AllCut : List Piece → Prop where
  | nil : AllCut []
  | cons {p : Piece} {ps : List Piece} (cut : p.CutAt (ps.flatMap Piece.text)) (rest : AllCut ps) :
    AllCut (p :: ps)

/-- The pieces from a place on are the pieces of the text from there on. -/
theorem piecesFrom_eq (previous : Option Char) (depth skip : Nat) (t : Text) :
    piecesFrom previous depth skip t =
      piecesFrom ((t.take skip).getLast?.or previous) depth 0 (t.drop skip) := by
  induction t generalizing previous skip with
  | nil => simp [piecesFrom]
  | cons c t ih =>
    cases skip with
    | zero => rfl
    | succ skip =>
      rw [piecesFrom, ih, List.take_succ_cons, List.drop_succ_cons, List.getLast?_cons]
      cases (t.take skip).getLast? <;> rfl

/-- The pieces of a text are cut off by the rules wherever the cutting starts. -/
theorem allCut_piecesFrom (previous : Option Char) (depth : Nat) (t : Text) :
    AllCut (piecesFrom previous depth 0 t) := by
  induction hn : t.length using Nat.strong_induction_on generalizing previous depth t with
  | _ n ih =>
    cases t with
    | nil => exact .nil
    | cons c u =>
      rw [piecesFrom]
      dsimp only
      rw [piecesFrom_eq]
      constructor
      · rw [flatMap_piecesFrom, List.drop_zero]
        exact Piece.cutAt_front previous depth c u
      · apply ih (u.drop (Piece.front previous depth c u).2).length _ _ _ _ rfl
        rw [← hn, List.length_cons, List.length_drop]
        omega

/-- The pieces of a source are cut off by the rules. -/
theorem allCut_pieces (source : Text) : AllCut (pieces source) := allCut_piecesFrom none 0 source

/-- The pieces behind some others are cut off by the rules if all are. -/
theorem AllCut.of_append {ps qs : List Piece} (h : AllCut (ps ++ qs)) : AllCut qs := by
  induction ps with
  | nil => exact h
  | cons p ps ih =>
    cases h with
    | cons _ hrest => exact ih hrest

end ClassHints.Sheet
