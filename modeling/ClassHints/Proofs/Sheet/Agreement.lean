import ClassHints.Proofs.Sheet.CalmText
import ClassHints.Proofs.Sheet.Masking
import ClassHints.Proofs.Sheet.Pieces

/-!
# Where two scanners agree

A stylesheet is scanned twice: cut into pieces first, and read as tokens after its line comments
have been blanked out. The two agree where they see the same addresses and no string is cut off
by a line break. Strings then end at the same place, and the blanks of a line comment only move
what stands behind them.
-/

namespace ClassHints.Sheet

open Text

/-- A brace. -/
inductive Brace where
  | opening
  | closing
  deriving DecidableEq, Repr

/-- The brace that a piece is. -/
def Piece.brace? (p : Piece) : Option Brace :=
  match p.kind with
  | .opening => some .opening
  | .closing => some .closing
  | _ => none

/-- The brace that a lexeme is. -/
def Lexeme.brace? (l : Lexeme) : Option Brace :=
  match l.token with
  | .opening .curly => some .opening
  | .closing .curly => some .closing
  | _ => none

/-- The parts of a text that pass a test, with their offsets in a text that starts at `offset`. The
test sees a part with all that follow it. -/
def markedFrom {α : Type} (text : α → Text) (test : List α → Bool) :
    Nat → List α → List (Nat × Text)
  | _, [] => []
  | offset, part :: parts =>
    let later := markedFrom text test (offset + byteLength (text part)) parts
    if test (part :: parts) then (offset, text part) :: later else later

/-- The addresses among pieces that start at an offset. -/
def addressPieces : Nat → List Piece → List (Nat × Text) :=
  markedFrom Piece.text fun ps => ps.head?.any Piece.isAddress

/-- The addresses among lexemes that start at an offset. -/
def addressLexemes : Nat → List Lexeme → List (Nat × Text) :=
  markedFrom Lexeme.text fun ls => startsAddress (ls.flatMap Lexeme.text)

/-- The tokens of a text have the addresses of pieces that start where the text starts, and no
string among them is cut off. -/
structure Agree (offset : Nat) (ps : List Piece) (t : Text) : Prop where
  strings : ∀ l ∈ lexemes t, l.token ≠ .brokenString
  addresses : addressPieces offset ps = addressLexemes offset (lexemes t)

/-! ## Addresses -/

/-- The first piece is listed if it is an address, before those behind it. -/
theorem addressPieces_cons (offset : Nat) (p : Piece) (ps : List Piece) :
    addressPieces offset (p :: ps) =
      if p.isAddress then (offset, p.text) :: addressPieces (offset + byteLength p.text) ps
      else addressPieces (offset + byteLength p.text) ps := rfl

/-- The first lexeme is listed if an address starts there, before those behind it. -/
theorem addressLexemes_cons (offset : Nat) (l : Lexeme) (ls : List Lexeme) :
    addressLexemes offset (l :: ls) =
      if startsAddress ((l :: ls).flatMap Lexeme.text) then
        (offset, l.text) :: addressLexemes (offset + byteLength l.text) ls
      else addressLexemes (offset + byteLength l.text) ls := rfl

/-- Nothing is marked before the text starts. -/
theorem le_of_mem_markedFrom {α : Type} {text : α → Text} {test : List α → Bool} {offset : Nat}
    {parts : List α} {a : Nat × Text} (h : a ∈ markedFrom text test offset parts) :
    offset ≤ a.1 := by
  induction parts generalizing offset with
  | nil => cases h
  | cons part parts ih =>
    rw [markedFrom] at h
    split at h
    · rcases List.mem_cons.1 h with rfl | h
      · exact Nat.le_refl _
      · have hle := ih h
        omega
    · have hle := ih h
      omega

/-- The addresses among two runs of pieces are those of the first, then of the second. -/
theorem addressPieces_append (offset : Nat) (ps qs : List Piece) :
    addressPieces offset (ps ++ qs) =
      addressPieces offset ps ++ addressPieces (offset + byteLength (ps.flatMap Piece.text)) qs := by
  induction ps generalizing offset with
  | nil => rfl
  | cons p ps ih =>
    rw [List.cons_append, addressPieces_cons, addressPieces_cons, ih, List.flatMap_cons, byteLength_append,
      Nat.add_assoc]
    split <;> rfl

/-- Where no piece is an address, none is listed. -/
theorem addressPieces_eq_nil {ps : List Piece} (h : ∀ p ∈ ps, p.isAddress = false) (offset : Nat) :
    addressPieces offset ps = [] := by
  induction ps generalizing offset with
  | nil => rfl
  | cons p ps ih =>
    have hp : p.isAddress = false := h p (by simp)
    rw [addressPieces_cons, if_neg (by simp [hp])]
    exact ih (fun q hq => h q (by simp [hq])) _

/-- An address is listed with the offset where it starts. -/
theorem mem_addressPieces {p : Piece} (h : p.isAddress = true) (offset : Nat)
    (before after : List Piece) :
    (offset + byteLength (before.flatMap Piece.text), p.text) ∈
      addressPieces offset (before ++ p :: after) := by
  rw [addressPieces_append, addressPieces_cons, if_pos h]
  simp

/-! ## Blanks -/

/-- The lexeme of a run of blanks. -/
def blankLexemes : Text → List Lexeme
  | [] => []
  | c :: b => [⟨.blank, c :: b⟩]

/-- A run of blanks at the front of a text is one lexeme. -/
theorem lexemes_eq_blanks (t : Text) :
    lexemes t = blankLexemes (t.takeWhile isSpacing) ++ lexemes (t.dropWhile isSpacing) := by
  cases t with
  | nil => rfl
  | cons c u =>
    by_cases hc : isSpacing c = true
    · have htake : (c :: u).takeWhile isSpacing = c :: u.takeWhile isSpacing := by simp [hc]
      have hdrop : (c :: u).dropWhile isSpacing = u.dropWhile isSpacing := by simp [hc]
      have hfront := front_spacing hc (u.takeWhile isSpacing ++ u.dropWhile isSpacing)
      rw [List.takeWhile_append_dropWhile, htake] at hfront
      rw [htake, hdrop]
      nth_rewrite 1 [← List.takeWhile_append_dropWhile (p := isSpacing) (l := u)]
      apply lexemes_append (n := (c :: u.takeWhile isSpacing).length)
      · rw [List.takeWhile_append_dropWhile]
        exact hfront
      · simp
    · simp [hc, blankLexemes]

/-- Blanks bring no brace. -/
theorem filterMap_brace?_blankLexemes (b : Text) (ls : List Lexeme) :
    (blankLexemes b ++ ls).filterMap Lexeme.brace? = ls.filterMap Lexeme.brace? := by
  cases b with
  | nil => rfl
  | cons c b => rw [blankLexemes, List.singleton_append, List.filterMap_cons_none rfl]

/-- Blanks bring no address, and the addresses behind them keep their places. -/
theorem addressLexemes_blankLexemes {b : Text} (hb : ∀ c ∈ b, isSpacing c = true) (offset : Nat)
    (ls : List Lexeme) :
    addressLexemes offset (blankLexemes b ++ ls) = addressLexemes (offset + byteLength b) ls := by
  cases b with
  | nil => rfl
  | cons c b =>
    have hc := hb c (by simp)
    have hstart : startsAddress ((blankLexemes (c :: b) ++ ls).flatMap Lexeme.text) = false := by
      have hnot : startsIdentifier (c :: (b ++ ls.flatMap Lexeme.text)) = false := by
        simp only [isSpacing, formFeed, Bool.or_eq_true, beq_iff_eq] at hc
        rcases hc with (((rfl | rfl) | rfl) | rfl) | rfl <;> simp [startsIdentifier, startsName]
      simp [blankLexemes, startsAddress, hnot]
    rw [blankLexemes, List.singleton_append] at hstart ⊢
    simp only [addressLexemes_cons, hstart, Bool.false_eq_true, if_false]

section Blanks

variable {b t : Text} (hb : ∀ c ∈ b, isSpacing c = true)

include hb

/-- The blanks at the front of a text go on where another run of blanks stands in front of it. -/
theorem takeWhile_spacing_append :
    (b ++ t).takeWhile isSpacing = b ++ t.takeWhile isSpacing :=
  List.takeWhile_append_of_pos hb

/-- Another run of blanks in front is dropped with those that are there. -/
theorem dropWhile_spacing_append : (b ++ t).dropWhile isSpacing = t.dropWhile isSpacing :=
  List.dropWhile_append_of_pos hb

/-- Blanks in front of a text add no brace. -/
theorem filterMap_brace?_spacing :
    (lexemes (b ++ t)).filterMap Lexeme.brace? = (lexemes t).filterMap Lexeme.brace? := by
  rw [lexemes_eq_blanks (b ++ t), lexemes_eq_blanks t, filterMap_brace?_blankLexemes,
    filterMap_brace?_blankLexemes, dropWhile_spacing_append hb]

/-- Blanks in front of a text only move its addresses. -/
theorem addressLexemes_spacing (offset : Nat) :
    addressLexemes offset (lexemes (b ++ t)) =
      addressLexemes (offset + byteLength b) (lexemes t) := by
  have htake : ∀ c ∈ t.takeWhile isSpacing, isSpacing c = true := fun c hc =>
    List.mem_takeWhile_imp hc
  have hall : ∀ c ∈ b ++ t.takeWhile isSpacing, isSpacing c = true := by
    intro c hc
    exact (List.mem_append.1 hc).elim (hb c) (htake c)
  rw [lexemes_eq_blanks (b ++ t), lexemes_eq_blanks t, takeWhile_spacing_append hb,
    dropWhile_spacing_append hb, addressLexemes_blankLexemes hall,
    addressLexemes_blankLexemes htake, byteLength_append, Nat.add_assoc]

/-- Pieces and tokens agree behind blanks if they do with them. -/
theorem Agree.of_spacing {offset : Nat} {ps : List Piece}
    (hstrings : ∀ l ∈ lexemes (b ++ t), l.token ≠ .brokenString)
    (haddresses : addressPieces (offset + byteLength b) ps =
      addressLexemes offset (lexemes (b ++ t))) :
    Agree (offset + byteLength b) ps t := by
  constructor
  · intro l hl
    rw [lexemes_eq_blanks, List.mem_append] at hl
    rcases hl with hl | hl
    · cases ht : t.takeWhile isSpacing with
      | nil => simp [ht, blankLexemes] at hl
      | cons c u =>
        simp only [ht, blankLexemes, List.mem_singleton] at hl
        simp [hl]
    · apply hstrings
      rw [lexemes_eq_blanks (b ++ t), dropWhile_spacing_append hb]
      exact List.mem_append_right _ hl
  · rw [haddresses, addressLexemes_spacing hb]

end Blanks

/-! ## Strings -/

/-- An escape in a string covers a character, and behind it only hexadecimal digits and blanks. -/
theorem exists_stringEscape_eq (c : Char) (t : Text) :
    ∃ more, (if startsBreak (c :: t) then escapeBlank (c :: t) else (escape (c :: t)).2) =
      more + 1 ∧ ∀ d ∈ t.take more, isHexDigit d = true ∨ isSpacing d = true := by
  split
  · next hbreak =>
    have hspacing : isSpacing c = true := isSpacing_of_isBreak (by simpa [startsBreak] using hbreak)
    unfold escapeBlank
    split
    · next heq =>
      obtain ⟨-, rfl⟩ := List.cons.inj heq
      refine ⟨1, rfl, ?_⟩
      intro d hd
      obtain rfl : d = '\n' := by simpa using hd
      exact Or.inr (by decide)
    · next heq =>
      obtain ⟨rfl, -⟩ := List.cons.inj heq
      rw [if_pos hspacing]
      exact ⟨0, rfl, by simp⟩
    · next heq => cases heq
  · exact exists_escape_eq c t

/-- A whole string ends where the pass over the pieces sees its end. -/
theorem stringFrom_of_stringEnd? {quote : Char} (hquote : quote = '"' ∨ quote = '\'')
    {skip n : Nat} {t : Text} (hend : stringEnd? quote false t = some n)
    (hskip : ∀ c ∈ t.take skip, isHexDigit c = true ∨ isSpacing c = true)
    (hwhole : (stringFrom quote skip t).1 = true) : (stringFrom quote skip t).2 = n := by
  -- on the length, since an escape takes two characters at once; `skip` counts the characters of
  -- an escape still to be passed, which are hexadecimal digits and blanks
  induction hlength : t.length using Nat.strong_induction_on generalizing skip n t with
  | _ length ih =>
    cases t with
    | nil => cases hend
    | cons c rest =>
      have hlater {skip : Nat} (hend : (stringEnd? quote false rest).map (· + 1) = some n)
          (hskip : ∀ d ∈ rest.take skip, isHexDigit d = true ∨ isSpacing d = true)
          (hwhole : (stringFrom quote skip rest).1 = true) :
          (stringFrom quote skip rest).2 + 1 = n := by
        obtain ⟨m, hm, rfl⟩ := Option.map_eq_some_iff.1 hend
        rw [ih rest.length (by rw [← hlength]; simp) hm hskip hwhole rfl]
      cases skip with
      | succ skip =>
        have hcalm : isCalm c = true :=
          (hskip c (by simp)).elim isCalm_of_isHexDigit isCalm_of_isSpacing
        have hne : c ≠ quote := by
          rintro rfl
          rcases hquote with rfl | rfl <;> exact absurd hcalm (by decide)
        have hbackslash : c ≠ '\\' := by
          rintro rfl
          exact absurd hcalm (by decide)
        rw [stringEnd?, if_neg (by simp), if_neg hne] at hend
        split at hend
        · cases hend
        · rw [decide_eq_false hbackslash] at hend
          exact hlater hend (fun d hd => hskip d (by simp [hd])) hwhole
      | zero =>
        rw [stringEnd?, if_neg (by simp)] at hend
        rw [stringFrom] at hwhole ⊢
        split at hend
        · next hquote =>
          rw [if_pos hquote]
          exact Option.some.inj hend
        · next hne =>
          rw [if_neg hne] at hwhole ⊢
          split at hend
          · cases hend
          · split at hwhole
            · cases hwhole
            · next hbreak =>
              rw [if_neg hbreak]
              split at hwhole
              · next hbackslash =>
                subst hbackslash
                rw [if_pos rfl]
                cases rest with
                | nil => cases hend
                | cons d rest =>
                  obtain ⟨more, hmore, hdigits⟩ := exists_stringEscape_eq d rest
                  dsimp only at hwhole ⊢
                  rw [hmore, stringFrom] at hwhole ⊢
                  rw [decide_eq_true rfl, stringEnd?, if_pos rfl, Option.map_map] at hend
                  obtain ⟨m, hm, rfl⟩ := Option.map_eq_some_iff.1 hend
                  have hshort : rest.length < length := by
                    rw [← hlength]
                    simp only [List.length_cons]
                    omega
                  exact congrArg (· + 1 + 1) (ih rest.length hshort hm hdigits hwhole rfl)
              · next hbackslash =>
                rw [decide_eq_false hbackslash] at hend
                rw [if_neg hbackslash]
                exact hlater hend (by simp) hwhole

/-- A whole string is one plain token. -/
theorem front_string {quote : Char} (hquote : quote = '"' ∨ quote = '\'') {body : Text}
    (hend : stringEnd? quote false body = some body.length) {t : Text}
    (hwhole : (Token.front quote (body ++ t)).1 ≠ .brokenString) :
    Token.front quote (body ++ t) = (.plain, body.length + 1) := by
  have hfront : Token.front quote (body ++ t) =
      (if (stringFrom quote 0 (body ++ t)).1 then .plain else .brokenString,
        (stringFrom quote 0 (body ++ t)).2 + 1) := by
    rcases hquote with rfl | rfl <;> rfl
  rw [hfront] at hwhole ⊢
  have htrue : (stringFrom quote 0 (body ++ t)).1 = true := by
    by_contra hfalse
    exact hwhole (if_neg hfalse)
  rw [if_pos htrue, stringFrom_of_stringEnd? hquote (stringEnd?_append hend t) (by simp) htrue]

/-- A slash without a star behind it is a token by itself. -/
theorem front_slash {t : Text} (h : t.head? ≠ some '*') : Token.front '/' t = (.plain, 1) := by
  cases t with
  | nil => rfl
  | cons d t =>
    have hd : d ≠ '*' := by
      rintro rfl
      exact h rfl
    have hnumber : startsNumber ('/' :: d :: t) = false := by
      simp [startsNumber, digitCount, fractionLength]
    have hidentifier : startsIdentifier ('/' :: d :: t) = false := by
      simp [startsIdentifier, startsName]
    unfold Token.front
    split <;> simp_all [isSpacing, formFeed]

/-- What stands first in a text, if it is no blank, stands first in the blanked text. -/
theorem head?_masked_ne {ps : List Piece} {c : Char}
    (h : (ps.flatMap Piece.text).head? ≠ some c) (hc : c ≠ ' ') :
    (ps.flatMap Piece.masked).head? ≠ some c := by
  intro hmasked
  obtain ⟨after, htext⟩ := List.head?_eq_some_iff.1 hmasked
  rw [← List.nil_append (c :: after)] at htext
  obtain ⟨before, after', hfound, hlength⟩ := exists_text_of_masked htext hc
  cases before with
  | nil =>
    rw [hfound] at h
    exact h rfl
  | cons d before =>
    have hpos := d.utf8Size_pos
    rw [byteLength_cons, byteLength_nil] at hlength
    omega

end ClassHints.Sheet
