import ClassHints.Proofs.Text
import ClassHints.Sheet.Lexeme

/-!
# Lexemes of quiet text

Where the first lexeme of a text ends, the lexemes of the rest begin. A text without quotes,
brackets, slashes, backslashes and at signs has only blanks, number signs and plain tokens in
it, and none of them runs past a semicolon or an opening brace.
-/

namespace ClassHints.Sheet

open Text

/-- The lexemes from a place on are the lexemes of the text from there on. -/
theorem lexemesFrom_eq (skip : Nat) (t : Text) : lexemesFrom skip t = lexemes (t.drop skip) := by
  unfold lexemes
  induction t generalizing skip with
  | nil => simp [lexemesFrom]
  | cons c rest ih =>
    cases skip with
    | zero => rfl
    | succ skip => rw [lexemesFrom, ih, List.drop_succ_cons]

/-- The empty text has no lexemes. -/
@[simp]
theorem lexemes_nil : lexemes [] = [] := rfl

/-- The first lexeme of a text, and the lexemes of what it leaves. -/
theorem lexemes_cons (c : Char) (rest : Text) :
    lexemes (c :: rest) =
      ⟨(Token.front c rest).1, c :: rest.take ((Token.front c rest).2 - 1)⟩ ::
        lexemes (rest.drop ((Token.front c rest).2 - 1)) := by
  rw [← lexemesFrom_eq]
  rfl

/-- A text that starts with a lexeme of known extent. -/
theorem lexemes_append {c : Char} {u v : Text} {token : Token} {n : Nat}
    (h : Token.front c (u ++ v) = (token, n)) (hn : n - 1 = u.length) :
    lexemes (c :: (u ++ v)) = ⟨token, c :: u⟩ :: lexemes v := by
  rw [lexemes_cons, h, hn, List.take_left, List.drop_left]

/-- What holds of the first lexeme of every text holds of all lexemes of every text. -/
theorem forall_mem_lexemes {motive : Lexeme → Prop}
    (first : ∀ c rest, motive
      ⟨(Token.front c rest).1, c :: rest.take ((Token.front c rest).2 - 1)⟩)
    (t : Text) : ∀ lexeme ∈ lexemes t, motive lexeme := by
  have hfrom (skip : Nat) : ∀ lexeme ∈ lexemesFrom skip t, motive lexeme := by
    induction t generalizing skip with
    | nil => simp [lexemesFrom]
    | cons c rest ih =>
      cases skip with
      | zero =>
        intro lexeme hmem
        rcases List.mem_cons.1 hmem with rfl | hmem
        · exact first c rest
        · exact ih _ lexeme hmem
      | succ skip => exact ih skip
  exact hfrom 0

/-- The lexemes after some lexemes are the lexemes of their own text. -/
theorem lexemes_of_append {t : Text} {done rest : List Lexeme} (h : lexemes t = done ++ rest) :
    lexemes (rest.flatMap Lexeme.text) = rest := by
  induction done generalizing t with
  | nil =>
    rw [List.nil_append] at h
    rw [← h, flatMap_lexemes]
  | cons lexeme done ih =>
    cases t with
    | nil => simp at h
    | cons c t =>
      rw [lexemes_cons, List.cons_append] at h
      exact ih (List.cons.inj h).2

/-! ## The texts of punctuation -/

/-- The character that opens a bracket. -/
def Bracket.openChar : Bracket → Char
  | .round => '('
  | .square => '['
  | .curly => '{'

/-- The text of a lexeme fits its token: a semicolon and a brace are single characters, and
what opens a bracket ends with the bracket. -/
structure Lexeme.Shaped (lexeme : Lexeme) : Prop where
  semicolon : lexeme.token = .semicolon → lexeme.text = [';']
  brace : lexeme.token = .opening .curly → lexeme.text = ['{']
  opening : ∀ b, lexeme.token = .opening b → lexeme.text.getLast? = some b.openChar

/-- Nothing is asked of a token that is no semicolon and opens nothing. -/
theorem Lexeme.shaped_of_ne {token : Token} (hsemicolon : token ≠ .semicolon)
    (hopening : ∀ b, token ≠ .opening b) (text : Text) : Shaped ⟨token, text⟩ where
  semicolon h := absurd h hsemicolon
  brace h := absurd h (hopening .curly)
  opening b h := absurd h (hopening b)

/-- A plain lexeme may have any text. -/
theorem Lexeme.shaped_plain (text : Text) : Shaped ⟨.plain, text⟩ :=
  shaped_of_ne (by simp) (by simp) text

/-- An identifier, a function or an address has a text that fits its token. -/
theorem shaped_identifierToken (c : Char) (rest : Text) :
    Lexeme.Shaped ⟨(identifierToken (c :: rest)).1,
      c :: rest.take ((identifierToken (c :: rest)).2 - 1)⟩ := by
  have hround {n : Nat} {body : Text} (h : (c :: rest).drop n = '(' :: body) :
      Lexeme.Shaped ⟨.opening .round, c :: rest.take n⟩ := by
    refine ⟨by simp, by simp, fun b hb => ?_⟩
    obtain rfl : Bracket.round = b := by simpa using hb
    have htake : c :: rest.take n = (c :: rest).take n ++ ['('] := by
      rw [← List.take_succ_cons, List.take_add_one, ← List.head?_drop, h]
      rfl
    simp [htake, Bracket.openChar]
  unfold identifierToken
  dsimp only
  split
  · next body heq =>
    split
    · split
      · exact Lexeme.shaped_plain _
      · exact hround heq
    · exact hround heq
  · exact Lexeme.shaped_plain _

/-- All lexemes of a text have texts that fit their tokens. -/
theorem shaped_of_mem_lexemes {t : Text} {lexeme : Lexeme} (h : lexeme ∈ lexemes t) :
    lexeme.Shaped := by
  refine forall_mem_lexemes (fun c rest => ?_) t lexeme h
  unfold Token.front
  dsimp only
  split
  case h_1 =>
    split
    · exact Lexeme.shaped_plain _
    · exact Lexeme.shaped_of_ne (by simp) (by simp) _
  case h_2 | h_3 | h_11 | h_12 => split <;> exact Lexeme.shaped_of_ne (by simp) (by simp) _
  case h_4 | h_5 | h_6 => exact ⟨by simp, by simp, by rintro _ ⟨⟩; rfl⟩
  case h_7 | h_8 | h_9 => exact Lexeme.shaped_of_ne (by simp) (by simp) _
  case h_10 => exact ⟨by simp, by simp, by simp⟩
  case h_13 | h_14 => exact Lexeme.shaped_plain _
  case h_15 =>
    split
    · exact Lexeme.shaped_plain _
    · split
      · exact Lexeme.shaped_plain _
      · split
        · exact shaped_identifierToken _ _
        · exact Lexeme.shaped_plain _
  case h_16 =>
    split
    · exact Lexeme.shaped_of_ne (by simp) (by simp) _
    · split
      · exact Lexeme.shaped_plain _
      · split
        · exact shaped_identifierToken _ _
        · exact Lexeme.shaped_plain _

/-! ## Characters that end no token but their own -/

/-- A character that neither groups, quotes, escapes nor ends anything: all but semicolons,
brackets, quotes, slashes, backslashes and at signs. -/
def isSafeChar (c : Char) : Bool := !";{}()[]\"'/\\@".toList.contains c

/-- The characters that are not safe, one by one. -/
theorem isSafeChar_iff {c : Char} : isSafeChar c = true ↔
    c ≠ ';' ∧ c ≠ '{' ∧ c ≠ '}' ∧ c ≠ '(' ∧ c ≠ ')' ∧ c ≠ '[' ∧ c ≠ ']' ∧ c ≠ '"' ∧ c ≠ '\'' ∧
      c ≠ '/' ∧ c ≠ '\\' ∧ c ≠ '@' := by
  simp [isSafeChar]

/-- Text of safe characters only. -/
def SafeRun (s : Text) : Prop := ∀ c ∈ s, isSafeChar c = true

/-- Safe text stays safe without its first character. -/
theorem SafeRun.tail {c : Char} {s : Text} (h : SafeRun (c :: s)) : SafeRun s :=
  fun d hd => h d (by simp [hd])

/-- Safe text stays safe without some characters at its front. -/
theorem SafeRun.drop {s : Text} (h : SafeRun s) (n : Nat) : SafeRun (s.drop n) :=
  fun d hd => h d (List.mem_of_mem_drop hd)

/-- Safe texts one after the other are safe. -/
theorem SafeRun.append {s t : Text} (hs : SafeRun s) (ht : SafeRun t) : SafeRun (s ++ t) := by
  intro c hc
  rcases List.mem_append.1 hc with hc | hc
  · exact hs c hc
  · exact ht c hc

/-- The two characters that end a prelude. -/
def EndsPrelude (d : Char) : Prop := d = ';' ∨ d = '{'

/-! ## No part of a token runs past the end of a prelude -/

section Bounds

variable {s t : Text} {d : Char}

/-- A name that starts in safe text ends before the prelude does. -/
theorem nameFrom_le (hs : SafeRun s) (hd : EndsPrelude d) :
    (nameFrom 0 (s ++ d :: t)).2 ≤ s.length := by
  induction s with
  | nil => rcases hd with rfl | rfl <;> simp [nameFrom, continuesName, startsName]
  | cons c s ih =>
    have hc := isSafeChar_iff.1 (hs c (by simp))
    have hrest := ih hs.tail
    rw [List.cons_append, nameFrom]
    by_cases hname : continuesName c = true
    · simp only [hname, if_true, List.length_cons]
      omega
    · simp [hname, hc.2.2.2.2.2.2.2.2.2.2.1]

/-- Digits end before the prelude does. -/
theorem digitCount_le (hd : EndsPrelude d) : digitCount (s ++ d :: t) ≤ s.length := by
  unfold digitCount
  induction s with
  | nil => rcases hd with rfl | rfl <;> simp
  | cons c s ih =>
    rw [List.cons_append, List.takeWhile_cons]
    by_cases hc : c.isDigit = true
    · simp only [hc, if_true, List.length_cons]
      omega
    · simp [hc]

/-- A fraction ends before the prelude does. -/
theorem fractionLength_le (hd : EndsPrelude d) : fractionLength (s ++ d :: t) ≤ s.length := by
  cases s with
  | nil => rcases hd with rfl | rfl <;> simp [fractionLength]
  | cons c s =>
    have hcount := digitCount_le (s := s) (t := t) hd
    rw [List.cons_append]
    unfold fractionLength
    split
    · next rest heq =>
      obtain ⟨-, rfl⟩ := List.cons.inj heq
      split
      · omega
      · simp only [List.length_cons]
        omega
    · omega

/-- An exponent ends before the prelude does. -/
theorem exponentLength_le (hd : EndsPrelude d) : exponentLength (s ++ d :: t) ≤ s.length := by
  cases s with
  | nil => rcases hd with rfl | rfl <;> simp [exponentLength]
  | cons e s =>
    by_cases he : (e = 'e' || e = 'E') = true
    · cases s with
      | nil => rcases hd with rfl | rfl <;> simp [exponentLength, digitCount]
      | cons sign s =>
        have hshort := digitCount_le (s := s) (t := t) hd
        have hlong := digitCount_le (s := sign :: s) (t := t) hd
        simp only [List.cons_append, exponentLength, he, if_true, List.length_cons] at hlong ⊢
        split <;> split <;> omega
    · simp [exponentLength, he]

/-- A unit that starts in safe text ends before the prelude does. -/
theorem unitNameLength_le (hs : SafeRun s) (hd : EndsPrelude d) :
    unitNameLength (s ++ d :: t) ≤ s.length := by
  have hname := nameFrom_le (t := t) hs hd
  unfold unitNameLength
  split
  · next hpercent =>
    cases s with
    | nil => rcases hd with rfl | rfl <;> simp at hpercent
    | cons c s => simp
  · split <;> omega

/-- A number ends before the prelude does. -/
theorem numberLength_le (hs : SafeRun s) (hd : EndsPrelude d) :
    numberLength (s ++ d :: t) ≤ s.length := by
  have hdigits := digitCount_le (s := s) (t := t) hd
  -- every further part starts in what the parts before it leave of `s`
  have hdrop {n : Nat} (hn : n ≤ s.length) : (s ++ d :: t).drop n = s.drop n ++ d :: t :=
    List.drop_append_of_le_length hn
  have hfraction := fractionLength_le (s := s.drop (digitCount (s ++ d :: t))) (t := t) hd
  rw [← hdrop hdigits, List.length_drop] at hfraction
  have hexponent := exponentLength_le (t := t) hd (s := s.drop (digitCount (s ++ d :: t) +
    fractionLength ((s ++ d :: t).drop (digitCount (s ++ d :: t)))))
  rw [← hdrop (by omega), List.length_drop] at hexponent
  have hunit := unitNameLength_le (t := t) (hs.drop (digitCount (s ++ d :: t) +
    fractionLength ((s ++ d :: t).drop (digitCount (s ++ d :: t))) +
    exponentLength ((s ++ d :: t).drop (digitCount (s ++ d :: t) +
      fractionLength ((s ++ d :: t).drop (digitCount (s ++ d :: t))))))) hd
  rw [← hdrop (by omega), List.length_drop] at hunit
  unfold numberLength
  dsimp only
  omega

/-- What a safe run leaves after some characters starts with no opening parenthesis. -/
theorem head_drop_ne_round (hs : SafeRun s) (hd : EndsPrelude d) {n : Nat} (hn : n ≤ s.length)
    (body : Text) : (s ++ d :: t).drop n ≠ '(' :: body := by
  rw [List.drop_append_of_le_length hn]
  cases hrest : s.drop n with
  | nil => rcases hd with rfl | rfl <;> simp
  | cons c rest =>
    have hc : isSafeChar c = true := hs.drop n c (by simp [hrest])
    intro heq
    exact (isSafeChar_iff.1 hc).2.2.2.1 (List.cons.inj heq).1

/-- An identifier in safe text is plain, and ends before the prelude does. -/
theorem identifierToken_safe (hs : SafeRun s) (hd : EndsPrelude d) :
    ∃ n ≤ s.length, identifierToken (s ++ d :: t) = (.plain, n) := by
  have hname := nameFrom_le (t := t) hs hd
  refine ⟨(nameFrom 0 (s ++ d :: t)).2, hname, ?_⟩
  unfold identifierToken
  dsimp only
  split
  · next body heq => exact absurd heq (head_drop_ne_round hs hd hname body)
  · rfl

/-- Blanks end before the prelude does. -/
theorem takeWhile_isSpacing_le (hd : EndsPrelude d) :
    ((s ++ d :: t).takeWhile isSpacing).length ≤ s.length := by
  induction s with
  | nil => rcases hd with rfl | rfl <;> simp [isSpacing, formFeed]
  | cons c s ih =>
    rw [List.cons_append, List.takeWhile_cons]
    split
    · simpa using ih
    · simp

end Bounds

/-- A token that neither groups, ends nor starts anything. -/
def Token.Quiet (token : Token) : Prop := token = .blank ∨ token = .sharp ∨ token = .plain

/-- A token at `c` is quiet and covers at most the text `s` besides; only a single number sign
is sharp. -/
structure QuietWithin (c : Char) (s : Text) (found : Token × Nat) : Prop where
  quiet : found.1.Quiet
  length_le : found.2 - 1 ≤ s.length
  sharp : found.1 = .sharp → c = '#' ∧ found.2 = 1
  blank : found.1 = .blank → isSpacing c = true

/-- A plain token is quiet, and covers what it covers. -/
theorem QuietWithin.plain {c : Char} {s : Text} {n : Nat} (hn : n - 1 ≤ s.length) :
    QuietWithin c s (.plain, n) :=
  ⟨Or.inr (Or.inr rfl), hn, by simp, by simp⟩

/-- A lexeme that starts inside a safe run is quiet and ends inside it. -/
theorem front_safe {c d : Char} {s : Text} (hc : isSafeChar c = true) (hs : SafeRun s)
    (hd : EndsPrelude d) (t : Text) : QuietWithin c s (Token.front c (s ++ d :: t)) := by
  have hcs : SafeRun (c :: s) := by
    intro x hx
    rcases List.mem_cons.1 hx with rfl | hx
    · exact hc
    · exact hs x hx
  have hname := nameFrom_le (t := t) hs hd
  have hnumber := numberLength_le (t := t) hs hd
  have hnumber' := numberLength_le (t := t) hcs hd
  have hspacing := takeWhile_isSpacing_le (s := c :: s) (t := t) hd
  obtain ⟨n, hn, hident⟩ := identifierToken_safe (t := t) hcs hd
  rw [List.cons_append] at hnumber' hident hspacing
  rw [List.length_cons] at hnumber' hn hspacing
  unfold Token.front
  dsimp only
  split
  case h_1 =>
    split
    · exact .plain (by omega)
    · exact ⟨Or.inr (Or.inl rfl), by simp, by simp, by simp⟩
  case h_13 =>
    -- the four characters of an opening comment mark of markup stand inside the run
    next body heq =>
    refine .plain ?_
    match s, heq with
    | [], heq => rcases hd with rfl | rfl <;> simp at heq
    | [a], heq => rcases hd with rfl | rfl <;> simp at heq
    | [a, b], heq => rcases hd with rfl | rfl <;> simp at heq
    | a :: b :: e :: s, heq => simp
  case h_14 =>
    refine .plain ?_
    split <;> omega
  case h_15 =>
    split
    · exact .plain (by omega)
    · split
      · next hclose =>
        refine .plain ?_
        match s, hclose with
        | [], hclose => rcases hd with rfl | rfl <;> simp at hclose
        | [a], hclose => rcases hd with rfl | rfl <;> simp at hclose
        | a :: b :: s, hclose => simp
      · split
        · rw [hident]
          exact .plain (by omega)
        · exact .plain (by simp)
  case h_16 =>
    split
    · next hblank => exact ⟨Or.inl rfl, by simpa using hspacing, by simp, fun _ => hblank⟩
    · split
      · exact .plain (by omega)
      · split
        · rw [hident]
          exact .plain (by omega)
        · exact .plain (by simp)
  all_goals simp [isSafeChar] at hc

/-! ## Tokens of known extent -/

/-- A run of blanks is one token. -/
theorem front_spacing {c : Char} (h : isSpacing c = true) (rest : Text) :
    Token.front c rest = (.blank, ((c :: rest).takeWhile isSpacing).length) := by
  have hcases := h
  simp only [isSpacing, formFeed, Bool.or_eq_true, beq_iff_eq] at hcases
  rcases hcases with (((rfl | rfl) | rfl) | rfl) | rfl <;> simp [Token.front, isSpacing, formFeed]

/-- A character that names are made of and that stands for itself there. -/
def isNameChar (c : Char) : Bool := continuesName c && c != '\x00'

/-- A name of such characters is read as it is written, up to the blank after it. -/
theorem nameFrom_append {name : Text} (h : name.all isNameChar = true) (t : Text) :
    nameFrom 0 (name ++ ' ' :: t) = (name, name.length) := by
  induction name with
  | nil => simp [nameFrom, continuesName, startsName]
  | cons c name ih =>
    simp only [List.all_cons, Bool.and_eq_true, isNameChar, bne_iff_ne, ne_eq] at h
    obtain ⟨⟨hname, hnul⟩, hrest⟩ := h
    rw [List.cons_append, nameFrom, ih hrest]
    simp [hname, hnul]

/-- An at word is read up to the blank behind its name. -/
theorem front_atWord {c : Char} {name : Text} (hc : c.isAlpha = true)
    (h : name.all isNameChar = true) (t : Text) :
    Token.front '@' (c :: name ++ ' ' :: t) = (.atWord (c :: name), name.length + 2) := by
  have hfirst : isNameChar c = true := by
    have hnul : c ≠ '\x00' := by
      rintro rfl
      simp at hc
    simp [isNameChar, continuesName, startsName, hc, hnul]
  have hname : nameFrom 0 (c :: name ++ ' ' :: t) = (c :: name, (c :: name).length) :=
    nameFrom_append (by simp [hfirst, h]) t
  have hstart : startsIdentifier (c :: name ++ ' ' :: t) = true := by
    unfold startsIdentifier
    split
    · next heq =>
      simp only [List.cons_append, List.cons.injEq] at heq
      simp [heq.1] at hc
    · next heq =>
      simp only [List.cons_append, List.cons.injEq] at heq
      simp [heq.1] at hc
    · next heq =>
      simp only [List.cons_append, List.cons.injEq] at heq
      simp [← heq.1, startsName, hc]
    · next heq => simp at heq
  simp only [Token.front, hstart, if_true, hname, List.length_cons]

/-- A block comment is read up to its end mark. -/
theorem front_comment {text : Text} (h : mentions text "*/".toList = false) (t : Text) :
    Token.front '/' ('*' :: (text ++ '*' :: '/' :: t)) = (.comment text, text.length + 4) := by
  simp only [Token.front, cut?_commentEnd h t]

end ClassHints.Sheet
