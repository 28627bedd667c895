import ClassHints.Proofs.Sheet.Lexing

/-!
# The tokens at the front of a text

What the first token of a text can be and how many characters it covers, with one case for each
rule of the token grammar. Everything said of all tokens is a case analysis over these rules.
-/

namespace ClassHints.Sheet

open Text

/-- The token of a character that is a token by itself wherever it starts one. -/
def punctuation? : Char → Option Token
  | '(' => some (.opening .round)
  | '[' => some (.opening .square)
  | '{' => some (.opening .curly)
  | ')' => some (.closing .round)
  | ']' => some (.closing .square)
  | '}' => some (.closing .curly)
  | ';' => some .semicolon
  | _ => none

/-- A character that starts a token of its own kind only: blanks, quotes and punctuation. -/
def startsOwnToken (c : Char) : Bool :=
  isSpacing c || c == '"' || c == '\'' || (punctuation? c).isSome

/-- The rules by which a token is read at `c` with `u` behind it. -/
inductive Token.ReadAt (c : Char) (u : Text) : Token → Nat → Prop where
  | blank (spacing : isSpacing c = true) :
    ReadAt c u .blank ((c :: u).takeWhile isSpacing).length
  | string (quote : c = '"' ∨ c = '\'') :
    ReadAt c u (if (stringFrom c 0 u).1 then .plain else .brokenString) ((stringFrom c 0 u).2 + 1)
  | punctuation (token : Token) (self : punctuation? c = some token) : ReadAt c u token 1
  | comment (text rest : Text) (slash : c = '/')
    (cut : ∃ body, u = '*' :: body ∧ cut? "*/".toList body = some (text, rest)) :
    ReadAt c u (.comment text) (text.length + 4)
  | openComment (body : Text) (slash : c = '/') (behind : u = '*' :: body)
    (cut : cut? "*/".toList body = none) : ReadAt c u (.comment body) (body.length + 2)
  | hash (sharp : c = '#') : ReadAt c u .plain ((nameFrom 0 u).2 + 1)
  | sharp (sharp : c = '#') : ReadAt c u .sharp 1
  | atWord (sign : c = '@') : ReadAt c u (.atWord (nameFrom 0 u).1) ((nameFrom 0 u).2 + 1)
  | openMark (lead : c = '<') (rest : Text) (behind : u = '!' :: '-' :: '-' :: rest) :
    ReadAt c u .plain 4
  | closeMark (lead : c = '-') (behind : u.take 2 = ['-', '>']) : ReadAt c u .plain 3
  | signed (sign : c = '+' ∨ c = '-') (number : startsNumber u = true) :
    ReadAt c u .plain (numberLength u + 1)
  | number (number : startsNumber (c :: u) = true) : ReadAt c u .plain (numberLength (c :: u))
  | identifier (identifier : startsIdentifier (c :: u) = true)
    (own : startsOwnToken c = false) :
    ReadAt c u (identifierToken (c :: u)).1 (identifierToken (c :: u)).2
  | single (own : startsOwnToken c = false) (noComment : c = '/' → u.head? ≠ some '*')
    (noEscape : c = '\\' → startsBreak u = true) : ReadAt c u .plain 1

/-- Every token is read by one of the rules. -/
theorem Token.readAt_front (c : Char) (u : Text) :
    ReadAt c u (Token.front c u).1 (Token.front c u).2 := by
  unfold Token.front
  dsimp only
  split
  case h_1 =>
    split
    · exact .hash rfl
    · exact .sharp rfl
  case h_2 => exact .string (Or.inl rfl)
  case h_3 => exact .string (Or.inr rfl)
  case h_4 | h_5 | h_6 | h_7 | h_8 | h_9 | h_10 => exact .punctuation _ rfl
  case h_11 =>
    split
    · exact .atWord rfl
    · exact .single (by decide) (by simp) (by simp)
  case h_12 body =>
    split
    · next text rest hcut => exact .comment text rest rfl ⟨body, rfl, hcut⟩
    · next hcut => exact .openComment body rfl rfl hcut
  case h_13 rest => exact .openMark rfl rest rfl
  case h_14 =>
    split
    · next hnumber => exact .signed (Or.inl rfl) hnumber
    · exact .single (by decide) (by simp) (by simp)
  case h_15 =>
    split
    · next hnumber => exact .signed (Or.inr rfl) hnumber
    · split
      · next hmark => exact .closeMark rfl hmark
      · split
        · next hidentifier => exact .identifier hidentifier (by decide)
        · exact .single (by decide) (by simp) (by simp)
  case h_16 _ hdouble hsingle _ _ _ _ _ _ _ _ _ _ hcomment _ =>
    split
    · next hspacing => exact .blank hspacing
    · next hspacing =>
      have hpunctuation : punctuation? c = none := by
        unfold punctuation?
        split <;> simp_all
      have hown : startsOwnToken c = false := by
        simpa [startsOwnToken, hspacing, hpunctuation] using And.intro hdouble hsingle
      split
      · next hnumber => exact .number hnumber
      · split
        · next hidentifier => exact .identifier hidentifier hown
        · next hidentifier =>
          refine .single hown ?_ ?_
          · rintro rfl hstar
            obtain ⟨body, rfl⟩ := List.head?_eq_some_iff.1 hstar
            exact hcomment body rfl rfl
          · rintro rfl
            simpa [startsIdentifier] using hidentifier

/-- An identifier is a plain token or opens a parenthesis. -/
theorem identifierToken_fst (t : Text) :
    (identifierToken t).1 = .plain ∨ (identifierToken t).1 = .opening .round := by
  unfold identifierToken
  dsimp only
  split
  · split
    · split
      · exact Or.inl rfl
      · exact Or.inr rfl
    · exact Or.inr rfl
  · exact Or.inl rfl

/-- Only a run of blanks starts with a blank. -/
theorem Token.ReadAt.isSpacing_eq_false {c : Char} {u : Text} {token : Token} {n : Nat}
    (h : ReadAt c u token n) (htoken : token ≠ .blank) : isSpacing c = false := by
  cases h with
  | blank => exact absurd rfl htoken
  | string hquote => rcases hquote with rfl | rfl <;> rfl
  | punctuation _ hself =>
    unfold punctuation? at hself
    split at hself
    case h_8 => cases hself
    all_goals rfl
  | comment _ _ hslash | openComment _ hslash => rw [hslash]; rfl
  | hash hsharp | sharp hsharp => rw [hsharp]; rfl
  | atWord hsign => rw [hsign]; rfl
  | openMark hlead | closeMark hlead => rw [hlead]; rfl
  | signed hsign => rcases hsign with rfl | rfl <;> rfl
  | number hnumber =>
    by_contra hspacing
    simp only [isSpacing, formFeed, Bool.not_eq_false, Bool.or_eq_true, beq_iff_eq] at hspacing
    rcases hspacing with (((rfl | rfl) | rfl) | rfl) | rfl <;>
      simp [startsNumber, digitCount, fractionLength] at hnumber
  | identifier _ hown | single hown =>
    simp only [startsOwnToken, Bool.or_eq_false_iff] at hown
    exact hown.1.1.1

/-- A token that is no run of blanks does not start with a blank. -/
theorem Token.ReadAt.ne_space {c : Char} {u : Text} {token : Token} {n : Nat}
    (h : ReadAt c u token n) (htoken : token ≠ .blank) : c ≠ ' ' := by
  rintro rfl
  cases h.isSpacing_eq_false htoken

/-- Only a brace closes a block. -/
theorem Token.ReadAt.closing {c : Char} {u : Text} {n : Nat}
    (h : ReadAt c u (.closing .curly) n) : c = '}' ∧ n = 1 := by
  generalize htoken : Token.closing .curly = token at h
  cases h with
  | punctuation _ hself =>
    subst htoken
    unfold punctuation? at hself
    split at hself <;> simp at hself ⊢
  | identifier =>
    rcases identifierToken_fst (c :: u) with hident | hident <;> rw [hident] at htoken <;> cases htoken
  | string =>
    split at htoken <;> cases htoken
  | _ => cases htoken

/-- A block comment covers its two brackets, or all the rest of the text. -/
theorem Token.ReadAt.comment_cases {c : Char} {u text : Text} {n : Nat}
    (h : ReadAt c u (.comment text) n) :
    (∃ rest, c :: u = '/' :: '*' :: (text ++ '*' :: '/' :: rest) ∧ n = text.length + 4) ∨
      n = u.length + 1 := by
  generalize htoken : Token.comment text = token at h
  cases h with
  | comment text' rest hslash hcut =>
    obtain ⟨body, rfl, hcut⟩ := hcut
    obtain rfl := Token.comment.inj htoken
    have hbody := eq_append_of_cut? hcut
    rw [toList_commentEnd] at hbody
    left
    exact ⟨rest, by simp [hslash, hbody], rfl⟩
  | openComment body hslash hbehind =>
    right
    rw [hbehind, List.length_cons]
  | punctuation _ hself =>
    subst htoken
    unfold punctuation? at hself
    split at hself <;> cases hself
  | identifier =>
    rcases identifierToken_fst (c :: u) with hident | hident <;> rw [hident] at htoken <;> cases htoken
  | string =>
    split at htoken <;> cases htoken
  | _ => cases htoken

/-! ## Lexemes among others -/

/-- The first lexeme behind some lexemes is read at the front of the text that is left. -/
theorem exists_readAt_of_append {t : Text} {done rest : List Lexeme} {lexeme : Lexeme}
    (h : lexemes t = done ++ lexeme :: rest) : ∃ c u n,
      Token.ReadAt c u lexeme.token n ∧ lexeme.text = c :: u.take (n - 1) ∧
        rest = lexemes (u.drop (n - 1)) := by
  have hlexemes := lexemes_of_append h
  cases hu : (lexeme :: rest).flatMap Lexeme.text with
  | nil =>
    rw [hu] at hlexemes
    cases hlexemes
  | cons c u =>
    rw [hu, lexemes_cons] at hlexemes
    obtain ⟨rfl, hrest⟩ := List.cons.inj hlexemes
    exact ⟨c, u, _, Token.readAt_front c u, rfl, hrest.symm⟩

end ClassHints.Sheet
