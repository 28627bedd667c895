import ClassHints.Proofs.Sheet.Tokens

/-!
# Calm text

Most tokens are made of characters that mean nothing to the pass over the pieces, and of escapes.
Such text is calm: whatever pieces it is cut into, none of them is a brace, a string or a comment.
Only addresses are not calm, and are told apart here.
-/

namespace ClassHints.Sheet

open Text

/-- A character that starts no brace, string, comment or escape. -/
def isCalm (c : Char) : Bool := !"\x7b\x7d\"'/\\".toList.contains c

/-- Text of calm characters and escapes. The flag says whether a backslash is left at its end
without the character that it escapes. -/
inductive Calm : Text → Bool → Prop where
  | nil : Calm [] false
  | char {c : Char} {t : Text} {dangling : Bool} (calm : isCalm c = true) (rest : Calm t dangling) :
    Calm (c :: t) dangling
  | escape {c : Char} {t : Text} {dangling : Bool} (rest : Calm t dangling) :
    Calm ('\\' :: c :: t) dangling
  | dangling : Calm ['\\'] true

/-- A class of characters without any of the six is calm. -/
theorem isCalm_of {p : Char → Bool} (h : "\x7b\x7d\"'/\\".toList.all (!p ·) = true) {c : Char}
    (hc : p c = true) : isCalm c = true := by
  cases hcalm : isCalm c with
  | true => rfl
  | false =>
    rw [isCalm, Bool.not_eq_false'] at hcalm
    have hmem := List.contains_iff_mem.1 hcalm
    have hnot := List.all_eq_true.1 h c hmem
    simp [hc] at hnot

/-- Blanks are calm. -/
theorem isCalm_of_isSpacing {c : Char} (h : isSpacing c = true) : isCalm c = true :=
  isCalm_of (by decide) h

/-- Hexadecimal digits are calm. -/
theorem isCalm_of_isHexDigit {c : Char} (h : isHexDigit c = true) : isCalm c = true :=
  isCalm_of (by decide) h

/-- Decimal digits are calm. -/
theorem isCalm_of_isDigit {c : Char} (h : c.isDigit = true) : isCalm c = true :=
  isCalm_of (by decide) h

/-- Characters of names are calm. -/
theorem isCalm_of_continuesName {c : Char} (h : continuesName c = true) : isCalm c = true :=
  isCalm_of (by decide) h

/-- A text of calm characters is calm. -/
theorem calm_of_forall {s : Text} (hs : ∀ c ∈ s, isCalm c = true) : Calm s false := by
  induction s with
  | nil => exact .nil
  | cons c s ih => exact .char (hs c (by simp)) (ih fun d hd => hs d (by simp [hd]))

/-- A calm text that leaves no backslash at its end can be followed by another one. -/
theorem Calm.append {s t : Text} {dangling : Bool} (hs : Calm s false) (ht : Calm t dangling) :
    Calm (s ++ t) dangling := by
  generalize hflag : false = flag at hs
  induction hs with
  | nil => exact ht
  | char hc _ ih => exact .char hc (ih hflag)
  | escape _ ih => exact .escape (ih hflag)
  | dangling => cases hflag

/-! ## Names -/

/-- What an escape takes behind its digits is blank. -/
theorem isSpacing_of_mem_escapeBlank (t : Text) : ∀ c ∈ t.take (escapeBlank t), isSpacing c = true := by
  unfold escapeBlank
  split
  · intro c hc
    simp only [List.take_succ_cons, List.take_zero, List.mem_cons, List.not_mem_nil, or_false] at hc
    rcases hc with rfl | rfl <;> decide
  · split
    · next hspacing =>
      intro c hc
      simp only [List.take_succ_cons, List.take_zero, List.mem_cons, List.not_mem_nil,
        or_false] at hc
      rw [hc]
      exact hspacing
    · simp
  · simp

/-- An escape covers a character, and behind it only hexadecimal digits and blanks. -/
theorem exists_escape_eq (c : Char) (t : Text) :
    ∃ more, (escape (c :: t)).2 = more + 1 ∧
      ∀ d ∈ t.take more, isHexDigit d = true ∨ isSpacing d = true := by
  unfold escape
  dsimp only
  split
  · exact ⟨0, rfl, by simp⟩
  · next hdigits =>
    have hfirst : isHexDigit c = true := by
      cases hc : isHexDigit c with
      | true => rfl
      | false => simp [hc] at hdigits
    have hprefix : (t.take 5).takeWhile isHexDigit <+: t :=
      (List.takeWhile_prefix _).trans (List.take_prefix _ _)
    have hall : ((c :: t).take 6).takeWhile isHexDigit = c :: (t.take 5).takeWhile isHexDigit := by
      simp [hfirst]
    rw [hall, List.length_cons, List.drop_succ_cons]
    refine ⟨((t.take 5).takeWhile isHexDigit).length +
      escapeBlank (t.drop ((t.take 5).takeWhile isHexDigit).length), by omega, ?_⟩
    intro d hd
    rw [List.take_add, List.mem_append, ← List.prefix_iff_eq_take.1 hprefix] at hd
    rcases hd with hd | hd
    · exact Or.inl (List.mem_takeWhile_imp hd)
    · exact Or.inr (isSpacing_of_mem_escapeBlank _ d hd)

/-- A name is calm, and leaves a backslash alone only at the end of the text. -/
theorem calm_nameFrom (skip : Nat) (t : Text) (hskip : ∀ c ∈ t.take skip, isCalm c = true) :
    ∃ dangling, Calm (t.take (nameFrom skip t).2) dangling ∧
      (dangling = true → t.drop (nameFrom skip t).2 = []) := by
  induction hn : t.length using Nat.strong_induction_on generalizing skip t with
  | _ n ih =>
    cases t with
    | nil => exact ⟨false, .nil, by simp⟩
    | cons c rest =>
      have hlater {skip : Nat} (hc : isCalm c = true) (hskip : ∀ d ∈ rest.take skip, isCalm d = true) :
          ∃ dangling, Calm ((c :: rest).take ((nameFrom skip rest).2 + 1)) dangling ∧
            (dangling = true → (c :: rest).drop ((nameFrom skip rest).2 + 1) = []) := by
        obtain ⟨dangling, hcalm, hend⟩ := ih rest.length (by rw [← hn]; simp) skip rest hskip rfl
        exact ⟨dangling, .char hc hcalm, hend⟩
      cases skip with
      | succ skip =>
        rw [nameFrom]
        exact hlater (hskip c (by simp)) fun d hd => hskip d (by simp [hd])
      | zero =>
        rw [nameFrom]
        split
        · next hname => exact hlater (isCalm_of_continuesName hname) (by simp)
        · split
          · next hescape =>
            simp only [Bool.and_eq_true, decide_eq_true_eq] at hescape
            obtain ⟨rfl, -⟩ := hescape
            cases rest with
            | nil => exact ⟨true, .dangling, fun _ => rfl⟩
            | cons d rest =>
              obtain ⟨more, hmore, hdigits⟩ := exists_escape_eq d rest
              have hskip : ∀ e ∈ rest.take more, isCalm e = true := by
                intro e he
                rcases hdigits e he with hhex | hspacing
                · exact isCalm_of_isHexDigit hhex
                · exact isCalm_of_isSpacing hspacing
              obtain ⟨dangling, hcalm, hend⟩ :=
                ih rest.length (by rw [← hn]; simp only [List.length_cons]; omega) more rest hskip rfl
              dsimp only
              rw [hmore, nameFrom]
              exact ⟨dangling, .escape hcalm, hend⟩
          · exact ⟨false, .nil, by simp⟩

/-! ## Numbers -/

/-- The digits at the front of a text are calm. -/
theorem isCalm_of_mem_digits (t : Text) : ∀ c ∈ t.take (digitCount t), isCalm c = true := by
  intro c hc
  have hdigits : t.take (digitCount t) = t.takeWhile Char.isDigit :=
    (List.prefix_iff_eq_take.1 (List.takeWhile_prefix _)).symm
  rw [hdigits] at hc
  exact isCalm_of_isDigit (List.mem_takeWhile_imp hc)

/-- The fraction of a number is calm. -/
theorem isCalm_of_mem_fraction (t : Text) : ∀ c ∈ t.take (fractionLength t), isCalm c = true := by
  unfold fractionLength
  split
  · split
    · simp
    · next rest _ =>
      intro c hc
      rcases List.mem_cons.1 hc with rfl | hc
      · decide
      · exact isCalm_of_mem_digits rest c hc
  · simp

/-- The exponent of a number is calm. -/
theorem isCalm_of_mem_exponent (t : Text) : ∀ c ∈ t.take (exponentLength t), isCalm c = true := by
  unfold exponentLength
  split
  · next e rest =>
    split
    · next he =>
      have hletter : isCalm e = true := by
        simp only [Bool.or_eq_true, decide_eq_true_eq] at he
        rcases he with rfl | rfl <;> decide
      split
      · next sign digits =>
        split
        · next hsign =>
          have hsign : isCalm sign = true := by
            simp only [Bool.or_eq_true, decide_eq_true_eq] at hsign
            rcases hsign with rfl | rfl <;> decide
          split
          · simp
          · intro c hc
            rw [List.take_succ_cons, List.take_succ_cons, List.mem_cons, List.mem_cons] at hc
            rcases hc with rfl | rfl | hc
            · exact hletter
            · exact hsign
            · exact isCalm_of_mem_digits digits c hc
        · split
          · simp
          · intro c hc
            rw [List.take_succ_cons, List.mem_cons] at hc
            rcases hc with rfl | hc
            · exact hletter
            · exact isCalm_of_mem_digits _ c hc
      · simp
    · simp
  · simp

/-- The unit of a number is calm, and only at the end of the text may it leave a backslash. -/
theorem calm_unitName (t : Text) :
    ∃ dangling, Calm (t.take (unitNameLength t)) dangling ∧
      (dangling = true → t.drop (unitNameLength t) = []) := by
  unfold unitNameLength
  split
  · next hpercent =>
    obtain ⟨rest, rfl⟩ := List.head?_eq_some_iff.1 hpercent
    exact ⟨false, .char (by decide) .nil, by simp⟩
  · split
    · exact calm_nameFrom 0 t (by simp)
    · exact ⟨false, .nil, by simp⟩

/-- A number with its unit is calm. -/
theorem calm_number (t : Text) :
    ∃ dangling, Calm (t.take (numberLength t)) dangling ∧
      (dangling = true → t.drop (numberLength t) = []) := by
  have hadd {a b : Nat} (ha : ∀ c ∈ t.take a, isCalm c = true)
      (hb : ∀ c ∈ (t.drop a).take b, isCalm c = true) : ∀ c ∈ t.take (a + b), isCalm c = true := by
    intro c hc
    rw [List.take_add, List.mem_append] at hc
    exact hc.elim (ha c) (hb c)
  have hdigits := hadd (isCalm_of_mem_digits t) (isCalm_of_mem_fraction _)
  have hnumber := hadd hdigits (isCalm_of_mem_exponent _)
  unfold numberLength
  dsimp only
  obtain ⟨dangling, hcalm, hend⟩ := calm_unitName (t.drop (digitCount t +
    fractionLength (t.drop (digitCount t)) + exponentLength (t.drop (digitCount t +
      fractionLength (t.drop (digitCount t))))))
  refine ⟨dangling, ?_, ?_⟩
  · rw [List.take_add]
    exact (calm_of_forall hnumber).append hcalm
  · rw [List.drop_drop] at hend
    exact hend

/-- A number that starts somewhere has at least one character. -/
theorem numberLength_pos {t : Text} (h : startsNumber t = true) : 0 < numberLength t := by
  simp only [startsNumber, Bool.or_eq_true, bne_iff_ne] at h
  unfold numberLength
  dsimp only
  rcases h with hdigits | hfraction
  · omega
  · by_cases hzero : digitCount t = 0
    · rw [hzero, List.drop_zero]
      omega
    · omega

/-! ## Tokens -/

/-- Whether a text starts with an unquoted address. -/
def startsAddress (t : Text) : Bool :=
  startsIdentifier t && match t.drop (nameFrom 0 t).2 with
    | '(' :: body => lower (nameFrom 0 t).1 == "url".toList && (addressLength? body).isSome
    | _ => false

/-- A name that starts somewhere has at least one character. -/
theorem nameFrom_pos {c : Char} {u : Text} (h : startsIdentifier (c :: u) = true) :
    0 < (nameFrom 0 (c :: u)).2 := by
  rw [nameFrom]
  split
  · exact Nat.succ_pos _
  · next hname =>
    split
    · exact Nat.succ_pos _
    · next hescape =>
      unfold startsIdentifier at h
      split at h
      · next heq =>
        obtain ⟨rfl, rfl⟩ := List.cons.inj heq
        exact absurd (by decide) hname
      · next heq =>
        obtain ⟨rfl, rfl⟩ := List.cons.inj heq
        simp [h] at hescape
      · next heq =>
        obtain ⟨rfl, rfl⟩ := List.cons.inj heq
        simp [continuesName, h] at hname
      · cases h

/-- An identifier that is no address is a name, or a name with the parenthesis behind it. -/
theorem calm_identifierToken {t : Text} (hstart : startsIdentifier t = true)
    (haddress : startsAddress t = false) :
    ∃ dangling, Calm (t.take (identifierToken t).2) dangling ∧
      (dangling = true → t.drop (identifierToken t).2 = []) := by
  obtain ⟨dangling, hcalm, hend⟩ := calm_nameFrom 0 t (by simp)
  simp only [startsAddress, hstart, Bool.true_and] at haddress
  unfold identifierToken
  dsimp only
  split
  · next body hdrop =>
    have hround : ∃ dangling, Calm (t.take ((nameFrom 0 t).2 + 1)) dangling ∧
        (dangling = true → t.drop ((nameFrom 0 t).2 + 1) = []) := by
      have hname : Calm (t.take (nameFrom 0 t).2) false := by
        cases dangling with
        | false => exact hcalm
        | true =>
          rw [hend rfl] at hdrop
          cases hdrop
      refine ⟨false, ?_, by simp⟩
      rw [List.take_add, hdrop]
      exact hname.append (.char (by decide) .nil)
    rw [hdrop] at haddress
    split
    · next hurl =>
      split
      · next m hlength => simp [hurl, hlength] at haddress
      · exact hround
    · exact hround
  · exact ⟨dangling, hcalm, hend⟩

/-- An identifier that starts somewhere has at least one character. -/
theorem identifierToken_pos {c : Char} {u : Text} (h : startsIdentifier (c :: u) = true) :
    0 < (identifierToken (c :: u)).2 := by
  have hpos := nameFrom_pos h
  unfold identifierToken
  dsimp only
  split
  · split
    · split
      · dsimp only
        omega
      · exact Nat.succ_pos _
    · exact Nat.succ_pos _
  · exact hpos

/-- Line ends are blanks. -/
theorem isSpacing_of_isBreak {c : Char} (h : isBreak c = true) : isSpacing c = true := by
  simp only [isBreak, Bool.or_eq_true, beq_iff_eq] at h
  rcases h with (rfl | rfl) | rfl <;> decide

/-- The characters at which a calm token can start: all but blanks, quotes, braces and slashes. -/
def startsCalm (c : Char) : Bool := !isSpacing c && (isCalm c || c == '\\')

/-- Every token that starts with none of these characters and is no address is calm and no brace.
It leaves a backslash alone only before blanks. -/
theorem Token.ReadAt.calm {c : Char} {u : Text} {token : Token} {n : Nat}
    (h : ReadAt c u token n) (hc : startsCalm c = true)
    (haddress : startsAddress (c :: u) = false) :
    token ≠ .opening .curly ∧ token ≠ .closing .curly ∧
      ∃ dangling, Calm (c :: u.take (n - 1)) dangling ∧
        (dangling = true → ∀ d ∈ (u.drop (n - 1)).head?, isSpacing d = true) := by
  -- names and numbers leave a backslash alone only at the end of the text
  have hnil {t : Text} {dangling : Bool} (hend : dangling = true → t = []) :
      dangling = true → ∀ d ∈ t.head?, isSpacing d = true := by
    intro hdangling d hd
    rw [hend hdangling] at hd
    cases hd
  cases h with
  | blank hspacing => simp [startsCalm, hspacing] at hc
  | string hquote => rcases hquote with rfl | rfl <;> simp [startsCalm, isCalm, isSpacing] at hc
  | punctuation token hself =>
    have hcalm : isCalm c = true ∧ token ≠ .opening .curly ∧ token ≠ .closing .curly := by
      unfold punctuation? at hself
      split at hself
      case h_3 | h_6 => simp [startsCalm, isCalm] at hc
      case h_8 => cases hself
      all_goals
        obtain rfl := Option.some.inj hself
        exact ⟨by decide, by simp, by simp⟩
    exact ⟨hcalm.2.1, hcalm.2.2, false, .char hcalm.1 .nil, by simp⟩
  | comment text rest hslash => simp [startsCalm, isCalm, hslash] at hc
  | openComment body hslash => simp [startsCalm, isCalm, hslash] at hc
  | hash hsharp =>
    subst hsharp
    obtain ⟨dangling, hcalm, hend⟩ := calm_nameFrom 0 u (by simp)
    exact ⟨by simp, by simp, dangling, .char (by decide) hcalm, hnil hend⟩
  | sharp hsharp => exact ⟨by simp, by simp, false, .char (by simp [hsharp]; decide) .nil, by simp⟩
  | atWord hsign =>
    subst hsign
    obtain ⟨dangling, hcalm, hend⟩ := calm_nameFrom 0 u (by simp)
    exact ⟨by simp, by simp, dangling, .char (by decide) hcalm, hnil hend⟩
  | openMark hlead rest hbehind =>
    subst hlead hbehind
    have hmark : ['<', '!', '-', '-'].all isCalm = true := by decide
    exact ⟨by simp, by simp, false, calm_of_forall (List.all_eq_true.1 hmark), by simp⟩
  | closeMark hlead hbehind =>
    subst hlead
    have hmark : ['-', '-', '>'].all isCalm = true := by decide
    refine ⟨by simp, by simp, false, ?_, by simp⟩
    rw [hbehind]
    exact calm_of_forall (List.all_eq_true.1 hmark)
  | signed hsign hnumber =>
    obtain ⟨dangling, hcalm, hend⟩ := calm_number u
    refine ⟨by simp, by simp, dangling, .char ?_ hcalm, hnil hend⟩
    rcases hsign with rfl | rfl <;> decide
  | number hnumber =>
    obtain ⟨dangling, hcalm, hend⟩ := calm_number (c :: u)
    obtain ⟨m, hm⟩ : ∃ m, numberLength (c :: u) = m + 1 :=
      Nat.exists_eq_succ_of_ne_zero (Nat.pos_iff_ne_zero.1 (numberLength_pos hnumber))
    rw [hm] at hcalm hend ⊢
    exact ⟨by simp, by simp, dangling, hcalm, hnil hend⟩
  | identifier hidentifier =>
    obtain ⟨dangling, hcalm, hend⟩ := calm_identifierToken hidentifier haddress
    have hpos := identifierToken_pos hidentifier
    obtain ⟨m, hm⟩ : ∃ m, (identifierToken (c :: u)).2 = m + 1 :=
      Nat.exists_eq_succ_of_ne_zero (Nat.pos_iff_ne_zero.1 hpos)
    rw [hm] at hcalm hend ⊢
    refine ⟨?_, ?_, dangling, hcalm, hnil hend⟩
    · rcases identifierToken_fst (c :: u) with htoken | htoken <;> simp [htoken]
    · rcases identifierToken_fst (c :: u) with htoken | htoken <;> simp [htoken]
  | single hown hcomment hescape =>
    -- a backslash on its own stands before a line end, which is blank
    by_cases hbackslash : c = '\\'
    · have hbreak := hescape hbackslash
      subst hbackslash
      refine ⟨by simp, by simp, true, .dangling, fun _ d hd => ?_⟩
      rw [startsBreak, Option.any_eq_true] at hbreak
      obtain ⟨e, he, hbreak⟩ := hbreak
      obtain rfl : e = d := Option.some.inj (he.symm.trans hd)
      exact isSpacing_of_isBreak hbreak
    · have hcalm : isCalm c = true := by
        simp only [startsCalm, Bool.and_eq_true, Bool.or_eq_true, beq_iff_eq] at hc
        exact hc.2.resolve_right hbackslash
      exact ⟨by simp, by simp, false, .char hcalm .nil, by simp⟩

end ClassHints.Sheet
