import ClassHints.Proofs.Markup.RoundTrip
import ClassHints.Text.Letters

/-!
# Where attributes start

The places inside a start tag at which an attribute is read. An attribute that covers the rest of
the text is the last one of a tag that does not end. What stands right before an attribute is a
blank, a slash or the end of another attribute, which is no part of a word: the name that starts
there is the whole name.
-/

namespace ClassHints.Markup

open Text

/-- The places at which the rest of a start tag reads an attribute, each as the text from there
on; `skip` characters belong to the attribute before. -/
def attributeStarts : Nat → Text → List Text
  | _, [] => []
  | skip + 1, _ :: rest => attributeStarts skip rest
  | 0, c :: rest =>
    if isSpacing c then attributeStarts 0 rest
    else if c = '>' then []
    else if c = '/' then if rest.head? = some '>' then [] else attributeStarts 0 rest
    else (c :: rest) :: attributeStarts ((Attribute.front (c :: rest)).2 - 1) rest

/-- The attributes of a tag are those at the places where it reads one. -/
theorem attributes_tagBodyFrom (skip : Nat) (t : Text) : (tagBodyFrom skip t).attributes =
    (attributeStarts skip t).filterMap fun u => (Attribute.front u).1 := by
  fun_induction attributeStarts skip t with
  | case1 => rfl
  | case2 skip c rest ih => exact ih
  | case3 c rest hspacing ih =>
    rw [tagBodyFrom, if_pos hspacing]
    exact ih
  | case4 => rfl
  | case5 rest hhead => simp [tagBodyFrom, hhead, isSpacing, formFeed]
  | case6 rest hhead hspacing hbracket ih =>
    rw [tagBodyFrom, if_neg hspacing, if_neg hbracket, if_pos rfl, if_neg hhead]
    exact ih
  | case7 c rest hspacing hbracket hslash ih =>
    rw [tagBodyFrom, if_neg hspacing, if_neg hbracket, if_neg hslash, List.filterMap_cons]
    dsimp only
    rw [ih]
    cases (Attribute.front (c :: rest)).1 <;> rfl

/-- To skip characters is to start behind them. -/
theorem attributeStarts_drop (skip : Nat) (t : Text) :
    attributeStarts skip t = attributeStarts 0 (t.drop skip) := by
  induction t generalizing skip with
  | nil => simp [attributeStarts]
  | cons c t ih =>
    cases skip with
    | zero => rfl
    | succ skip => exact ih skip

/-- An attribute that covers the rest of the text is the last one of a tag that does not end. -/
theorem getLast?_attributeStarts {skip : Nat} {t u : Text} (h : u ∈ attributeStarts skip t)
    (hcovers : (Attribute.front u).2 = u.length) :
    (tagBodyFrom skip t).ending = .unfinished ∧ (attributeStarts skip t).getLast? = some u := by
  fun_induction attributeStarts skip t with
  | case1 => cases h
  | case2 skip c rest ih => exact ih h
  | case3 c rest hspacing ih =>
    rw [tagBodyFrom, if_pos hspacing]
    exact ih h
  | case4 => cases h
  | case5 => cases h
  | case6 rest hhead hspacing hbracket ih =>
    rw [tagBodyFrom, if_neg hspacing, if_neg hbracket, if_pos rfl, if_neg hhead]
    exact ih h
  | case7 c rest hspacing hbracket hslash ih =>
    rw [tagBodyFrom, if_neg hspacing, if_neg hbracket, if_neg hslash]
    dsimp only
    rcases List.mem_cons.1 h with rfl | h
    · have hskip : (Attribute.front (c :: rest)).2 - 1 = rest.length := by
        rw [hcovers, List.length_cons, Nat.add_sub_cancel]
      have hnone : attributeStarts rest.length rest = [] := by
        rw [attributeStarts_drop, List.drop_length]
        rfl
      have hbody := tagBodyFrom_length_append rest []
      rw [List.append_nil] at hbody
      rw [hskip, hnone, hbody]
      exact ⟨rfl, rfl⟩
    · obtain ⟨hending, hlast⟩ := ih h
      refine ⟨hending, ?_⟩
      rw [List.getLast?_cons, hlast]
      rfl

/-! ## What stands before an attribute -/

/-- No character of a word ends the name of an attribute. -/
theorem isWordPart_of_endsAttributeName {c : Char} (h : endsAttributeName c = true) :
    isWordPart c = false := by
  simp only [endsAttributeName, isSpacing, formFeed, Bool.or_eq_true, beq_iff_eq] at h
  rcases h with (((((((rfl | rfl) | rfl) | rfl) | rfl) | rfl) | rfl) | rfl) | rfl <;> decide

/-- A run goes on until a character is not part of it. -/
theorem eq_false_of_drop_takeWhile {p : Char → Bool} {t rest : Text} {d : Char}
    (h : t.drop (t.takeWhile p).length = d :: rest) : p d = false := by
  induction t with
  | nil => cases h
  | cons c t ih =>
    cases hc : p c with
    | true =>
      rw [List.takeWhile_cons_of_pos hc] at h
      exact ih h
    | false =>
      rw [List.takeWhile_cons_of_neg (by simp [hc])] at h
      obtain ⟨rfl, -⟩ := List.cons.inj h
      exact hc

/-- A name goes on until a character ends it, or to the end of the tag. -/
theorem endsAttributeName_of_drop {t rest : Text} {d : Char}
    (h : t.drop (attributeName t).length = d :: rest) : endsAttributeName d = true ∨ d = '/' := by
  fun_induction attributeName t with
  | case1 => cases h
  | case2 tail =>
    obtain ⟨rfl, -⟩ := List.cons.inj h
    exact Or.inr rfl
  | case3 c tail _ hends =>
    obtain ⟨rfl, -⟩ := List.cons.inj h
    exact Or.inl hends
  | case4 c tail _ _ ih => exact ih h

/-- An expression goes on until a brace closes it. -/
theorem eq_brace_of_drop {quote : Option Char} {depth : Nat} {t rest : Text} {d : Char}
    (h : t.drop (expressionFrom quote depth t).length = d :: rest) : d = '}' := by
  induction t generalizing quote depth with
  | nil => cases h
  | cons c t ih =>
    rw [expressionFrom_cons] at h
    cases hnext : expressionNext? quote depth c with
    | none =>
      rw [hnext] at h
      obtain ⟨rfl, -⟩ := List.cons.inj h
      unfold expressionNext? at hnext
      split at hnext
      · cases hnext
      · split at hnext
        · cases hnext
        · split at hnext
          · cases hnext
          · split at hnext
            · assumption
            · cases hnext
    | some state =>
      rw [hnext] at h
      exact ih h

/-- An expression that no brace closes covers the text. -/
theorem expressionFrom_eq_self {t : Text} (h : '}' ∉ t) (quote : Option Char) (depth : Nat) :
    expressionFrom quote depth t = t := by
  apply (expressionFrom_isPrefix quote depth t).eq_of_length_le
  by_contra hlt
  obtain ⟨d, rest, hdrop⟩ : ∃ d rest, t.drop (expressionFrom quote depth t).length = d :: rest := by
    apply List.exists_cons_of_ne_nil
    rw [ne_eq, List.drop_eq_nil_iff]
    exact hlt
  obtain rfl := eq_brace_of_drop hdrop
  exact h (List.mem_of_mem_drop (hdrop ▸ List.mem_cons_self))

/-- A value between delimiters ends with the closing one, if anything follows. -/
theorem exists_getLast?_delimited {value body rest : Text} {c d : Char}
    (h : (c :: body).drop (delimitedLength value body) = d :: rest) :
    ∃ e more, body.drop value.length = e :: more ∧
      ((c :: body).take (delimitedLength value body)).getLast? = some e := by
  have hlength := congrArg List.length h
  simp only [delimitedLength, List.length_drop, List.length_cons] at hlength
  have hroom : value.length < body.length := by omega
  have hdelimited : delimitedLength value body = value.length + 1 + 1 := by
    simp only [delimitedLength]
    omega
  obtain ⟨e, more, hmore⟩ : ∃ e more, body.drop value.length = e :: more := by
    apply List.exists_cons_of_ne_nil
    rw [ne_eq, List.drop_eq_nil_iff]
    omega
  refine ⟨e, more, hmore, ?_⟩
  have htake : body.take (value.length + 1) = body.take value.length ++ [e] := by
    rw [List.take_add, hmore]
    rfl
  rw [hdelimited, List.take_succ_cons, htake, ← List.cons_append, List.getLast?_concat]

/-- Where the name of another attribute follows directly, a value ends with no part of a word. -/
theorem exists_getLast?_attributeValue {body rest : Text} {d : Char}
    (h : body.drop (attributeValue body).2.2 = d :: rest) (hd : endsAttributeName d = false) :
    ∃ e, (body.take (attributeValue body).2.2).getLast? = some e ∧ isWordPart e = false := by
  cases body with
  | nil => cases h
  | cons c body =>
    by_cases hbrace : c = '{'
    · subst hbrace
      obtain ⟨e, more, hmore, hlast⟩ := exists_getLast?_delimited h
      obtain rfl := eq_brace_of_drop hmore
      exact ⟨_, hlast, by decide⟩
    · rw [attributeValue_cons hbrace] at h ⊢
      by_cases hquote : (c = '"' || c = '\'') = true
      · rw [if_pos hquote] at h ⊢
        obtain ⟨e, more, hmore, hlast⟩ := exists_getLast?_delimited h
        have hclose : e = c := by simpa using eq_false_of_drop_takeWhile hmore
        rw [Bool.or_eq_true, decide_eq_true_eq, decide_eq_true_eq] at hquote
        refine ⟨e, hlast, ?_⟩
        rw [hclose]
        rcases hquote with rfl | rfl <;> decide
      · rw [if_neg hquote] at h
        have hstop := eq_false_of_drop_takeWhile h
        simp only [endsAttributeName, Bool.or_eq_false_iff] at hd
        obtain ⟨⟨⟨⟨hspacing, -⟩, hbracket⟩, -⟩, -⟩ := hd
        rw [hspacing, bne, hbracket] at hstop
        cases hstop

/-- Where the name of another attribute follows directly, an attribute ends with no part of a
word. -/
theorem exists_getLast?_front {t rest : Text} {d : Char} (hslash : t.head? ≠ some '/')
    (h : t.drop (Attribute.front t).2 = d :: rest) (hd : endsAttributeName d = false)
    (hd' : d ≠ '/') :
    ∃ e, (t.take (Attribute.front t).2).getLast? = some e ∧ isWordPart e = false := by
  by_cases hname : attributeName t = []
  · rw [front_of_nameless hname]
    cases t with
    | nil => cases h
    | cons c t =>
      have hc : c ≠ '/' := by
        rintro rfl
        exact hslash rfl
      rw [attributeName_cons (Or.inl hc)] at hname
      refine ⟨c, rfl, ?_⟩
      by_contra hword
      rw [if_neg] at hname
      · cases hname
      · intro hends
        exact hword (isWordPart_of_endsAttributeName hends)
  · obtain ⟨behind, hsplit⟩ := attributeName_isPrefix t
    rcases exists_value_or_bare behind with ⟨blanks, gap, body, rfl, hblanks, hgap, hbody⟩ | hbare
    · rw [front_of_value hname hsplit hblanks hgap hbody] at h ⊢
      have hlead : t = (attributeName t ++ blanks ++ '=' :: gap) ++ body := by
        nth_rewrite 1 [← hsplit]
        simp
      have hlength : (attributeName t).length + blanks.length + 1 + gap.length =
          (attributeName t ++ blanks ++ '=' :: gap).length := by
        simp only [List.length_append, List.length_cons]
        omega
      dsimp only at h ⊢
      generalize attributeName t ++ blanks ++ '=' :: gap = lead at hlead hlength
      rw [hlength, hlead, List.drop_length_add_append] at h
      obtain ⟨e, hlast, hword⟩ := exists_getLast?_attributeValue h hd
      refine ⟨e, ?_, hword⟩
      rw [hlength, hlead, List.take_length_add_append, List.getLast?_append, hlast]
      rfl
    · rw [front_of_bare hname hsplit hbare] at h
      rcases endsAttributeName_of_drop h with hends | hends
      · rw [hends] at hd
        cases hd
      · exact absurd hends hd'

/-- What stands before the name of an attribute is no part of a word. -/
theorem exists_lead_of_mem_attributeStarts {t u : Text} (h : u ∈ attributeStarts 0 t) :
    ∃ lead, t = lead ++ u ∧ ∀ d ∈ u.head?, endsAttributeName d = false → d ≠ '/' →
      ∀ e ∈ lead.getLast?, isWordPart e = false := by
  induction hn : t.length using Nat.strong_induction_on generalizing t with
  | _ n ih =>
    -- the places behind a part that has been passed, which ends with no part of a word
    have hbehind {passed rest : Text} (ht : t = passed ++ rest) (hpassed : 0 < passed.length)
        (hlast : ∀ d more, rest = d :: more → endsAttributeName d = false → d ≠ '/' →
          ∃ e, passed.getLast? = some e ∧ isWordPart e = false)
        (h : u ∈ attributeStarts 0 rest) :
        ∃ lead, t = lead ++ u ∧ ∀ d ∈ u.head?, endsAttributeName d = false → d ≠ '/' →
          ∀ e ∈ lead.getLast?, isWordPart e = false := by
      have hshort : rest.length < n := by
        rw [← hn, ht, List.length_append]
        omega
      obtain ⟨lead, rfl, hlead⟩ := ih rest.length hshort h rfl
      refine ⟨passed ++ lead, by rw [ht, List.append_assoc], ?_⟩
      intro d hd hends hslash e he
      rw [List.getLast?_append] at he
      cases hl : lead.getLast? with
      | some e' =>
        rw [hl] at he
        obtain rfl := Option.some.inj he
        exact hlead d hd hends hslash _ hl
      | none =>
        obtain rfl := List.getLast?_eq_none_iff.1 hl
        obtain ⟨more, hu⟩ := List.head?_eq_some_iff.1 hd
        obtain ⟨e', hpassed, hword⟩ := hlast d more hu hends hslash
        rw [hl, hpassed] at he
        obtain rfl := Option.some.inj he
        exact hword
    cases t with
    | nil => cases h
    | cons c rest =>
      rw [attributeStarts] at h
      split at h
      · next hspacing =>
        refine hbehind (List.singleton_append (x := c)).symm (by simp) ?_ h
        intro _ _ _ _ _
        exact ⟨c, rfl, isWordPart_of_endsAttributeName (by simp [endsAttributeName, hspacing])⟩
      · split at h
        · cases h
        · split at h
          · next hslash =>
            subst hslash
            split at h
            · cases h
            · refine hbehind (List.singleton_append (x := '/')).symm (by simp) ?_ h
              intro _ _ _ _ _
              exact ⟨'/', rfl, by decide⟩
          · next hslash =>
            rcases List.mem_cons.1 h with rfl | h
            · exact ⟨[], rfl, by simp⟩
            · have hpos := front_pos (c :: rest)
              have hdrop : rest.drop ((Attribute.front (c :: rest)).2 - 1) =
                  (c :: rest).drop (Attribute.front (c :: rest)).2 := by
                obtain ⟨m, hm⟩ := Nat.exists_eq_succ_of_ne_zero (Nat.ne_of_gt hpos)
                rw [hm]
                rfl
              rw [attributeStarts_drop, hdrop] at h
              refine hbehind (List.take_append_drop _ _).symm ?_ ?_ h
              · rw [List.length_take, List.length_cons]
                omega
              · intro d more hrest hends hslash'
                exact exists_getLast?_front (by simpa using hslash) hrest hends hslash'

end ClassHints.Markup
