import ClassHints.Markup.Tag
import Mathlib.Data.List.TakeWhile

/-!
# The text of a start tag

A start tag and its attributes are cut out of the text that they stand at the front of. A tag
that ends is decided by its own characters, so that it stays the same whatever follows it. A
tag that does not end covers the rest of the text.
-/

namespace ClassHints.Markup

open Text

/-- A run that stops within `v` does not depend on what follows `v`. -/
theorem takeWhile_append_of_lt {p : Char → Bool} {v w : Text}
    (h : ((v ++ w).takeWhile p).length < v.length) (u : Text) :
    (v ++ u).takeWhile p = (v ++ w).takeWhile p := by
  induction v with
  | nil => simp at h
  | cons c v ih =>
    by_cases hc : p c = true
    · simp only [List.cons_append, List.takeWhile_cons, hc, if_true, List.length_cons] at h ⊢
      rw [ih (by omega)]
    · simp [hc]

/-- Characters that are taken up to a place inside a text are taken up to that place when the text
goes on. -/
theorem takeWhile_append_of_length_lt {p : Char → Bool} {v : Text}
    (h : (v.takeWhile p).length < v.length) (u : Text) :
    (v ++ u).takeWhile p = v.takeWhile p := by
  have hrun := takeWhile_append_of_lt (w := []) (by rwa [List.append_nil]) u
  rwa [List.append_nil] at hrun

/-- A run ends where what follows does not go on with it. -/
theorem takeWhile_append_of_head? {p : Char → Bool} {run rest : Text}
    (hrun : ∀ c ∈ run, p c = true) (hrest : ∀ c ∈ rest.head?, p c = false) :
    (run ++ rest).takeWhile p = run := by
  rw [List.takeWhile_append_of_pos hrun]
  cases rest with
  | nil => simp
  | cons c rest => simp [hrest c rfl]

/-- What is taken from a text is no longer than the text. -/
theorem length_takeWhile_le (p : Char → Bool) (t : Text) : (t.takeWhile p).length ≤ t.length :=
  (List.takeWhile_prefix p).length_le

/-! ## Names and values of attributes -/

/-- A name goes on with a character that does not end it, unless a self-closing tag ends there. -/
theorem attributeName_cons {c : Char} {rest : Text} (h : c ≠ '/' ∨ rest.head? ≠ some '>') :
    attributeName (c :: rest) =
      if endsAttributeName c then [] else c :: attributeName rest := by
  rw [attributeName.eq_def]
  split
  · next heq => cases heq
  · next heq =>
    obtain ⟨rfl, rfl⟩ := List.cons.inj heq
    simp at h
  · next heq =>
    obtain ⟨rfl, rfl⟩ := List.cons.inj heq
    rfl

/-- The name of an attribute stands at the front of the text. -/
theorem attributeName_isPrefix (t : Text) : attributeName t <+: t := by
  fun_induction attributeName t with
  | case1 => exact List.nil_prefix
  | case2 => exact List.nil_prefix
  | case3 => exact List.nil_prefix
  | case4 c rest _ _ ih => exact List.cons_prefix_cons.2 ⟨rfl, ih⟩

/-- A name that is followed by an angle bracket within `v` does not depend on what follows
`v`. -/
theorem attributeName_append {v w : Text}
    (h : '>' ∈ v.drop (attributeName (v ++ w)).length) (u : Text) :
    attributeName (v ++ u) = attributeName (v ++ w) := by
  induction v with
  | nil => simp at h
  | cons c v ih =>
    by_cases hslash : c = '/' ∧ v.head? = some '>'
    · obtain ⟨rfl, hv⟩ := hslash
      obtain ⟨v, rfl⟩ := List.head?_eq_some_iff.1 hv
      rfl
    · have hx : v ≠ [] ∨ c ≠ '/' := by
        by_contra hnot
        obtain ⟨rfl, rfl⟩ : v = [] ∧ c = '/' := by simpa using hnot
        have hmem := List.mem_of_mem_drop h
        simp at hmem
      have hname (x : Text) : attributeName (c :: v ++ x) =
          if endsAttributeName c then [] else c :: attributeName (v ++ x) := by
        refine attributeName_cons ?_
        -- the slash of a self-closing tag would need the bracket right behind it
        by_cases hc : c = '/'
        · obtain ⟨d, v, rfl⟩ := List.exists_cons_of_ne_nil (hx.resolve_right fun hne => hne hc)
          exact Or.inr fun hhead => hslash ⟨hc, hhead⟩
        · exact Or.inl hc
      rw [hname w] at h
      rw [hname u, hname w]
      by_cases hends : endsAttributeName c = true
      · rw [if_pos hends, if_pos hends]
      · rw [if_neg hends] at h ⊢
        rw [if_neg hends, ih (by simpa using h)]

/-- The state of reading an expression after one more character, or nothing if that character
closes the expression. -/
def expressionNext? (quote : Option Char) (depth : Nat) (c : Char) : Option (Option Char × Nat) :=
  match quote with
  | some q => some (if c = q then none else some q, depth)
  | none =>
    if quotesExpression c then some (some c, depth)
    else if c = '{' then some (none, depth + 1)
    else if c = '}' then
      match depth with
      | 0 => none
      | depth + 1 => some (none, depth)
    else some (none, depth)

/-- One character of an expression is read, unless it closes the expression. -/
theorem expressionFrom_cons (quote : Option Char) (depth : Nat) (c : Char) (rest : Text) :
    expressionFrom quote depth (c :: rest) =
      (expressionNext? quote depth c).elim [] fun (q, d) => c :: expressionFrom q d rest := by
  cases quote with
  | some q => rw [expressionFrom.eq_def]; rfl
  | none =>
    rw [expressionFrom.eq_def, expressionNext?.eq_def]
    dsimp only
    split_ifs
    · rfl
    · rfl
    · cases depth <;> rfl
    · rfl

/-- An expression stands at the front of the text after its brace. -/
theorem expressionFrom_isPrefix (quote : Option Char) (depth : Nat) (t : Text) :
    expressionFrom quote depth t <+: t := by
  induction t generalizing quote depth with
  | nil => exact List.prefix_rfl
  | cons c t ih =>
    rw [expressionFrom_cons]
    cases expressionNext? quote depth c with
    | none => exact List.nil_prefix
    | some state => exact List.cons_prefix_cons.2 ⟨rfl, ih state.1 state.2⟩

/-- An expression that ends within `v` does not depend on what follows `v`. -/
theorem expressionFrom_append {quote : Option Char} {depth : Nat} {v w : Text}
    (h : (expressionFrom quote depth (v ++ w)).length < v.length) (u : Text) :
    expressionFrom quote depth (v ++ u) = expressionFrom quote depth (v ++ w) := by
  induction v generalizing quote depth with
  | nil => simp at h
  | cons c v ih =>
    rw [List.cons_append, expressionFrom_cons] at h
    rw [List.cons_append, List.cons_append, expressionFrom_cons, expressionFrom_cons]
    cases hnext : expressionNext? quote depth c with
    | none => rfl
    | some state =>
      rw [hnext] at h
      simp only [Option.elim, List.length_cons] at h ⊢
      rw [ih (by omega)]

/-- A value that is not an expression is quoted or runs up to a blank or an angle bracket. -/
theorem attributeValue_cons {c : Char} (hc : c ≠ '{') (body : Text) :
    attributeValue (c :: body) =
      if c = '"' || c = '\'' then
        (body.takeWhile (· != c), false, delimitedLength (body.takeWhile (· != c)) body)
      else
        ((c :: body).takeWhile fun c => !isSpacing c && c != '>', false,
          ((c :: body).takeWhile fun c => !isSpacing c && c != '>').length) := by
  rw [attributeValue]
  exact fun heq => absurd heq hc

/-- A value stands in the text that it covers. -/
theorem attributeValue_eq (t : Text) : ∃ before behind rest,
    t = before ++ (attributeValue t).1 ++ behind ++ rest ∧
      (before ++ (attributeValue t).1 ++ behind).length = (attributeValue t).2.2 := by
  have hdelimited (c : Char) (body value : Text) (hvalue : value <+: body) :
      ∃ behind rest, c :: body = [c] ++ value ++ behind ++ rest ∧
        ([c] ++ value ++ behind).length = delimitedLength value body := by
    obtain ⟨rest, rfl⟩ := hvalue
    refine ⟨rest.take 1, rest.drop 1, by simp [-List.drop_one], ?_⟩
    simp only [delimitedLength, List.length_append, List.length_take, List.length_singleton]
    omega
  cases t with
  | nil => exact ⟨[], [], [], rfl, rfl⟩
  | cons c body =>
    by_cases hbrace : c = '{'
    · subst hbrace
      obtain ⟨behind, rest, hsplit⟩ := hdelimited '{' body _ (expressionFrom_isPrefix none 0 body)
      exact ⟨['{'], behind, rest, hsplit⟩
    · rw [attributeValue_cons hbrace]
      by_cases hquote : (c = '"' || c = '\'') = true
      · rw [if_pos hquote]
        obtain ⟨behind, rest, hsplit⟩ :=
          hdelimited c body _ (List.takeWhile_prefix (· != c))
        exact ⟨[c], behind, rest, hsplit⟩
      · rw [if_neg hquote]
        refine ⟨[], [], (c :: body).dropWhile fun c => !isSpacing c && c != '>', ?_, ?_⟩
        · simp only [List.nil_append, List.append_nil, List.takeWhile_append_dropWhile]
        · simp

/-- A value that is followed by an angle bracket within `v` does not depend on what follows
`v`. -/
theorem attributeValue_append {v w : Text} (h : '>' ∈ v.drop (attributeValue (v ++ w)).2.2)
    (u : Text) : attributeValue (v ++ u) = attributeValue (v ++ w) := by
  cases v with
  | nil => simp at h
  | cons c v =>
    -- a delimited value that leaves room for the bracket has its closing delimiter in `v`
    have hclosed {value x : Text} (hmem : '>' ∈ (c :: v).drop (delimitedLength value (v ++ x))) :
        value.length < v.length := by
      have hlt := List.length_pos_of_mem hmem
      simp only [delimitedLength, List.length_drop, List.length_cons, List.length_append] at hlt
      omega
    have hlength {value : Text} (hlt : value.length < v.length) (x : Text) :
        delimitedLength value (v ++ x) = value.length + 2 := by
      simp only [delimitedLength, List.length_append]
      omega
    by_cases hbrace : c = '{'
    · subst hbrace
      have hlt : (expressionFrom none 0 (v ++ w)).length < v.length := hclosed h
      have hsame := expressionFrom_append hlt u
      simp only [List.cons_append, attributeValue, hsame, hlength hlt]
    · rw [List.cons_append, attributeValue_cons hbrace] at h
      rw [List.cons_append, List.cons_append, attributeValue_cons hbrace,
        attributeValue_cons hbrace]
      by_cases hquote : (c = '"' || c = '\'') = true
      · rw [if_pos hquote] at h
        have hlt : ((v ++ w).takeWhile (· != c)).length < v.length := hclosed h
        have hsame := takeWhile_append_of_lt hlt u
        rw [if_pos hquote, if_pos hquote, hsame, hlength hlt, hlength hlt]
      · rw [if_neg hquote] at h
        have hlt := List.length_pos_of_mem h
        rw [List.length_drop] at hlt
        rw [if_neg hquote, if_neg hquote, ← List.cons_append, ← List.cons_append,
          takeWhile_append_of_lt (v := c :: v) (w := w) (Nat.lt_of_sub_pos hlt) u]

/-! ## Attributes -/

/-- The blanks at the front are dropped by their number. -/
theorem drop_spacingLength (t : Text) : t.drop (spacingLength t) = t.dropWhile isSpacing := by
  have hsplit := List.takeWhile_append_dropWhile (p := isSpacing) (l := t)
  have hdrop : (t.takeWhile isSpacing ++ t.dropWhile isSpacing).drop (spacingLength t) =
      t.dropWhile isSpacing := List.drop_left
  rwa [hsplit] at hdrop

/-- Behind the name of an attribute the rest of the text is left. -/
theorem drop_attributeName {t rest : Text} (h : attributeName t ++ rest = t) :
    t.drop (attributeName t).length = rest := by
  have hdrop : (attributeName t ++ rest).drop (attributeName t).length = rest := List.drop_left
  rwa [h] at hdrop

section

variable {t : Text}

/-- Where no name starts, one character is skipped and no attribute is read. -/
theorem front_of_nameless (h : attributeName t = []) : Attribute.front t = (none, 1) := by
  simp [Attribute.front, h]

/-- An attribute without a value is its name. -/
theorem front_of_bare {rest : Text} (hname : attributeName t ≠ [])
    (hsplit : attributeName t ++ rest = t)
    (hrest : ∀ body, rest.dropWhile isSpacing ≠ '=' :: body) :
    Attribute.front t = (some ⟨attributeName t, none, false⟩, (attributeName t).length) := by
  have hempty : (attributeName t).isEmpty = false := by simpa using hname
  simp only [Attribute.front, hempty, drop_attributeName hsplit, drop_spacingLength,
    Bool.false_eq_true, if_false]

/-- An attribute with a value covers its name, the equals sign with the blanks around it, and
its value. -/
theorem front_of_value {blanks gap body : Text} (hname : attributeName t ≠ [])
    (hsplit : attributeName t ++ (blanks ++ '=' :: (gap ++ body)) = t)
    (hblanks : ∀ c ∈ blanks, isSpacing c = true) (hgap : ∀ c ∈ gap, isSpacing c = true)
    (hbody : ∀ c ∈ body.head?, isSpacing c = false) :
    Attribute.front t =
      (some ⟨attributeName t, some (attributeValue body).1, (attributeValue body).2.1⟩,
        (attributeName t).length + blanks.length + 1 + gap.length + (attributeValue body).2.2) := by
  have hempty : (attributeName t).isEmpty = false := by simpa using hname
  have hlength (run rest : Text) (hrun : ∀ c ∈ run, isSpacing c = true)
      (hrest : ∀ c ∈ rest.head?, isSpacing c = false) :
      spacingLength (run ++ rest) = run.length := by
    rw [spacingLength, takeWhile_append_of_head? hrun hrest]
  have hequals : spacingLength (blanks ++ '=' :: (gap ++ body)) = blanks.length :=
    hlength blanks _ hblanks (by simp [isSpacing, formFeed])
  simp only [Attribute.front, hempty, drop_attributeName hsplit, hequals, List.drop_left,
    Bool.false_eq_true, if_false, hlength gap body hgap hbody]

/-- What follows the name of an attribute is an equals sign with blanks around it and a value,
or something else. -/
theorem exists_value_or_bare (rest : Text) :
    (∃ blanks gap body, rest = blanks ++ '=' :: (gap ++ body) ∧
      (∀ c ∈ blanks, isSpacing c = true) ∧ (∀ c ∈ gap, isSpacing c = true) ∧
        ∀ c ∈ body.head?, isSpacing c = false) ∨
    ∀ body, rest.dropWhile isSpacing ≠ '=' :: body := by
  by_cases h : ∃ body, rest.dropWhile isSpacing = '=' :: body
  · obtain ⟨body, hbody⟩ := h
    refine Or.inl ⟨rest.takeWhile isSpacing, body.takeWhile isSpacing, body.dropWhile isSpacing,
      ?_, ?_, ?_, ?_⟩
    · rw [List.takeWhile_append_dropWhile, ← hbody, List.takeWhile_append_dropWhile]
    · exact fun c hc => List.mem_takeWhile_imp hc
    · exact fun c hc => List.mem_takeWhile_imp hc
    · intro c hc
      have hhead := List.head?_dropWhile_not isSpacing body
      rw [Option.mem_def.1 hc] at hhead
      simpa using hhead
  · exact Or.inr fun body hbody => h ⟨body, hbody⟩

/-- Everything an attribute says stands in a text. -/
def Attribute.CutFrom (a : Attribute) (t : Text) : Prop :=
  a.name <:+: t ∧ ∀ value ∈ a.value, value <:+: t

/-- An attribute covers a part of the text at its front, and is cut out of that part. -/
theorem front_eq (ht : t ≠ []) : ∃ written rest, t = written ++ rest ∧
    written.length = (Attribute.front t).2 ∧ 0 < written.length ∧
      ∀ a ∈ (Attribute.front t).1, a.CutFrom written := by
  by_cases hname : attributeName t = []
  · rw [front_of_nameless hname]
    cases t with
    | nil => exact absurd rfl ht
    | cons c t => exact ⟨[c], t, rfl, rfl, by simp, by simp⟩
  · have hpos : 0 < (attributeName t).length := List.length_pos_iff.2 hname
    obtain ⟨behind, hsplit⟩ := attributeName_isPrefix t
    rcases exists_value_or_bare behind with ⟨blanks, gap, body, rfl, hblanks, hgap, hbody⟩ | hbare
    · rw [front_of_value hname hsplit hblanks hgap hbody]
      obtain ⟨before, after, rest, hvalue, hlength⟩ := attributeValue_eq body
      refine ⟨attributeName t ++ blanks ++ ('=' :: gap) ++
        (before ++ (attributeValue body).1 ++ after), rest, ?_, ?_, ?_, ?_⟩
      · conv =>
          lhs
          rw [← hsplit, hvalue]
        simp
      · simp only [List.length_append, List.length_cons] at hlength ⊢
        omega
      · simp only [List.length_append]
        omega
      · rintro a ⟨⟩
        refine ⟨⟨[], blanks ++ ('=' :: gap) ++ (before ++ (attributeValue body).1 ++ after),
          by simp⟩, ?_⟩
        rintro value ⟨⟩
        exact ⟨attributeName t ++ blanks ++ ('=' :: gap) ++ before, after, by simp⟩
    · rw [front_of_bare hname hsplit hbare]
      refine ⟨attributeName t, behind, hsplit.symm, rfl, hpos, ?_⟩
      rintro a ⟨⟩
      exact ⟨List.infix_rfl, by simp⟩

/-- Reading an attribute covers at least one character. -/
theorem front_pos (t : Text) : 0 < (Attribute.front t).2 := by
  cases t with
  | nil => decide
  | cons c t =>
    obtain ⟨written, rest, -, hlength, hpos, -⟩ := front_eq (List.cons_ne_nil c t)
    omega

/-- Blanks before an angle bracket end within `v`, whatever follows `v`. -/
theorem dropWhile_isSpacing_append {v : Text} (h : '>' ∈ v) (u : Text) :
    (v ++ u).dropWhile isSpacing = v.dropWhile isSpacing ++ u ∧ '>' ∈ v.dropWhile isSpacing := by
  induction v with
  | nil => cases h
  | cons c v ih =>
    by_cases hc : isSpacing c = true
    · have hmem : '>' ∈ v := by
        rcases List.mem_cons.1 h with rfl | hmem
        · exact absurd hc (by decide)
        · exact hmem
      simpa [hc] using ih hmem
    · simpa [hc] using h

/-- What is read for an attribute covers its name. -/
theorem length_attributeName_le (t : Text) :
    (attributeName t).length ≤ (Attribute.front t).2 := by
  by_cases hname : attributeName t = []
  · simp [hname]
  · obtain ⟨behind, hsplit⟩ := attributeName_isPrefix t
    rcases exists_value_or_bare behind with ⟨blanks, gap, body, rfl, hblanks, hgap, hbody⟩ | hbare
    · rw [front_of_value hname hsplit hblanks hgap hbody]
      dsimp only
      omega
    · rw [front_of_bare hname hsplit hbare]

/-- A beginning that is no longer than `v` is a beginning of `v`. -/
theorem exists_append_of_append_eq {lead rest v w : Text} (h : v ++ w = lead ++ rest)
    (hle : lead.length ≤ v.length) : ∃ v', v = lead ++ v' ∧ rest = v' ++ w := by
  rcases List.append_eq_append_iff.1 h with ⟨m, hlead, hw⟩ | ⟨m, hv, hrest⟩
  · have hm : m = [] := by
      have hlength := congrArg List.length hlead
      rw [List.length_append] at hlength
      exact List.length_eq_zero_iff.1 (by omega)
    subst hm
    exact ⟨[], by simpa using hlead.symm, by simpa using hw.symm⟩
  · exact ⟨m, hv, hrest⟩

/-- An attribute that is followed by an angle bracket within `v` does not depend on what
follows `v`. -/
theorem front_append {v w : Text} (h : '>' ∈ v.drop (Attribute.front (v ++ w)).2) (u : Text) :
    Attribute.front (v ++ u) = Attribute.front (v ++ w) := by
  have hbehind : '>' ∈ v.drop (attributeName (v ++ w)).length :=
    (List.drop_subset_drop_left v (length_attributeName_le (v ++ w))) h
  have hsame := attributeName_append hbehind u
  by_cases hname : attributeName (v ++ w) = []
  · rw [front_of_nameless hname, front_of_nameless (hsame.trans hname)]
  · obtain ⟨behind, hsplit⟩ := attributeName_isPrefix (v ++ w)
    have hlt := List.length_pos_of_mem hbehind
    rw [List.length_drop] at hlt
    obtain ⟨v₁, hv, rfl⟩ := exists_append_of_append_eq hsplit.symm (by omega)
    have hdrop (n : Nat) : v.drop ((attributeName (v ++ w)).length + n) = v₁.drop n := by
      have hlength : (attributeName (v ++ w) ++ v₁).drop ((attributeName (v ++ w)).length + n) =
          v₁.drop n := List.drop_length_add_append n
      rwa [← hv] at hlength
    have hsplit' : attributeName (v ++ u) ++ (v₁ ++ u) = v ++ u := by
      rw [hsame, ← List.append_assoc, ← hv]
    have hname' : attributeName (v ++ u) ≠ [] := by rwa [hsame]
    rcases exists_value_or_bare (v₁ ++ w) with
      ⟨blanks, gap, body, hvalue, hblanks, hgap, hbody⟩ | hbare
    · rw [hvalue] at hsplit
      rw [front_of_value hname hsplit hblanks hgap hbody] at h ⊢
      have hlead : v₁ ++ w = (blanks ++ '=' :: gap) ++ body := by simp [hvalue]
      have hmem : '>' ∈ v₁.drop ((blanks ++ '=' :: gap).length + (attributeValue body).2.2) := by
        rw [← hdrop]
        simpa [Nat.add_assoc, Nat.add_comm, Nat.add_left_comm] using h
      have hroom := List.length_pos_of_mem hmem
      rw [List.length_drop] at hroom
      obtain ⟨body₁, rfl, rfl⟩ := exists_append_of_append_eq hlead (by omega)
      rw [List.drop_length_add_append] at hmem
      have hvalue' : blanks ++ '=' :: gap ++ body₁ ++ u =
          blanks ++ '=' :: (gap ++ (body₁ ++ u)) := by simp
      rw [hvalue'] at hsplit'
      have hhead : ∀ c ∈ (body₁ ++ u).head?, isSpacing c = false := by
        cases body₁ with
        | nil => simp at hmem
        | cons c body₁ => simpa using hbody
      rw [front_of_value hname' hsplit' hblanks hgap hhead, hsame, attributeValue_append hmem u]
    · have hmem : '>' ∈ v₁ := by
        have hall := hdrop 0
        rw [Nat.add_zero, List.drop_zero] at hall
        rwa [hall] at hbehind
      have hbare' : ∀ body, (v₁ ++ u).dropWhile isSpacing ≠ '=' :: body := by
        obtain ⟨hw, hrest⟩ := dropWhile_isSpacing_append hmem w
        obtain ⟨hu, -⟩ := dropWhile_isSpacing_append hmem u
        rw [hw] at hbare
        rw [hu]
        cases hrun : v₁.dropWhile isSpacing with
        | nil => simp [hrun] at hrest
        | cons c rest =>
          rw [hrun] at hbare
          simpa using hbare
      rw [front_of_bare hname' hsplit' hbare', front_of_bare hname hsplit hbare, hsame]

end

/-! ## The rest of a start tag -/

section

variable {skip : Nat} {t : Text}

/-- The rest of a tag lies within the text. -/
theorem length_tagBodyFrom_le (skip : Nat) (t : Text) : (tagBodyFrom skip t).length ≤ t.length := by
  fun_induction tagBodyFrom skip t with
  | case1 => exact Nat.le_refl _
  | case2 _ c rest ih | case3 c rest _ ih | case6 rest _ _ _ ih =>
    exact Nat.succ_le_succ ih
  | case4 => simp
  | case5 rest hhead =>
    obtain ⟨rest, rfl⟩ := List.head?_eq_some_iff.1 hhead
    simp
  | case7 c rest _ _ _ _ _ _ _ _ ih => exact Nat.succ_le_succ ih

/-- What belongs to an attribute before is passed over. -/
theorem le_length_tagBodyFrom (h : skip ≤ t.length) : skip ≤ (tagBodyFrom skip t).length := by
  induction t generalizing skip with
  | nil =>
    obtain rfl : skip = 0 := by simpa using h
    exact Nat.zero_le _
  | cons c t ih =>
    cases skip with
    | zero => exact Nat.zero_le _
    | succ skip => exact Nat.succ_le_succ (ih (by simpa using h))

/-- A tag that does not end covers the rest of the text. -/
theorem length_of_unfinished (h : (tagBodyFrom skip t).ending = .unfinished) :
    (tagBodyFrom skip t).length = t.length := by
  fun_induction tagBodyFrom skip t with
  | case1 => rfl
  | case2 _ c rest ih | case3 c rest _ ih | case6 rest _ _ _ ih =>
    exact congrArg (· + 1) (ih h)
  | case4 | case5 => cases h
  | case7 c rest _ _ _ _ _ _ _ _ ih => exact congrArg (· + 1) (ih h)

/-- A tag that ends has an angle bracket behind the attribute that is passed over. -/
theorem mem_of_ended (h : (tagBodyFrom skip t).ending ≠ .unfinished) :
    '>' ∈ (t.take (tagBodyFrom skip t).length).drop skip := by
  fun_induction tagBodyFrom skip t with
  | case1 => exact absurd rfl h
  | case2 _ c rest ih => exact ih h
  | case3 c rest _ ih | case6 rest _ _ _ ih => exact List.mem_cons_of_mem _ (ih h)
  | case4 => exact List.mem_cons_self
  | case5 rest hhead =>
    obtain ⟨rest, rfl⟩ := List.head?_eq_some_iff.1 hhead
    exact List.mem_cons_of_mem _ List.mem_cons_self
  | case7 c rest _ _ _ _ _ _ _ _ ih =>
    exact List.mem_cons_of_mem _ (List.mem_of_mem_drop (ih h))

/-- A tag that ends is decided by its own characters. -/
theorem tagBodyFrom_take_append (h : (tagBodyFrom skip t).ending ≠ .unfinished) (u : Text) :
    tagBodyFrom skip (t.take (tagBodyFrom skip t).length ++ u) = tagBodyFrom skip t := by
  fun_induction tagBodyFrom skip t with
  | case1 => exact absurd rfl h
  | case2 skip c rest ih => exact congrArg TagBody.grow (ih h)
  | case3 c rest hspacing ih =>
    change tagBodyFrom 0 (c :: (rest.take (tagBodyFrom 0 rest).length ++ u)) = _
    rw [tagBodyFrom, if_pos hspacing, ih h]
  | case4 rest => rfl
  | case5 rest hhead =>
    obtain ⟨rest, rfl⟩ := List.head?_eq_some_iff.1 hhead
    rfl
  | case6 rest hhead hspacing hbracket ih =>
    have hmem := List.mem_of_mem_drop (mem_of_ended h)
    change tagBodyFrom 0 ('/' :: (rest.take (tagBodyFrom 0 rest).length ++ u)) = _
    have hhead' : (rest.take (tagBodyFrom 0 rest).length ++ u).head? ≠ some '>' := by
      obtain ⟨d, taken, htaken⟩ := List.exists_cons_of_ne_nil (List.ne_nil_of_mem hmem)
      obtain ⟨behind, hrest⟩ := List.take_prefix (tagBodyFrom 0 rest).length rest
      rw [htaken] at hrest ⊢
      rwa [← hrest] at hhead
    rw [tagBodyFrom, if_neg hspacing, if_neg hbracket, if_pos rfl, if_neg hhead', ih h]
  | case7 c rest hspacing hbracket hslash a n hfront body src ih =>
    change tagBodyFrom 0 (c :: (rest.take (tagBodyFrom (n - 1) rest).length ++ u)) = _
    have hsame : Attribute.front (c :: (rest.take (tagBodyFrom (n - 1) rest).length ++ u)) =
        (a, n) := by
      have hmem := mem_of_ended h
      have hsplit : c :: rest = (c :: rest.take (tagBodyFrom (n - 1) rest).length) ++
          rest.drop (tagBodyFrom (n - 1) rest).length := by simp
      have hpos := front_pos (c :: rest)
      rw [hfront] at hpos
      rw [hsplit] at hfront
      rw [← hfront, ← List.cons_append]
      refine front_append ?_ u
      rw [hfront, show n = n - 1 + 1 by exact (Nat.sub_add_cancel hpos).symm]
      exact hmem
    rw [tagBodyFrom, if_neg hspacing, if_neg hbracket, if_neg hslash, hsame]
    dsimp only
    rw [ih h]

/-- An attribute that stands in a part of a text stands in the text. -/
theorem Attribute.CutFrom.mono {a : Attribute} {u : Text} (h : a.CutFrom t) (htu : t <:+: u) :
    a.CutFrom u :=
  ⟨h.1.trans htu, fun value hvalue => (h.2 value hvalue).trans htu⟩

/-- The attributes of a tag are cut out of the text that the tag covers. -/
theorem cutFrom_of_mem_attributes {a : Attribute} (ha : a ∈ (tagBodyFrom skip t).attributes) :
    a.CutFrom (t.take (tagBodyFrom skip t).length) := by
  have hgrow {c : Char} {rest : Text} : rest <:+: c :: rest := (List.suffix_cons c rest).isInfix
  fun_induction tagBodyFrom skip t with
  | case1 => cases ha
  | case2 _ c rest ih | case3 c rest _ ih | case6 rest _ _ _ ih => exact (ih ha).mono hgrow
  | case4 | case5 => cases ha
  | case7 c rest _ _ _ a? n hfront body src ih =>
    rcases List.mem_append.1 ha with hmem | hmem
    · obtain ⟨written, behind, hsplit, hlength, hpos, hcut⟩ := front_eq (List.cons_ne_nil c rest)
      rw [hfront] at hlength hcut
      have htotal := congrArg List.length hsplit
      simp only [List.length_cons, List.length_append] at htotal
      have hskip : n - 1 ≤ body.length := le_length_tagBodyFrom (by dsimp only at hlength; omega)
      refine (hcut a (Option.mem_toList.1 hmem)).mono ?_
      have hprefix : written <+: (c :: rest).take (body.length + 1) := by
        refine List.prefix_take_iff.2 ⟨⟨behind, hsplit.symm⟩, ?_⟩
        dsimp only at hlength
        omega
      exact hprefix.isInfix
    · exact (ih hmem).mono hgrow

end

/-! ## Whole start tags -/

/-- A start tag: its name and the rest of it. -/
structure StartTag where
  name : Text
  body : TagBody

namespace StartTag

/-- The start tag at the front of a text. -/
def front (t : Text) : StartTag :=
  let name := tagName (t.drop 1)
  ⟨name, tagBodyFrom 0 (t.drop (1 + name.length))⟩

/-- Number of characters that a start tag covers. -/
def length (tag : StartTag) : Nat := 1 + tag.name.length + tag.body.length

/-- The text after the name of the start tag at the front of a text. -/
def behindName (t : Text) : Text := t.drop (1 + (front t).name.length)

/-- The body of a start tag is read from behind its name. -/
theorem body_front (t : Text) : (front t).body = tagBodyFrom 0 (behindName t) := rfl

end StartTag

/-- A text that starts with an angle bracket and a letter, and so with a start tag. -/
def OpensTag (t : Text) : Prop := ∃ d rest, t = '<' :: d :: rest ∧ d.isAlpha = true

namespace OpensTag

variable {t : Text} (h : OpensTag t)

include h

/-- The text is the bracket, the name and the rest. -/
theorem eq_append : t = '<' :: (StartTag.front t).name ++ StartTag.behindName t := by
  obtain ⟨d, rest, rfl, -⟩ := h
  obtain ⟨behind, hname⟩ := List.takeWhile_prefix (l := d :: rest) isTagPart
  have hleft : ('<' :: tagName (d :: rest) ++ behind).drop ('<' :: tagName (d :: rest)).length =
      behind := List.drop_left
  have hcons : '<' :: tagName (d :: rest) ++ behind = '<' :: d :: rest := congrArg _ hname
  rw [hcons, List.length_cons, Nat.add_comm] at hleft
  change _ = '<' :: tagName (d :: rest) ++
    ('<' :: d :: rest).drop (1 + (tagName (d :: rest)).length)
  rw [hleft, hcons]

/-- A text that opens a tag is its bracket, the name of the tag and what is behind the name. -/
theorem length_eq : t.length =
    1 + (StartTag.front t).name.length + (StartTag.behindName t).length := by
  have htotal := congrArg List.length h.eq_append
  rw [List.length_append, List.length_cons] at htotal
  omega

/-- A start tag is no longer than the text that it opens. -/
theorem length_le : (StartTag.front t).length ≤ t.length := by
  have hbody := length_tagBodyFrom_le 0 (StartTag.behindName t)
  have htotal := h.length_eq
  rw [StartTag.length, StartTag.body_front]
  omega

/-- A start tag that does not end covers the whole text. -/
theorem length_of_unfinished (hending : (StartTag.front t).body.ending = .unfinished) :
    (StartTag.front t).length = t.length := by
  rw [StartTag.body_front] at hending
  have hbody := Markup.length_of_unfinished hending
  have htotal := h.length_eq
  rw [StartTag.length, StartTag.body_front]
  omega

/-- The text of a start tag is the bracket, the name and the text of the rest. -/
theorem take_eq : t.take (StartTag.front t).length = '<' :: (StartTag.front t).name ++
    (StartTag.behindName t).take (StartTag.front t).body.length := by
  have htake : ('<' :: (StartTag.front t).name ++ StartTag.behindName t).take
      (('<' :: (StartTag.front t).name).length + (StartTag.front t).body.length) = _ :=
    List.take_length_add_append _
  rw [← h.eq_append, List.length_cons, Nat.add_comm _ 1] at htake
  exact htake

/-- What a start tag says is cut out of the text that it covers, with the name at its front. -/
theorem cutFrom : '<' :: (StartTag.front t).name <+: t.take (StartTag.front t).length ∧
    ∀ a ∈ (StartTag.front t).body.attributes, a.CutFrom (t.take (StartTag.front t).length) := by
  rw [h.take_eq]
  refine ⟨List.prefix_append _ _, fun a ha => ?_⟩
  rw [StartTag.body_front] at ha ⊢
  exact (cutFrom_of_mem_attributes ha).mono (List.suffix_append _ _).isInfix

/-- A start tag that ends is decided by its own characters. -/
theorem front_take_append (hending : (StartTag.front t).body.ending ≠ .unfinished) (u : Text) :
    StartTag.front (t.take (StartTag.front t).length ++ u) = StartTag.front t := by
  have hbody := tagBodyFrom_take_append hending u
  have hmem := mem_of_ended hending
  rw [List.drop_zero] at hmem
  rw [h.take_eq]
  generalize hname : (StartTag.front t).name = name
  generalize htaken : (StartTag.behindName t).take (StartTag.front t).body.length = taken
  have hsplit : t.drop 1 = (name ++ taken) ++
      (StartTag.behindName t).drop (StartTag.front t).body.length := by
    rw [← htaken, List.append_assoc, List.take_append_drop, ← hname]
    exact congrArg (List.drop 1) h.eq_append
  have hpos : 0 < taken.length := by
    rw [← htaken]
    exact List.length_pos_of_mem hmem
  have hlt : (((name ++ taken) ++
      (StartTag.behindName t).drop (StartTag.front t).body.length).takeWhile isTagPart).length <
      (name ++ taken).length := by
    rw [← hsplit, List.length_append, show (t.drop 1).takeWhile isTagPart = name from hname]
    omega
  have hsame : tagName (name ++ taken ++ u) = name := by
    rw [tagName, takeWhile_append_of_lt hlt u, ← hsplit]
    exact hname
  have hdrop : ('<' :: (name ++ taken ++ u)).drop (1 + name.length) = taken ++ u := by
    rw [Nat.add_comm, List.drop_succ_cons, List.append_assoc, List.drop_left]
  calc StartTag.front ('<' :: name ++ taken ++ u)
    _ = ⟨tagName (name ++ taken ++ u), tagBodyFrom 0 (('<' :: (name ++ taken ++ u)).drop
          (1 + (tagName (name ++ taken ++ u)).length))⟩ := rfl
    _ = ⟨name, tagBodyFrom 0 (taken ++ u)⟩ := by rw [hsame, hdrop]
    _ = StartTag.front t := by
      rw [← htaken, ← hname, StartTag.body_front, StartTag.behindName]
      exact congrArg _ hbody

end OpensTag

end ClassHints.Markup
