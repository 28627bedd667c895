import ClassHints.Proofs.Sheet.CommaLists
import Mathlib.Algebra.Ring.Nat
import Mathlib.Data.List.Infix

/-!
# Cutting selector lists

A selector is made of plain characters, groups in brackets and strings. A list of selectors is
written with commas between them, and blanks and block comments next to the commas. Cutting gives
the selectors back if no string holds the quote it is written in and no string holds the start of
a comment. Neither is certain: an escaped quote ends a string for the cutting, and comments are
dropped before strings are looked at.
-/

namespace ClassHints.Sheet

open Text

/-! ## Selectors and the gaps between them -/

/-- A character of a selector that has no meaning for the cutting. -/
def isPlain (c : Char) : Bool := !",()[]\x7b\x7d\"'/\\".toList.contains c

/-- The characters between the quotes of a string. A backslash escapes the next character. -/
inductive StringBody (quote : Char) : Text → Prop where
  | nil : StringBody quote []
  | plain {c : Char} {t : Text} (noQuote : c ≠ quote) (noEscape : c ≠ '\\') (noBreak : c ≠ '\n') :
    StringBody quote t → StringBody quote (c :: t)
  | escaped {c : Char} {t : Text} (noBreak : c ≠ '\n') :
    StringBody quote t → StringBody quote ('\\' :: c :: t)

/-- A sequence of plain characters, groups and strings, where `strings` says what may stand
between quotes. Commas stand only in groups. -/
inductive SelectorText (strings : Char → Text → Prop) : Bool → Text → Prop where
  | nil {nested : Bool} : SelectorText strings nested []
  | plain {nested : Bool} {c : Char} {t : Text}
    (allowed : isPlain c = true ∨ nested = true ∧ c = ',') :
    SelectorText strings nested t → SelectorText strings nested (c :: t)
  | group {nested : Bool} {opening closing : Char} {inner t : Text}
    (brackets : (opening, closing) ∈ [('(', ')'), ('[', ']'), ('{', '}')]) :
    SelectorText strings true inner → SelectorText strings nested t →
      SelectorText strings nested (opening :: (inner ++ closing :: t))
  | string {nested : Bool} {quote : Char} {body t : Text} (delimiter : quote = '"' ∨ quote = '\'')
    (content : strings quote body) :
    SelectorText strings nested t → SelectorText strings nested (quote :: (body ++ quote :: t))

/-- Blanks and block comments. -/
inductive Gap : Text → Prop where
  | nil : Gap []
  | blank {c : Char} {t : Text} (white : isBlank c = true) : Gap t → Gap (c :: t)
  | comment {text t : Text} (unclosed : ¬['*', '/'] <:+: text) :
    Gap t → Gap ('/' :: '*' :: (text ++ '*' :: '/' :: t))

/-- A part of a list is a selector, with gaps around it. -/
structure Part.WritesSelector (p : Part) : Prop where
  before : Gap p.before
  after : Gap p.after
  nonempty : p.body ≠ []
  trimmed : trim p.body = p.body
  text : SelectorText StringBody false p.body

/-- A selector is trimmed, not empty and starts with no comma. -/
theorem Part.WritesSelector.solid {p : Part} (h : p.WritesSelector) : p.Solid := by
  refine ⟨h.trimmed, h.nonempty, ?_⟩
  intro hcomma
  have htext := h.text
  obtain ⟨rest, hbody⟩ := List.head?_eq_some_iff.1 hcomma
  rw [hbody] at htext
  cases htext with
  | plain hplain =>
    rcases hplain with hplain | hnested
    · exact absurd hplain (by decide)
    · cases hnested.1
  | group hbrackets => simp at hbrackets
  | string hquote => simp at hquote

/-! ## Dropping the comments -/

/-- A character that starts no comment is kept. -/
theorem stripCommentsFrom_cons {c : Char} {t : Text} (h : ¬['/', '*'] <+: c :: t) :
    stripCommentsFrom false (c :: t) = c :: stripCommentsFrom false t := by
  rw [stripCommentsFrom]
  rintro rest rfl rfl
  exact h ⟨rest, rfl⟩

/-- A text without the start of a comment stays as it is. -/
theorem stripCommentsFrom_append {s t : Text} (hs : ¬['/', '*'] <:+: s)
    (ht : t.head? ≠ some '*') :
    stripCommentsFrom false (s ++ t) = s ++ stripCommentsFrom false t := by
  induction s with
  | nil => rfl
  | cons c s ih =>
    rw [List.infix_cons_iff, not_or] at hs
    rw [List.cons_append, stripCommentsFrom_cons, ih hs.2, List.cons_append]
    intro hstart
    obtain ⟨rfl, hstar⟩ := List.cons_prefix_cons.1 hstart
    cases s with
    | nil =>
      obtain ⟨rest, rfl⟩ := hstar
      exact ht rfl
    | cons d s =>
      obtain ⟨rfl, -⟩ := List.cons_prefix_cons.1 hstar
      exact hs.1 ⟨s, rfl⟩

/-- A comment is dropped up to its end. -/
theorem stripCommentsFrom_comment {text : Text} (h : ¬['*', '/'] <:+: text) (t : Text) :
    stripCommentsFrom true (text ++ '*' :: '/' :: t) = stripCommentsFrom false t := by
  induction text with
  | nil => rfl
  | cons c text ih =>
    rw [List.infix_cons_iff, not_or] at h
    rw [List.cons_append, stripCommentsFrom, ih h.2]
    rintro rest rfl heq
    cases text with
    | nil => cases heq
    | cons d text =>
      obtain ⟨rfl, -⟩ := List.cons.inj heq
      exact h.1 ⟨text, rfl⟩

/-- A blank starts no comment, and is kept. -/
theorem stripCommentsFrom_blank {c : Char} (hc : isBlank c = true) (t : Text) :
    stripCommentsFrom false (c :: t) = c :: stripCommentsFrom false t := by
  refine stripCommentsFrom_cons fun hstart => ?_
  obtain ⟨rfl, -⟩ := List.cons_prefix_cons.1 hstart
  cases hc

namespace Gap

variable {t : Text}

/-- A gap is dropped but for its blanks. -/
theorem strip_append (h : Gap t) (rest : Text) :
    stripCommentsFrom false (t ++ rest) = stripComments t ++ stripCommentsFrom false rest := by
  unfold stripComments
  induction h with
  | nil => rfl
  | blank hc _ ih =>
    rw [List.cons_append, stripCommentsFrom_blank hc, stripCommentsFrom_blank hc, ih,
      List.cons_append]
  | comment htext _ ih =>
    rw [List.cons_append, List.cons_append, List.append_assoc, List.cons_append, List.cons_append,
      stripCommentsFrom, stripCommentsFrom, stripCommentsFrom_comment htext,
      stripCommentsFrom_comment htext, ih]

/-- A gap without its comments is blank. -/
theorem allBlank_strip (h : Gap t) : AllBlank (stripComments t) := by
  unfold stripComments
  induction h with
  | nil => exact fun c hc => by cases hc
  | blank hc _ ih =>
    rw [stripCommentsFrom_blank hc]
    intro d hd
    rcases List.mem_cons.1 hd with rfl | hd
    · exact hc
    · exact ih d hd
  | comment htext _ ih =>
    rw [stripCommentsFrom, stripCommentsFrom_comment htext]
    exact ih

/-- A gap does not start with a star. -/
theorem head?_append_ne (h : Gap t) {rest : Text} (hrest : rest.head? ≠ some '*') :
    (t ++ rest).head? ≠ some '*' := by
  cases h with
  | nil => exact hrest
  | blank hc =>
    intro hstar
    obtain rfl := Option.some.inj hstar
    cases hc
  | comment =>
    intro hstar
    cases hstar

end Gap

/-- A part without the comments around it. -/
def Part.stripped (p : Part) : Part := ⟨stripComments p.before, p.body, stripComments p.after⟩

namespace Part.WritesSelector

variable {p : Part} (h : p.WritesSelector)

include h

/-- Without the comments around it a part has blanks around it. -/
theorem spaced_stripped : p.stripped.Spaced := ⟨h.before.allBlank_strip, h.after.allBlank_strip⟩

/-- Without the comments around it a part is as solid as before. -/
theorem solid_stripped : p.stripped.Solid := ⟨h.solid.trimmed, h.solid.nonempty, h.solid.noComma⟩

/-- The comments around a selector are dropped, and the selector is kept as it has none in it. -/
theorem strip_text_append (hbody : ¬['/', '*'] <:+: p.body) {rest : Text}
    (hrest : rest.head? ≠ some '*') :
    stripCommentsFrom false (p.text ++ rest) =
      p.stripped.text ++ stripCommentsFrom false rest := by
  rw [Part.text, List.append_assoc, List.append_assoc, h.before.strip_append,
    stripCommentsFrom_append hbody (h.after.head?_append_ne hrest), h.after.strip_append]
  simp [Part.text, Part.stripped]

end Part.WritesSelector

/-- Where no selector holds the start of a comment, only the comments around them are dropped. -/
theorem stripComments_writeList {ps : List Part} (h : ∀ p ∈ ps, p.WritesSelector)
    (hbody : ∀ p ∈ ps, ¬['/', '*'] <:+: p.body) :
    stripComments (writeList ps) = writeList (ps.map Part.stripped) := by
  induction ps with
  | nil => rfl
  | cons p ps ih =>
    have hp := h p List.mem_cons_self
    have hpbody := hbody p List.mem_cons_self
    cases ps with
    | nil =>
      have hend : ([] : Text).head? ≠ some '*' := by simp
      have htext := hp.strip_text_append hpbody hend
      rw [List.append_nil] at htext
      rw [writeList_singleton, stripComments, htext, List.map_singleton, writeList_singleton]
      exact List.append_nil _
    | cons q ps =>
      have htail := ih (fun r hr => h r (List.mem_cons_of_mem p hr))
        (fun r hr => hbody r (List.mem_cons_of_mem p hr))
      unfold stripComments at htail ⊢
      rw [writeList_cons_cons, hp.strip_text_append hpbody (by simp), stripCommentsFrom_cons, htail]
      · exact (writeList_cons_cons p.stripped q.stripped (ps.map Part.stripped)).symm
      intro hstart
      cases (List.cons_prefix_cons.1 hstart).1

/-! ## What selectors leave open -/

open Nesting

/-- Selector lists are grouped by neither commas nor blanks. -/
theorem selectorGrouping_usual : selectorGrouping.Usual := by
  refine ⟨by decide, fun c hc => ?_⟩
  have hround : c ≠ '(' ∧ c ≠ ')' := ⟨ne_of_isBlank hc (by decide), ne_of_isBlank hc (by decide)⟩
  have hsquare : c ≠ '[' ∧ c ≠ ']' := ⟨ne_of_isBlank hc (by decide), ne_of_isBlank hc (by decide)⟩
  have hcurly : c ≠ '{' ∧ c ≠ '}' := ⟨ne_of_isBlank hc (by decide), ne_of_isBlank hc (by decide)⟩
  simp [selectorGrouping, hround, hsquare, hcurly]

/-- A plain character changes nothing about what is open. -/
theorem after_plain {c : Char} (h : isPlain c = true) (depth : Nat) :
    after selectorGrouping ⟨none, depth⟩ c = some ⟨none, depth⟩ := by
  simp [isPlain] at h
  simp [after, selectorGrouping, h]

/-- A selector whose strings do not hold their own quotes leaves nothing open. -/
theorem SelectorText.behind_eq {nested : Bool} {t : Text}
    (h : SelectorText (fun quote body => quote ∉ body) nested t) {depth : Nat}
    (hdepth : nested = true → 0 < depth) :
    behind selectorGrouping ⟨none, depth⟩ t = some ⟨none, depth⟩ := by
  induction h generalizing depth with
  | nil => rfl
  | @plain nested c t hallowed _ ih =>
    have hafter : after selectorGrouping ⟨none, depth⟩ c = some ⟨none, depth⟩ := by
      rcases hallowed with hplain | ⟨hnested, rfl⟩
      · exact after_plain hplain depth
      · have hinside : depth ≠ 0 := Nat.ne_of_gt (hdepth hnested)
        simp [after, selectorGrouping, hinside]
    rw [behind, hafter, Option.bind_some, ih hdepth]
  | @group nested opening closing inner t hbrackets _ _ ihinner ih =>
    have hopen : after selectorGrouping ⟨none, depth⟩ opening = some ⟨none, depth + 1⟩ := by
      simp only [List.mem_cons, Prod.mk.injEq, List.not_mem_nil, or_false] at hbrackets
      rcases hbrackets with ⟨rfl, -⟩ | ⟨rfl, -⟩ | ⟨rfl, -⟩ <;> rfl
    have hclose : after selectorGrouping ⟨none, depth + 1⟩ closing = some ⟨none, depth⟩ := by
      simp only [List.mem_cons, Prod.mk.injEq, List.not_mem_nil, or_false] at hbrackets
      rcases hbrackets with ⟨-, rfl⟩ | ⟨-, rfl⟩ | ⟨-, rfl⟩ <;> rfl
    rw [behind, hopen, Option.bind_some, behind_append_of_eq (ihinner fun _ => Nat.succ_pos depth),
      behind, hclose, Option.bind_some, ih hdepth]
  | string hquote hbody _ ih => rw [behind_quoted hquote hbody, ih hdepth]

/-! ## A comment that starts in a string -/

/-- Dropping comments only leaves characters out. -/
theorem stripCommentsFrom_sublist (inside : Bool) (t : Text) :
    (stripCommentsFrom inside t).Sublist t := by
  fun_induction stripCommentsFrom inside t with
  | case1 rest ih => exact (ih.cons _).cons _
  | case2 rest ih => exact (ih.cons _).cons _
  | case3 c rest _ ih => exact ih.cons_cons c
  | case4 c rest _ ih => exact ih.cons c
  | case5 => exact .slnil

/-- Where a comment starts, characters are lost. -/
theorem nonBlanks_stripComments_lt {t : Text} (h : ['/', '*'] <:+: t) :
    nonBlanks (stripComments t) < nonBlanks t := by
  unfold stripComments
  induction t with
  | nil => cases List.infix_nil.1 h
  | cons c t ih =>
    by_cases hstart : ['/', '*'] <+: c :: t
    · obtain ⟨rest, hrest⟩ := hstart
      have hle : nonBlanks (stripCommentsFrom true rest) ≤ nonBlanks rest :=
        (stripCommentsFrom_sublist true rest).countP_le
      rw [← hrest]
      show nonBlanks (stripCommentsFrom true rest) < nonBlanks ('/' :: '*' :: rest)
      rw [nonBlanks_cons (by decide), nonBlanks_cons (by decide)]
      omega
    · have hlt := ih ((List.infix_cons_iff.1 h).resolve_left hstart)
      rw [stripCommentsFrom_cons hstart]
      unfold nonBlanks at hlt ⊢
      rw [List.countP_cons, List.countP_cons]
      omega

/-- A joined text holds each of its parts. -/
theorem infix_join (glue : Text) {t : Text} {ts : List Text} (h : t ∈ ts) : t <:+: join glue ts := by
  unfold join
  induction ts with
  | nil => cases h
  | cons u ts ih =>
    cases ts with
    | nil =>
      rw [List.mem_singleton.1 h, List.intercalate_singleton]
    | cons v ts =>
      rw [List.intercalate_cons_cons]
      rcases List.mem_cons.1 h with rfl | h
      · exact ⟨[], _, (List.append_assoc _ _ _).symm⟩
      · exact (ih h).trans (List.suffix_append _ _).isInfix

/-- Joined parts have their own characters and one comma less than there are parts. -/
theorem nonBlanks_join {ts : List Text} (h : ts ≠ []) :
    nonBlanks (join [','] ts) + 1 = (ts.map nonBlanks).sum + ts.length := by
  unfold join
  induction ts with
  | nil => exact absurd rfl h
  | cons t ts ih =>
    cases ts with
    | nil => simp
    | cons u ts =>
      have hmore := ih (List.cons_ne_nil u ts)
      rw [List.intercalate_cons_cons, nonBlanks_append, nonBlanks_append, List.map_cons,
        List.sum_cons, List.length_cons]
      have hcomma : nonBlanks [','] = 1 := by decide
      omega

/-- Trimming parts and leaving out the empty ones loses blanks only. -/
theorem sum_nonBlanks_filter (ts : List Text) :
    (((ts.map trim).filter (!·.isEmpty)).map nonBlanks).sum = (ts.map nonBlanks).sum := by
  induction ts with
  | nil => rfl
  | cons t ts ih =>
    rw [List.map_cons, List.filter_cons, List.map_cons, List.sum_cons, ← ih, ← nonBlanks_trim t]
    cases hempty : trim t with
    | nil => simp [nonBlanks]
    | cons c u => simp

/-- Cutting a list cannot give back more characters than it was given. -/
theorem nonBlanks_le_of_splitSelectors {t : Text} {ss : List Text} (h : splitSelectors t = ss) :
    (ss.map nonBlanks).sum + ss.length ≤ nonBlanks (stripComments t) + 1 := by
  have hparts : ((outside.parts selectorGrouping (stripComments t)).map trim).filter (!·.isEmpty) =
      ss := h
  have hsum := sum_nonBlanks_filter (outside.parts selectorGrouping (stripComments t))
  have hjoin := nonBlanks_join (@parts_ne_nil selectorGrouping outside (stripComments t))
  have hlength := List.length_filter_le (!·.isEmpty)
    ((outside.parts selectorGrouping (stripComments t)).map trim)
  rw [join_parts] at hjoin
  rw [hparts] at hsum hlength
  rw [List.length_map] at hlength
  omega

/-! ## Selector lists -/

section

variable {ps : List Part}

/-- Without comments that start in selectors, the selectors come back exactly if each is cut off
right behind itself. -/
theorem splitSelectors_writeList_iff (hne : ps ≠ []) (h : ∀ p ∈ ps, p.WritesSelector)
    (hbody : ∀ p ∈ ps, ¬['/', '*'] <:+: p.body) :
    splitSelectors (writeList ps) = ps.map Part.body ↔ selectorGrouping.CutsApart ps := by
  have hiff := @filter_commaParts_writeList_iff _ selectorGrouping_usual (ps.map Part.stripped)
    (by simpa using hne) (by simpa using fun p hp => (h p hp).spaced_stripped)
    (by simpa using fun p hp => (h p hp).solid_stripped)
  rw [splitSelectors, stripComments_writeList h hbody]
  simpa [Grouping.CutsApart, List.map_map, Function.comp_def, Part.stripped,
    ← List.map_dropLast] using hiff

/-- Selectors whose strings hold none of their own quotes are cut apart at the commas between them.
-/
theorem cutsApart_of_noQuote
    (h : ∀ p ∈ ps, SelectorText (fun quote body => quote ∉ body) false p.body) :
    selectorGrouping.CutsApart ps := by
  have hbehind (p : Part) (hp : p ∈ ps) : outside.behind selectorGrouping p.body = some outside :=
    (h p hp).behind_eq (by simp)
  refine ⟨fun p hp => hbehind p (List.dropLast_subset ps hp), fun p hp => ?_⟩
  rw [hbehind p (List.mem_of_getLast? hp)]
  rfl

/-- A comment that starts in a selector takes characters away that do not come back. -/
theorem splitSelectors_writeList_ne (hne : ps ≠ []) (hspaced : ∀ p ∈ ps, p.Spaced)
    (h : ∃ p ∈ ps, ['/', '*'] <:+: p.body) :
    splitSelectors (writeList ps) ≠ ps.map Part.body := by
  intro hsplit
  obtain ⟨p, hp, hbody⟩ := h
  have hlost : nonBlanks (stripComments (writeList ps)) < nonBlanks (writeList ps) := by
    have htext : p.body <:+: p.text := ⟨p.before, p.after, rfl⟩
    exact nonBlanks_stripComments_lt
      (hbody.trans (htext.trans (infix_join _ (List.mem_map_of_mem hp))))
  have hgiven := nonBlanks_le_of_splitSelectors hsplit
  have hwritten := @nonBlanks_join (ps.map Part.text) (by simpa using hne)
  have hcounts : (ps.map Part.text).map nonBlanks = (ps.map Part.body).map nonBlanks := by
    rw [List.map_map, List.map_map]
    exact List.map_congr_left fun p hp => (hspaced p hp).nonBlanks_text
  rw [hcounts, List.length_map] at hwritten
  rw [List.length_map] at hgiven
  unfold writeList at hlost hgiven
  omega

end

/-- A list of selectors is cut into these selectors if no string in them holds its own quote or the
start of a comment. If no comment starts in a selector, they come back exactly if each leaves off
outside all strings and groups for a reading that knows no escapes; where a comment does, and none
stands between the selectors, they do not come back. -/
theorem splitSelectors_writeList {ps : List Part} (hne : ps ≠ [])
    (h : ∀ p ∈ ps, p.WritesSelector) :
    ((∀ p ∈ ps, ¬['/', '*'] <:+: p.body) →
      (∀ p ∈ ps, SelectorText (fun quote body => quote ∉ body) false p.body) →
        splitSelectors (writeList ps) = ps.map Part.body) ∧
    ((∀ p ∈ ps, ¬['/', '*'] <:+: p.body) →
      (splitSelectors (writeList ps) = ps.map Part.body ↔ selectorGrouping.CutsApart ps)) ∧
    ((∃ p ∈ ps, ['/', '*'] <:+: p.body) → (∀ p ∈ ps, p.Spaced) →
      splitSelectors (writeList ps) ≠ ps.map Part.body) := by
  refine ⟨?_, splitSelectors_writeList_iff hne h, ?_⟩
  · intro hbody hstrings
    exact (splitSelectors_writeList_iff hne h hbody).2 (cutsApart_of_noQuote hstrings)
  · intro hcomment hspaced
    exact splitSelectors_writeList_ne hne hspaced hcomment

/-- Two selectors with commas in a group, in a string and in the comment between them. -/
def commaSelectors : List Part :=
  [⟨[], "(a,b)".toList, " /*,*/".toList⟩, ⟨[' '], "[\",\\'\"]".toList, []⟩]

/-- A selector with an escaped quote and a comma in its string. -/
def escapedQuote : List Part := [⟨[], "\"\\\",b\"".toList, []⟩]

/-- Commas in groups, strings and comments do not separate, but an escaped quote ends a string. -/
theorem splitSelectors_writeList_commaSelectors :
    (∀ p ∈ commaSelectors ++ escapedQuote, p.WritesSelector) ∧
    splitSelectors (writeList commaSelectors) = commaSelectors.map Part.body ∧
    splitSelectors (writeList escapedQuote) ≠ escapedQuote.map Part.body := by
  have hgroup (strings : Char → Text → Prop) : SelectorText strings false "(a,b)".toList :=
    .group (by decide) (.plain (by decide) (.plain (by decide) (.plain (by decide) .nil))) .nil
  have hstring (strings : Char → Text → Prop) (hbody : strings '"' ",\\'".toList) :
      SelectorText strings false "[\",\\'\"]".toList :=
    .group (by decide) (.string (Or.inl rfl) hbody .nil) .nil
  have hgap : Gap " /*,*/".toList := .blank (by decide) (@Gap.comment [','] [] (by decide) .nil)
  have hcommas : ∀ p ∈ commaSelectors, p.WritesSelector := by
    intro p hp
    simp only [commaSelectors, List.mem_cons, List.not_mem_nil, or_false] at hp
    rcases hp with rfl | rfl
    · exact ⟨.nil, hgap, by decide, by decide, hgroup _⟩
    · refine ⟨.blank (by decide) .nil, .nil, by decide, by decide, hstring _ ?_⟩
      exact .plain (by decide) (by decide) (by decide) (.escaped (by decide) .nil)
  have hescaped : ∀ p ∈ escapedQuote, p.WritesSelector := by
    intro p hp
    rw [escapedQuote, List.mem_singleton] at hp
    subst hp
    have hbody : StringBody '"' "\\\",b".toList :=
      .escaped (by decide) (.plain (by decide) (by decide) (by decide)
        (.plain (by decide) (by decide) (by decide) .nil))
    exact ⟨.nil, .nil, by decide, by decide, .string (Or.inl rfl) hbody .nil⟩
  obtain ⟨hback, -, -⟩ := splitSelectors_writeList (by decide) hcommas
  obtain ⟨-, hiff, -⟩ := splitSelectors_writeList (by decide) hescaped
  refine ⟨?_, hback (by decide) ?_, ?_⟩
  · rw [List.forall_mem_append]
    exact ⟨hcommas, hescaped⟩
  · intro p hp
    simp only [commaSelectors, List.mem_cons, List.not_mem_nil, or_false] at hp
    rcases hp with rfl | rfl
    · exact hgroup _
    · exact hstring _ (by decide)
  · intro hsplit
    obtain ⟨-, hlast⟩ := (hiff (by decide)).1 hsplit
    exact absurd (hlast _ rfl) (by decide)

end ClassHints.Sheet
