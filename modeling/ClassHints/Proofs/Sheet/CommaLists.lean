import ClassHints.Proofs.Text

/-!
# Cutting lists at commas

A list is cut at the commas outside all strings and groups. What the cutting remembers of the text
that it has passed is how that text leaves off: in which string, and inside how many groups. A
part of a list is cut off right behind it exactly if it leaves off outside, as the whole list did
when it started, so that every part can be looked at alone.
-/

namespace ClassHints.Sheet

open Text

/-! ## What is open behind a text -/

/-- The quote of the string that a place is in, and the number of groups around the place. -/
structure Nesting where
  quote : Option Char
  depth : Nat
  deriving DecidableEq

namespace Nesting

/-- Outside all strings and groups. -/
def outside : Nesting := ⟨none, 0⟩

/-- What is open behind a character, unless that character is a comma that separates. -/
def after (g : Grouping) (n : Nesting) (c : Char) : Option Nesting :=
  match n.quote with
  | some q => some ⟨if c = q then none else some q, n.depth⟩
  | none =>
    if c = '"' || c = '\'' then some ⟨some c, n.depth⟩
    else if g.opens c then some ⟨none, n.depth + 1⟩
    else if g.closes c then some ⟨none, n.depth - 1⟩
    else if c = ',' && n.depth = 0 then none
    else some n

/-- What is open behind a text, unless a comma in it separates. -/
def behind (g : Grouping) : Nesting → Text → Option Nesting
  | n, [] => some n
  | n, c :: t => (n.after g c).bind (behind g · t)

/-- The parts of a list from a place on. -/
def parts (g : Grouping) (n : Nesting) (t : Text) : List Text := commaPartsFrom g n.quote n.depth t

variable {g : Grouping} {n n' : Nesting} {c : Char} {s t : Text}

/-- What is open behind two texts is what the second leaves open where the first left off. -/
theorem behind_append (n : Nesting) (s t : Text) :
    n.behind g (s ++ t) = (n.behind g s).bind (·.behind g t) := by
  induction s generalizing n with
  | nil => rfl
  | cons c s ih =>
    rw [List.cons_append, behind, behind]
    cases n.after g c with
    | none => rfl
    | some n' => exact ih n'

/-- Where the first text separates nothing, the second goes on from what the first leaves open. -/
theorem behind_append_of_eq (h : n.behind g s = some n') (t : Text) :
    n.behind g (s ++ t) = n'.behind g t := by
  rw [behind_append, h, Option.bind_some]

/-- A comma separates only outside. -/
theorem eq_outside_of_after (h : n.after g c = none) : n = outside ∧ c = ',' := by
  obtain ⟨quote, depth⟩ := n
  unfold after at h
  split at h
  · cases h
  · next hquote =>
    obtain rfl : quote = none := hquote
    split at h
    · cases h
    split at h
    · cases h
    split at h
    · cases h
    split at h
    · next hcomma =>
      rw [Bool.and_eq_true, decide_eq_true_eq, decide_eq_true_eq] at hcomma
      obtain ⟨rfl, rfl⟩ := hcomma
      exact ⟨rfl, rfl⟩
    · cases h

/-- A character that separates ends a part, and any other belongs to the first part behind it. -/
theorem parts_cons (n : Nesting) (c : Char) (t : Text) :
    n.parts g (c :: t) =
      match n.after g c with
      | some n' => consPart c (n'.parts g t)
      | none => [] :: outside.parts g t := by
  obtain ⟨quote, depth⟩ := n
  cases quote with
  | some q => rfl
  | none =>
    unfold parts after
    rw [commaPartsFrom]
    split_ifs <;> rfl

/-- A list has at least one part. -/
theorem parts_ne_nil (n : Nesting) (t : Text) : n.parts g t ≠ [] := by
  cases t with
  | nil => exact List.cons_ne_nil _ _
  | cons c t =>
    rw [parts_cons]
    cases n.after g c with
    | none => exact List.cons_ne_nil _ _
    | some n' =>
      show consPart c (n'.parts g t) ≠ []
      unfold consPart
      split <;> exact List.cons_ne_nil _ _

/-- A text without a separating comma goes in front of the first part of what follows it. -/
theorem parts_append (h : n.behind g s = some n') (t : Text) :
    n.parts g (s ++ t) = (n'.parts g t).modifyHead (s ++ ·) := by
  induction s generalizing n with
  | nil =>
    obtain rfl := Option.some.inj h
    exact (congrFun List.modifyHead_id _).symm
  | cons c s ih =>
    obtain ⟨m, hafter, hbehind⟩ := Option.bind_eq_some_iff.1 h
    obtain ⟨part, more, hparts⟩ := List.exists_cons_of_ne_nil (@parts_ne_nil g n' t)
    rw [List.cons_append, parts_cons, hafter]
    simp only [ih hbehind, hparts, List.modifyHead_cons, consPart, List.cons_append]

/-- A text in which nothing separates is one part. -/
theorem parts_of_behind (h : n.behind g s = some n') : n.parts g s = [s] := by
  have hparts := parts_append h []
  rw [List.append_nil] at hparts
  rw [hparts]
  simp [parts, commaPartsFrom]

/-- The text before a separating comma is a part of its own. -/
theorem parts_append_comma (hcomma : outside.after g ',' = none)
    (h : n.behind g s = some outside) (t : Text) :
    n.parts g (s ++ ',' :: t) = s :: outside.parts g t := by
  rw [parts_append h, parts_cons, hcomma, List.modifyHead_cons, List.append_nil]

/-- A text that holds a separating comma can be split at the first one. -/
theorem exists_eq_append_of_behind (h : n.behind g s = none) :
    ∃ first more, s = first ++ ',' :: more ∧ n.behind g first = some outside := by
  induction s generalizing n with
  | nil => cases h
  | cons c s ih =>
    cases hafter : n.after g c with
    | none =>
      obtain ⟨rfl, rfl⟩ := eq_outside_of_after hafter
      exact ⟨[], s, rfl, rfl⟩
    | some n' =>
      rw [behind, hafter, Option.bind_some] at h
      obtain ⟨first, more, rfl, hfirst⟩ := ih h
      refine ⟨c :: first, more, rfl, ?_⟩
      rw [behind, hafter, Option.bind_some, hfirst]

/-- A string goes on to the next quote of its kind. -/
theorem behind_quoted {quote : Char} (hquote : quote = '"' ∨ quote = '\'')
    {body : Text} (hbody : quote ∉ body) (depth : Nat) (t : Text) :
    behind g ⟨none, depth⟩ (quote :: (body ++ quote :: t)) = behind g ⟨none, depth⟩ t := by
  have hopen : after g ⟨none, depth⟩ quote = some ⟨some quote, depth⟩ := by
    rcases hquote with rfl | rfl <;> rfl
  have hinside : behind g ⟨some quote, depth⟩ body = some ⟨some quote, depth⟩ := by
    induction body with
    | nil => rfl
    | cons c body ih =>
      have hc : c ≠ quote := fun heq => hbody (by simp [heq])
      have hafter : after g ⟨some quote, depth⟩ c = some ⟨some quote, depth⟩ := by
        simp [after, hc]
      rw [behind, hafter, Option.bind_some, ih fun hmem => hbody (List.mem_cons_of_mem c hmem)]
  have hclose : after g ⟨some quote, depth⟩ quote = some ⟨none, depth⟩ := by simp [after]
  rw [behind, hopen, Option.bind_some, behind_append_of_eq hinside, behind, hclose,
    Option.bind_some]

/-- Nothing is lost by cutting a list. -/
theorem join_parts (n : Nesting) (t : Text) : join [','] (n.parts g t) = t := by
  induction t generalizing n with
  | nil => rfl
  | cons c t ih =>
    rw [parts_cons]
    cases hafter : n.after g c with
    | none =>
      obtain ⟨-, rfl⟩ := eq_outside_of_after hafter
      have hmore := ih outside
      unfold join at hmore ⊢
      rw [List.intercalate_cons_of_ne_nil (parts_ne_nil outside t), hmore]
      rfl
    | some n' =>
      obtain ⟨part, more, hparts⟩ := List.exists_cons_of_ne_nil (@parts_ne_nil g n' t)
      have hmore := ih n'
      unfold join at hmore ⊢
      rw [hparts] at hmore
      simp only [hparts, consPart, List.intercalate_cons_cons_left, hmore]

end Nesting

/-! ## Blanks around the parts -/

/-- A blank is no character that is not blank. -/
theorem ne_of_isBlank {c d : Char} (hc : isBlank c = true) (hd : isBlank d = false) : c ≠ d := by
  rintro rfl
  rw [hc] at hd
  cases hd

/-- Neither commas nor blanks are brackets. -/
structure Grouping.Usual (g : Grouping) : Prop where
  comma : g.opens ',' = false ∧ g.closes ',' = false
  blank : ∀ c, isBlank c = true → g.opens c = false ∧ g.closes c = false

namespace Nesting

variable {g : Grouping} {n n' : Nesting} {c : Char} {s t : Text}

/-- Outside strings and groups a comma separates. -/
theorem after_comma (hg : g.Usual) : outside.after g ',' = none := by
  simp [after, outside, hg.comma]

/-- Anywhere else a comma is read on. -/
theorem exists_after_comma (hn : n ≠ outside) : ∃ n', n.after g ',' = some n' :=
  Option.ne_none_iff_exists'.1 fun h => hn (eq_outside_of_after h).1

/-- The string that a place is in does not end with a blank. -/
def Proper (n : Nesting) : Prop := ∀ q ∈ n.quote, isBlank q = false

/-- Outside all strings there is none that could end with a blank. -/
theorem proper_outside : outside.Proper := by
  intro q hq
  cases hq

/-- A character that does not separate opens no string that ends with a blank. -/
theorem Proper.after (hn : n.Proper) (h : n.after g c = some n') : n'.Proper := by
  obtain ⟨quote, depth⟩ := n
  unfold Nesting.after at h
  cases quote with
  | some q =>
    obtain rfl := Option.some.inj h
    intro q' hq'
    by_cases hc : c = q
    · simp [hc] at hq'
    · rw [if_neg hc] at hq'
      exact hn q' hq'
  | none =>
    dsimp only at h
    split at h
    · next hquote =>
      obtain rfl := Option.some.inj h
      intro q' hq'
      obtain rfl := Option.some.inj hq'
      rw [Bool.or_eq_true, decide_eq_true_eq, decide_eq_true_eq] at hquote
      rcases hquote with rfl | rfl <;> decide
    · have hnone : n'.quote = none := by
        split_ifs at h <;> (obtain rfl := Option.some.inj h; rfl)
      intro q' hq'
      rw [hnone] at hq'
      cases hq'

/-- Nor does a text that separates nothing. -/
theorem Proper.behind (hn : n.Proper) (h : n.behind g s = some n') : n'.Proper := by
  induction s generalizing n with
  | nil =>
    obtain rfl := Option.some.inj h
    exact hn
  | cons c s ih =>
    obtain ⟨m, hafter, hbehind⟩ := Option.bind_eq_some_iff.1 h
    exact ih (hn.after hafter) hbehind

/-- A blank changes nothing about what is open. -/
theorem Proper.after_blank (hg : g.Usual) (hn : n.Proper) (hc : isBlank c = true) :
    n.after g c = some n := by
  obtain ⟨quote, depth⟩ := n
  cases quote with
  | some q => simp [Nesting.after, ne_of_isBlank hc (hn q rfl)]
  | none =>
    have hdouble : c ≠ '"' := ne_of_isBlank hc (by decide)
    have hsingle : c ≠ '\'' := ne_of_isBlank hc (by decide)
    have hcomma : c ≠ ',' := ne_of_isBlank hc (by decide)
    simp [Nesting.after, hdouble, hsingle, hcomma, hg.blank c hc]

/-- A text of blanks changes nothing about what is open. -/
theorem Proper.behind_blanks (hg : g.Usual) (hn : n.Proper) (ht : AllBlank t) :
    n.behind g t = some n := by
  induction t with
  | nil => rfl
  | cons c t ih =>
    rw [Nesting.behind, hn.after_blank hg (ht c List.mem_cons_self), Option.bind_some]
    exact ih fun d hd => ht d (List.mem_cons_of_mem c hd)

end Nesting

/-- A part of a list, with what is written around it. -/
structure Part where
  before : Text
  body : Text
  after : Text

namespace Part

/-- The text of a part. -/
def text (p : Part) : Text := p.before ++ p.body ++ p.after

/-- Only blanks are written around a part. -/
structure Spaced (p : Part) : Prop where
  before : AllBlank p.before
  after : AllBlank p.after

/-- Trimming drops the blanks that are written around a part. -/
theorem Spaced.trim_text {p : Part} (h : p.Spaced) : trim p.text = trim p.body := by
  rw [text, trim_append_right _ h.after, trim_append_left h.before]

open Nesting in
/-- Blanks around a part change nothing of what is open behind it. -/
theorem Spaced.behind_text {g : Grouping} (hg : g.Usual) {p : Part} (h : p.Spaced) :
    outside.behind g p.text = outside.behind g p.body := by
  rw [text, List.append_assoc,
    behind_append_of_eq (proper_outside.behind_blanks hg h.before), behind_append]
  cases hbody : outside.behind g p.body with
  | none => rfl
  | some n => exact (proper_outside.behind hbody).behind_blanks hg h.after

end Part

/-- A list as it is written, with a comma between every two parts. -/
def writeList (ps : List Part) : Text := join [','] (ps.map Part.text)

/-- A list of one part is written without a comma. -/
theorem writeList_singleton (p : Part) : writeList [p] = p.text := by
  simp [writeList, join]

/-- Between the first part and the others a comma is written. -/
theorem writeList_cons_cons (p q : Part) (ps : List Part) :
    writeList (p :: q :: ps) = p.text ++ ',' :: writeList (q :: ps) := by
  simp [writeList, join, List.intercalate_cons_cons]

open Nesting in
/-- A list of parts that leave off outside is cut into these parts. -/
theorem commaParts_writeList {g : Grouping} (hg : g.Usual) {ps : List Part} (hne : ps ≠ [])
    (hspaced : ∀ p ∈ ps, p.Spaced)
    (hbehind : ∀ p ∈ ps, outside.behind g p.body = some outside) :
    commaParts g (writeList ps) = ps.map (trim ·.body) := by
  have hparts : outside.parts g (writeList ps) = ps.map Part.text := by
    induction ps with
    | nil => exact absurd rfl hne
    | cons p ps ih =>
      have htext : outside.behind g p.text = some outside := by
        rw [(hspaced p List.mem_cons_self).behind_text hg]
        exact hbehind p List.mem_cons_self
      cases ps with
      | nil => rw [writeList_singleton, parts_of_behind htext, List.map_singleton]
      | cons q ps =>
        rw [writeList_cons_cons, parts_append_comma (after_comma hg) htext, List.map_cons]
        rw [ih (List.cons_ne_nil q ps) (fun r hr => hspaced r (List.mem_cons_of_mem p hr))
          (fun r hr => hbehind r (List.mem_cons_of_mem p hr))]
  have htrim : (ps.map Part.text).map trim = ps.map (trim ·.body) := by
    rw [List.map_map]
    exact List.map_congr_left fun p hp => (hspaced p hp).trim_text
  rw [← htrim, ← hparts]
  rfl

/-! ## When the parts come back -/

/-- Number of characters of a text that are no blanks. -/
def nonBlanks (t : Text) : Nat := t.countP (!isBlank ·)

/-- The characters of two texts that are no blanks add up. -/
theorem nonBlanks_append (s t : Text) : nonBlanks (s ++ t) = nonBlanks s + nonBlanks t :=
  List.countP_append

/-- A character in front that is no blank is one more. -/
theorem nonBlanks_cons {c : Char} (hc : isBlank c = false) (t : Text) :
    nonBlanks (c :: t) = nonBlanks t + 1 := by
  simp [nonBlanks, hc]

/-- A text of blanks has no other characters. -/
theorem nonBlanks_eq_zero {t : Text} (ht : AllBlank t) : nonBlanks t = 0 := by
  simpa [nonBlanks, AllBlank] using ht

/-- Trimming drops blanks only. -/
theorem nonBlanks_trim (t : Text) : nonBlanks (trim t) = nonBlanks t := by
  rw [nonBlanks, List.countP_eq_length_filter, filter_trim, ← List.countP_eq_length_filter,
    nonBlanks]

/-- The blanks around a part do not count. -/
theorem Part.Spaced.nonBlanks_text {p : Part} (h : p.Spaced) :
    nonBlanks p.text = nonBlanks p.body := by
  rw [← nonBlanks_trim, h.trim_text, nonBlanks_trim]

/-- A part that is trimmed, not empty and does not start with a comma. -/
structure Part.Solid (p : Part) : Prop where
  trimmed : trim p.body = p.body
  nonempty : p.body ≠ []
  noComma : p.body.head? ≠ some ','

/-- A solid part starts with a character that is neither blank nor a comma. -/
theorem Part.Solid.exists_body_eq {p : Part} (h : p.Solid) :
    ∃ c rest, p.body = c :: rest ∧ isBlank c = false ∧ c ≠ ',' := by
  obtain ⟨c, rest, hbody⟩ := List.exists_cons_of_ne_nil h.nonempty
  refine ⟨c, rest, hbody, ?_, ?_⟩
  · rw [← Bool.not_eq_true]
    intro hc
    have hshort := length_trim_le rest
    rw [← trim_append_left (allBlank_singleton hc) rest, List.singleton_append, ← hbody,
      h.trimmed, hbody, List.length_cons] at hshort
    omega
  · rintro rfl
    exact h.noComma (by rw [hbody]; rfl)

/-- A first part with fewer or more characters than a text does not become this text. -/
theorem filter_trim_ne {first s : Text} (hseen : nonBlanks first ≠ 0)
    (hdiffer : nonBlanks first ≠ nonBlanks s) (more ss : List Text) :
    ((first :: more).map trim).filter (!·.isEmpty) ≠ s :: ss := by
  have hfirst : trim first ≠ [] := by
    intro hnil
    rw [← nonBlanks_trim, hnil] at hseen
    exact hseen rfl
  rw [List.map_cons, List.filter_cons_of_pos (by simpa using hfirst)]
  intro heq
  rw [← (List.cons.inj heq).1, nonBlanks_trim] at hdiffer
  exact hdiffer rfl

section

open Nesting

variable {g : Grouping} {p : Part}

/-- A part that holds a separating comma is cut in two. -/
theorem Part.Solid.cut_inside (hg : g.Usual) (hsolid : p.Solid) (hspaced : p.Spaced)
    (h : outside.behind g p.body = none) (t : Text) (ss : List Text) :
    ((outside.parts g (p.text ++ t)).map trim).filter (!·.isEmpty) ≠ p.body :: ss := by
  obtain ⟨first, more, hbody, hfirst⟩ := exists_eq_append_of_behind h
  have hlead : outside.behind g (p.before ++ first) = some outside := by
    rw [behind_append_of_eq (proper_outside.behind_blanks hg hspaced.before), hfirst]
  have htext : p.text ++ t = (p.before ++ first) ++ ',' :: (more ++ p.after ++ t) := by
    simp [Part.text, hbody]
  have hcount : nonBlanks (p.before ++ first) = nonBlanks first := by
    rw [nonBlanks_append, nonBlanks_eq_zero hspaced.before, Nat.zero_add]
  rw [htext, parts_append_comma (after_comma hg) hlead]
  obtain ⟨c, rest, hcons, hblank, hcomma⟩ := hsolid.exists_body_eq
  refine filter_trim_ne ?_ ?_ _ ss
  · cases first with
    | nil =>
      rw [hcons] at hbody
      exact absurd (List.cons.inj hbody).1 hcomma
    | cons d first =>
      rw [hcons] at hbody
      obtain ⟨rfl, -⟩ := List.cons.inj hbody
      rw [hcount, nonBlanks_cons hblank]
      omega
  · rw [hcount, hbody, nonBlanks_append, nonBlanks_cons (by decide)]
    omega

/-- A part that leaves something open takes in what is behind the comma. -/
theorem Part.Spaced.merged (hg : g.Usual) (hspaced : p.Spaced) {n : Nesting} (hn : n ≠ outside)
    (h : outside.behind g p.body = some n) (t : Text) (ss : List Text) :
    ((outside.parts g (p.text ++ ',' :: t)).map trim).filter (!·.isEmpty) ≠ p.body :: ss := by
  obtain ⟨n', hcomma⟩ := @exists_after_comma g n hn
  have htext : outside.behind g (p.text ++ [',']) = some n' := by
    rw [behind_append, hspaced.behind_text hg, h]
    simp [behind, hcomma]
  obtain ⟨part, more, hparts⟩ := List.exists_cons_of_ne_nil (@parts_ne_nil g n' t)
  have hsplit : p.text ++ ',' :: t = (p.text ++ [',']) ++ t := by simp
  have hcount : nonBlanks (p.text ++ [','] ++ part) = nonBlanks p.body + 1 + nonBlanks part := by
    rw [nonBlanks_append, nonBlanks_append, hspaced.nonBlanks_text]
    rfl
  rw [hsplit, parts_append htext, hparts, List.modifyHead_cons]
  refine filter_trim_ne ?_ ?_ _ ss
  · omega
  · omega

/-- Each part of a list, on its own, holds no separating comma and leaves off outside; behind the
last one something may stay open. -/
def Grouping.CutsApart (g : Grouping) (ps : List Part) : Prop :=
  (∀ p ∈ ps.dropLast, outside.behind g p.body = some outside) ∧
    ∀ p ∈ ps.getLast?, (outside.behind g p.body).isSome = true

/-- Whether the parts of a list come back is decided by each part alone. -/
theorem filter_commaParts_writeList_iff (hg : g.Usual) {ps : List Part} (hne : ps ≠ [])
    (hspaced : ∀ p ∈ ps, p.Spaced) (hsolid : ∀ p ∈ ps, p.Solid) :
    (commaParts g (writeList ps)).filter (!·.isEmpty) = ps.map Part.body ↔ g.CutsApart ps := by
  unfold Grouping.CutsApart
  show ((outside.parts g (writeList ps)).map trim).filter (!·.isEmpty) = _ ↔ _
  induction ps with
  | nil => exact absurd rfl hne
  | cons p ps ih =>
    have hp := hspaced p List.mem_cons_self
    have hs := hsolid p List.mem_cons_self
    cases ps with
    | nil =>
      rw [writeList_singleton, List.map_singleton]
      cases hbehind : outside.behind g p.body with
      | none =>
        have hcut := hs.cut_inside hg hp hbehind [] []
        rw [List.append_nil] at hcut
        simp [hcut, hbehind]
      | some n =>
        rw [parts_of_behind ((hp.behind_text hg).trans hbehind)]
        simp [hp.trim_text, hs.trimmed, hs.nonempty, hbehind]
    | cons q ps =>
      rw [writeList_cons_cons, List.map_cons, List.dropLast_cons_of_ne_nil (List.cons_ne_nil q ps),
        List.forall_mem_cons, List.getLast?_cons_cons]
      cases hbehind : outside.behind g p.body with
      | none => simp [hs.cut_inside hg hp hbehind]
      | some n =>
        by_cases hn : n = outside
        · subst hn
          have htail := ih (List.cons_ne_nil q ps)
            (fun r hr => hspaced r (List.mem_cons_of_mem p hr))
            (fun r hr => hsolid r (List.mem_cons_of_mem p hr))
          rw [parts_append_comma (after_comma hg) ((hp.behind_text hg).trans hbehind),
            List.map_cons, hp.trim_text, hs.trimmed,
            List.filter_cons_of_pos (by simpa using hs.nonempty), List.cons_inj_right, htail]
          simp
        · simp [hp.merged hg hn hbehind, hn]

end

end ClassHints.Sheet
