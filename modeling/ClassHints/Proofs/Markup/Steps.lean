import ClassHints.Markup.Scanner
import ClassHints.Proofs.Markup.StartTag
import ClassHints.Proofs.Text

/-!
# The steps of a scan

What one step of a scan can do, as an inductive relation with one case for each effect, and the
states that a scan gets to. Every step covers at least one character and none beyond the end of
the text, so that a scan always comes to an end. Every invariant of scanning is a case analysis
over these steps.
-/

namespace ClassHints.Markup

open Text

/-! ## How far a step goes -/

/-- The characters up to and with a piece are characters of the text. -/
theorem lengthPast_le (piece t : Text) : lengthPast piece t ≤ t.length := by
  unfold lengthPast
  split
  · next before rest hcut =>
    have hlength := congrArg List.length (eq_append_of_cut? hcut)
    simp only [List.length_append] at hlength
    omega
  · exact Nat.le_refl _

/-- The raw text inside an element is no longer than the text. -/
theorem rawLength_le (tag t : Text) : rawLength tag t ≤ t.length := by
  unfold rawLength
  cases hcut : cut? ('<' :: '/' :: lower tag) (lower t) with
  | none => exact Nat.le_refl _
  | some parts =>
    have hlength := congrArg List.length (eq_append_of_cut? hcut)
    simp only [List.length_append, lower, List.length_map] at hlength
    dsimp only [Option.map_some, Option.getD_some]
    omega

/-- Whatever stands behind a piece of text that is found does not matter. -/
theorem lengthPast_append {piece t : Text} (h : lengthPast piece t < t.length) (u : Text) :
    lengthPast piece (t ++ u) = lengthPast piece t := by
  unfold lengthPast at h ⊢
  cases hcut : cut? piece t with
  | none =>
    rw [hcut] at h
    exact absurd h (Nat.lt_irrefl _)
  | some parts => rw [cut?_append_right hcut u]

/-- Raw text that ends before the end of the text does not change when the text goes on. -/
theorem rawLength_append {tag t : Text} (h : rawLength tag t < t.length) (u : Text) :
    rawLength tag (t ++ u) = rawLength tag t := by
  unfold rawLength at h ⊢
  cases hcut : cut? ('<' :: '/' :: lower tag) (lower t) with
  | none =>
    rw [hcut] at h
    exact absurd h (Nat.lt_irrefl _)
  | some parts =>
    have hlower : lower (t ++ u) = lower t ++ lower u := List.map_append
    rw [hlower, cut?_append_right hcut (lower u)]
    rfl

/-- A piece that is not empty is not passed without a character. -/
theorem lengthPast_pos {piece t : Text} (hpiece : piece ≠ []) (ht : t ≠ []) :
    0 < lengthPast piece t := by
  have hpos := List.length_pos_iff.2 hpiece
  have hpos' := List.length_pos_iff.2 ht
  unfold lengthPast
  split <;> omega

/-! ## Steps -/

/-- The element of a start tag with a number. -/
def StartTag.element (tag : StartTag) (number : Nat) : Element :=
  ⟨number, tag.name, tag.body.attributes⟩

namespace Scan

/-- The effects that a step can have at the front of a text, and the number of characters it
covers. -/
inductive Step (s : Scan) (t : Text) : Nat → Scan → Prop where
  | pass (n : Nat) (pos : 0 < n) (le : n ≤ t.length) : Step s t n (s.move (t.take n))
  | close (tag : Text) (n : Nat) (pos : 0 < n) (le : n ≤ t.length) :
    Step s t n (s.close tag (t.take n))
  | text (n : Nat) (pos : 0 < n) (le : n ≤ t.length) : Step s t n (s.addText (t.take n))
  | leaf (opens : OpensTag t)
    (ending : (StartTag.front t).body.ending = .opened → isVoid (StartTag.front t).name = true) :
    Step s t (StartTag.front t).length
      (s.addLeaf ((StartTag.front t).element s.next) (t.take (StartTag.front t).length))
  | raw (opens : OpensTag t) (ending : (StartTag.front t).body.ending = .opened)
    (name : isRaw (StartTag.front t).name = true) (m k : Nat)
    (le : (StartTag.front t).length + m + k ≤ t.length) :
    Step s t ((StartTag.front t).length + m + k)
      (s.addRaw ((StartTag.front t).element s.next) (t.take (StartTag.front t).length)
        ((t.drop (StartTag.front t).length).take m)
        (((t.drop (StartTag.front t).length).drop m).take k))
  | opened (opens : OpensTag t) (ending : (StartTag.front t).body.ending = .opened)
    (void : isVoid (StartTag.front t).name = false) (raw : isRaw (StartTag.front t).name = false) :
    Step s t (StartTag.front t).length
      (s.addOpen ((StartTag.front t).element s.next) (t.take (StartTag.front t).length))

/-- The step of a start tag, by how the tag ends. -/
theorem openTag_eq (s : Scan) (t : Text) : s.openTag t =
    let tag := StartTag.front t
    let e := tag.element s.next
    match tag.body.ending with
    | .unfinished => (s.addLeaf e t, t.length)
    | .selfClosed => (s.addLeaf e (t.take tag.length), tag.length)
    | .opened =>
      if isVoid tag.name then (s.addLeaf e (t.take tag.length), tag.length)
      else if isRaw tag.name then
        let rest := t.drop tag.length
        let m := rawLength tag.name rest
        let k := lengthPast ['>'] (rest.drop m)
        (s.addRaw e (t.take tag.length) (rest.take m) ((rest.drop m).take k), tag.length + m + k)
      else (s.addOpen e (t.take tag.length), tag.length) := rfl

/-- A start tag adds an element without content, one with text in it, or an open one. -/
theorem Step.of_openTag (s : Scan) {t : Text} (h : OpensTag t) :
    s.Step t (s.openTag t).2 (s.openTag t).1 := by
  rw [openTag_eq]
  cases hending : (StartTag.front t).body.ending with
  | unfinished =>
    have hstep := Step.leaf (s := s) h (by simp [hending])
    rw [h.length_of_unfinished hending, List.take_length] at hstep
    simpa only [hending] using hstep
  | selfClosed =>
    have hstep := Step.leaf (s := s) h (by simp [hending])
    simpa only [hending] using hstep
  | opened =>
    simp only [hending]
    cases hvoid : isVoid (StartTag.front t).name with
    | true => exact .leaf h fun _ => hvoid
    | false =>
      cases hraw : isRaw (StartTag.front t).name with
      | true =>
        refine .raw h hending hraw _ _ ?_
        have hm := rawLength_le (StartTag.front t).name (t.drop (StartTag.front t).length)
        have hk := lengthPast_le ['>'] ((t.drop (StartTag.front t).length).drop
          (rawLength (StartTag.front t).name (t.drop (StartTag.front t).length)))
        have hle := h.length_le
        simp only [List.length_drop] at hm hk
        omega
      | false => exact .opened h hending hvoid hraw

/-- A bracket with a letter behind it opens a tag. -/
theorem step_of_isAlpha (s : Scan) {d : Char} (hd : d.isAlpha = true) (rest : Text) :
    s.step '<' (d :: rest) = s.openTag ('<' :: d :: rest) := by
  have hne {mark : Char} (hmark : mark.isAlpha = false) : d ≠ mark := by
    rintro rfl
    rw [hd] at hmark
    cases hmark
  -- no letter starts a comment, a declaration or a closing tag
  have hbang : d ≠ '!' := hne (by decide)
  rw [step, if_pos hd]
  · exact fun _ heq _ => hbang heq
  · exact hbang
  · exact hne (by decide)
  · exact hne (by decide)

/-- Any other character than a bracket starts a run of text. -/
theorem step_of_ne (s : Scan) {c : Char} (hc : c ≠ '<') (rest : Text) :
    s.step c rest = s.textRun c rest := by
  simp [step, hc]

/-- Every step has one of the effects. -/
theorem step_step (s : Scan) (c : Char) (rest : Text) :
    s.Step (c :: rest) (s.step c rest).2 (s.step c rest).1 := by
  have htext : s.Step (c :: rest) (s.textRun c rest).2 (s.textRun c rest).1 := by
    have hrun : c :: rest.takeWhile (· != '<') <+: c :: rest :=
      List.cons_prefix_cons.2 ⟨rfl, List.takeWhile_prefix _⟩
    have hstep := Step.text (s := s) (t := c :: rest) (c :: rest.takeWhile (· != '<')).length
      (Nat.succ_pos _) hrun.length_le
    rwa [← List.prefix_iff_eq_take.1 hrun] at hstep
  unfold step
  dsimp only
  split
  · next tail =>
    exact .pass _ (lengthPast_pos (by simp) (by simp)) (lengthPast_le _ _)
  · exact .pass _ (lengthPast_pos (by simp) (by simp)) (lengthPast_le _ _)
  · exact .pass _ (lengthPast_pos (by simp) (by simp)) (lengthPast_le _ _)
  · next body =>
    refine .close _ _ (by omega) ?_
    have hname := length_takeWhile_le isTagPart body
    have hpast := lengthPast_le ['>'] (body.drop (tagName body).length)
    simp only [tagName, List.length_drop, List.length_cons] at hname hpast ⊢
    omega
  · next d tail _ _ _ _ =>
    by_cases hd : d.isAlpha = true
    · rw [if_pos hd]
      exact .of_openTag s ⟨d, tail, rfl, hd⟩
    · rw [if_neg hd]
      exact htext
  · exact htext

namespace Step

variable {s s' : Scan} {t : Text} {n : Nat}

/-- A step covers at least one character. -/
theorem pos (h : s.Step t n s') : 0 < n := by
  cases h with
  | pass _ pos le | close _ _ pos le | text _ pos le => exact pos
  | leaf | opened =>
    unfold StartTag.length
    omega
  | raw =>
    unfold StartTag.length
    omega

/-- A step covers no more than the text that is left. -/
theorem le_length (h : s.Step t n s') : n ≤ t.length := by
  cases h with
  | pass _ pos le | close _ _ pos le | text _ pos le => exact le
  | leaf opens | opened opens => exact opens.length_le
  | raw _ _ _ _ _ le => exact le

/-- A step covers at least one byte. -/
theorem byteLength_take_pos (h : s.Step t n s') : 0 < byteLength (t.take n) := by
  have hpos := h.pos
  have hle := h.le_length
  refine byteLength_pos fun hnil => ?_
  have hzero := congrArg List.length hnil
  rw [List.length_take, List.length_nil] at hzero
  omega

/-- A step moves on by the bytes of the characters that it covers. -/
theorem offset_eq (h : s.Step t n s') : s'.offset = s.offset + byteLength (t.take n) := by
  cases h with
  | pass | text | leaf | opened => rfl
  | close tag =>
    unfold Scan.close
    dsimp only
    split <;> rfl
  | raw opens ending name m k le =>
    rw [List.take_add, List.take_add, byteLength_append, byteLength_append, ← Nat.add_assoc,
      ← Nat.add_assoc, ← List.drop_drop]
    rfl

end Step

/-! ## Whole scans -/

/-- The states that a scan of a text gets to between two steps, with the text that is left. -/
inductive Reaches (t : Text) : Scan → Text → Prop where
  | start : Reaches t .start t
  | step {s : Scan} {c : Char} {rest : Text} (reaches : Reaches t s (c :: rest)) :
    Reaches t (s.step c rest).1 ((c :: rest).drop (s.step c rest).2)

/-- Characters that are scanned already are passed over. -/
theorem scanFrom_eq_drop (s : Scan) (skip : Nat) (t : Text) :
    s.scanFrom skip t = s.scanFrom 0 (t.drop skip) := by
  induction t generalizing skip with
  | nil => simp [scanFrom]
  | cons c t ih =>
    cases skip with
    | zero => rfl
    | succ skip => exact ih skip

/-- A scan takes one step and goes on behind it. -/
theorem scanFrom_cons (s : Scan) (c : Char) (rest : Text) :
    s.scanFrom 0 (c :: rest) =
      (s.step c rest).1.scanFrom 0 ((c :: rest).drop (s.step c rest).2) := by
  have hpos := (s.step_step c rest).pos
  have hdrop : (c :: rest).drop (s.step c rest).2 = rest.drop ((s.step c rest).2 - 1) := by
    conv =>
      lhs
      rw [← Nat.sub_add_cancel hpos, List.drop_succ_cons]
  rw [hdrop, ← scanFrom_eq_drop]
  rfl

namespace Reaches

variable {t rest : Text} {s : Scan}

/-- Whatever is left leads to the same end. -/
theorem scanFrom_eq (h : Reaches t s rest) : s.scanFrom 0 rest = Scan.start.scanFrom 0 t := by
  induction h with
  | start => rfl
  | step _ ih => rw [← ih, scanFrom_cons]

/-- The offset of a state is the number of bytes before the text that is left. -/
theorem eq_append (h : Reaches t s rest) :
    ∃ before, t = before ++ rest ∧ byteLength before = s.offset := by
  induction h with
  | start => exact ⟨[], rfl, rfl⟩
  | @step s c rest _ ih =>
    obtain ⟨before, hsplit, hoffset⟩ := ih
    refine ⟨before ++ (c :: rest).take (s.step c rest).2, ?_, ?_⟩
    · rw [List.append_assoc, List.take_append_drop, hsplit]
    · rw [byteLength_append, hoffset, (s.step_step c rest).offset_eq]

/-- The scan stands at the offset where the text that is left starts. -/
theorem fromByte_offset (h : Reaches t s rest) : t.fromByte s.offset = rest := by
  obtain ⟨before, rfl, hoffset⟩ := h.eq_append
  rw [← hoffset, fromByte_append]

/-- From every state the scan gets to the end of the text. -/
theorem exists_end (h : Reaches t s rest) : ∃ s', Reaches t s' [] := by
  induction hn : rest.length using Nat.strongRecOn generalizing s rest with
  | ind n ih =>
    cases rest with
    | nil => exact ⟨s, h⟩
    | cons c rest =>
      have hpos := (s.step_step c rest).pos
      refine ih _ ?_ h.step rfl
      rw [List.length_drop]
      simp only [List.length_cons] at hn ⊢
      omega

end Reaches

/-- The scan of a text ends in the state that the whole text leads to. -/
theorem reaches_scanFrom (t : Text) : Reaches t (start.scanFrom 0 t) [] := by
  obtain ⟨s, hs⟩ := Reaches.start.exists_end (t := t)
  have heq := hs.scanFrom_eq
  rw [scanFrom] at heq
  rwa [← heq]

/-- Induction over a scan: what holds before the first step and is kept by every step holds
in every state that the scan gets to. -/
theorem Reaches.invariant {motive : Scan → Text → Prop} {t rest : Text} {s : Scan}
    (start : motive .start t)
    (step : ∀ s rest n s', Reaches t s rest → motive s rest → s.Step rest n s' →
      motive s' (rest.drop n)) (h : Reaches t s rest) : motive s rest := by
  induction h with
  | start => exact start
  | step reaches ih => exact step _ _ _ _ reaches ih (step_step _ _ _)

end Scan

end ClassHints.Markup
