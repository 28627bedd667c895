import ClassHints.Proofs.Completion.Assembly
import Mathlib.Algebra.Ring.Nat
import Mathlib.Data.List.Lex

/-!
# Sorting candidates

An editor sorts candidates by their sort texts: the digit of the tier and the place among all
candidates, written with at least five digits. This is the order in which the candidates are
listed as long as the places have five digits. The first place with more digits comes too early in
the order of texts, unless a new tier starts there, and so does every later place with one more
digit than the place before it.
-/

namespace ClassHints.Completion

open Text
open Cursor (Position)

/-! ## The order of texts -/

/-- The order of texts: the first characters that differ decide, and a beginning of a text comes
before it. -/
def Precedes : Text → Text → Prop := List.Lex fun a b => a.toNat < b.toNat

/-- The order of texts is transitive. -/
theorem Precedes.trans {s t u : Text} (hst : Precedes s t) (htu : Precedes t u) : Precedes s u :=
  List.lex_trans Nat.lt_trans hst htu

instance : Trans Precedes Precedes Precedes := ⟨Precedes.trans⟩

/-- The order of texts is asymmetric. -/
theorem Precedes.not_precedes {s t : Text} (h : Precedes s t) : ¬Precedes t s := by
  have hchar : Std.Asymm fun a b : Char => a.toNat < b.toNat := ⟨fun _ _ => Nat.lt_asymm⟩
  exact (List.Lex.asymm _).asymm s t h

/-- A character in front of both texts does not change their order. -/
theorem Precedes.cons {s t : Text} (c : Char) (h : Precedes s t) : Precedes (c :: s) (c :: t) :=
  List.Lex.cons h

/-- Texts with the same first character are in the order of their rests. -/
theorem precedes_cons_iff {s t : Text} {c : Char} : Precedes (c :: s) (c :: t) ↔ Precedes s t := by
  have hchar : Std.Irrefl fun a b : Char => a.toNat < b.toNat := ⟨fun _ => Nat.lt_irrefl _⟩
  exact List.lex_cons_iff

/-- Texts of one length keep their order when they go on. -/
theorem Precedes.append {s t : Text} (h : Precedes s t) (hlength : s.length = t.length)
    (u v : Text) : Precedes (s ++ u) (t ++ v) := by
  unfold Precedes at h ⊢
  induction h with
  | nil => cases hlength
  | cons _ ih => exact .cons (ih (Nat.succ.inj hlength))
  | rel h => exact .rel h

/-! ## Numbers of one length -/

/-- A text of decimal digits. -/
def AllDigits (t : Text) : Prop := ∀ c ∈ t, c.isDigit = true

/-- The numbers of the decimal digits as characters. -/
theorem digit_bounds {c : Char} (h : c.isDigit = true) : 48 ≤ c.toNat ∧ c.toNat ≤ 57 := by
  rw [Char.isDigit, Bool.and_eq_true, decide_eq_true_eq, decide_eq_true_eq] at h
  exact h

/-- Digits make a number below the power of ten with as many zeros. -/
theorem ofDigitChars_lt {t : Text} (h : AllDigits t) : Nat.ofDigitChars 10 t 0 < 10 ^ t.length := by
  induction t with
  | nil => simp
  | cons c t ih =>
    have hc := digit_bounds (h c List.mem_cons_self)
    have hrest := ih fun d hd => h d (List.mem_cons_of_mem c hd)
    rw [Nat.ofDigitChars_cons, Nat.ofDigitChars_eq_ofDigitChars_zero, List.length_cons,
      Nat.pow_succ]
    have hdigit : c.toNat - '0'.toNat ≤ 9 := by
      show c.toNat - 48 ≤ 9
      omega
    have hproduct := Nat.mul_le_mul_left (10 ^ t.length) hdigit
    rw [Nat.mul_zero, Nat.zero_add]
    omega

/-- Numbers written with the same number of digits have the order of their texts. -/
theorem precedes_of_ofDigitChars_lt {s t : Text} (hs : AllDigits s) (ht : AllDigits t)
    (hlength : s.length = t.length)
    (hlt : Nat.ofDigitChars 10 s 0 < Nat.ofDigitChars 10 t 0) : Precedes s t := by
  induction s generalizing t with
  | nil =>
    obtain rfl := List.length_eq_zero_iff.1 hlength.symm
    exact absurd hlt (Nat.lt_irrefl _)
  | cons c s ih =>
    cases t with
    | nil => cases hlength
    | cons d t =>
      have hlength' : s.length = t.length := Nat.succ.inj hlength
      have hs' : AllDigits s := fun e he => hs e (List.mem_cons_of_mem c he)
      have ht' : AllDigits t := fun e he => ht e (List.mem_cons_of_mem d he)
      have hc := digit_bounds (hs c List.mem_cons_self)
      have hd := digit_bounds (ht d List.mem_cons_self)
      rw [Nat.ofDigitChars_cons, Nat.ofDigitChars_cons, Nat.ofDigitChars_eq_ofDigitChars_zero,
        @Nat.ofDigitChars_eq_ofDigitChars_zero t, hlength', Nat.mul_zero, Nat.zero_add,
        Nat.zero_add] at hlt
      rcases Nat.lt_trichotomy c.toNat d.toNat with hcd | hcd | hcd
      · exact List.Lex.rel hcd
      · obtain rfl := Char.toNat_inj.1 hcd
        exact (ih hs' ht' hlength' (Nat.lt_of_add_lt_add_left hlt)).cons c
      · -- the larger first digit outweighs all that follows
        have hbound := ofDigitChars_lt ht'
        have hstep : d.toNat - '0'.toNat + 1 ≤ c.toNat - '0'.toNat := by
          show d.toNat - 48 + 1 ≤ c.toNat - 48
          omega
        have hproduct := Nat.mul_le_mul_left (10 ^ t.length) hstep
        rw [Nat.mul_succ] at hproduct
        omega

/-- A padded number is made of digits. -/
theorem allDigits_padded (width n : Nat) : AllDigits (padded width n) := by
  intro c hc
  rcases List.mem_append.1 hc with hc | hc
  · rw [(List.mem_replicate.1 hc).2]
    rfl
  · exact Nat.isDigit_of_mem_toDigits (by decide) (by decide) hc

/-- A padded number is as long as its width, or as its digits if they do not fit. -/
theorem length_padded (width n : Nat) :
    (padded width n).length = max width (Nat.toDigits 10 n).length := by
  rw [padded, List.length_append, List.length_replicate]
  omega

/-- A padded number has at most some length, not below its width, exactly if its digits do. -/
theorem length_padded_le_iff {width k n : Nat} (hwidth : width ≤ k) (hk : 0 < k) :
    (padded width n).length ≤ k ↔ n < 10 ^ k := by
  rw [length_padded, ← Nat.length_toDigits_le_iff (by decide) hk]
  omega

/-- Padded numbers of one length are in the order of the numbers. -/
theorem precedes_padded {width n m : Nat}
    (hlength : (padded width n).length = (padded width m).length) (h : n < m) :
    Precedes (padded width n) (padded width m) := by
  refine precedes_of_ofDigitChars_lt (allDigits_padded width n) (allDigits_padded width m)
    hlength ?_
  rw [ofDigitChars_padded, ofDigitChars_padded]
  exact h

/-! ## The next number -/

/-- A number that is not below a power of ten has more digits than the power has zeros. -/
theorem lt_length_toDigits {k n : Nat} (h : 10 ^ k ≤ n) : k < (Nat.toDigits 10 n).length := by
  cases k with
  | zero => exact Nat.length_toDigits_pos
  | succ k =>
    rw [← Nat.not_le, Nat.length_toDigits_le_iff (by decide) (Nat.succ_pos k)]
    exact Nat.not_lt.2 h

section

variable {width k n : Nat}

/-- A number whose digits fill the width is not padded. -/
theorem padded_eq_toDigits (h : width ≤ (Nat.toDigits 10 n).length) :
    padded width n = Nat.toDigits 10 n := by
  rw [padded, Nat.sub_eq_zero_of_le h]
  rfl

/-- A number between two powers of ten that fills its width is as long as its digits. -/
theorem length_padded_eq (hwidth : width ≤ k + 1) (hlow : 10 ^ k ≤ n) (hhigh : n < 10 ^ (k + 1)) :
    (padded width n).length = k + 1 := by
  refine Nat.le_antisymm ((length_padded_le_iff hwidth (Nat.succ_pos k)).2 hhigh) ?_
  rw [length_padded]
  exact Nat.le_trans (lt_length_toDigits hlow) (Nat.le_max_right _ _)

/-- A power of ten has the digits of the power before it, and a zero. -/
theorem padded_ten_pow (hwidth : width ≤ k + 1) :
    padded width (10 ^ (k + 1)) = padded width (10 ^ k) ++ ['0'] := by
  have hpow : 10 ^ (k + 1) = 10 ^ k * 10 := Nat.pow_succ 10 k
  have hpos : 0 < 10 ^ k := Nat.pow_pos (by decide)
  have hdiv : 10 ^ (k + 1) / 10 = 10 ^ k := by omega
  have hmod : 10 ^ (k + 1) % 10 = 0 := by omega
  have hlong := lt_length_toDigits (Nat.le_refl (10 ^ k))
  have hlonger := lt_length_toDigits (Nat.le_refl (10 ^ (k + 1)))
  rw [padded_eq_toDigits (n := 10 ^ (k + 1)) (by omega), padded_eq_toDigits (by omega),
    Nat.toDigits_of_base_le (by decide) (by omega), hdiv, hmod]
  rfl

/-- A power of ten that outgrows the width comes before the number that it follows. -/
theorem precedes_padded_ten_pow (hwidth : width ≤ k + 1) :
    Precedes (padded width (10 ^ (k + 1))) (padded width (10 ^ (k + 1) - 1)) := by
  have hpow : 10 ^ (k + 1) = 10 ^ k * 10 := Nat.pow_succ 10 k
  have hpos : 0 < 10 ^ k := Nat.pow_pos (by decide)
  have hlength : (padded width (10 ^ k)).length = (padded width (10 ^ (k + 1) - 1)).length := by
    rw [length_padded_eq hwidth (Nat.le_refl _) (by omega),
      length_padded_eq hwidth (by omega) (by omega)]
  have hbefore := (precedes_padded hlength (by omega)).append hlength ['0'] []
  rwa [← padded_ten_pow hwidth, List.append_nil] at hbefore

/-- The next number comes next, unless it is a power of ten that outgrows the width. -/
theorem precedes_padded_succ_iff (hwidth : 0 < width) :
    Precedes (padded width n) (padded width (n + 1)) ↔ ∀ k, width ≤ k → n + 1 ≠ 10 ^ k := by
  constructor
  · rintro h k hk hpow
    obtain ⟨j, rfl⟩ : ∃ j, k = j + 1 := ⟨k - 1, by omega⟩
    have hback := precedes_padded_ten_pow hk
    rw [← hpow, Nat.add_sub_cancel] at hback
    exact h.not_precedes hback
  · intro h
    refine precedes_padded ?_ (Nat.lt_succ_self n)
    -- the length of a number is the least power of ten above it
    have hn : width ≤ (padded width n).length := by
      rw [length_padded]
      exact Nat.le_max_left _ _
    have hsucc : width ≤ (padded width (n + 1)).length := by
      rw [length_padded]
      exact Nat.le_max_left _ _
    have hlt := (length_padded_le_iff hn (by omega)).1 (Nat.le_refl _)
    have hlt' := (length_padded_le_iff hsucc (by omega)).1 (Nat.le_refl _)
    have hne := h _ hn
    have hle := (@length_padded_le_iff width _ n hsucc (by omega)).2 (by omega)
    have hle' := (@length_padded_le_iff width _ (n + 1) hn (by omega)).2 (by omega)
    omega

end

/-! ## Neighbours in the list of candidates -/

/-- The digit of a tier is the one of its level. -/
theorem Tier.toNat_digit (tier : Tier) : tier.digit.toNat = 48 + tier.level := by
  cases tier <;> rfl

/-- Tiers at one level are the same. -/
theorem Tier.eq_of_level_eq {tier other : Tier} (h : tier.level = other.level) : tier = other := by
  cases tier <;> cases other <;> simp_all [level]

/-- The next place comes next, if its tier is a later one or its number has as many digits. -/
theorem precedes_sortText_succ_iff {tier next : Tier} (htier : tier.level ≤ next.level)
    (index : Nat) : Precedes (sortText tier index) (sortText next (index + 1)) ↔
      (tier = next → ∀ k, 5 ≤ k → index + 1 ≠ 10 ^ k) := by
  by_cases heq : tier = next
  · subst heq
    rw [sortText, sortText, precedes_cons_iff, precedes_cons_iff,
      precedes_padded_succ_iff (by decide)]
    simp
  · have hdigit : tier.digit.toNat < next.digit.toNat := by
      have hne : tier.level ≠ next.level := fun h => heq (Tier.eq_of_level_eq h)
      rw [Tier.toNat_digit, Tier.toNat_digit]
      omega
    simp only [heq, false_implies, iff_true]
    exact List.Lex.rel hdigit

/-- The sort texts of candidates of some tiers. -/
def sortTexts (tiers : List Tier) : List Text :=
  tiers.zipIdx.map fun (tier, index) => sortText tier index

/-- The sort text at an index is made of the tier there and the index. -/
theorem getElem?_sortTexts (tiers : List Tier) (index : Nat) :
    (sortTexts tiers)[index]? = tiers[index]?.map (sortText · index) := by
  rw [sortTexts, List.getElem?_map, List.getElem?_zipIdx, Option.map_map, Nat.zero_add]
  rfl

/-- Two neighbours in one tier, where the number of the second has one more digit than five or
more digits of the first. -/
def Outgrown (texts : List Text) : Prop :=
  ∃ k, 5 ≤ k ∧ ∃ s t, texts[10 ^ k - 1]? = some s ∧ texts[10 ^ k]? = some t ∧ s.head? = t.head?

/-- Sort texts start with the same character exactly if their tiers are the same. -/
theorem head?_sortText_eq_iff {tier other : Tier} {index index' : Nat} :
    (sortText tier index).head? = (sortText other index').head? ↔ tier = other := by
  constructor
  · intro h
    have hdigit := congrArg Char.toNat (Option.some.inj h)
    rw [Tier.toNat_digit, Tier.toNat_digit] at hdigit
    exact Tier.eq_of_level_eq (by omega)
  · rintro rfl
    rfl

/-- Texts are in order if neighbours are. -/
theorem pairwise_precedes_iff {texts : List Text} : texts.Pairwise Precedes ↔
    ∀ index s t, texts[index]? = some s → texts[index + 1]? = some t → Precedes s t := by
  rw [← List.isChain_iff_pairwise, List.isChain_iff_getElem]
  constructor
  · intro h index s t hs ht
    obtain ⟨_, rfl⟩ := List.getElem?_eq_some_iff.1 hs
    obtain ⟨hlt, rfl⟩ := List.getElem?_eq_some_iff.1 ht
    exact h index hlt
  · intro h index hindex
    exact h index _ _ (List.getElem?_eq_getElem _) (List.getElem?_eq_getElem _)

section

variable {tiers : List Tier} (hordered : tiers.Pairwise fun a b => a.level ≤ b.level)

include hordered

/-- Where tiers do not go back, neighbours are in order unless the second is in the tier of the
first and its number outgrows five digits. -/
theorem precedes_neighbour_iff {index : Nat} {s t : Text} (hs : (sortTexts tiers)[index]? = some s)
    (ht : (sortTexts tiers)[index + 1]? = some t) :
    Precedes s t ↔ (s.head? = t.head? → ∀ k, 5 ≤ k → index + 1 ≠ 10 ^ k) := by
  rw [getElem?_sortTexts] at hs ht
  obtain ⟨tier, htier, rfl⟩ := Option.map_eq_some_iff.1 hs
  obtain ⟨next, hnext, rfl⟩ := Option.map_eq_some_iff.1 ht
  obtain ⟨hlt, rfl⟩ := List.getElem?_eq_some_iff.1 htier
  obtain ⟨hlt', rfl⟩ := List.getElem?_eq_some_iff.1 hnext
  have hlevel := List.pairwise_iff_getElem.1 hordered index (index + 1) hlt hlt' (Nat.lt_succ_self _)
  rw [precedes_sortText_succ_iff hlevel, head?_sortText_eq_iff]

/-- Sort texts increase exactly if no two neighbours outgrow the padding. -/
theorem pairwise_sortTexts_iff :
    (sortTexts tiers).Pairwise Precedes ↔ ¬Outgrown (sortTexts tiers) := by
  rw [pairwise_precedes_iff]
  constructor
  · rintro h ⟨k, hk, s, t, hs, ht, hhead⟩
    obtain ⟨index, hindex⟩ : ∃ index, 10 ^ k = index + 1 :=
      Nat.exists_eq_succ_of_ne_zero (Nat.ne_of_gt (Nat.pow_pos (by decide)))
    rw [hindex, Nat.add_sub_cancel] at hs
    rw [hindex] at ht
    exact (precedes_neighbour_iff hordered hs ht).1 (h index s t hs ht) hhead k hk hindex.symm
  · intro h index s t hs ht
    refine (precedes_neighbour_iff hordered hs ht).2 fun hhead k hk hpow => ?_
    refine h ⟨k, hk, s, t, ?_, ?_, hhead⟩
    · rwa [← hpow, Nat.add_sub_cancel]
    · rwa [← hpow]

end

/-- Five digits are enough for the numbers of a hundred thousand candidates. -/
theorem not_outgrown_of_length_le {texts : List Text} (h : texts.length ≤ 10 ^ 5) :
    ¬Outgrown texts := by
  rintro ⟨k, hk, s, t, -, ht, -⟩
  obtain ⟨hlt, -⟩ := List.getElem?_eq_some_iff.1 ht
  have hpow : 10 ^ 5 ≤ 10 ^ k := Nat.pow_le_pow_right (by decide) hk
  omega

/-- In a single tier the numbers outgrow five digits as soon as there are enough of them. -/
theorem outgrown_replicate_iff (count : Nat) (tier : Tier) :
    Outgrown (sortTexts (List.replicate count tier)) ↔ 10 ^ 5 < count := by
  have hlength : (sortTexts (List.replicate count tier)).length = count := by simp [sortTexts]
  have hget (index : Nat) (hindex : index < count) :
      (sortTexts (List.replicate count tier))[index]? = some (sortText tier index) := by
    rw [getElem?_sortTexts, List.getElem?_replicate, if_pos hindex]
    rfl
  constructor
  · intro h
    by_contra hcount
    exact not_outgrown_of_length_le (by omega) h
  · intro hcount
    exact ⟨5, Nat.le_refl 5, _, _, hget _ (by omega), hget _ hcount, head?_sortText_eq_iff.2 rfl⟩

/-! ## Requests -/

/-- Leaving out the later items of a name keeps the order of the others. -/
theorem firstOfEachName_sublist (seen : List Text) (items : List (Tier × Ranked)) :
    (firstOfEachName seen items).Sublist items := by
  fun_induction firstOfEachName seen items with
  | case1 => exact .slnil
  | case2 seen tier item rest _ ih => exact ih.cons _
  | case3 seen tier item rest _ ih => exact ih.cons_cons _

/-- The items of all tiers are in the order of the tiers. -/
theorem pairwise_tagged (items : Tier → List Ranked) :
    (tagged items).Pairwise fun a b => a.1.level ≤ b.1.level := by
  have htier (tier : Tier) : ((items tier).map (tier, ·)).Pairwise fun a b =>
      a.1.level ≤ b.1.level := by
    rw [List.pairwise_map]
    exact List.pairwise_of_forall fun _ _ => Nat.le_refl _
  unfold tagged
  rw [List.pairwise_append, List.pairwise_append]
  refine ⟨⟨htier .high, htier .normal, ?_⟩, htier .root, ?_⟩
  · intro a ha b hb
    obtain ⟨item, -, rfl⟩ := List.mem_map.1 ha
    exact Nat.zero_le _
  · intro a ha b hb
    obtain ⟨item, -, rfl⟩ := List.mem_map.1 hb
    cases a.1 <;> simp [Tier.level]

/-- The sort texts of assembled candidates are those of tiers that do not go back. -/
theorem exists_tiers_assemble (p : Package) (s : CompletionSettings) (r : Ranking) :
    ∃ tiers : List Tier, (tiers.Pairwise fun a b => a.level ≤ b.level) ∧
      (assemble p s r).map Candidate.sortText = sortTexts tiers := by
  refine ⟨(keptItems (tierItems p s r)).map Prod.fst, ?_, ?_⟩
  · rw [List.pairwise_map]
    exact (pairwise_tagged _).sublist ((List.filter_sublist).trans (firstOfEachName_sublist [] _))
  · rw [assemble_eq, sortTexts, List.map_map, List.zipIdx_map, List.map_map]
    rfl

/-- Variables are all of one tier and numbered in their order. -/
theorem sortTexts_variableCandidates (p : Package) :
    (variableCandidates p).map Candidate.sortText =
      sortTexts (List.replicate (variableCandidates p).length .high) := by
  have htiers : List.replicate (variableCandidates p).length Tier.high =
      p.index.vars.map fun _ => .high := by
    rw [List.map_const', variableCandidates, List.length_map, List.length_zipIdx]
  rw [htiers, variableCandidates, sortTexts, List.map_map, List.zipIdx_map, List.map_map]
  rfl

/-- The sort texts of an answer are those of tiers that do not go back. Variables are in one
tier. -/
theorem exists_tiers_complete (p : Package) (s : CompletionSettings) (language : Language)
    (t : Text) (position : Position) :
    ∃ tiers : List Tier, (tiers.Pairwise fun a b => a.level ≤ b.level) ∧
      (complete p s language t position).map Candidate.sortText = sortTexts tiers ∧
      (language = .stylesheet → ∃ count, tiers = List.replicate count .high) := by
  by_cases hlanguage : language = .stylesheet
  · subst hlanguage
    exact ⟨_, List.pairwise_replicate.2 (Or.inr (Nat.le_refl _)), sortTexts_variableCandidates p,
      fun _ => ⟨_, rfl⟩⟩
  · by_cases hranked : ∃ r, RankedAt p s t position language r
    · obtain ⟨r, hr⟩ := hranked
      obtain ⟨tiers, hordered, htexts⟩ := exists_tiers_assemble p s r
      rw [hr.complete_eq]
      exact ⟨tiers, hordered, htexts, fun h => absurd h hlanguage⟩
    · rw [complete_eq_nil hlanguage (not_exists.1 hranked)]
      exact ⟨[], .nil, rfl, fun h => absurd h hlanguage⟩

/-- The sort texts of an answer increase along it exactly if no number outgrows five digits within
a tier. They do in every answer with no more candidates than there are numbers of five digits, and
for variables, which are in one tier, in no other. -/
theorem pairwise_sortText_complete_iff (service : Service) (language : Language) (t : Text)
    (position : Position) :
    let texts := (service.complete language t position).map Candidate.sortText
    (texts.Pairwise Precedes ↔ ¬Outgrown texts) ∧
      (texts.length ≤ 10 ^ 5 → texts.Pairwise Precedes) ∧
      (language = .stylesheet → (texts.Pairwise Precedes ↔ texts.length ≤ 10 ^ 5)) := by
  intro texts
  obtain ⟨tiers, hordered, htexts, hsingle⟩ : ∃ tiers : List Tier,
      (tiers.Pairwise fun a b => a.level ≤ b.level) ∧ texts = sortTexts tiers ∧
        (language = .stylesheet → ∃ count, tiers = List.replicate count .high) := by
    cases hpublished : service.published with
    | none =>
      refine ⟨[], .nil, ?_, fun _ => ⟨0, rfl⟩⟩
      simp only [texts, Service.complete, hpublished]
      rfl
    | some snapshot =>
      simp only [texts, Service.complete, hpublished]
      exact exists_tiers_complete _ _ language t position
  have hiff : texts.Pairwise Precedes ↔ ¬Outgrown texts := by
    rw [htexts]
    exact pairwise_sortTexts_iff hordered
  refine ⟨hiff, fun hlength => hiff.2 (not_outgrown_of_length_le hlength), fun hlanguage => ?_⟩
  obtain ⟨count, rfl⟩ := hsingle hlanguage
  have hcount : texts.length = count := by simp [htexts, sortTexts]
  rw [hiff, htexts, outgrown_replicate_iff, ← htexts, hcount, Nat.not_lt]

end ClassHints.Completion
