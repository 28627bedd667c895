import ClassHints.Cursor.ClassAttribute
import ClassHints.Sheet.Selector
import Mathlib.Data.List.Induction
import Mathlib.Data.List.Nodup
import Mathlib.Data.List.TakeWhile

/-!
# Trimming and cutting texts

Facts about the operations that fields of nodes are cut out with: trimming forgets blanks at
the two ends and nothing else, a cut finds the first occurrence, and block comments can only
be stripped from a text with a slash in it. Parts of a text lie between byte offsets, and its
words have no blanks in them.
-/

namespace ClassHints.Text

/-- A text of blanks only. -/
def AllBlank (t : Text) : Prop := ∀ c ∈ t, isBlank c = true

instance (t : Text) : Decidable (AllBlank t) := List.decidableBAll (isBlank · = true) t

/-- Nothing is left of blanks without the blanks. -/
theorem dropWhile_eq_nil {t : Text} (h : AllBlank t) : t.dropWhile isBlank = [] :=
  List.dropWhile_eq_nil_iff.2 h

/-- Blanks in front of a text do not survive trimming. -/
theorem trim_append_left {b : Text} (h : AllBlank b) (t : Text) : trim (b ++ t) = trim t := by
  unfold trim trimStart
  rw [List.dropWhile_append, dropWhile_eq_nil h]
  rfl

/-- Blanks after a text do not survive trimming. -/
theorem trim_append_right (t : Text) {b : Text} (h : AllBlank b) : trim (t ++ b) = trim t := by
  have hrev : AllBlank b.reverse := fun c hc => h c (by simpa using hc)
  unfold trim trimStart
  rw [List.dropWhile_append]
  by_cases ht : (t.dropWhile isBlank).isEmpty = true
  · rw [if_pos ht, dropWhile_eq_nil h, List.isEmpty_iff.1 ht]
  · rw [if_neg ht]
    unfold trimEnd
    rw [List.reverse_append, List.dropWhile_append, dropWhile_eq_nil hrev]
    rfl

/-- Trimming makes a text no longer. -/
theorem length_trim_le (t : Text) : (trim t).length ≤ t.length := by
  have hstart : (trimStart t).length ≤ t.length := (List.dropWhile_sublist _).length_le
  have hend := (List.dropWhile_sublist (l := (trimStart t).reverse) isBlank).length_le
  rw [List.length_reverse] at hend
  unfold trim trimEnd
  rw [List.length_reverse]
  omega

/-- A blank is a text of blanks. -/
theorem allBlank_singleton {c : Char} (h : isBlank c = true) : AllBlank [c] := by
  intro d hd
  rw [List.mem_singleton.1 hd]
  exact h

/-- The characters that are no blanks survive trimming. -/
theorem filter_trim (t : Text) : (trim t).filter (!isBlank ·) = t.filter (!isBlank ·) := by
  have hdrop (u : Text) :
      (u.dropWhile isBlank).filter (!isBlank ·) = u.filter (!isBlank ·) := by
    induction u with
    | nil => rfl
    | cons c u ih => by_cases hc : isBlank c = true <;> simp [hc, ih]
  unfold trim trimEnd trimStart
  rw [List.filter_reverse, hdrop, List.filter_reverse, List.reverse_reverse, hdrop]

/-- What follows a text disappears in trimming exactly if it is blank. -/
theorem trim_append_eq_iff {t u : Text} : trim (t ++ u) = trim t ↔ AllBlank u := by
  refine ⟨fun h => ?_, trim_append_right t⟩
  have hfilter := congrArg (List.filter (!isBlank ·)) h
  rw [filter_trim, filter_trim, List.filter_append, List.append_right_eq_self,
    List.filter_eq_nil_iff] at hfilter
  intro c hc
  simpa using hfilter c hc

section

variable {p : Char → Bool} {piece t : Text}

/-- A piece that nothing is dropped of stays behind what is left of the text before it. -/
theorem dropWhile_append_kept (t : Text) (hpiece : ∀ c ∈ piece, p c = false) :
    (t ++ piece).dropWhile p = t.dropWhile p ++ piece := by
  rw [List.dropWhile_append]
  cases hdrop : t.dropWhile p with
  | nil =>
    cases piece with
    | nil => rfl
    | cons c piece => simp [hpiece c List.mem_cons_self]
  | cons c u => rfl

/-- A beginning that is not trimmed away stays. -/
theorem prefix_trimWhere (hpiece : ∀ c ∈ piece, p c = false) (h : piece <+: t) :
    piece <+: trimWhere p t := by
  obtain ⟨rest, rfl⟩ := h
  cases piece with
  | nil => exact List.nil_prefix
  | cons c piece =>
    have hstart : (c :: piece ++ rest).dropWhile p = c :: piece ++ rest :=
      List.dropWhile_cons_of_neg (by simp [hpiece c List.mem_cons_self])
    have hreverse : ∀ d ∈ (c :: piece).reverse, p d = false :=
      fun d hd => hpiece d (List.mem_reverse.1 hd)
    rw [trimWhere, hstart, List.reverse_append, dropWhile_append_kept _ hreverse,
      List.reverse_append, List.reverse_reverse]
    exact List.prefix_append _ _

/-- An end that is not trimmed away stays. -/
theorem suffix_trimWhere (hpiece : ∀ c ∈ piece, p c = false) (h : piece <:+ t) :
    piece <:+ trimWhere p t := by
  obtain ⟨lead, rfl⟩ := h
  rw [trimWhere, dropWhile_append_kept lead hpiece, List.reverse_append]
  have hreverse : ∀ d ∈ piece.reverse, p d = false := fun d hd => hpiece d (List.mem_reverse.1 hd)
  cases hlast : piece.reverse with
  | nil =>
    rw [List.reverse_eq_nil_iff.1 hlast]
    exact List.nil_suffix
  | cons c u =>
    rw [hlast] at hreverse
    rw [List.cons_append, List.dropWhile_cons_of_neg (by simp [hreverse c List.mem_cons_self]),
      ← List.cons_append, ← hlast, List.reverse_append, List.reverse_reverse,
      List.reverse_reverse]
    exact List.suffix_append _ _

/-- A text is not trimmed of characters that it does not have. -/
theorem trimWhere_eq_self (h : ∀ c ∈ t, p c = false) : trimWhere p t = t := by
  have hreverse : ∀ d ∈ t.reverse, p d = false := fun d hd => h d (List.mem_reverse.1 hd)
  have hdrop := dropWhile_append_kept [] h
  have hdropReverse := dropWhile_append_kept [] hreverse
  rw [List.nil_append, List.dropWhile_nil, List.nil_append] at hdrop hdropReverse
  rw [trimWhere, hdrop, hdropReverse, List.reverse_reverse]

/-- Characters around a text that are trimmed away make no difference. -/
theorem trimWhere_around {a b : Char} (ha : p a = true) (hb : p b = true) (t : Text) :
    trimWhere p (a :: (t ++ [b])) = trimWhere p t := by
  rw [trimWhere, trimWhere, List.dropWhile_cons_of_pos ha, List.dropWhile_append]
  cases hdrop : t.dropWhile p with
  | nil => simp [hb]
  | cons c u => simp [hb]

/-- Between two characters that stay nothing is trimmed away. -/
theorem trimWhere_between {a b : Char} (ha : p a = false) (hb : p b = false) (t : Text) :
    trimWhere p (a :: (t ++ [b])) = a :: (t ++ [b]) := by
  rw [trimWhere, List.dropWhile_cons_of_neg (by simp [ha]), ← List.cons_append,
    List.reverse_append, List.reverse_singleton, List.singleton_append,
    List.dropWhile_cons_of_neg (by simp [hb])]
  simp

end

/-- A text starts with another one exactly if that is a prefix. -/
theorem startsWith_iff {t lead : Text} : startsWith t lead = true ↔ lead <+: t := by
  rw [startsWith, Option.isSome_iff_exists]
  constructor
  · rintro ⟨rest, hrest⟩
    exact ⟨rest, (eq_append_of_after? hrest).symm⟩
  · rintro ⟨rest, rfl⟩
    exact ⟨rest, after?_append lead rest⟩

/-- A text ends with another one exactly if that is a suffix. -/
theorem endsWith_iff {t tail : Text} : endsWith t tail = true ↔ tail <:+ t := by
  rw [endsWith, Option.isSome_iff_exists]
  constructor
  · rintro ⟨rest, hrest⟩
    exact ⟨rest, (eq_append_of_before? hrest).symm⟩
  · rintro ⟨rest, rfl⟩
    exact ⟨rest, before?_append rest tail⟩

/-- A beginning is recognised only where its first character stands. -/
theorem after?_eq_none_of_ne {a c : Char} (lead t : Text) (h : a ≠ c) :
    after? (a :: lead) (c :: t) = none := by
  simp [after?, h]

/-- The first mark is found where no mark stands before it. -/
theorem cutAt?_append {mark : Char} {s : Text} (h : mark ∉ s) (t : Text) :
    cutAt? mark (s ++ mark :: t) = some (s, t) := by
  induction s with
  | nil => simp [cutAt?, cut?, after?]
  | cons c s ih =>
    have hc : mark ≠ c := fun heq => h (by simp [heq])
    have hs : mark ∉ s := fun hmem => h (by simp [hmem])
    have hrest := ih hs
    unfold cutAt? at hrest ⊢
    rw [List.cons_append, cut?, after?_eq_none_of_ne _ _ hc, hrest]
    rfl

/-- A text is not cut at a mark that it does not have. -/
theorem cutAt?_eq_none {mark : Char} {t : Text} (h : mark ∉ t) : cutAt? mark t = none := by
  cases hcut : cutAt? mark t with
  | none => rfl
  | some parts =>
    have heq := eq_append_of_cut? hcut
    exact absurd (heq ▸ by simp) h

/-- Whether a long enough text starts with `lead` does not depend on what follows it. -/
theorem after?_append_of_le {lead t : Text} (h : lead.length ≤ t.length) (u : Text) :
    after? lead (t ++ u) = (after? lead t).map (· ++ u) := by
  induction lead generalizing t with
  | nil => rfl
  | cons a lead ih =>
    cases t with
    | nil => simp at h
    | cons c t =>
      by_cases hac : a = c
      · simpa [after?, hac] using ih (by simpa using h)
      · simp [after?, hac]

/-- The first occurrence stays the first one when the text goes on. -/
theorem cut?_append_right {piece t before rest : Text} (h : cut? piece t = some (before, rest))
    (u : Text) : cut? piece (t ++ u) = some (before, rest ++ u) := by
  have hlength := congrArg List.length (eq_append_of_cut? h)
  simp only [List.length_append] at hlength
  have hafter : after? piece (t ++ u) = (after? piece t).map (· ++ u) :=
    after?_append_of_le (by omega) u
  induction t generalizing before with
  | nil =>
    obtain ⟨r, hr, heq⟩ := Option.map_eq_some_iff.1 h
    obtain ⟨rfl, rfl⟩ := Prod.mk.inj heq
    rw [hr] at hafter
    cases u with
    | nil =>
      rw [List.append_nil, List.append_nil]
      exact h
    | cons c u =>
      rw [List.nil_append] at hafter ⊢
      rw [cut?, hafter]
      rfl
  | cons c t ih =>
    rw [List.cons_append] at hafter ⊢
    rw [cut?, hafter]
    cases ha : after? piece (c :: t) with
    | some r =>
      simp only [cut?, ha, Option.some.injEq, Prod.mk.injEq] at h
      obtain ⟨rfl, rfl⟩ := h
      rfl
    | none =>
      simp only [cut?, ha] at h
      obtain ⟨⟨b, r⟩, hc, heq⟩ := Option.map_eq_some_iff.1 h
      obtain ⟨rfl, rfl⟩ := Prod.mk.inj heq
      have hshort := congrArg List.length (eq_append_of_cut? hc)
      simp only [List.length_append] at hshort
      have hrest := ih hc hshort (after?_append_of_le (by omega) u)
      simp only [Option.map_none, hrest]
      rfl

/-- The first mark stays the first mark when the text goes on. -/
theorem cutAt?_append_right {mark : Char} {t before rest : Text}
    (h : cutAt? mark t = some (before, rest)) (u : Text) :
    cutAt? mark (t ++ u) = some (before, rest ++ u) :=
  cut?_append_right h u

/-- The end mark of a block comment, character by character. -/
theorem toList_commentEnd : "*/".toList = ['*', '/'] := by simp

/-- The end of a comment is found right after a text that does not hold it: two stars in a
row cannot be read as the end one character early. -/
theorem cut?_commentEnd {s : Text} (h : mentions s "*/".toList = false) (t : Text) :
    cut? "*/".toList (s ++ '*' :: '/' :: t) = some (s, t) := by
  rw [toList_commentEnd] at h ⊢
  induction s with
  | nil => simp [cut?, after?]
  | cons c s ih =>
    have hnone : cut? ['*', '/'] (c :: s) = none := by
      simpa only [mentions, Option.isSome_eq_false_iff, Option.isNone_iff_eq_none] using h
    cases hafter : after? ['*', '/'] (c :: s) with
    | some rest => simp only [cut?, hafter, reduceCtorEq] at hnone
    | none =>
      have hs : mentions s ['*', '/'] = false := by
        simpa only [cut?, hafter, Option.map_eq_none_iff, mentions, Option.isSome_eq_false_iff,
          Option.isNone_iff_eq_none] using hnone
      have hfront : after? ['*', '/'] (c :: (s ++ '*' :: '/' :: t)) = none := by
        cases s with
        | nil => simp [after?]
        | cons d s => simpa [after?] using hafter
      rw [List.cons_append, cut?, hfront, ih hs]
      rfl

/-- A character at which the piece does not start stays before the piece. -/
theorem upTo_cons {piece t : Text} {c : Char} (h : after? piece (c :: t) = none) :
    upTo piece (c :: t) = c :: upTo piece t := by
  rw [upTo, cut?, h, upTo]
  cases cut? piece t <;> rfl

/-- A piece is in a text if it starts at the first character or is in the rest. -/
theorem mentions_cons (c : Char) (t piece : Text) :
    mentions (c :: t) piece = (startsWith (c :: t) piece || mentions t piece) := by
  rw [mentions, cut?, startsWith]
  cases after? piece (c :: t) with
  | none => simp [mentions]
  | some rest => rfl

/-- What does not occur in a text does not occur in its end. -/
theorem mentions_of_append {u v piece : Text} (h : mentions (u ++ v) piece = false) :
    mentions v piece = false := by
  induction u with
  | nil => exact h
  | cons c u ih =>
    rw [List.cons_append, mentions_cons, Bool.or_eq_false_iff] at h
    exact ih h.2

/-- A doubled character is looked for behind a text that has none and does not end with half of
one. -/
theorem upTo_append {c : Char} {u : Text} (hpair : mentions u [c, c] = false)
    (hlast : ∀ d ∈ u.getLast?, d ≠ c) (v : Text) :
    upTo [c, c] (u ++ v) = u ++ upTo [c, c] v := by
  induction u with
  | nil => rfl
  | cons d u ih =>
    rw [mentions_cons, Bool.or_eq_false_iff] at hpair
    obtain ⟨hstart, hrest⟩ := hpair
    have hfront : after? [c, c] (d :: (u ++ v)) = none := by
      cases u with
      | nil => exact after?_eq_none_of_ne _ _ (Ne.symm (hlast d rfl))
      | cons e u => simpa [startsWith, after?] using hstart
    have hlater : ∀ x ∈ u.getLast?, x ≠ c := by
      cases u with
      | nil => simp
      | cons e u => simpa using hlast
    rw [List.cons_append, upTo_cons hfront, ih hrest hlater, List.cons_append]

/-- What is before a piece is the front of the text. -/
theorem upTo_isPrefix (piece t : Text) : upTo piece t <+: t := by
  rw [upTo]
  cases hcut : cut? piece t with
  | none => exact List.prefix_rfl
  | some parts =>
    have hsplit := eq_append_of_cut? hcut
    rw [List.append_assoc] at hsplit
    exact ⟨piece ++ parts.2, hsplit.symm⟩

/-- Whether a text starts with `lead` is settled before a character that `lead` does not have. -/
theorem startsWith_append {lead t u : Text} (h : ∀ c ∈ u.head?, c ∉ lead) :
    startsWith (t ++ u) lead = startsWith t lead := by
  rw [Bool.eq_iff_iff, startsWith_iff, startsWith_iff]
  refine ⟨fun ⟨rest, hrest⟩ => ?_, fun hlead => hlead.trans (List.prefix_append t u)⟩
  rcases List.append_eq_append_iff.1 hrest with ⟨w, rfl, -⟩ | ⟨w, rfl, rfl⟩
  · exact List.prefix_append lead w
  · cases w with
    | nil => simp
    | cons c w => exact absurd (List.mem_append_right t List.mem_cons_self) (h c rfl)

/-! ## Parts of a text between byte offsets -/

/-- A text from a byte offset on. -/
def fromByte (t : Text) (start : Nat) : Text := t.drop (Cursor.takeBytes start t).length

/-- A text between two byte offsets. -/
def slice (t : Text) (start stop : Nat) : Text := Cursor.takeBytes (stop - start) (t.fromByte start)

/-- A text that is not empty has bytes. -/
theorem byteLength_pos {t : Text} (h : t ≠ []) : 0 < byteLength t := by
  cases t with
  | nil => exact absurd rfl h
  | cons c t =>
    have hsize := c.utf8Size_pos
    rw [byteLength_cons]
    omega

/-- An offset between two characters of a text, or at one of its ends. -/
def IsBoundary (t : Text) (offset : Nat) : Prop :=
  ∃ before after, t = before ++ after ∧ byteLength before = offset

/-- As many bytes as the front of a text has give the front. -/
theorem takeBytes_append (s t : Text) : Cursor.takeBytes (byteLength s) (s ++ t) = s := by
  induction s with
  | nil =>
    cases t with
    | nil => rfl
    | cons c t =>
      have hsize : ¬c.utf8Size ≤ 0 := Nat.not_le.2 c.utf8Size_pos
      simp [Cursor.takeBytes, hsize]
  | cons c s ih =>
    rw [List.cons_append, Cursor.takeBytes, byteLength_cons, if_pos (Nat.le_add_right _ _),
      Nat.add_sub_cancel_left, ih]

/-- The first bytes of a text give a front of it. -/
theorem takeBytes_isPrefix (n : Nat) (t : Text) : Cursor.takeBytes n t <+: t := by
  induction t generalizing n with
  | nil => exact List.prefix_rfl
  | cons c t ih =>
    rw [Cursor.takeBytes]
    split
    · exact List.cons_prefix_cons.2 ⟨rfl, ih _⟩
    · exact List.nil_prefix

/-- More bytes give no fewer characters. -/
theorem length_takeBytes_le {n m : Nat} (h : n ≤ m) (t : Text) :
    (Cursor.takeBytes n t).length ≤ (Cursor.takeBytes m t).length := by
  induction t generalizing n m with
  | nil => exact Nat.le_refl 0
  | cons c t ih =>
    by_cases hn : c.utf8Size ≤ n
    · rw [Cursor.takeBytes, Cursor.takeBytes, if_pos hn, if_pos (Nat.le_trans hn h)]
      exact Nat.succ_le_succ (ih (Nat.sub_le_sub_right h _))
    · rw [Cursor.takeBytes, if_neg hn]
      exact Nat.zero_le _

/-- Behind the bytes of the front the rest of a text begins. -/
theorem fromByte_append (s t : Text) : (s ++ t).fromByte (byteLength s) = t := by
  unfold fromByte
  rw [takeBytes_append, List.drop_left]

/-- The part between two other parts of a text lies behind the bytes of the first. -/
theorem slice_append (s t u : Text) :
    (s ++ t ++ u).slice (byteLength s) (byteLength s + byteLength t) = t := by
  unfold slice
  rw [List.append_assoc, fromByte_append, Nat.add_sub_cancel_left, takeBytes_append]

/-! ## Words -/

/-- The parts of a text with one more character in front: that character is cut out, or it is the
first of the first part. -/
theorem mem_splitWhere_cons {p : Char → Bool} {c : Char} {t part : Text}
    (h : part ∈ splitWhere p (c :: t)) :
    part = [] ∨ part ∈ splitWhere p t ∨
      p c = false ∧ ∃ first ∈ splitWhere p t, part = c :: first := by
  unfold splitWhere at h ⊢
  rw [List.splitOnP_cons_eq_if_modifyHead] at h
  by_cases hc : p c = true
  · rw [if_pos hc] at h
    rcases List.mem_cons.1 h with rfl | h
    · exact Or.inl rfl
    · exact Or.inr (Or.inl h)
  · rw [if_neg hc] at h
    cases hparts : t.splitOnP p with
    | nil => exact absurd hparts (List.splitOnP_ne_nil p t)
    | cons first parts =>
      rw [hparts, List.modifyHead_cons] at h
      rcases List.mem_cons.1 h with rfl | h
      · exact Or.inr (Or.inr ⟨by simpa using hc, first, List.mem_cons_self, rfl⟩)
      · exact Or.inr (Or.inl (List.mem_cons_of_mem first h))

/-- A part of a text has no character in it that the text is cut at. -/
theorem of_mem_splitWhere {p : Char → Bool} {t part : Text} (h : part ∈ splitWhere p t) :
    part.Sublist t ∧ ∀ c ∈ part, p c = false := by
  induction t generalizing part with
  | nil =>
    rw [splitWhere, List.splitOnP_nil, List.mem_singleton] at h
    simp [h]
  | cons c t ih =>
    rcases mem_splitWhere_cons h with rfl | h | ⟨hc, first, hfirst, rfl⟩
    · simp
    · obtain ⟨hpart, hnot⟩ := ih h
      exact ⟨hpart.cons c, hnot⟩
    · obtain ⟨hpart, hnot⟩ := ih hfirst
      exact ⟨hpart.cons_cons c, by simpa [hc] using hnot⟩

/-- A word is not empty and has no blanks in it. -/
theorem of_mem_words {t word : Text} (h : word ∈ words t) :
    word ≠ [] ∧ ∀ c ∈ word, isBlank c = false := by
  obtain ⟨hpart, hword⟩ := List.mem_filter.1 h
  exact ⟨by simpa using hword, (of_mem_splitWhere hpart).2⟩

/-- The words of a text are no longer than the text. -/
theorem length_le_of_mem_words {t word : Text} (h : word ∈ words t) : word.length ≤ t.length :=
  (of_mem_splitWhere (List.mem_filter.1 h).1).1.length_le

/-- A text without blanks is one word. -/
theorem words_eq_singleton {t : Text} (ht : t ≠ []) (hblank : ∀ c ∈ t, isBlank c = false) :
    words t = [t] := by
  have hsplit : splitWhere isBlank t = [t] :=
    List.splitOnP_eq_singleton fun c hc => by simp [hblank c hc]
  rw [words, hsplit]
  simp [ht]

end ClassHints.Text

namespace ClassHints

/-- Erasing duplicates leaves none. -/
theorem nodup_eraseDups {α : Type} [BEq α] [LawfulBEq α] (l : List α) : l.eraseDups.Nodup := by
  induction l using List.reverseRecOn with
  | nil => exact List.nodup_nil
  | append_singleton l a ih =>
    rw [List.eraseDups_append]
    by_cases hmem : a ∈ l
    · have hnone : [a].removeAll l = [] := by simp [List.removeAll, hmem]
      rwa [hnone, List.eraseDups_nil, List.append_nil]
    · have hone : [a].removeAll l = [a] := by simp [List.removeAll, hmem]
      rw [hone]
      refine List.nodup_append.2 ⟨ih, List.nodup_singleton a, ?_⟩
      intro x hx y hy heq
      rw [List.mem_eraseDups] at hx
      rw [List.mem_eraseDups, List.mem_singleton] at hy
      exact hmem (by rwa [← hy, ← heq])

/-- Entries that are all there lose their repetitions as what they hold does. -/
theorem eraseDups_map_some {α : Type} [BEq α] [LawfulBEq α] (l : List α) :
    (l.map some).eraseDups = l.eraseDups.map some := by
  induction hn : l.length using Nat.strongRecOn generalizing l with
  | ind n ih =>
    cases l with
    | nil => rfl
    | cons a l =>
      have hfilter : (l.map some).filter (fun b => !b == some a) =
          (l.filter fun b => !b == a).map some := by
        rw [List.filter_map]
        rfl
      have hshort : (l.filter fun b => !b == a).length < n := by
        have hle := List.length_filter_le (fun b => !b == a) l
        rw [List.length_cons] at hn
        omega
      rw [List.map_cons, List.eraseDups_cons, List.eraseDups_cons, List.map_cons, hfilter,
        ih _ hshort _ rfl]

end ClassHints

namespace ClassHints.Sheet

/-- Without a slash there is no comment to strip. -/
theorem stripComments_eq_self {t : Text} (h : '/' ∉ t) : stripComments t = t := by
  unfold stripComments
  induction t with
  | nil => rfl
  | cons c t ih =>
    have hc : c ≠ '/' := fun heq => h (by simp [heq])
    have ht : '/' ∉ t := fun hmem => h (by simp [hmem])
    rw [stripCommentsFrom]
    · rw [ih ht]
    · intro rest heq
      exact absurd heq hc

/-- Comments are stripped part by part, where no comment bracket lies across the parts. -/
theorem exists_stripComments_append {t : Text} (h : ∀ c ∈ t.getLast?, c ≠ '/' ∧ c ≠ '*')
    (u : Text) : ∃ v, stripComments (t ++ u) = stripComments t ++ v := by
  have hstep (inside : Bool) : ∃ inside', stripCommentsFrom inside (t ++ u) =
      stripCommentsFrom inside t ++ stripCommentsFrom inside' u := by
    fun_induction stripCommentsFrom inside t with
    | case1 rest ih =>
      obtain ⟨inside', hrest⟩ := ih (by cases rest <;> simp_all)
      exact ⟨inside', by rw [← hrest]; rfl⟩
    | case2 rest ih =>
      obtain ⟨inside', hrest⟩ := ih (by cases rest <;> simp_all)
      exact ⟨inside', by rw [← hrest]; rfl⟩
    | case3 c rest hno ih =>
      obtain ⟨inside', hrest⟩ := ih (by cases rest <;> simp_all)
      refine ⟨inside', ?_⟩
      rw [List.cons_append, List.cons_append, stripCommentsFrom, hrest]
      intro v hc hv
      cases rest with
      | nil => exact (h c rfl).1 hc
      | cons d rest => exact hno rest hc (by rw [(List.cons.inj hv).1])
    | case4 c rest hno ih =>
      obtain ⟨inside', hrest⟩ := ih (by cases rest <;> simp_all)
      refine ⟨inside', ?_⟩
      rw [List.cons_append, stripCommentsFrom, hrest]
      intro v hc hv
      cases rest with
      | nil => exact (h c rfl).2 hc
      | cons d rest => exact hno rest hc (by rw [(List.cons.inj hv).1])
    | case5 inside => exact ⟨inside, rfl⟩
  obtain ⟨inside, hstrip⟩ := hstep false
  exact ⟨_, hstrip⟩

end ClassHints.Sheet
