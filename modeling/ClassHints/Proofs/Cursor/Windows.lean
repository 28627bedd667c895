import ClassHints.Proofs.Cursor.ClassCheck

/-!
# Wider windows

The class check sees the text before the cursor through a window. A window with a longer lookback
or a lower floor has more characters in front, and what the narrower window shows the wider one
shows too, with one exception: the narrower window starts with a plain name, and the wider one has
a character before it that the name continues. There the cut makes up an attribute, out of the end
of a longer name.
-/

namespace ClassHints.Cursor

open Text

/-! ## Where a window starts -/

/-- The number of characters before the cursor that a window leaves out. -/
def windowStart (before : Text) (floor lookback : Nat) : Nat :=
  max (takeBytes floor before).length (before.length - lookback)

/-- A window is the end of the text before the cursor, from the place where it starts. -/
theorem window_eq_drop (t : Text) (offset floor lookback : Nat) :
    window t offset floor lookback =
      (takeBytes offset t).drop (windowStart (takeBytes offset t) floor lookback) := by
  have hfloor := (takeBytes_isPrefix floor (takeBytes offset t)).length_le
  rw [window, lastChars, List.drop_drop, List.length_drop, windowStart]
  congr 1
  omega

/-- A wider window has more characters in front, and is otherwise the same. -/
theorem exists_window_eq_append {t : Text} {offset floor floor' lookback lookback' : Nat}
    (hfloor : floor' ≤ floor) (hlookback : lookback ≤ lookback') :
    ∃ cut, window t offset floor' lookback' = cut ++ window t offset floor lookback := by
  have hbytes := length_takeBytes_le hfloor (takeBytes offset t)
  have hstart : windowStart (takeBytes offset t) floor' lookback' ≤
      windowStart (takeBytes offset t) floor lookback := by
    unfold windowStart
    omega
  rw [window_eq_drop, window_eq_drop, ← Nat.add_sub_of_le hstart, ← List.drop_drop]
  exact ⟨_, (List.take_append_drop _ _).symm⟩

/-! ## What wider windows show -/

/-- A window starts with a plain name and an open value, and what was cut off before it ends with
a part of a word: the name is the end of a longer one. -/
def CutFromWord (cut narrow : Text) : Prop :=
  ∃ name ∈ classNames, name ≠ bracketedName ∧ OpenAttribute isBlank name narrow ∧
    ∃ c ∈ cut.getLast?, isWordPart c = true

section

variable {cut narrow : Text}

/-- Such a window passes for an open class attribute, as nothing stands before the name. -/
theorem CutFromWord.exists_shows (h : CutFromWord cut narrow) :
    ∃ name, Shows narrow name narrow := by
  obtain ⟨name, hname, -, hopens, -⟩ := h
  exact ⟨name, hname, hopens, [], rfl, fun _ _ hc => by cases hc⟩

variable {name t : Text}

/-- Behind a cut that falls into no word, what a window shows is seen through a wider one. -/
theorem Shows.append_left (h : Shows narrow name t) (hcut : ¬CutFromWord cut narrow) :
    Shows (cut ++ narrow) name t := by
  obtain ⟨hname, hopens, lead, rfl, hbefore⟩ := h
  refine ⟨hname, hopens, cut ++ lead, by rw [List.append_assoc], ?_⟩
  intro hplain c hc
  rw [List.getLast?_append] at hc
  cases hlast : lead.getLast? with
  | some d =>
    rw [hlast] at hc
    obtain rfl := Option.some.inj hc
    exact hbefore hplain _ hlast
  | none =>
    -- the attribute starts at the cut
    rw [hlast, Option.none_or] at hc
    obtain rfl := List.getLast?_eq_none_iff.1 hlast
    rw [← Bool.not_eq_true]
    intro hword
    exact hcut ⟨name, hname, hplain, hopens, c, hc, hword⟩

/-- A cut hides only attributes that start before it. -/
theorem Shows.of_append_left (h : Shows (cut ++ narrow) name t)
    (hbehind : t.length ≤ narrow.length) : Shows narrow name t := by
  obtain ⟨hname, hopens, lead, hlead, hbefore⟩ := h
  obtain ⟨lead', rfl⟩ : t <:+ narrow :=
    List.suffix_of_suffix_length_le (hlead ▸ List.suffix_append lead t)
      (List.suffix_append cut narrow) hbehind
  refine ⟨hname, hopens, lead', rfl, ?_⟩
  intro hplain c hc
  refine hbefore hplain c ?_
  rw [← List.append_assoc] at hlead
  rw [← List.append_cancel_right hlead, List.getLast?_append, hc]
  rfl

end

/-- A narrow window shows an open class attribute exactly if a wider one shows one that starts
behind the cut, or the cut falls into a name that ends like that of a class attribute. So widening
a window keeps the answer, unless the narrow window is made up in this way and the wider one shows
no other open attribute. -/
theorem classAttributeOpen_of_narrower {t : Text} {offset floor floor' lookback lookback' : Nat}
    (hfloor : floor' ≤ floor) (hlookback : lookback ≤ lookback') :
    ∃ cut, window t offset floor' lookback' = cut ++ window t offset floor lookback ∧
      (classAttributeOpen t offset floor lookback = true ↔
        (∃ name u, Shows (window t offset floor' lookback') name u ∧
          u.length ≤ (window t offset floor lookback).length) ∨
        CutFromWord cut (window t offset floor lookback)) ∧
      ((classAttributeOpen t offset floor lookback = true →
          classAttributeOpen t offset floor' lookback' = true) ↔
        (CutFromWord cut (window t offset floor lookback) →
          classAttributeOpen t offset floor' lookback' = true)) := by
  obtain ⟨cut, hcut⟩ := @exists_window_eq_append t offset _ _ _ _ hfloor hlookback
  have hmadeUp (hword : CutFromWord cut (window t offset floor lookback)) :
      classAttributeOpen t offset floor lookback = true := by
    obtain ⟨name, hshows⟩ := hword.exists_shows
    exact classAttributeOpen_iff.2 ⟨name, _, hshows⟩
  have hnarrow : classAttributeOpen t offset floor lookback = true ↔
      (∃ name u, Shows (window t offset floor' lookback') name u ∧
        u.length ≤ (window t offset floor lookback).length) ∨
      CutFromWord cut (window t offset floor lookback) := by
    constructor
    · intro hopen
      obtain ⟨name, u, hshows⟩ := classAttributeOpen_iff.1 hopen
      by_cases hword : CutFromWord cut (window t offset floor lookback)
      · exact Or.inr hword
      · refine Or.inl ⟨name, u, hcut ▸ hshows.append_left hword, ?_⟩
        obtain ⟨lead, hlead, -⟩ := hshows.found
        rw [hlead, List.length_append]
        exact Nat.le_add_left _ _
    · rintro (⟨name, u, hshows, hbehind⟩ | hword)
      · rw [hcut] at hshows
        exact classAttributeOpen_iff.2 ⟨name, u, hshows.of_append_left hbehind⟩
      · exact hmadeUp hword
  refine ⟨cut, hcut, hnarrow, fun hkeeps hword => hkeeps (hmadeUp hword), ?_⟩
  intro hother hopen
  rcases hnarrow.1 hopen with ⟨name, u, hshows, -⟩ | hword
  · exact classAttributeOpen_iff.2 ⟨name, u, hshows⟩
  · exact hother hword

/-- A tag with an attribute whose name ends like that of a class attribute. -/
def longerName : Text := "<p xclass=\"a b".toList

/-- A floor or a lookback that ends inside the name makes up a class attribute. -/
theorem classAttributeOpen_of_narrower_longerName :
    classAttributeOpen longerName 14 4 500 = true ∧ classAttributeOpen longerName 14 0 10 = true ∧
    classAttributeOpen longerName 14 0 500 = false ∧
    (∃ cut, CutFromWord cut (window longerName 14 4 500)) ∧
    ∃ cut, CutFromWord cut (window longerName 14 0 10) := by
  have hfloor : classAttributeOpen longerName 14 4 500 = true := by decide +kernel
  have hlookback : classAttributeOpen longerName 14 0 10 = true := by decide +kernel
  have hwide : classAttributeOpen longerName 14 0 500 = false := by decide +kernel
  obtain ⟨cut, -, -, hkeeps⟩ :=
    @classAttributeOpen_of_narrower longerName 14 4 0 500 500 (by decide) (by decide)
  obtain ⟨cut', -, -, hkeeps'⟩ :=
    @classAttributeOpen_of_narrower longerName 14 0 0 10 500 (by decide) (by decide)
  refine ⟨hfloor, hlookback, hwide, ⟨cut, ?_⟩, cut', ?_⟩
  · by_contra hword
    rw [hkeeps.2 (fun h => absurd h hword) hfloor] at hwide
    cases hwide
  · by_contra hword
    rw [hkeeps'.2 (fun h => absurd h hword) hlookback] at hwide
    cases hwide

end ClassHints.Cursor
