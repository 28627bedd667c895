import ClassHints.Text.Basic
import Mathlib.Data.List.DropRight
import Mathlib.Data.List.Induction
import Mathlib.Data.Prod.Lex

/-!
# Lines and columns

A ruler says which characters end a line and how many columns a character fills. The place behind
a text is given by the lines that end in the text and by the columns behind the last line end. A
carriage return and the line feed behind it end one line together, so that lines can be counted
part by part only where no part ends between the two. Places further on in a text are greater, by
lines first and by columns then.
-/

namespace ClassHints

open Text

/-- A way to count lines and columns. -/
structure Ruler where
  /-- Whether a character ends a line. -/
  ends : Char → Bool
  /-- Number of columns that a character fills. -/
  width : Char → Nat
  ends_newline : ends '\n' = true
  width_pos : ∀ c, 0 < width c

/-- Every character has UTF-16 units. -/
theorem Text.unitSize_pos (c : Char) : 0 < unitSize c := by
  unfold unitSize
  split <;> omega

/-- The place between two texts is inside a line end. -/
def CutsLineEnd (before after : Text) : Prop :=
  before.getLast? = some '\r' ∧ after.head? = some '\n'

namespace Ruler

variable (r : Ruler)

/-- Number of lines that end in a text. A carriage return leaves it to the line feed behind it to
end their line. -/
def breaks : Text → Nat
  | [] => 0
  | c :: t => (if r.ends c && !(c == '\r' && t.head? == some '\n') then 1 else 0) + breaks t

/-- The part of a text behind its last line end. -/
def lastLine (t : Text) : Text := t.rtakeWhile (!r.ends ·)

/-- Number of columns of a text in one line. -/
def columns : Text → Nat
  | [] => 0
  | c :: t => r.width c + columns t

/-- The place behind a text: lines before it and columns to its left. -/
def place (t : Text) : Nat × Nat := (r.breaks t, r.columns (r.lastLine t))

/-- The empty text has no line end in it. -/
@[simp]
theorem breaks_nil : r.breaks [] = 0 := rfl

/-- The last line of the empty text is empty. -/
@[simp]
theorem lastLine_nil : r.lastLine [] = [] := List.rtakeWhile_nil _

/-- The empty text has no columns. -/
@[simp]
theorem columns_nil : r.columns [] = 0 := rfl

/-- The first character adds its width to the columns. -/
@[simp]
theorem columns_cons (c : Char) (t : Text) : r.columns (c :: t) = r.width c + r.columns t := rfl

/-- The columns of two texts one after the other add up. -/
@[simp]
theorem columns_append (s t : Text) : r.columns (s ++ t) = r.columns s + r.columns t := by
  induction s with
  | nil => simp
  | cons c s ih => rw [List.cons_append, columns_cons, columns_cons, ih, Nat.add_assoc]

/-- Lines are counted part by part, except inside a line end. -/
theorem breaks_append {s t : Text} (h : ¬CutsLineEnd s t) :
    r.breaks (s ++ t) = r.breaks s + r.breaks t := by
  induction s with
  | nil => simp
  | cons c s ih =>
    cases s with
    | nil =>
      have hsame : (c == '\r' && t.head? == some '\n') = false := by
        simpa [CutsLineEnd] using h
      rw [List.singleton_append, breaks, hsame]
      simp [breaks]
    | cons d s =>
      have hrest : ¬CutsLineEnd (d :: s) t := by simpa [CutsLineEnd] using h
      have hhead : ((d :: s) ++ t).head? = (d :: s).head? := rfl
      rw [List.cons_append, breaks, ih hrest, hhead, ← Nat.add_assoc]
      rfl

/-- A character that ends a line by itself. -/
theorem breaks_cons_of_ends {c : Char} {t : Text} (h : r.ends c = true)
    (hcut : ¬CutsLineEnd [c] t) : r.breaks (c :: t) = r.breaks t + 1 := by
  have hone : r.breaks [c] = 1 := by simp [breaks, h]
  rw [← List.singleton_append, r.breaks_append hcut, hone, Nat.add_comm]

/-- A carriage return and its line feed end one line. -/
theorem breaks_pair (t : Text) : r.breaks ('\r' :: '\n' :: t) = r.breaks t + 1 := by
  rw [breaks, r.breaks_cons_of_ends r.ends_newline (by simp [CutsLineEnd])]
  simp

/-- A character in front that ends no line adds no line. -/
theorem breaks_cons_of_not_ends {c : Char} (t : Text) (h : r.ends c = false) :
    r.breaks (c :: t) = r.breaks t := by
  simp [breaks, h]

/-- A text in which no line ends has none of the characters that end one: a carriage return that
leaves it to a line feed has that line feed behind it. -/
theorem breaks_eq_zero_iff {t : Text} : r.breaks t = 0 ↔ ∀ c ∈ t, r.ends c = false := by
  induction t with
  | nil => simp
  | cons c t ih =>
    rw [breaks, Nat.add_eq_zero_iff, ih, List.forall_mem_cons]
    refine and_congr_left fun hrest => ?_
    have hno : (t.head? == some '\n') = false := by
      cases t with
      | nil => rfl
      | cons d t =>
        have hd := hrest d List.mem_cons_self
        have hne : d ≠ '\n' := by
          rintro rfl
          rw [r.ends_newline] at hd
          cases hd
        simpa using hne
    simp [hno]

/-- Where no line ends any more, the last line only grows. -/
theorem lastLine_append (s : Text) {t : Text} (h : ∀ c ∈ t, r.ends c = false) :
    r.lastLine (s ++ t) = r.lastLine s ++ t := by
  have hall : ∀ c ∈ t.reverse, (!r.ends c) = true := by
    intro c hc
    rw [h c (List.mem_reverse.1 hc)]
    rfl
  unfold lastLine List.rtakeWhile
  rw [List.reverse_append, List.takeWhile_append_of_pos hall, List.reverse_append,
    List.reverse_reverse]

/-- Behind one more character a line end counts once, and a line feed behind a carriage return
that has ended a line ends no other one. -/
theorem breaks_concat (t : Text) (c : Char) : r.breaks (t ++ [c]) =
    if c = '\n' ∧ t.getLast? = some '\r' ∧ r.ends '\r' = true then r.breaks t
    else if r.ends c then r.breaks t + 1 else r.breaks t := by
  by_cases hcut : CutsLineEnd t [c]
  · obtain ⟨hlast, hhead⟩ := hcut
    obtain rfl := Option.some.inj hhead
    obtain ⟨s, rfl⟩ := List.getLast?_eq_some_iff.1 hlast
    have hpair : r.breaks (s ++ ['\r'] ++ ['\n']) = r.breaks s + 1 := by
      rw [List.append_assoc, r.breaks_append (by simp [CutsLineEnd])]
      exact congrArg (r.breaks s + ·) (r.breaks_pair [])
    have hone : r.breaks (s ++ ['\r']) = r.breaks s + if r.ends '\r' then 1 else 0 := by
      rw [r.breaks_append (by simp [CutsLineEnd])]
      simp [breaks]
    rw [hpair, hone]
    cases r.ends '\r' <;> simp [r.ends_newline]
  · have hsum : r.breaks (t ++ [c]) = r.breaks t + if r.ends c then 1 else 0 := by
      rw [r.breaks_append hcut]
      simp [breaks]
    have hno : ¬(c = '\n' ∧ t.getLast? = some '\r' ∧ r.ends '\r' = true) := by
      rintro ⟨rfl, hlast, -⟩
      exact hcut ⟨hlast, rfl⟩
    rw [hsum, if_neg hno]
    cases r.ends c <;> rfl

/-- A character at the end is on the last line unless it ends that line. -/
theorem lastLine_concat (t : Text) (c : Char) :
    r.lastLine (t ++ [c]) = if r.ends c then [] else r.lastLine t ++ [c] := by
  unfold lastLine
  rw [List.rtakeWhile_concat]
  cases r.ends c <;> rfl

/-- Where a line ends, what lies before it is no part of the last line. -/
theorem lastLine_append_of_ends (s : Text) {t : Text} (h : ∃ c ∈ t, r.ends c = true) :
    r.lastLine (s ++ t) = r.lastLine t := by
  induction t using List.reverseRecOn with
  | nil =>
    obtain ⟨c, hc, -⟩ := h
    cases hc
  | append_singleton t c ih =>
    rw [← List.append_assoc, lastLine_concat, lastLine_concat]
    cases hc : r.ends c with
    | true => rfl
    | false =>
      obtain ⟨d, hd, hends⟩ := h
      rcases List.mem_append.1 hd with hd | hd
      · rw [ih ⟨d, hd, hends⟩]
      · rw [List.mem_singleton.1 hd, hc] at hends
        cases hends

/-- Behind a character that ends no line, the line is a later one or it has grown by that
character at least. -/
theorem breaks_lt_or (s u : Text) {c : Char} (h : r.ends c = false) :
    r.breaks s < r.breaks (s ++ c :: u) ∨ r.breaks (s ++ c :: u) = r.breaks s ∧
      r.columns (r.lastLine s) + r.width c ≤ r.columns (r.lastLine (s ++ c :: u)) := by
  have hne : c ≠ '\n' := by
    rintro rfl
    rw [r.ends_newline] at h
    cases h
  rw [r.breaks_append (by simp [CutsLineEnd, hne])]
  by_cases hzero : r.breaks (c :: u) = 0
  · right
    rw [r.lastLine_append s (r.breaks_eq_zero_iff.1 hzero), hzero]
    simp only [columns_append, columns_cons]
    omega
  · left
    omega

/-- Behind a character that ends a line, the line is a later one. -/
theorem breaks_lt {s u : Text} {c : Char} (h : r.ends c = true)
    (hcut : ¬CutsLineEnd s (c :: u)) : r.breaks s < r.breaks (s ++ c :: u) := by
  have hpos : r.breaks (c :: u) ≠ 0 := by
    intro hzero
    have hc := r.breaks_eq_zero_iff.1 hzero c List.mem_cons_self
    rw [h] at hc
    cases hc
  rw [r.breaks_append hcut]
  omega

/-- Places further on in a text are greater. -/
theorem place_lt (s u : Text) {c : Char} (h : r.ends c = false) :
    toLex (r.place s) < toLex (r.place (s ++ c :: u)) := by
  have hwidth := r.width_pos c
  rw [Prod.Lex.toLex_lt_toLex]
  unfold place
  rcases r.breaks_lt_or s u h with hlt | ⟨heq, hle⟩
  · exact .inl hlt
  · exact .inr ⟨heq.symm, by dsimp only; omega⟩

end Ruler

end ClassHints
