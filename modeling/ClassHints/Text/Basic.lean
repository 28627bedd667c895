/-!
# Texts

A text is a list of characters. Places in it are counted in UTF-8 bytes, columns in
characters or in UTF-16 units. This file has these measures and the cutting of a text at
a given piece of text; the lemmas say that nothing is lost by a cut.
-/

namespace ClassHints

/-- A text, character by character. -/
abbrev Text := List Char

namespace Text

/-- Number of bytes of the UTF-8 form of a text. -/
def byteLength : Text → Nat
  | [] => 0
  | c :: t => c.utf8Size + byteLength t

/-- Number of UTF-16 units of a character: two beyond the basic plane. -/
def unitSize (c : Char) : Nat := if c.toNat < 0x10000 then 1 else 2

/-- Number of UTF-16 units of a text. -/
def unitLength : Text → Nat
  | [] => 0
  | c :: t => unitSize c + unitLength t

/-- What follows `lead` in a text that starts with it. -/
def after? : Text → Text → Option Text
  | [], t => some t
  | _ :: _, [] => none
  | a :: lead, c :: t => if a = c then after? lead t else none

/-- Whether a text starts with `lead`. -/
def startsWith (t lead : Text) : Bool := (after? lead t).isSome

/-- What comes before `tail` in a text that ends with it. -/
def before? (tail t : Text) : Option Text := (after? tail.reverse t.reverse).map List.reverse

/-- Whether a text ends with `tail`. -/
def endsWith (t tail : Text) : Bool := (before? tail t).isSome

/-- The text before and the text after the first occurrence of `piece`. -/
def cut? (piece : Text) : Text → Option (Text × Text)
  | [] => (after? piece []).map ([], ·)
  | c :: t =>
    match after? piece (c :: t) with
    | some rest => some ([], rest)
    | none => (cut? piece t).map fun (before, rest) => (c :: before, rest)

/-- Whether `piece` occurs in a text. -/
def mentions (t piece : Text) : Bool := (cut? piece t).isSome

/-- The text before and the text after the first `mark`. -/
def cutAt? (mark : Char) (t : Text) : Option (Text × Text) := cut? [mark] t

/-- The part of a text before the first occurrence of `piece`, or all of it. -/
def upTo (piece t : Text) : Text := ((cut? piece t).map Prod.fst).getD t

/-- The pieces of a text between the characters that satisfy `p`. -/
def splitWhere (p : Char → Bool) (t : Text) : List Text := t.splitOnP p

/-- Texts put together with `glue` between them. -/
def join (glue : Text) (ts : List Text) : Text := glue.intercalate ts

/-- The empty text has no bytes. -/
@[simp]
theorem byteLength_nil : byteLength [] = 0 := rfl

/-- The first character adds its bytes to those of the rest. -/
@[simp]
theorem byteLength_cons (c : Char) (t : Text) :
    byteLength (c :: t) = c.utf8Size + byteLength t := rfl

/-- The bytes of two texts one after the other add up. -/
@[simp]
theorem byteLength_append (s t : Text) : byteLength (s ++ t) = byteLength s + byteLength t := by
  induction s with
  | nil => simp
  | cons c s ih => simp [ih, Nat.add_assoc]

/-- The first character adds its UTF-16 units to those of the rest. -/
@[simp]
theorem unitLength_cons (c : Char) (t : Text) :
    unitLength (c :: t) = unitSize c + unitLength t := rfl

/-- The UTF-16 units of two texts one after the other add up. -/
@[simp]
theorem unitLength_append (s t : Text) : unitLength (s ++ t) = unitLength s + unitLength t := by
  induction s with
  | nil => simp [unitLength]
  | cons c s ih => simp [ih, Nat.add_assoc]

/-- Every text starts with each of its own beginnings. -/
@[simp]
theorem after?_append (lead t : Text) : after? lead (lead ++ t) = some t := by
  induction lead with
  | nil => rfl
  | cons a lead ih => simp [after?, ih]

/-- A recognised beginning and the rest make up the text. -/
theorem eq_append_of_after? {lead t rest : Text} (h : after? lead t = some rest) :
    t = lead ++ rest := by
  induction lead generalizing t with
  | nil => simpa [after?] using h
  | cons a lead ih =>
    cases t with
    | nil => simp [after?] at h
    | cons c t =>
      by_cases hac : a = c
      · simp only [after?, hac, if_true] at h
        simp [hac, ih h]
      · simp [after?, hac] at h

/-- Every text ends with each of its own ends. -/
@[simp]
theorem before?_append (t tail : Text) : before? tail (t ++ tail) = some t := by
  simp [before?]

/-- A recognised end and what comes before it make up the text. -/
theorem eq_append_of_before? {tail t rest : Text} (h : before? tail t = some rest) :
    t = rest ++ tail := by
  obtain ⟨r, hr, rfl⟩ := Option.map_eq_some_iff.1 h
  have heq := congrArg List.reverse (eq_append_of_after? hr)
  simpa using heq

/-- A cut loses nothing: the two parts and the piece between them make up the text. -/
theorem eq_append_of_cut? {piece t before rest : Text} (h : cut? piece t = some (before, rest)) :
    t = before ++ piece ++ rest := by
  induction t generalizing before with
  | nil =>
    obtain ⟨r, hr, heq⟩ := Option.map_eq_some_iff.1 h
    obtain ⟨rfl, rfl⟩ := Prod.mk.inj heq
    simpa using eq_append_of_after? hr
  | cons c t ih =>
    cases ha : after? piece (c :: t) with
    | some r =>
      simp only [cut?, ha, Option.some.injEq, Prod.mk.injEq] at h
      obtain ⟨rfl, rfl⟩ := h
      simpa using eq_append_of_after? ha
    | none =>
      simp only [cut?, ha] at h
      obtain ⟨⟨b, r⟩, hc, heq⟩ := Option.map_eq_some_iff.1 h
      obtain ⟨rfl, rfl⟩ := Prod.mk.inj heq
      simp [ih hc]

end Text

end ClassHints
