import ClassHints.Proofs.Text
import ClassHints.Text.Ascii
import Mathlib.Data.UInt

/-!
# Texts as bytes

The UTF-8 bytes of a text, and the places where the text may be cut. An ASCII character is one
byte, and all bytes of any other character lie beyond ASCII. So a test for ASCII characters means
the same byte by byte as character by character, wherever in a character it is made.
-/

namespace ClassHints.Text

/-- The UTF-8 bytes of a text. -/
def utf8 (t : Text) : List UInt8 := t.flatMap String.utf8EncodeChar

/-- The text that bytes are the UTF-8 form of, if there is one. -/
def decode? (bytes : List UInt8) : Option Text := bytes.toByteArray.utf8Decode?.map Array.toList

/-- The two parts of a text at a byte offset. Inside a character and behind the end there are
none. -/
def splitByte? : Nat → Text → Option (Text × Text)
  | 0, t => some ([], t)
  | _ + 1, [] => none
  | n + 1, c :: t =>
    if c.utf8Size ≤ n + 1 then
      (splitByte? (n + 1 - c.utf8Size) t).map fun (before, after) => (c :: before, after)
    else none

/-- The empty text has no bytes. -/
@[simp]
theorem utf8_nil : utf8 [] = [] := rfl

/-- The bytes of the first character come first. -/
theorem utf8_cons (c : Char) (t : Text) : utf8 (c :: t) = String.utf8EncodeChar c ++ utf8 t :=
  List.flatMap_cons

/-- The bytes of two texts one after the other are those of the first, then of the second. -/
@[simp]
theorem utf8_append (s t : Text) : utf8 (s ++ t) = utf8 s ++ utf8 t := List.flatMap_append

/-- The byte length of a text is the number of its bytes. -/
@[simp]
theorem length_utf8 (t : Text) : (utf8 t).length = byteLength t := by
  induction t with
  | nil => rfl
  | cons c t ih =>
    rw [utf8_cons, List.length_append, String.length_utf8EncodeChar, ih, byteLength_cons]

/-- As many bytes as the front of a text has are the bytes of the front. -/
theorem take_utf8_append (s t : Text) : (utf8 (s ++ t)).take (byteLength s) = utf8 s := by
  rw [utf8_append]
  exact List.take_left' (length_utf8 s)

/-- Without as many bytes as the front of a text has the bytes of the rest are left. -/
theorem drop_utf8_append (s t : Text) : (utf8 (s ++ t)).drop (byteLength s) = utf8 t := by
  rw [utf8_append]
  exact List.drop_left' (length_utf8 s)

/-- Bytes can be dropped character by character. -/
theorem drop_utf8 (t : Text) (n : Nat) :
    (utf8 t).drop (byteLength (t.take n)) = utf8 (t.drop n) := by
  have hdrop := drop_utf8_append (t.take n) (t.drop n)
  rwa [List.take_append_drop] at hdrop

/-- The bytes of a text are decoded to the text. -/
theorem decode?_utf8 (t : Text) : decode? (utf8 t) = some t := by
  have hdecode : (utf8 t).toByteArray.utf8Decode? = some t.toArray := List.utf8Decode?_utf8Encode
  rw [decode?, hdecode]
  rfl

/-- A text is cut in two exactly at the boundaries of its characters. -/
theorem splitByte?_eq_some_iff {n : Nat} {t before after : Text} :
    splitByte? n t = some (before, after) ↔ t = before ++ after ∧ byteLength before = n := by
  fun_induction splitByte? n t generalizing before with
  | case1 t =>
    cases before with
    | nil => simp
    | cons c before =>
      have hsize := c.utf8Size_pos
      simp
      omega
  | case2 n =>
    simp only [reduceCtorEq, false_iff, not_and]
    intro h hlength
    rw [(List.append_eq_nil_iff.1 h.symm).1] at hlength
    cases hlength
  | case3 n c t hle ih =>
    cases before with
    | nil => simp
    | cons d before =>
      simp only [Option.map_eq_some_iff, Prod.exists, Prod.mk.injEq, List.cons.injEq,
        List.cons_append, byteLength_cons]
      constructor
      · rintro ⟨before', after', hsplit, ⟨rfl, rfl⟩, rfl⟩
        obtain ⟨rfl, hlength⟩ := ih.1 hsplit
        exact ⟨⟨rfl, rfl⟩, by omega⟩
      · rintro ⟨⟨rfl, rfl⟩, hlength⟩
        exact ⟨before, after, ih.2 ⟨rfl, by omega⟩, ⟨rfl, rfl⟩, rfl⟩
  | case4 n c t hlt =>
    simp only [reduceCtorEq, false_iff, not_and]
    intro h hlength
    cases before with
    | nil => cases hlength
    | cons d before =>
      obtain ⟨rfl, -⟩ := List.cons.inj h
      rw [byteLength_cons] at hlength
      omega

/-- A text is split at the byte length of its front into the front and the rest. -/
theorem splitByte?_append (s t : Text) : splitByte? (byteLength s) (s ++ t) = some (s, t) :=
  splitByte?_eq_some_iff.2 ⟨rfl, rfl⟩

/-! ## Characters of one byte and of several -/

/-- A character beyond ASCII is no ASCII character. -/
theorem ne_of_le_of_lt {a c : Char} (hc : 0x80 ≤ c.toNat) (ha : a.toNat < 0x80) : c ≠ a := by
  rintro rfl
  omega

/-- An ASCII character is one byte. -/
theorem utf8EncodeChar_of_lt {c : Char} (h : c.toNat < 0x80) :
    ∃ b : UInt8, String.utf8EncodeChar c = [b] ∧ b.toChar = c := by
  have hle : c.val.toNat ≤ 127 := Nat.le_of_lt_succ h
  refine ⟨UInt8.ofNat c.val.toNat, ?_, ?_⟩
  · simp only [String.utf8EncodeChar, if_pos hle]
  · apply Char.ext
    apply UInt32.toNat.inj
    change (UInt8.ofNat c.val.toNat).toUInt32.toNat = c.val.toNat
    rw [UInt8.toNat_toUInt32, UInt8.toNat_ofNat']
    omega

/-- All bytes of any other character lie beyond ASCII. -/
theorem le_of_mem_utf8EncodeChar {c : Char} (h : 0x80 ≤ c.toNat) {b : UInt8}
    (hb : b ∈ String.utf8EncodeChar c) : 0x80 ≤ b.toChar.toNat := by
  have hlt : ¬c.val.toNat ≤ 127 := Nat.not_le_of_lt h
  change 0x80 ≤ b.toNat
  simp only [String.utf8EncodeChar, if_neg hlt] at hb
  split at hb
  · simp only [List.mem_cons, List.not_mem_nil, or_false] at hb
    rcases hb with rfl | rfl <;> rw [UInt8.toNat_ofNat'] <;> omega
  · split at hb
    · simp only [List.mem_cons, List.not_mem_nil, or_false] at hb
      rcases hb with rfl | rfl | rfl <;> rw [UInt8.toNat_ofNat'] <;> omega
    · simp only [List.mem_cons, List.not_mem_nil, or_false] at hb
      rcases hb with rfl | rfl | rfl | rfl <;> rw [UInt8.toNat_ofNat'] <;> omega

/-- The bytes of a character: the character itself, or bytes beyond ASCII. -/
theorem utf8EncodeChar_cases (c : Char) :
    (c.utf8Size = 1 ∧ ∃ b : UInt8, String.utf8EncodeChar c = [b] ∧ b.toChar = c) ∨
      (0x80 ≤ c.toNat ∧ ∃ (b : UInt8) (bs : List UInt8), String.utf8EncodeChar c = b :: bs ∧
        bs.length + 1 = c.utf8Size ∧ ∀ d ∈ b :: bs, 0x80 ≤ d.toChar.toNat) := by
  have hlength := String.length_utf8EncodeChar c
  by_cases h : c.toNat < 0x80
  · obtain ⟨b, hb, hc⟩ := utf8EncodeChar_of_lt h
    rw [hb] at hlength
    exact .inl ⟨hlength.symm, b, hb, hc⟩
  · have hle : 0x80 ≤ c.toNat := by omega
    obtain ⟨b, bs, hbs⟩ := List.exists_cons_of_ne_nil (String.utf8EncodeChar_ne_nil (c := c))
    have hhigh : ∀ d ∈ b :: bs, 0x80 ≤ d.toChar.toNat := fun d hd =>
      le_of_mem_utf8EncodeChar hle (by rwa [hbs])
    rw [hbs] at hlength
    exact .inr ⟨hle, b, bs, hbs, hlength, hhigh⟩

/-- An ASCII byte of a text is a character of it. -/
theorem toChar_mem_of_mem_utf8 {t : Text} {b : UInt8} (h : b ∈ utf8 t)
    (hb : b.toChar.toNat < 0x80) : b.toChar ∈ t := by
  obtain ⟨c, hc, hmem⟩ := List.mem_flatMap.1 h
  rcases utf8EncodeChar_cases c with ⟨-, d, hd, rfl⟩ | ⟨hle, -⟩
  · rw [hd, List.mem_singleton] at hmem
    rwa [hmem]
  · have hhigh := le_of_mem_utf8EncodeChar hle hmem
    omega

/-- Behind its first byte a character has only bytes beyond ASCII. -/
theorem exists_utf8EncodeChar_eq (c : Char) : ∃ (b : UInt8) (bs : List UInt8),
    String.utf8EncodeChar c = b :: bs ∧ bs.length + 1 = c.utf8Size ∧
      ∀ d ∈ bs, 0x80 ≤ d.toChar.toNat := by
  rcases utf8EncodeChar_cases c with ⟨hsize, b, hb, -⟩ | ⟨-, b, bs, hb, hsize, hhigh⟩
  · exact ⟨b, [], hb, hsize.symm, by simp⟩
  · exact ⟨b, bs, hb, hsize, fun d hd => hhigh d (List.mem_cons_of_mem b hd)⟩

/-! ## Tests for ASCII characters -/

/-- A test that no character beyond ASCII passes. -/
def AsciiOnly (p : Char → Bool) : Prop := ∀ c : Char, 0x80 ≤ c.toNat → p c = false

/-- Two tests that no character beyond ASCII passes can be joined to one. -/
theorem AsciiOnly.or {p q : Char → Bool} (hp : AsciiOnly p) (hq : AsciiOnly q) :
    AsciiOnly fun c => p c || q c := by
  intro c hc
  simp [hp c hc, hq c hc]

section Tests

variable {p : Char → Bool} (hp : AsciiOnly p)

include hp

/-- Where no character beyond ASCII passes a test, the first byte passes it exactly if the first
character does. -/
theorem any_head?_utf8 (t : Text) : (utf8 t).head?.any (p ·.toChar) = t.head?.any p := by
  cases t with
  | nil => rfl
  | cons c t =>
    rcases utf8EncodeChar_cases c with ⟨-, b, hb, rfl⟩ | ⟨hc, b, bs, hb, -, hhigh⟩
    · rw [utf8_cons, hb]
      rfl
    · rw [utf8_cons, hb]
      simp [hp c hc, hp _ (hhigh b (by simp))]

/-- Where no character beyond ASCII passes a test, the last byte passes it exactly if the last
character does. -/
theorem any_getLast?_utf8 (t : Text) :
    (utf8 t).getLast?.any (p ·.toChar) = t.getLast?.any p := by
  induction t using List.reverseRecOn with
  | nil => rfl
  | append_singleton t c _ =>
    rw [utf8_append, List.getLast?_concat, utf8_cons, utf8_nil, List.append_nil]
    rcases utf8EncodeChar_cases c with ⟨-, b, hb, rfl⟩ | ⟨hc, b, bs, hb, -, hhigh⟩
    · rw [hb]
      simp
    · rw [hb, List.getLast?_append_of_ne_nil _ (by simp), List.getLast?_eq_some_getLast (by simp),
        Option.any_some, Option.any_some, hp c hc, hp _ (hhigh _ (List.getLast_mem (by simp)))]

/-- Characters that pass a test for ASCII only have one byte each. -/
theorem byteLength_takeWhile (t : Text) : byteLength (t.takeWhile p) = (t.takeWhile p).length := by
  induction t with
  | nil => rfl
  | cons c t ih =>
    rw [List.takeWhile_cons]
    split
    · next hc =>
      rcases utf8EncodeChar_cases c with ⟨hsize, -⟩ | ⟨hle, -⟩
      · rw [byteLength_cons, hsize, ih, List.length_cons, Nat.add_comm]
      · rw [hp c hle] at hc
        cases hc
    · rfl

/-- The bytes at the front that pass a test for ASCII only are those of the characters that do. -/
theorem takeWhile_utf8 (t : Text) : (utf8 t).takeWhile (p ·.toChar) = utf8 (t.takeWhile p) := by
  induction t with
  | nil => rfl
  | cons c t ih =>
    rcases utf8EncodeChar_cases c with ⟨-, b, hb, rfl⟩ | ⟨hc, b, bs, hb, -, hhigh⟩
    · rw [utf8_cons, hb, List.singleton_append, List.takeWhile_cons, List.takeWhile_cons, ih]
      split
      · rw [utf8_cons, hb, List.singleton_append]
      · rfl
    · rw [List.takeWhile_cons_of_neg (by simp [hp c hc]), utf8_cons, hb, List.cons_append,
        List.takeWhile_cons_of_neg (by simp [hp _ (hhigh b (by simp))])]
      rfl

end Tests

/-- No character beyond ASCII is a given ASCII character. -/
theorem asciiOnly_beq (a : Char) (ha : a.toNat < 0x80) : AsciiOnly (· == a) := fun _ hc =>
  beq_false_of_ne (ne_of_le_of_lt hc ha)

section Places

variable {a : Char} (ha : a.toNat < 0x80)

include ha

/-- A text starts with an ASCII character exactly if its bytes start with that byte. -/
theorem head?_utf8_eq_some_iff {t : Text} :
    (utf8 t).head?.map UInt8.toChar = some a ↔ t.head? = some a := by
  have hany := any_head?_utf8 (asciiOnly_beq a ha) t
  rw [Bool.eq_iff_iff] at hany
  simpa [Option.any_eq_true] using hany

/-- A text ends with an ASCII character exactly if its bytes end with that byte. -/
theorem getLast?_utf8_eq_some_iff {t : Text} :
    (utf8 t).getLast?.map UInt8.toChar = some a ↔ t.getLast? = some a := by
  have hany := any_getLast?_utf8 (asciiOnly_beq a ha) t
  rw [Bool.eq_iff_iff] at hany
  simpa [Option.any_eq_true] using hany

end Places

/-! ## Words in ASCII -/

/-- Characters beyond ASCII have no other case. -/
theorem toLower_of_le {c : Char} (h : 0x80 ≤ c.toNat) : c.toLower = c := by
  have hno : ¬(c.val ≥ 'A'.val ∧ c.val ≤ 'Z'.val) := by
    rintro ⟨-, hle⟩
    have hsmall : c.toNat ≤ 'Z'.toNat := UInt32.le_iff_toNat_le.1 hle
    have hvalue : 'Z'.toNat = 90 := rfl
    omega
  exact dif_neg hno

/-- Beyond ASCII no character is the lower-case form of an ASCII character. -/
theorem toLower_ne_of_le {a c : Char} (ha : a.toNat < 0x80) (hc : 0x80 ≤ c.toNat) :
    c.toLower ≠ a := by
  rw [toLower_of_le hc]
  exact ne_of_le_of_lt hc ha

/-- Letters are compared one by one, without their case. -/
theorem sameLetters_cons (a c : Char) (s t : Text) :
    sameLetters (c :: s) (a :: t) = (c.toLower == a.toLower && sameLetters s t) := rfl

section Letters

variable {w : Text} (hw : ∀ a ∈ lower w, a.toNat < 0x80)

include hw

/-- An ASCII word is found byte by byte as it is character by character. -/
theorem sameLetters_utf8 (t : Text) :
    sameLetters (((utf8 t).take w.length).map UInt8.toChar) w =
      sameLetters (t.take w.length) w := by
  induction w generalizing t with
  | nil => rfl
  | cons a w ih =>
    obtain ⟨ha, hw⟩ := List.forall_mem_cons.1 hw
    cases t with
    | nil => rfl
    | cons c t =>
      rcases utf8EncodeChar_cases c with ⟨-, b, hb, rfl⟩ | ⟨hc, b, bs, hb, -, hhigh⟩
      · rw [utf8_cons, hb, List.singleton_append, List.length_cons, List.take_succ_cons,
          List.map_cons, List.take_succ_cons, sameLetters_cons, sameLetters_cons, ih hw]
      · rw [utf8_cons, hb, List.length_cons, List.cons_append, List.take_succ_cons, List.map_cons,
          List.take_succ_cons, sameLetters_cons, sameLetters_cons,
          beq_false_of_ne (toLower_ne_of_le ha hc),
          beq_false_of_ne (toLower_ne_of_le ha (hhigh b (by simp)))]
        rfl

/-- A text that starts with the letters of an ASCII word has the bytes of the word there. -/
theorem byteLength_of_sameLetters {t : Text} (h : sameLetters (t.take w.length) w = true) :
    byteLength (t.take w.length) = w.length := by
  induction w generalizing t with
  | nil => rfl
  | cons a w ih =>
    obtain ⟨ha, hw⟩ := List.forall_mem_cons.1 hw
    cases t with
    | nil => cases h
    | cons c t =>
      rw [List.length_cons, List.take_succ_cons, sameLetters_cons, Bool.and_eq_true,
        beq_iff_eq] at h
      rcases utf8EncodeChar_cases c with ⟨hsize, -⟩ | ⟨hc, -⟩
      · rw [List.length_cons, List.take_succ_cons, byteLength_cons, ih hw h.2, hsize, Nat.add_comm]
      · exact absurd h.1 (toLower_ne_of_le ha hc)

end Letters

end ClassHints.Text
