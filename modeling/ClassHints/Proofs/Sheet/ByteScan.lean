import ClassHints.Proofs.Bytes
import ClassHints.Proofs.Sheet.Pieces
import ClassHints.Proofs.Sheet.Rulers

/-!
# Blanking byte by byte

The pass over a stylesheet that blanks out line comments, as it runs over the bytes of the text:
it goes from offset to offset, by one byte, behind an escape by two, or behind a whole string,
comment or address, and cuts the text at offsets it has come to. An escape may lead into the middle
of a character. That the pass agrees with the pieces of the text shows that it never cuts there, and
that it always comes to its end.
-/

namespace ClassHints.Sheet

open Text

/-! ## The pass -/

/-- What the pass over bytes keeps between two rounds. -/
structure ByteScan where
  /-- The bytes of the text, blanks in place of the line comments found so far. -/
  masked : List UInt8
  /-- The line comments found so far. -/
  comments : List Comment
  /-- Offsets of the braces that are open, innermost first. -/
  opened : List Nat
  /-- Number of parentheses open since the last brace. -/
  depth : Nat

/-- Why the pass over bytes gives no text. -/
inductive ByteFailure where
  /-- The text would be cut inside a character or behind its end. -/
  | cutsCharacter
  /-- A round does not go on. -/
  | standsStill
  /-- What is left is not UTF-8. -/
  | notText
  /-- The stylesheet is refused. -/
  | fault (fault : Fault)
  deriving DecidableEq, Repr

/-- Number of bytes up to and with a closing mark. A backslash takes the next byte with it, which
may be the first one of several; behind a newline no mark counts. -/
def closingByte? (mark : Char) : List UInt8 → Option Nat
  | [] => none
  | b :: rest =>
    if b.toChar = '\\' then (closingByte? mark (rest.drop 1)).map (· + 2)
    else if b.toChar = mark then some 1
    else if b.toChar = '\n' then none
    else (closingByte? mark rest).map (· + 1)
termination_by bytes => bytes.length

/-- Number of bytes of the unquoted address at the front of bytes, if there is one. -/
def addressBytes? (previous : Option UInt8) (bytes : List UInt8) : Option Nat :=
  if sameLetters ((bytes.take 4).map UInt8.toChar) "url(".toList &&
      !previous.any (joinsName ·.toChar) then
    let body := bytes.drop 4
    let blanks := (body.takeWhile (isSpacing ·.toChar)).length
    let rest := body.drop blanks
    if rest.head?.any fun b => b.toChar == '"' || b.toChar == '\'' then none
    else (closingByte? ')' rest).map (4 + blanks + ·)
  else none

/-- The two parts of a text at an offset. -/
def cutAtByte (source : Text) (offset : Nat) : Except ByteFailure (Text × Text) :=
  match splitByte? offset source with
  | some parts => .ok parts
  | none => .error .cutsCharacter

/-- The part of a text between two offsets. -/
def sliceBytes (source : Text) (start stop : Nat) : Except ByteFailure Text := do
  let (lead, _) ← cutAtByte source stop
  let (_, part) ← cutAtByte lead start
  return part

/-- The pass is given up at an offset. -/
def refuse {α : Type} (source : Text) (offset : Nat) (cause : Cause) : Except ByteFailure α := do
  let _ ← cutAtByte source offset
  let (line, column) := lineColumn source offset
  .error (.fault ⟨cause, line, column⟩)

/-- The line comment at an offset, and its place among the bytes filled with blanks. -/
def ByteScan.takeComment (source : Text) (s : ByteScan) (i : Nat) :
    Except ByteFailure (Nat × ByteScan) := do
  let (_, tail) ← cutAtByte source i
  let stop := ((cutAt? '\n' tail).map fun parts => i + byteLength parts.1).getD (byteLength source)
  let body ← sliceBytes source (i + 2) stop
  let (line, column) := lineColumn source i
  return (stop, { s with
    masked := s.masked.take i ++ List.replicate (stop - i) 0x20 ++ s.masked.drop stop
    comments := s.comments ++ [⟨.line, trim body, ⟨i, stop, line, column⟩⟩] })

/-- What the byte `b` at an offset does where no address starts: the next offset, and what is
kept. -/
def ByteScan.readByte (source : Text) (i : Nat) (b : UInt8) (previous next : Option Char)
    (s : ByteScan) : Except ByteFailure (Nat × ByteScan) :=
  if b.toChar = '\\' then .ok (i + 2, s)
  else if b.toChar = '"' ∨ b.toChar = '\'' then
    match closingByte? b.toChar ((utf8 source).drop (i + 1)) with
    | some n => .ok (i + 1 + n, s)
    | none => refuse source i .openString
  else if b.toChar = '/' ∧ next = some '*' then do
    let (_, tail) ← cutAtByte source (i + 2)
    match cut? "*/".toList tail with
    | some (body, _) => .ok (i + byteLength body + 4, s)
    | none => refuse source i .openComment
  else if b.toChar = '/' ∧ next = some '/' ∧ startsLineComment previous s.depth then
    s.takeComment source i
  else if b.toChar = '(' then .ok (i + 1, { s with depth := s.depth + 1 })
  else if b.toChar = ')' then .ok (i + 1, { s with depth := s.depth - 1 })
  else if b.toChar = '{' then .ok (i + 1, { s with depth := 0, opened := i :: s.opened })
  else if b.toChar = '}' then
    match s.opened with
    | [] => refuse source i .strayBrace
    | _ :: outer => .ok (i + 1, { s with depth := 0, opened := outer })
  else .ok (i + 1, s)

/-- One round of the pass at an offset with byte `b`. -/
def ByteScan.round (source : Text) (i : Nat) (b : UInt8) (s : ByteScan) :
    Except ByteFailure (Nat × ByteScan) :=
  let bytes := utf8 source
  let previous := (bytes.take i).getLast?
  match addressBytes? previous (bytes.drop i) with
  | some n => .ok (i + n, s)
  | none => s.readByte source i b (previous.map UInt8.toChar) (bytes[i + 1]?.map UInt8.toChar)

/-- The rounds from an offset on. -/
def ByteScan.run (source : Text) (i : Nat) (s : ByteScan) : Except ByteFailure ByteScan :=
  if h : i < (utf8 source).length then
    match s.round source i (utf8 source)[i] with
    | .error failure => .error failure
    | .ok (j, s) => if i < j then s.run source j else .error .standsStill
  else .ok s
termination_by (utf8 source).length - i
decreasing_by omega

/-- The text that is left at the end, if no brace is open. -/
def ByteScan.finish (source : Text) (s : ByteScan) : Except ByteFailure Masked :=
  match s.opened with
  | i :: _ => refuse source i .openBlock
  | [] =>
    match decode? s.masked with
    | some text => .ok ⟨text, s.comments⟩
    | none => .error .notText

/-- Blank out the line comments of a stylesheet byte by byte. -/
def maskBytes (source : Text) : Except ByteFailure Masked := do
  let s ← ByteScan.run source 0 ⟨utf8 source, [], [], 0⟩
  s.finish source

/-! ## Bytes beyond ASCII -/

/-- Bytes beyond ASCII are passed over one by one. -/
theorem closingByte?_append {mark : Char} (hmark : mark.toNat < 0x80) {bs : List UInt8}
    (hbs : ∀ b ∈ bs, 0x80 ≤ b.toChar.toNat) (rest : List UInt8) :
    closingByte? mark (bs ++ rest) = (closingByte? mark rest).map (· + bs.length) := by
  induction bs with
  | nil => simp
  | cons b bs ih =>
    obtain ⟨hb, hrest⟩ := List.forall_mem_cons.1 hbs
    rw [List.cons_append, closingByte?, if_neg (ne_of_le_of_lt hb (by decide)),
      if_neg (ne_of_le_of_lt hb hmark), if_neg (ne_of_le_of_lt hb (by decide)), ih hrest,
      Option.map_map, List.length_cons]
    rfl

/-- No address starts with a byte beyond ASCII. -/
theorem addressBytes?_of_le (previous : Option UInt8) {b : UInt8} (h : 0x80 ≤ b.toChar.toNat)
    (bytes : List UInt8) : addressBytes? previous (b :: bytes) = none := by
  have hletters : sameLetters (((b :: bytes).take 4).map UInt8.toChar) "url(".toList = false := by
    have hfirst : b.toChar.toLower ≠ 'u' := toLower_ne_of_le (by decide) h
    rw [List.take_succ_cons, List.map_cons]
    exact Bool.and_eq_false_imp.2 fun heq => absurd (beq_iff_eq.1 heq) hfirst
  rw [addressBytes?, hletters]
  rfl

/-! ## Closing marks and addresses -/

/-- Behind a backslash the mark is looked for from the next byte on, that is from the next
character but one on. -/
theorem closingByte?_drop {mark : Char} (hmark : mark.toNat < 0x80) (c : Char) (t : Text) :
    closingByte? mark ((utf8 (c :: t)).drop 1) =
      (closingByte? mark (utf8 t)).map (· + (c.utf8Size - 1)) := by
  obtain ⟨b, bs, hb, hsize, hhigh⟩ := exists_utf8EncodeChar_eq c
  rw [utf8_cons, hb, List.cons_append, List.drop_succ_cons, List.drop_zero,
    closingByte?_append hmark hhigh, ← hsize, Nat.add_sub_cancel]

/-- The end of a string is looked for character by character: the mark ends it, a newline leaves it
unfinished. -/
theorem stringEnd?_cons (mark c : Char) (t : Text) : stringEnd? mark false (c :: t) =
    if c = mark then some 1 else if c = '\n' then none
    else (stringEnd? mark (c = '\\') t).map (· + 1) := rfl

/-- Characters counted behind one more character, in bytes. -/
theorem map_byteLength_cons (c : Char) (t : Text) (n : Option Nat) :
    (n.map (· + 1)).map (fun n => byteLength ((c :: t).take n)) =
      (n.map fun n => byteLength (t.take n)).map (· + c.utf8Size) := by
  cases n with
  | none => rfl
  | some n => simp [Nat.add_comm]

/-- A closing mark is found byte by byte as it is character by character. -/
theorem closingByte?_utf8 {mark : Char} (hmark : mark.toNat < 0x80) (hescape : mark ≠ '\\')
    (t : Text) : closingByte? mark (utf8 t) =
      (stringEnd? mark false t).map fun n => byteLength (t.take n) := by
  -- an escape takes two characters at once
  induction hn : t.length using Nat.strong_induction_on generalizing t with
  | _ n ih =>
    cases t with
    | nil => simp [closingByte?, stringEnd?]
    | cons c t =>
      have hrest : closingByte? mark (utf8 t) =
          (stringEnd? mark false t).map fun n => byteLength (t.take n) :=
        ih t.length (by simp [← hn]) t rfl
      rcases utf8EncodeChar_cases c with ⟨hsize, b, hb, rfl⟩ | ⟨hc, b, bs, hb, hsize, hhigh⟩
      · rw [utf8_cons, hb, List.singleton_append, closingByte?, stringEnd?_cons]
        by_cases hback : b.toChar = '\\'
        · have hnone : b.toChar ≠ mark ∧ b.toChar ≠ '\n' := by
            rw [hback]
            exact ⟨hescape.symm, by decide⟩
          rw [if_pos hback, if_neg hnone.1, if_neg hnone.2, map_byteLength_cons, hsize,
            decide_eq_true hback]
          cases t with
          | nil => simp [closingByte?, stringEnd?]
          | cons d u =>
            have hd := d.utf8Size_pos
            have hskip : stringEnd? mark true (d :: u) =
                (stringEnd? mark false u).map (· + 1) := rfl
            have hshort : u.length < n := by
              simp only [← hn, List.length_cons]
              omega
            rw [closingByte?_drop hmark, ih u.length hshort u rfl, hskip, map_byteLength_cons]
            simp only [Option.map_map, Function.comp_def]
            congr 1
            funext m
            omega
        · rw [if_neg hback, hrest, decide_eq_false hback]
          by_cases hfound : b.toChar = mark
          · rw [if_pos hfound, if_pos hfound]
            simp [hsize]
          · by_cases hbreak : b.toChar = '\n'
            · rw [if_neg hfound, if_neg hfound, if_pos hbreak, if_pos hbreak, Option.map_none]
            · rw [if_neg hfound, if_neg hfound, if_neg hbreak, if_neg hbreak, map_byteLength_cons,
                hsize]
      · rw [utf8_cons, hb, closingByte?_append hmark hhigh, hrest, stringEnd?_cons,
          if_neg (ne_of_le_of_lt hc hmark), if_neg (ne_of_le_of_lt hc (by decide)),
          decide_eq_false (ne_of_le_of_lt hc (by decide)), map_byteLength_cons, ← hsize,
          List.length_cons]

/-- The end of an address is looked for like that of a string with a parenthesis as its mark. -/
theorem addressEnd?_eq_stringEnd? (escaped : Bool) (t : Text) :
    addressEnd? escaped t = stringEnd? ')' escaped t := by
  induction t generalizing escaped with
  | nil => rfl
  | cons c t ih => rw [addressEnd?, stringEnd?, ih, ih]

/-- No character beyond ASCII is a blank of a stylesheet. -/
theorem asciiOnly_isSpacing : AsciiOnly isSpacing :=
  ((((asciiOnly_beq ' ' (by decide)).or (asciiOnly_beq '\t' (by decide))).or
    (asciiOnly_beq '\n' (by decide))).or (asciiOnly_beq formFeed (by decide))).or
    (asciiOnly_beq '\r' (by decide))

/-- No character beyond ASCII joins a name. -/
theorem asciiOnly_joinsName : AsciiOnly joinsName := by
  have halphanum : AsciiOnly Char.isAlphanum := by
    intro c hc
    have hval : 0x80 ≤ c.val.toNat := hc
    unfold Char.isAlphanum Char.isAlpha Char.isUpper Char.isLower Char.isDigit
    simp [UInt32.le_iff_toNat_le]
    omega
  exact (halphanum.or (asciiOnly_beq '-' (by decide))).or (asciiOnly_beq '_' (by decide))

/-- No character beyond ASCII is a quote. -/
theorem asciiOnly_quote : AsciiOnly fun c => c == '"' || c == '\'' :=
  (asciiOnly_beq '"' (by decide)).or (asciiOnly_beq '\'' (by decide))

/-- An address is found byte by byte as it is character by character. -/
theorem addressBytes?_utf8 (before t : Text) :
    addressBytes? (utf8 before).getLast? (utf8 t) =
      (address? before.getLast? t).map fun n => byteLength (t.take n) := by
  have hw : ∀ a ∈ lower "url(".toList, a.toNat < 0x80 := by simp [lower]
  have hletters : sameLetters (((utf8 t).take 4).map UInt8.toChar) "url(".toList =
      sameLetters (t.take 4) "url(".toList := sameLetters_utf8 hw t
  unfold addressBytes? address?
  rw [hletters, any_getLast?_utf8 asciiOnly_joinsName]
  split
  · next h =>
    have hlength : byteLength (t.take 4) = 4 :=
      byteLength_of_sameLetters hw (Bool.and_eq_true_iff.1 h).1
    have hbody : (utf8 t).drop 4 = utf8 (t.drop 4) := by
      rw [← drop_utf8, hlength]
    have htake : (t.drop 4).take ((t.drop 4).takeWhile isSpacing).length =
        (t.drop 4).takeWhile isSpacing :=
      (List.prefix_iff_eq_take.1 (List.takeWhile_prefix _)).symm
    have hblanks := byteLength_takeWhile asciiOnly_isSpacing (t.drop 4)
    have hrest := drop_utf8 (t.drop 4) ((t.drop 4).takeWhile isSpacing).length
    have hcount (n : Nat) : byteLength (t.take (4 + ((t.drop 4).takeWhile isSpacing).length + n)) =
        4 + ((t.drop 4).takeWhile isSpacing).length +
          byteLength (((t.drop 4).drop ((t.drop 4).takeWhile isSpacing).length).take n) := by
      rw [List.take_add, List.take_add, byteLength_append, byteLength_append, hlength, htake,
        hblanks, List.drop_drop]
    rw [htake, hblanks] at hrest
    dsimp only
    rw [hbody, takeWhile_utf8 asciiOnly_isSpacing, length_utf8, hblanks, hrest,
      any_head?_utf8 asciiOnly_quote, closingByte?_utf8 (by decide) (by decide)]
    generalize (t.drop 4).drop ((t.drop 4).takeWhile isSpacing).length = rest at hcount ⊢
    split
    · next hquoted =>
      split
      · rfl
      · rfl
      · next hdouble hsingle =>
        cases rest with
        | nil => cases hquoted
        | cons c rest =>
          simp only [List.head?_cons, Option.any_some, Bool.or_eq_true, beq_iff_eq] at hquoted
          rcases hquoted with rfl | rfl
          · exact absurd rfl (hdouble rest)
          · exact absurd rfl (hsingle rest)
    · next hplain =>
      split
      · exact absurd rfl hplain
      · exact absurd rfl hplain
      · simp only [addressEnd?_eq_stringEnd?, Option.map_map, Function.comp_def, hcount]
  · rfl

end ClassHints.Sheet
