import ClassHints.Proofs.Cursor.OpenTag
import ClassHints.Proofs.Markup.AttributeStarts

/-!
# The class check and the scan

Whether a class attribute is open at the cursor is decided from the characters before it alone,
and the element around the cursor by a scan of the whole text. The check finds any text that looks
like an open class attribute. Where the scan reads an attribute at that text, the two agree: the
cursor is in the start tag that the scan has come to, and the attribute is the last one in it. The
check knows no tags, though, so that the text may as well be content, part of another value or the
end of a longer name.
-/

namespace ClassHints.Cursor

open Markup Text

/-! ## What the check finds -/

/-- The name of a class attribute that may follow any character. -/
def bracketedName : Text := "[ngClass]".toList

/-- The names of class attributes. -/
def classNames : List Text := ["class".toList, "className".toList, bracketedName]

/-- A value that is not started, or is quoted and open to its end. An expression counts as well if
`braces` says so. -/
inductive OpenValue (braces : Bool) : Text → Prop where
  | absent : OpenValue braces []
  | quoted (quote : Char) (body : Text) (delimiter : quote = '"' ∨ quote = '\'')
    (unclosed : quote ∉ body) : OpenValue braces (quote :: body)
  | expression (body : Text) (allowed : braces = true) (unclosed : '}' ∉ body) :
    OpenValue braces ('{' :: body)

/-- A text is an attribute with an open value, where characters of one kind count as blanks. Only
one name may have an expression as its value. -/
def OpenAttribute (blank : Char → Bool) (name t : Text) : Prop :=
  ∃ blanks gap value, t = name ++ (blanks ++ '=' :: (gap ++ value)) ∧
    (∀ c ∈ blanks, blank c = true) ∧ (∀ c ∈ gap, blank c = true) ∧
    OpenValue (name == "className".toList) value

/-- A window ends with an open class attribute. A plain name does not continue a word. -/
structure Shows (window name t : Text) : Prop where
  named : name ∈ classNames
  opens : OpenAttribute isBlank name t
  found : ∃ lead, window = lead ++ t ∧
    (name ≠ bracketedName → ∀ c ∈ lead.getLast?, isWordPart c = false)

/-- An open value starts with its quote or bracket and not with a blank. -/
theorem OpenValue.head?_not_blank {braces : Bool} {value : Text} (h : OpenValue braces value) :
    ∀ c ∈ value.head?, isBlank c = false := by
  intro c hc
  cases h with
  | absent => cases hc
  | quoted quote body hquote =>
    obtain rfl := Option.some.inj hc
    rcases hquote with rfl | rfl <;> decide
  | expression =>
    obtain rfl := Option.some.inj hc
    decide

/-- Blanks in front of a text that does not start with one are dropped. -/
theorem trimStart_append {blanks rest : Text} (hblanks : ∀ c ∈ blanks, isBlank c = true)
    (hrest : ∀ c ∈ rest.head?, isBlank c = false) : trimStart (blanks ++ rest) = rest := by
  rw [trimStart, List.dropWhile_append_of_pos hblanks]
  cases rest with
  | nil => rfl
  | cons c rest => simp [hrest c rfl]

/-- The check for an equals sign and an open value. -/
theorem opensValue_iff {braces : Bool} {t : Text} : opensValue braces t = true ↔
    ∃ blanks gap value, t = blanks ++ '=' :: (gap ++ value) ∧ (∀ c ∈ blanks, isBlank c = true) ∧
      (∀ c ∈ gap, isBlank c = true) ∧ OpenValue braces value := by
  constructor
  · intro h
    unfold opensValue at h
    split at h
    · next rest hrest =>
      have hvalue : OpenValue braces (trimStart rest) := by
        split at h
        · next hnil =>
          rw [hnil]
          exact .absent
        · next body hbody =>
          rw [hbody]
          exact .quoted '"' body (Or.inl rfl) (by simpa using h)
        · next body hbody =>
          rw [hbody]
          exact .quoted '\'' body (Or.inr rfl) (by simpa using h)
        · next body hbody =>
          rw [hbody]
          rw [Bool.and_eq_true] at h
          exact .expression body h.1 (by simpa using h.2)
        · cases h
      refine ⟨t.takeWhile isBlank, rest.takeWhile isBlank, trimStart rest, ?_, ?_, ?_, hvalue⟩
      · rw [trimStart, List.takeWhile_append_dropWhile, ← hrest, trimStart,
          List.takeWhile_append_dropWhile]
      · exact fun c hc => List.mem_takeWhile_imp hc
      · exact fun c hc => List.mem_takeWhile_imp hc
    · cases h
  · rintro ⟨blanks, gap, value, rfl, hblanks, hgap, hvalue⟩
    have hequals : trimStart (blanks ++ '=' :: (gap ++ value)) = '=' :: (gap ++ value) := by
      apply trimStart_append hblanks
      intro c hc
      obtain rfl := Option.some.inj hc
      decide
    unfold opensValue
    rw [hequals]
    simp only [trimStart_append hgap hvalue.head?_not_blank]
    cases hvalue with
    | absent => rfl
    | quoted quote body hquote hopen =>
      rcases hquote with rfl | rfl <;> simpa using hopen
    | expression body hbraces hopen => simpa [hbraces] using hopen

/-- The check of one name finds an attribute of this name with an open value. Only `className` may
have an expression. -/
theorem opensAttribute_iff {name t : Text} {braces : Bool}
    (hbraces : (name == "className".toList) = braces) :
    opensAttribute name braces t = true ↔ OpenAttribute isBlank name t := by
  subst hbraces
  unfold opensAttribute OpenAttribute
  constructor
  · intro h
    cases hafter : after? name t with
    | none => simp [hafter] at h
    | some rest =>
      rw [hafter] at h
      obtain ⟨blanks, gap, value, rfl, hvalue⟩ := opensValue_iff.1 h
      exact ⟨blanks, gap, value, eq_append_of_after? hafter, hvalue⟩
  · rintro ⟨blanks, gap, value, rfl, hvalue⟩
    rw [after?_append]
    exact opensValue_iff.2 ⟨blanks, gap, value, rfl, hvalue⟩

/-- The check at one place finds an attribute of some name, which is a whole word unless it is
bracketed. -/
theorem opensHere_iff {previous : Option Char} {t : Text} : opensHere previous t = true ↔
    ∃ name ∈ classNames, OpenAttribute isBlank name t ∧
      (name ≠ bracketedName → ∀ c ∈ previous, isWordPart c = false) := by
  have hplain : opensAttribute "class".toList false t = true ↔
      OpenAttribute isBlank "class".toList t := opensAttribute_iff (by decide)
  have hcamel : opensAttribute "className".toList true t = true ↔
      OpenAttribute isBlank "className".toList t := opensAttribute_iff (by decide)
  have hbracketed : opensAttribute "[ngClass]".toList false t = true ↔
      OpenAttribute isBlank bracketedName t := opensAttribute_iff (by decide)
  have hword : (!previous.any isWordPart) = true ↔ ∀ c ∈ previous, isWordPart c = false := by
    cases previous with
    | none => simp
    | some c => simp
  rw [opensHere, Bool.or_eq_true, Bool.and_eq_true, Bool.or_eq_true, hword, hplain, hcamel,
    hbracketed]
  constructor
  · rintro (⟨hprevious, hopen | hopen⟩ | hopen)
    · exact ⟨_, by simp [classNames], hopen, fun _ => hprevious⟩
    · exact ⟨_, by simp [classNames], hopen, fun _ => hprevious⟩
    · exact ⟨_, by simp [classNames], hopen, fun hne => absurd rfl hne⟩
  · rintro ⟨name, hname, hopen, hprevious⟩
    simp only [classNames, List.mem_cons, List.not_mem_nil, or_false] at hname
    rcases hname with rfl | rfl | rfl
    · exact Or.inl ⟨hprevious (by decide), Or.inl hopen⟩
    · exact Or.inl ⟨hprevious (by decide), Or.inr hopen⟩
    · exact Or.inr hopen

/-- The check looks at every place of the window, with the character before it. -/
theorem endsOpenFrom_iff {previous : Option Char} {t : Text} : endsOpenFrom previous t = true ↔
    ∃ lead u, t = lead ++ u ∧ u ≠ [] ∧ opensHere (lead.getLast?.or previous) u = true := by
  induction t generalizing previous with
  | nil =>
    constructor
    · intro h
      cases h
    · rintro ⟨lead, u, hsplit, hu, -⟩
      exact absurd (List.append_eq_nil_iff.1 hsplit.symm).2 hu
  | cons c t ih =>
    rw [endsOpenFrom, Bool.or_eq_true, ih]
    constructor
    · rintro (hopen | ⟨lead, u, rfl, hu, hopen⟩)
      · exact ⟨[], c :: t, rfl, by simp, hopen⟩
      · refine ⟨c :: lead, u, rfl, hu, ?_⟩
        rw [List.getLast?_cons]
        cases hlast : lead.getLast? with
        | none => simpa [hlast] using hopen
        | some d => simpa [hlast] using hopen
    · rintro ⟨lead, u, hsplit, hu, hopen⟩
      cases lead with
      | nil =>
        obtain rfl : c :: t = u := hsplit
        exact Or.inl hopen
      | cons d lead =>
        obtain ⟨rfl, rfl⟩ := List.cons.inj hsplit
        refine Or.inr ⟨lead, u, rfl, hu, ?_⟩
        rw [List.getLast?_cons] at hopen
        cases hlast : lead.getLast? with
        | none => simpa [hlast] using hopen
        | some e => simpa [hlast] using hopen

/-- The check answers yes exactly if the window ends with an open class attribute. -/
theorem classAttributeOpen_iff {t : Text} {offset floor lookback : Nat} :
    classAttributeOpen t offset floor lookback = true ↔
      ∃ name u, Shows (window t offset floor lookback) name u := by
  rw [classAttributeOpen, endsOpenFrom_iff]
  constructor
  · rintro ⟨lead, u, hsplit, -, hopen⟩
    rw [Option.or_none] at hopen
    obtain ⟨name, hname, hattribute, hlast⟩ := opensHere_iff.1 hopen
    exact ⟨name, u, hname, hattribute, lead, hsplit, hlast⟩
  · rintro ⟨name, u, hname, hattribute, lead, hsplit, hlast⟩
    refine ⟨lead, u, hsplit, ?_, ?_⟩
    · obtain ⟨blanks, gap, value, rfl, -⟩ := hattribute
      simp
    · rw [Option.or_none]
      exact opensHere_iff.2 ⟨name, hname, hattribute, hlast⟩

/-! ## What the scan reads there -/

/-- An open value covers the rest of the text. -/
theorem OpenValue.length_attributeValue {braces : Bool} {value : Text}
    (h : OpenValue braces value) : (attributeValue value).2.2 = value.length := by
  have hdelimited (c : Char) (body : Text) :
      delimitedLength body body = (c :: body).length := by
    simp only [delimitedLength, List.length_cons]
    omega
  cases h with
  | absent => rfl
  | quoted quote body hquote hopen =>
    have hbrace : quote ≠ '{' := by rcases hquote with rfl | rfl <;> decide
    have hrun : body.takeWhile (· != quote) = body := by
      rw [List.takeWhile_eq_self_iff]
      intro c hc
      rw [bne_iff_ne]
      rintro rfl
      exact hopen hc
    rw [attributeValue_cons hbrace, if_pos (by simpa using hquote), hrun]
    exact hdelimited quote body
  | expression body _ hopen =>
    rw [attributeValue, expressionFrom_eq_self hopen]
    exact hdelimited '{' body

/-- An open class attribute is read as one attribute that covers the rest of the text. -/
theorem OpenAttribute.front_eq {name t : Text} (h : OpenAttribute isSpacing name t)
    (hname : name ∈ classNames) :
    ∃ a, Attribute.front t = (some a, t.length) ∧ a.name = name := by
  obtain ⟨blanks, gap, value, rfl, hblanks, hgap, hvalue⟩ := h
  have hparts : name ≠ [] ∧ name.all AttributeText.isNamePart = true := by
    simp only [classNames, List.mem_cons, List.not_mem_nil, or_false] at hname
    rcases hname with rfl | rfl | rfl <;> decide
  have hstop : attributeName (blanks ++ '=' :: (gap ++ value)) = [] := by
    cases blanks with
    | nil => rfl
    | cons c blanks =>
      have hc : isSpacing c = true := hblanks c (by simp)
      have hslash : c ≠ '/' := by
        rintro rfl
        cases hc
      rw [List.cons_append, attributeName_cons (Or.inl hslash),
        if_pos (by simp [endsAttributeName, hc])]
  have hread : attributeName (name ++ (blanks ++ '=' :: (gap ++ value))) = name := by
    rw [attributeName_append_of_all (List.all_eq_true.1 hparts.2), hstop, List.append_nil]
  have hhead : ∀ c ∈ value.head?, isSpacing c = false := by
    intro c hc
    by_contra hspacing
    have hblank := isBlank_of_isSpacing (by simpa using hspacing)
    rw [hvalue.head?_not_blank c hc] at hblank
    cases hblank
  have hfront := front_of_value (by rw [hread]; exact hparts.1) (by rw [hread]) hblanks hgap hhead
  rw [hread, hvalue.length_attributeValue] at hfront
  refine ⟨⟨name, some (attributeValue value).1, (attributeValue value).2.1⟩, hfront.trans ?_, rfl⟩
  simp only [List.length_append, List.length_cons, Prod.mk.injEq, true_and]
  omega

/-! ## Where the two agree -/

/-- A scan comes to a start tag and reads an attribute there: `t` is the text from the attribute
on. -/
structure ReadsAttribute (before : Text) (s : Scan) (rest t : Text) : Prop where
  reaches : Scan.Reaches before s rest
  opens : OpensTag rest
  listed : t ∈ attributeStarts 0 (StartTag.behindName rest)

namespace ReadsAttribute

variable {before rest t name : Text} {s : Scan} (h : ReadsAttribute before s rest t)

include h

/-- A scan that reads an open class attribute ends there, in a start tag whose last attribute it
is. -/
theorem endsInTag (hname : name ∈ classNames) (hopen : OpenAttribute isSpacing name t) :
    EndsInTag before s rest ∧
      ∃ a, (StartTag.front rest).body.attributes.getLast? = some a ∧ a.name = name := by
  obtain ⟨a, hfront, ha⟩ := hopen.front_eq hname
  obtain ⟨hending, hlast⟩ := getLast?_attributeStarts h.listed (by rw [hfront])
  refine ⟨⟨h.reaches, h.opens, hending⟩, a, ?_, ha⟩
  obtain ⟨earlier, hstarts⟩ := List.getLast?_eq_some_iff.1 hlast
  have hone : [t].filterMap (fun u => (Attribute.front u).1) = [a] := by simp [hfront]
  rw [StartTag.body_front, attributes_tagBodyFrom, hstarts, List.filterMap_append, hone,
    List.getLast?_concat]

/-- The text before an attribute, inside its start tag. A name that starts with a character of tag
names does not follow a part of a word. -/
theorem exists_lead : ∃ lead, rest = lead ++ t ∧ ∀ c ∈ t.head?, isTagPart c = true →
    endsAttributeName c = false → c ≠ '/' → ∀ d ∈ lead.getLast?, isWordPart d = false := by
  obtain ⟨lead, hbehind, hlead⟩ := exists_lead_of_mem_attributeStarts h.listed
  have hrest := h.opens.eq_append
  rw [hbehind, ← List.append_assoc] at hrest
  refine ⟨_, hrest, ?_⟩
  intro c hc htag hends hslash d hd
  rw [List.getLast?_append] at hd
  cases hlast : lead.getLast? with
  | some e =>
    rw [hlast] at hd
    obtain rfl := Option.some.inj hd
    exact hlead c hc hends hslash _ hlast
  | none =>
    -- the name of the tag would go on
    obtain rfl := List.getLast?_eq_none_iff.1 hlast
    obtain ⟨more, ht⟩ := List.head?_eq_some_iff.1 hc
    have hname : (rest.drop 1).drop ((rest.drop 1).takeWhile isTagPart).length = c :: more := by
      rw [← ht, ← List.nil_append t, ← hbehind, StartTag.behindName, List.drop_drop]
      rfl
    rw [eq_false_of_drop_takeWhile hname] at htag
    cases htag

/-- An open class attribute that the scan reads is what the window shows, if it is near enough. -/
theorem shows (hname : name ∈ classNames) (hopen : OpenAttribute isSpacing name t) {lookback : Nat}
    (hnear : t.length ≤ lookback) (after : Text) :
    Shows (window (before ++ after) (byteLength before) s.offset lookback) name t := by
  obtain ⟨lead, rfl, hlead⟩ := h.exists_lead
  obtain ⟨passed, rfl, hpassed⟩ := h.reaches.eq_append
  have hwindow : window (passed ++ (lead ++ t) ++ after) (byteLength (passed ++ (lead ++ t)))
      s.offset lookback = lead.drop ((lead ++ t).length - lookback) ++ t := by
    simp only [window, lastChars, ← hpassed, takeBytes_append, List.drop_left]
    apply List.drop_append_of_le_length
    rw [List.length_append]
    omega
  have hblank : OpenAttribute isBlank name t := by
    obtain ⟨blanks, gap, value, ht, hblanks, hgap, hvalue⟩ := hopen
    exact ⟨blanks, gap, value, ht, fun c hc => isBlank_of_isSpacing (hblanks c hc),
      fun c hc => isBlank_of_isSpacing (hgap c hc), hvalue⟩
  refine ⟨hname, hblank, _, hwindow, ?_⟩
  intro hplain d hd
  have hhead : t.head? = some 'c' := by
    obtain ⟨blanks, gap, value, rfl, -⟩ := hopen
    simp only [classNames, List.mem_cons, List.not_mem_nil, or_false] at hname
    rcases hname with rfl | rfl | hbracketed
    · rfl
    · rfl
    · exact absurd hbracketed hplain
  apply hlead 'c' hhead (by decide) (by decide) (by decide) d
  rw [List.getLast?_drop] at hd
  split at hd
  · cases hd
  · exact hd

end ReadsAttribute

/-- The check answers yes exactly if the window ends with an open class attribute. Where the scan
reads such an attribute, the cursor is in the start tag of the element that is found, this
attribute is the last one in the tag, and the window shows it if it is near enough. -/
theorem classAttributeOpen_agrees {before after : Text} {lookback : Nat} {found : Location}
    (hfound : locate (Document.scan (before ++ after)) (byteLength before) = some found) :
    (classAttributeOpen (before ++ after) (byteLength before) found.range.start lookback = true ↔
      ∃ name t, Shows (window (before ++ after) (byteLength before) found.range.start lookback)
        name t) ∧
    ∀ s rest name t, ReadsAttribute before s rest t → name ∈ classNames →
      OpenAttribute isSpacing name t →
        EndsInTag before s rest ∧ s.offset = found.range.start ∧
        (∃ a, (StartTag.front rest).body.attributes.getLast? = some a ∧ a.name = name) ∧
        (t.length ≤ lookback →
          Shows (window (before ++ after) (byteLength before) found.range.start lookback)
            name t) := by
  refine ⟨classAttributeOpen_iff, ?_⟩
  intro s rest name t hread hname hopen
  obtain ⟨hends, hlast⟩ := hread.endsInTag hname hopen
  obtain ⟨found', hin⟩ := hends.exists_inTag_append after
  obtain rfl : found = found' := Option.some.inj (hfound.symm.trans hin.located)
  refine ⟨hends, hin.start.symm, hlast, ?_⟩
  intro hnear
  rw [hin.start]
  exact hread.shows hname hopen hnear after

/-- An item whose classes are being written as an expression. -/
def openItem : Text := "<ul class=\"p-list\"><li id='x' className = \x7bcx(\"p-list__".toList

/-- The class list of the item is open as an expression, and the scan reads it as the last attribute
of the item. -/
theorem classAttributeOpen_agrees_openItem : ∃ after found s rest,
    locate (Document.scan (openItem ++ after)) (byteLength openItem) = some found ∧
    ReadsAttribute openItem s rest "className = \x7bcx(\"p-list__".toList ∧
    classAttributeOpen (openItem ++ after) (byteLength openItem) found.range.start 500 = true ∧
    EndsInTag openItem s rest ∧ s.offset = found.range.start ∧
    ∃ a, (StartTag.front rest).body.attributes.getLast? = some a ∧ a.name = "className".toList := by
  have hstart : Scan.Reaches openItem .start ('<' :: openItem.drop 1) := .start
  have hitem : Scan.Reaches openItem _ (openItem.drop 19) := hstart.step
  have hread : ReadsAttribute openItem _ _ "className = \x7bcx(\"p-list__".toList :=
    ⟨hitem, ⟨'l', _, rfl, rfl⟩, by decide +kernel⟩
  have hopen : OpenAttribute isSpacing "className".toList "className = \x7bcx(\"p-list__".toList :=
    ⟨[' '], [' '], "\x7bcx(\"p-list__".toList, by decide, by simp [isSpacing], by simp [isSpacing],
      .expression _ (by decide) (by decide)⟩
  obtain ⟨hends, -⟩ := hread.endsInTag (by decide) hopen
  obtain ⟨found, hin⟩ := hends.exists_inTag_append "item\")\x7d></li>".toList
  obtain ⟨hcheck, hagrees⟩ := @classAttributeOpen_agrees _ _ 500 _ hin.located
  obtain ⟨-, hoffset, hlast, hshows⟩ := hagrees _ _ _ _ hread (by decide) hopen
  exact ⟨_, found, _, _, hin.located, hread, hcheck.2 ⟨_, _, hshows (by decide)⟩, hends, hoffset,
    hlast⟩

end ClassHints.Cursor
