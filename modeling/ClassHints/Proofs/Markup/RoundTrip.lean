import ClassHints.Proofs.Markup.Printing
import ClassHints.Proofs.Markup.Steps

/-!
# Scanning undoes printing

The scan of a printed outline gives the outline back: every node says what was written, in the
same order and nesting, and covers exactly the bytes that were written for it. What is written
for an item is scanned in the same way wherever it stands, and leaves the open elements around it
alone.
-/

namespace ClassHints.Markup

open Text

/-! ## Printed start tags -/

/-- A character of a name is no blank, and none of the characters that end a name or quote a value.
-/
theorem AttributeText.of_isNamePart {c : Char} (h : isNamePart c = true) :
    isSpacing c = false ∧ c ≠ '=' ∧ c ≠ '>' ∧ c ≠ '/' ∧ c ≠ '"' ∧ c ≠ '\'' := by
  simpa [isNamePart, and_assoc] using h

/-- A name without special characters is read up to what follows it. -/
theorem attributeName_append_of_all {name : Text}
    (h : ∀ c ∈ name, AttributeText.isNamePart c = true) (tail : Text) :
    attributeName (name ++ tail) = name ++ attributeName tail := by
  induction name with
  | nil => rfl
  | cons c name ih =>
    obtain ⟨hspacing, hequals, hbracket, hslash, hquote, happostrophe⟩ :=
      AttributeText.of_isNamePart (h c List.mem_cons_self)
    have hends : endsAttributeName c = false := by
      simp [endsAttributeName, hspacing, hequals, hbracket, hquote, happostrophe]
    rw [List.cons_append, attributeName_cons (.inl hslash), hends,
      ih fun d hd => h d (List.mem_cons_of_mem c hd)]
    rfl

/-- A quoted value is read up to its quote, whatever follows. -/
theorem attributeValue_quoted {value : Text} (h : '"' ∉ value) (tail : Text) :
    attributeValue ('"' :: value ++ '"' :: tail) = (value, false, value.length + 2) := by
  have hall : ∀ c ∈ value, (c != '"') = true := by
    intro c hc
    rw [bne_iff_ne]
    rintro rfl
    exact h hc
  have hrun : (value ++ '"' :: tail).takeWhile (· != '"') = value :=
    takeWhile_append_of_head? hall (by simp)
  rw [List.cons_append, attributeValue_cons (by decide), if_pos (by decide), hrun]
  simp only [delimitedLength, List.length_append, List.length_cons, Prod.mk.injEq, true_and]
  omega

/-- Characters that belong to the attribute before count, and nothing else. -/
theorem tagBodyFrom_length_append (u v : Text) : tagBodyFrom u.length (u ++ v) =
    { tagBodyFrom 0 v with length := u.length + (tagBodyFrom 0 v).length } := by
  induction u with
  | nil => simp
  | cons c u ih =>
    rw [List.cons_append, List.length_cons, tagBodyFrom, ih, TagBody.grow]
    simp only [TagBody.mk.injEq, true_and]
    omega

/-- A text that ends the attribute before it, with or without a value. -/
structure EndsAttribute (tail : Text) : Prop where
  name : attributeName tail = []
  value : ∀ body, tail.dropWhile isSpacing ≠ '=' :: body

/-- The end of a tag ends the attribute before it. -/
theorem endsAttribute_tagEnd (slash : Bool) (rest : Text) :
    EndsAttribute (tagEnd slash ++ rest) := by
  cases slash with
  | true => exact ⟨rfl, fun body => by simp [tagEnd, isSpacing, formFeed]⟩
  | false => exact ⟨rfl, fun body => by simp [tagEnd, isSpacing, formFeed]⟩

namespace AttributeText

variable {a : AttributeText} (h : a.isPrintable = true)

include h

/-- There is a blank before a printable attribute. -/
theorem isSpacing_blank : isSpacing a.blank = true := by
  simp only [isPrintable, Bool.and_eq_true] at h
  exact h.1.1.1

/-- The name of a printable attribute is made of name characters. -/
theorem isNamePart_of_mem : ∀ c ∈ a.name, isNamePart c = true := by
  simp only [isPrintable, Bool.and_eq_true, List.all_eq_true] at h
  exact h.1.2

/-- A printable attribute has a name. -/
theorem name_ne_nil : a.name ≠ [] := by
  simp only [isPrintable, Bool.and_eq_true, Bool.not_eq_true', List.isEmpty_eq_false_iff] at h
  exact h.1.1.2

/-- The value of a printable attribute has no double quote in it. -/
theorem quote_not_mem {value : Text} (hvalue : a.value = some value) : '"' ∉ value := by
  simp only [isPrintable, Bool.and_eq_true, hvalue, Option.all_some, Bool.not_eq_true'] at h
  simpa using h.2

/-- An attribute starts with a character that no blank, bracket, slash or equals sign is. -/
theorem exists_body_eq : ∃ c body, a.body = c :: body ∧ isNamePart c = true := by
  obtain ⟨c, name, hname⟩ := List.exists_cons_of_ne_nil (name_ne_nil h)
  refine ⟨c, _, by rw [body, hname, List.cons_append], ?_⟩
  exact isNamePart_of_mem h c (by simp [hname])

/-- An attribute that is written next ends the one before it. -/
theorem endsAttribute_print (rest : Text) : EndsAttribute (a.print ++ rest) := by
  have hblank := isSpacing_blank h
  obtain ⟨c, body, hbody, hc⟩ := exists_body_eq h
  obtain ⟨hspacing, hequals, -⟩ := of_isNamePart hc
  constructor
  case name =>
    have hslash : a.blank ≠ '/' := by
      intro heq
      rw [heq] at hblank
      exact absurd hblank (by decide)
    rw [print, List.cons_append, attributeName_cons (.inl hslash)]
    simp [endsAttributeName, hblank]
  case value =>
    intro tail
    rw [print, hbody]
    simp [hblank, hspacing, hequals]

/-- A written attribute with a value is read as it is meant, whatever follows its quotes. -/
theorem front_body_of_value {value : Text} (hvalue : a.value = some value) (tail : Text) :
    Attribute.front (a.body ++ tail) = (some a.toAttribute, a.body.length) := by
  have hbody : a.body ++ tail = a.name ++ ('=' :: ('"' :: value ++ '"' :: tail)) := by
    simp [body, hvalue]
  have hname : attributeName (a.body ++ tail) = a.name := by
    rw [hbody, attributeName_append_of_all (isNamePart_of_mem h)]
    exact List.append_nil _
  have hsplit : attributeName (a.body ++ tail) ++
      ([] ++ '=' :: ([] ++ ('"' :: value ++ '"' :: tail))) = a.body ++ tail := by
    rw [hname, hbody]
    rfl
  have hfront := front_of_value (by rw [hname]; exact name_ne_nil h) hsplit (by simp) (by simp)
    (by simp [isSpacing, formFeed])
  have hlength : a.body.length = a.name.length + 0 + 1 + 0 + (value.length + 2) := by
    simp only [body, hvalue, Option.elim, List.cons_append, List.length_append, List.length_cons,
      List.length_nil]
    omega
  rw [hfront, hname, attributeValue_quoted (quote_not_mem h hvalue), toAttribute, hvalue, hlength]
  rfl

/-- A written attribute is read as it is meant. -/
theorem front_body {tail : Text} (htail : EndsAttribute tail) :
    Attribute.front (a.body ++ tail) = (some a.toAttribute, a.body.length) := by
  cases hvalue : a.value with
  | none =>
    have hbody : a.body = a.name := by simp [body, hvalue]
    have hname : attributeName (a.name ++ tail) = a.name := by
      rw [attributeName_append_of_all (isNamePart_of_mem h), htail.name, List.append_nil]
    have hfront := front_of_bare (t := a.name ++ tail) (by rw [hname]; exact name_ne_nil h)
      (by rw [hname]) htail.value
    rw [hbody, hfront, hname, toAttribute, hvalue]
  | some value => exact front_body_of_value h hvalue tail

/-- The rest of a start tag goes on behind an attribute that is read as it is meant. -/
theorem tagBodyFrom_print {rest : Text}
    (hfront : Attribute.front (a.body ++ rest) = (some a.toAttribute, a.body.length)) :
    tagBodyFrom 0 (a.print ++ rest) =
      ⟨a.toAttribute :: (tagBodyFrom 0 rest).attributes, (tagBodyFrom 0 rest).ending,
        a.print.length + (tagBodyFrom 0 rest).length⟩ := by
  obtain ⟨c, body, hc, hpart⟩ := exists_body_eq h
  have hskip := tagBodyFrom_length_append body rest
  obtain ⟨hspacing, -, hbracket, hslash, -⟩ := of_isNamePart hpart
  rw [hc, List.cons_append] at hfront
  rw [print, hc, List.cons_append, List.cons_append, tagBodyFrom,
    if_pos (isSpacing_blank h), tagBodyFrom, if_neg (by simp [hspacing]),
    if_neg hbracket, if_neg hslash, hfront]
  dsimp only
  rw [List.length_cons, Nat.add_sub_cancel, hskip]
  simp only [TagBody.grow, Option.toList_some, List.singleton_append, List.length_cons,
    TagBody.mk.injEq, true_and]
  omega

end AttributeText

/-- Written attributes are read in order, up to the end of the tag. -/
theorem tagBodyFrom_printAttributes {attributes : List AttributeText}
    (h : ∀ a ∈ attributes, a.isPrintable = true) (slash : Bool) (rest : Text) :
    EndsAttribute (printAttributes attributes ++ tagEnd slash ++ rest) ∧
    tagBodyFrom 0 (printAttributes attributes ++ tagEnd slash ++ rest) =
      ⟨attributes.map AttributeText.toAttribute, if slash then .selfClosed else .opened,
        (printAttributes attributes ++ tagEnd slash).length⟩ := by
  induction attributes with
  | nil =>
    refine ⟨endsAttribute_tagEnd slash rest, ?_⟩
    cases slash <;> rfl
  | cons a attributes ih =>
    have ha := h a List.mem_cons_self
    obtain ⟨hends, hbody⟩ := ih fun b hb => h b (List.mem_cons_of_mem a hb)
    generalize htail : printAttributes attributes ++ tagEnd slash = tail at hends hbody
    have hprint : printAttributes (a :: attributes) ++ tagEnd slash = a.print ++ tail := by
      rw [← htail, ← List.append_assoc]
      rfl
    rw [hprint, List.append_assoc]
    refine ⟨AttributeText.endsAttribute_print ha _, ?_⟩
    rw [AttributeText.tagBodyFrom_print ha (AttributeText.front_body ha hends), hbody,
      List.map_cons, List.length_append]

/-- A blank is no part of the name of a tag. -/
theorem isTagPart_eq_false_of_isSpacing {c : Char} (h : isSpacing c = true) :
    isTagPart c = false := by
  simp only [isSpacing, formFeed, Bool.or_eq_true, beq_iff_eq] at h
  rcases h with (((rfl | rfl) | rfl) | rfl) | rfl <;> decide

/-- What follows the name of a tag is not part of it. -/
theorem isTagPart_head_printAttributes {attributes : List AttributeText}
    (h : ∀ a ∈ attributes, a.isPrintable = true) (slash : Bool) (rest : Text) :
    ∀ c ∈ (printAttributes attributes ++ tagEnd slash ++ rest).head?, isTagPart c = false := by
  intro c hc
  cases attributes with
  | nil =>
    cases slash <;> cases hc <;> decide
  | cons a attributes =>
    cases hc
    exact isTagPart_eq_false_of_isSpacing
      (AttributeText.isSpacing_blank (h a List.mem_cons_self))

section

variable {tag : Text} (htag : isTag tag = true)

include htag

/-- The name of a tag is made of name characters. -/
theorem isTagPart_of_isTag : ∀ c ∈ tag, isTagPart c = true := by
  cases tag with
  | nil => simp
  | cons d name =>
    simp only [isTag, Bool.and_eq_true, List.all_eq_true] at htag
    intro c hc
    rcases List.mem_cons.1 hc with rfl | hc
    · simp [isTagPart, Char.isAlphanum, htag.1]
    · exact htag.2 c hc

/-- The name of a tag is read up to the first character that is no part of one. -/
theorem tagName_append {tail : Text} (htail : ∀ c ∈ tail.head?, isTagPart c = false) :
    tagName (tag ++ tail) = tag :=
  takeWhile_append_of_head? (isTagPart_of_isTag htag) htail

/-- A start tag that is written opens a tag. -/
theorem opensTag_printTag (slash : Bool) (attributes : List AttributeText) (rest : Text) :
    OpensTag (printTag slash tag attributes ++ rest) := by
  cases tag with
  | nil => cases htag
  | cons d name =>
    simp only [isTag, Bool.and_eq_true] at htag
    exact ⟨d, _, rfl, htag.1⟩

/-- A written start tag is read as it is meant. -/
theorem front_printTag {attributes : List AttributeText}
    (h : ∀ a ∈ attributes, a.isPrintable = true) (slash : Bool) (rest : Text) :
    StartTag.front (printTag slash tag attributes ++ rest) =
      ⟨tag, attributes.map AttributeText.toAttribute, if slash then .selfClosed else .opened,
        (printAttributes attributes ++ tagEnd slash).length⟩ := by
  generalize htail : printAttributes attributes ++ tagEnd slash = tail
  have hname : tagName (tag ++ (tail ++ rest)) = tag := by
    refine tagName_append htag ?_
    rw [← htail]
    exact isTagPart_head_printAttributes h slash rest
  have hprint : printTag slash tag attributes ++ rest = '<' :: (tag ++ (tail ++ rest)) := by
    rw [printTag, htail]
    simp
  have hbody := (tagBodyFrom_printAttributes h slash rest).2
  rw [htail] at hbody
  rw [hprint, StartTag.front, List.drop_succ_cons, List.drop_zero, hname]
  rw [Nat.add_comm, List.drop_succ_cons, List.drop_left, hbody]

end

/-- A start tag is as long as its bracket, its name and the rest together. -/
theorem length_printTag (slash : Bool) (tag : Text) (attributes : List AttributeText) :
    (printTag slash tag attributes).length =
      1 + tag.length + (printAttributes attributes ++ tagEnd slash).length := by
  rw [printTag, List.length_append, List.length_cons, Nat.add_comm tag.length]

/-! ## Scanning what is written -/

namespace Scan

/-- A text without brackets is scanned in one step, up to the next tag. -/
theorem scanFrom_text {t rest : Text} (ht : t ≠ []) (hbracket : '<' ∉ t)
    (hrest : ∀ c ∈ rest.head?, c = '<') (s : Scan) :
    s.scanFrom 0 (t ++ rest) = (s.addText t).scanFrom 0 rest := by
  cases t with
  | nil => exact absurd rfl ht
  | cons c t =>
    have hc : c ≠ '<' := fun heq => hbracket (by simp [heq])
    have hall : ∀ d ∈ t, (d != '<') = true := by
      intro d hd
      rw [bne_iff_ne]
      rintro rfl
      exact hbracket (List.mem_cons_of_mem c hd)
    have hrun : (t ++ rest).takeWhile (· != '<') = t := by
      refine takeWhile_append_of_head? hall fun d hd => ?_
      simp [hrest d hd]
    rw [List.cons_append, scanFrom_cons, step_of_ne s hc, textRun, hrun, ← List.cons_append,
      List.drop_left]

section

variable {tag : Text} {attributes : List AttributeText} (htag : isTag tag = true)
  (hattributes : ∀ a ∈ attributes, a.isPrintable = true) (s : Scan) (rest : Text)

include htag hattributes

/-- The scan of a written start tag, by how the tag ends and by its name. -/
theorem scanFrom_printTag (slash : Bool)
    (hraw : (slash || isVoid tag) = false → isRaw tag = false) :
    s.scanFrom 0 (printTag slash tag attributes ++ rest) =
      (if slash || isVoid tag then
        s.addLeaf (elementOf s.next tag attributes) (printTag slash tag attributes)
      else s.addOpen (elementOf s.next tag attributes) (printTag slash tag attributes)).scanFrom 0
        rest := by
  obtain ⟨d, tail, hopens, hd⟩ := opensTag_printTag htag slash attributes rest
  have hstep := s.step_of_isAlpha hd tail
  rw [← hopens, openTag_eq, front_printTag htag hattributes] at hstep
  simp only [StartTag.length, ← length_printTag] at hstep
  rw [hopens, scanFrom_cons, hstep, ← hopens]
  cases slash with
  | true => simp [elementOf, StartTag.element]
  | false =>
    cases hvoid : isVoid tag with
    | true => simp [elementOf, StartTag.element]
    | false => simp [hraw hvoid, elementOf, StartTag.element]

end

/-- A written closing tag closes the innermost open element if it has this tag. -/
theorem scanFrom_printClosing {tag : Text} (htag : isTag tag = true) {s : Scan} {f : Frame}
    {outer : List Frame} (hframes : s.frames = f :: outer) (hname : f.element.tag = tag)
    (rest : Text) :
    let stop := s.offset + byteLength (printClosing tag)
    s.scanFrom 0 (printClosing tag ++ rest) =
      Scan.scanFrom ⟨stop, s.next, outer, f.close s.nodes stop :: f.before⟩ 0 rest := by
  intro stop
  have htagName : tagName (tag ++ '>' :: rest) = tag :=
    tagName_append htag (by rintro c ⟨⟩; decide)
  have hpast : lengthPast ['>'] ('>' :: rest) = 1 := by
    simp [lengthPast, cut?, after?]
  have hlength : 2 + tag.length + 1 = (printClosing tag).length := by
    simp only [printClosing, List.length_append, List.length_cons, List.length_nil]
    omega
  have hprint : printClosing tag ++ rest = '<' :: '/' :: (tag ++ '>' :: rest) := by
    simp [printClosing]
  have hstep : s.step '<' ('/' :: (tag ++ '>' :: rest)) =
      (s.close tag (printClosing tag), (printClosing tag).length) := by
    simp only [step, htagName, List.drop_left, hpast, hlength, ← hprint, List.take_left]
  have hclose : s.close tag (printClosing tag) =
      ⟨stop, s.next, outer, f.close s.nodes stop :: f.before⟩ := by
    simp only [close, move, hframes, closeTag, hname, sameLetters, beq_self_eq_true, if_true]
    rfl
  rw [hprint, scanFrom_cons, hstep, ← hprint, List.drop_left, hclose]

/-- The state after what is written for a forest: its nodes follow those before. -/
def extend (s : Scan) (items : List Outline) : Scan :=
  { s with
    offset := s.offset + byteLength (Outline.printAll items)
    next := s.next + Outline.sizes items
    nodes := (Outline.nodesFrom s.offset s.next items).reverse ++ s.nodes }

/-- A forest extends a scan tree by tree. -/
theorem extend_cons (s : Scan) (item : Outline) (items : List Outline) :
    s.extend (item :: items) = (s.extend [item]).extend items := by
  simp [extend, Outline.printAll, Outline.sizes, Outline.nodesFrom, Nat.add_assoc]

/-- A text extends a scan by itself. -/
theorem extend_text (s : Scan) (t : Text) : s.extend [.text t] = s.addText t := by
  simp [extend, Outline.printAll, Outline.print, Outline.sizes, Outline.size, Outline.nodesFrom,
    Outline.node, addText, push]

/-- A leaf extends a scan by its element. -/
theorem extend_leaf (s : Scan) (slash : Bool) (tag : Text) (attributes : List AttributeText) :
    s.extend [.leaf slash tag attributes] =
      s.addLeaf (elementOf s.next tag attributes) (printTag slash tag attributes) := by
  simp [extend, Outline.printAll, Outline.print, Outline.sizes, Outline.size, Outline.nodesFrom,
    Outline.node, addLeaf, push]

/-- An element is closed around the nodes of what is written in it. -/
theorem extend_element (s : Scan) (tag : Text) (attributes : List AttributeText)
    (children : List Outline) :
    let e := elementOf s.next tag attributes
    let inner := (s.addOpen e (printTag false tag attributes)).extend children
    let stop := inner.offset + byteLength (printClosing tag)
    s.extend [.element tag attributes children] =
      ⟨stop, inner.next, s.frames, Frame.close ⟨e, s.offset, s.nodes⟩ inner.nodes stop ::
        s.nodes⟩ := by
  simp [extend, Outline.printAll, Outline.print, Outline.sizes, Outline.size, Outline.nodesFrom,
    Outline.node, addOpen, Frame.close, Nat.add_assoc]

end Scan

open Outline in
/-- A forest that does not start with a text starts with an angle bracket. -/
theorem head?_printAll {items : List Outline} (h : items.head?.any isText = false) {rest : Text}
    (hrest : ∀ c ∈ rest.head?, c = '<') : ∀ c ∈ (printAll items ++ rest).head?, c = '<' := by
  cases items with
  | nil => exact hrest
  | cons item items =>
    cases item with
    | text t => cases h
    | leaf | element => rintro c ⟨⟩; rfl

open Outline in
/-- What is written for a forest is scanned into its nodes, wherever it stands. -/
theorem scanFrom_printAll {items : List Outline} (h : allPrintable items = true) (s : Scan)
    {rest : Text} (hrest : ∀ c ∈ rest.head?, c = '<') :
    s.scanFrom 0 (printAll items ++ rest) = (s.extend items).scanFrom 0 rest := by
  induction items using Outline.forest_induction generalizing s rest with
  | nil => simp [printAll, Scan.extend, sizes, nodesFrom]
  | text t items ih =>
    simp only [allPrintable, isPrintable, isText, Bool.and_eq_true, Bool.not_eq_true',
      Bool.true_and, List.isEmpty_eq_false_iff, List.contains_eq_mem, decide_eq_false_iff_not] at h
    obtain ⟨⟨⟨ht, hbracket⟩, hnext⟩, hitems⟩ := h
    rw [printAll, print, List.append_assoc,
      Scan.scanFrom_text ht hbracket (head?_printAll hnext hrest), ih hitems _ hrest,
      Scan.extend_cons, Scan.extend_text]
  | leaf slash tag attributes items ih =>
    simp only [allPrintable, isPrintable, isText, Bool.and_eq_true, Bool.false_and,
      Bool.not_false, and_true, List.all_eq_true] at h
    obtain ⟨⟨⟨htag, hleaf⟩, hattributes⟩, hitems⟩ := h
    rw [printAll, print, List.append_assoc,
      Scan.scanFrom_printTag htag hattributes _ _ _ (by simp [hleaf]), if_pos hleaf,
      ih hitems _ hrest, Scan.extend_cons, Scan.extend_leaf]
  | element tag attributes children items ihinner ih =>
    simp only [allPrintable, isPrintable, isText, Bool.and_eq_true, Bool.false_and,
      Bool.not_false, and_true, Bool.not_eq_true', List.all_eq_true] at h
    obtain ⟨⟨⟨⟨⟨htag, hvoid⟩, hraw⟩, hattributes⟩, hchildren⟩, hitems⟩ := h
    let inner := s.addOpen (elementOf s.next tag attributes) (printTag false tag attributes)
    have hclosing : ∀ c ∈ (printClosing tag ++ (printAll items ++ rest)).head?, c = '<' := by
      rintro c ⟨⟩
      rfl
    have hopened : s.scanFrom 0 (printTag false tag attributes ++ (printAll children ++
        (printClosing tag ++ (printAll items ++ rest)))) =
          (inner.extend children).scanFrom 0 (printClosing tag ++ (printAll items ++ rest)) := by
      rw [Scan.scanFrom_printTag htag hattributes _ _ _ (fun _ => hraw), if_neg (by simp [hvoid]),
        ihinner hchildren _ hclosing]
    have hframes : (inner.extend children).frames =
        ⟨elementOf s.next tag attributes, s.offset, s.nodes⟩ :: s.frames := rfl
    have hclosed := Scan.scanFrom_printClosing htag hframes rfl (printAll items ++ rest)
    rw [printAll, print, List.append_assoc, List.append_assoc, List.append_assoc, hopened, hclosed,
      ih hitems _ hrest, Scan.extend_cons, Scan.extend_element]

/-! ## What the nodes show -/

/-- The class list of the element of a start tag is that of the attributes written there. -/
theorem classList_elementOf (number : Nat) (tag : Text) (attributes : List AttributeText) :
    (elementOf number tag attributes).classList = classNames attributes := by
  have hlists (a : AttributeText) : a.toAttribute.listsClasses =
      (a.name == "class".toList || a.name == "className".toList) := by
    simp [Attribute.listsClasses, AttributeText.toAttribute]
  unfold Element.classList classNames elementOf
  congr 1
  induction attributes with
  | nil => rfl
  | cons a attributes ih =>
    rw [List.map_cons, List.flatMap_cons, ih, hlists, List.filter_cons]
    split
    · rfl
    · rfl

open Outline in
/-- The nodes of a forest show it where it is written. -/
theorem shows_nodesFrom (items : List Outline) (before after : Text) (number : Nat) :
    List.Forall₂ (Shows (before ++ printAll items ++ after)) items
      (nodesFrom (byteLength before) number items) := by
  have hprint (item : Outline) (items : List Outline) (before after : Text) :
      before ++ printAll (item :: items) ++ after =
        before ++ item.print ++ printAll items ++ after := by
    rw [printAll, ← List.append_assoc before]
  have hslice (item : Outline) (items : List Outline) (before after : Text) :
      (before ++ item.print ++ printAll items ++ after).slice (byteLength before)
        (byteLength before + byteLength item.print) = item.print := by
    rw [List.append_assoc _ (printAll items), slice_append]
  induction items using Outline.forest_induction generalizing before after number with
  | nil => exact .nil
  | text t items ih =>
    have hrest := ih (before ++ (Outline.text t).print) after (number + 1)
    rw [byteLength_append] at hrest
    rw [hprint]
    exact .cons (.text (hslice (.text t) items before after)) hrest
  | leaf slash tag attributes items ih =>
    have hrest := ih (before ++ (Outline.leaf slash tag attributes).print) after (number + 1)
    rw [byteLength_append] at hrest
    rw [hprint]
    exact .cons (.leaf (hslice (.leaf slash tag attributes) items before after) rfl rfl
      (classList_elementOf number tag attributes)) hrest
  | element tag attributes children items ihinner ih =>
    let item := Outline.element tag attributes children
    have hrest := ih (before ++ item.print) after (number + item.size)
    have hinside := ihinner (before ++ printTag false tag attributes)
      (printClosing tag ++ (printAll items ++ after)) (number + 1)
    have hsplit : before ++ item.print ++ printAll items ++ after =
        before ++ printTag false tag attributes ++ printAll children ++
          (printClosing tag ++ (printAll items ++ after)) := by
      simp only [item, print, List.append_assoc]
    rw [byteLength_append] at hrest hinside
    rw [← hsplit] at hinside
    rw [hprint]
    exact .cons (.element (hslice item items before after) rfl rfl
      (classList_elementOf number tag attributes) hinside) hrest

open Outline in
/-- Scanning undoes printing: the printed form of a printable forest gives exactly its nodes,
each of which shows its item and covers what is written for it. -/
theorem scan_printAll {items : List Outline} (h : allPrintable items = true) :
    Document.scan (printAll items) = ⟨byteLength (printAll items), nodesFrom 0 1 items⟩ ∧
      List.Forall₂ (Shows (printAll items)) items (Document.scan (printAll items)).nodes := by
  have hscan : Document.scan (printAll items) =
      ⟨byteLength (printAll items), nodesFrom 0 1 items⟩ := by
    have hfrom : Scan.start.scanFrom 0 (printAll items ++ []) = _ :=
      scanFrom_printAll h .start (by simp)
    rw [List.append_nil, Scan.scanFrom] at hfrom
    rw [Document.scan, hfrom]
    simp [Scan.extend, Scan.start, Scan.closeAll]
  have hshows := shows_nodesFrom items [] [] 1
  rw [List.nil_append, List.append_nil] at hshows
  rw [hscan]
  exact ⟨rfl, hshows⟩

/-- An element inside one of the same tag, brackets in a quoted value, a bare name before a
slash, and classes that are listed twice. -/
def nestedCards : List Outline :=
  [.text "cards ".toList,
    .element "div".toList
      [⟨' ', "class".toList, some "p-card is-wide p-card".toList⟩,
        ⟨'\n', "title".toList, some "</div> > />".toList⟩]
      [.element "div".toList [⟨'\t', "className".toList, some " p-card__title ".toList⟩] [],
        .text "é".toList,
        .leaf true "Icon.Small".toList
          [⟨' ', "class".toList, none⟩, ⟨' ', "hidden".toList, none⟩],
        .leaf false "BR".toList []],
    .text " > ".toList]

/-- The nested cards can be written, and are scanned as they were written. -/
theorem scan_printAll_nestedCards : Outline.allPrintable nestedCards = true ∧
    Document.scan (Outline.printAll nestedCards) =
      ⟨byteLength (Outline.printAll nestedCards), Outline.nodesFrom 0 1 nestedCards⟩ ∧
    List.Forall₂ (Outline.Shows (Outline.printAll nestedCards)) nestedCards
      (Document.scan (Outline.printAll nestedCards)).nodes :=
  ⟨by decide, scan_printAll (by decide)⟩

end ClassHints.Markup
