import ClassHints.Proofs.Completion.Assembly
import ClassHints.Proofs.Markup.AttributeStarts
import ClassHints.Proofs.Markup.WellNested

/-!
# Names written in class attributes

A name is read back from the double quotes of a class attribute exactly if it is one word without a
double quote in it. With a quote the attribute ends early, and no part of what is left is long
enough for the name, so that no element has the class. A name that is accepted as a candidate is
one word, but it may have a quote in it.
-/

namespace ClassHints.Markup

open Text

/-- The elements of a document that are inside no other element. -/
def Document.topElements (d : Document) : List Element :=
  d.nodes.filterMap fun
    | .element e _ _ => some e
    | .text .. => none

/-- An element with a text between the double quotes of its class attribute. -/
def classTag (name : Text) : Text := '<' :: "i class=\"".toList ++ name ++ "\"></i>".toList

/-- A text between the quotes is read back as it is: there is one top-level element, and the text
is its only class. -/
def ReadsBack (name : Text) : Prop :=
  ∃ e, (Document.scan (classTag name)).topElements = [e] ∧ e.classList = [name]

/-! ## How long a class can be -/

/-- A value leaves room for the name of its attribute and the equals sign. -/
theorem length_value_lt {t value : Text} {a : Attribute} (ha : (Attribute.front t).1 = some a)
    (hvalue : a.value = some value) : a.name.length + value.length < t.length := by
  by_cases hname : attributeName t = []
  · rw [front_of_nameless hname] at ha
    cases ha
  · obtain ⟨behind, hsplit⟩ := attributeName_isPrefix t
    rcases exists_value_or_bare behind with ⟨blanks, gap, body, rfl, hblanks, hgap, hbody⟩ | hbare
    · rw [front_of_value hname hsplit hblanks hgap hbody] at ha
      obtain rfl := Option.some.inj ha
      obtain rfl := Option.some.inj hvalue
      obtain ⟨before, after, rest, hwritten, -⟩ := attributeValue_eq body
      have hlength := congrArg List.length hsplit
      have hvalueLength := congrArg List.length hwritten
      simp only [List.length_append, List.length_cons] at hlength hvalueLength
      dsimp only
      omega
    · rw [front_of_bare hname hsplit hbare] at ha
      obtain rfl := Option.some.inj ha
      cases hvalue

/-- The classes of an element are the words of the values of its class attributes. -/
theorem Element.mem_classList {e : Element} {name : Text} : name ∈ e.classList ↔
    ∃ a ∈ e.attributes, a.listsClasses = true ∧ name ∈ words (a.value.getD []) := by
  rw [classList, List.mem_eraseDups, List.mem_flatMap]
  refine exists_congr fun a => and_congr_right fun _ => ?_
  split <;> simp [*]

/-- A class that a start tag lists is shorter than the tag by the name of an attribute and an
equals sign. -/
theorem length_class_lt {t name : Text} {a : Attribute} (ha : a ∈ (tagBodyFrom 0 t).attributes)
    (hlists : a.listsClasses = true) (hname : name ∈ words (a.value.getD [])) :
    name.length + 5 < t.length := by
  rw [attributes_tagBodyFrom] at ha
  obtain ⟨u, hu, hfront⟩ := List.mem_filterMap.1 ha
  obtain ⟨lead, rfl, -⟩ := exists_lead_of_mem_attributeStarts hu
  have hword := length_le_of_mem_words hname
  cases hvalue : a.value with
  | none =>
    rw [hvalue] at hname
    cases hname
  | some value =>
    have hfive : 5 ≤ a.name.length := by
      simp only [Attribute.listsClasses, Bool.and_eq_true, Bool.or_eq_true, beq_iff_eq] at hlists
      rcases hlists.1 with hclass | hclass <;> simp [hclass]
    have hlt := length_value_lt hfront hvalue
    rw [hvalue, Option.getD_some] at hword
    rw [List.length_append]
    omega

/-- A class attribute with a value. -/
def classText (value : Text) : AttributeText := ⟨' ', "class".toList, some value⟩

/-- A class attribute can be written with any value that has no double quote. -/
theorem isPrintable_classText {value : Text} (h : '"' ∉ value) :
    (classText value).isPrintable = true := by
  simpa [classText, AttributeText.isPrintable, AttributeText.isNamePart, isSpacing, formFeed]
    using h

/-! ## A quote in the name -/

/-- The tag that a name is written in does not list the name if a quote is in it: the attribute
ends with the quote, and what is behind it is too short. -/
theorem not_mem_classList_of_front {name : Text} (hquote : '"' ∈ name) (number : Nat) :
    name ∉ ((StartTag.front (classTag name)).element number).classList := by
  obtain ⟨first, rest, rfl, hfirst⟩ := List.eq_append_cons_of_mem hquote
  have hprintable := isPrintable_classText hfirst
  have hbehind : StartTag.behindName (classTag (first ++ '"' :: rest)) =
      (classText first).print ++ (rest ++ "\"></i>".toList) := by
    change (' ' :: "class=\"".toList) ++ (first ++ '"' :: rest) ++ "\"></i>".toList = _
    simp [classText, AttributeText.print, AttributeText.body]
  intro hmem
  obtain ⟨a, ha, hlists, hname⟩ := Element.mem_classList.1 hmem
  rw [StartTag.element, StartTag.body_front, hbehind, AttributeText.tagBodyFrom_print hprintable
    (AttributeText.front_body_of_value hprintable rfl _)] at ha
  rcases List.mem_cons.1 ha with rfl | ha
  · have hlength := length_le_of_mem_words hname
    simp only [AttributeText.toAttribute, classText, Option.getD_some, List.length_append,
      List.length_cons] at hlength
    omega
  · have hlength := length_class_lt ha hlists hname
    have hend : "\"></i>".toList.length = 6 := rfl
    simp only [List.length_append, List.length_cons, hend] at hlength
    omega

/-- Between its first bracket and the name a class tag has no other bracket. -/
theorem length_le_of_opensTag {name before after : Text} (hsplit : classTag name = before ++ after)
    (hbefore : before ≠ []) (hopens : OpensTag after) : after.length ≤ name.length + 6 := by
  obtain ⟨c, before, rfl⟩ := List.exists_cons_of_ne_nil hbefore
  obtain ⟨d, rest, rfl, -⟩ := hopens
  have hend : "\"></i>".toList.length = 6 := rfl
  rw [classTag, List.cons_append, List.cons_append, List.cons_append, List.cons.injEq,
    List.append_assoc] at hsplit
  rcases List.append_eq_append_iff.1 hsplit.2 with ⟨m, -, hbody⟩ | ⟨m, hlead, hbody⟩
  · have hlength := congrArg List.length hbody
    simp only [List.length_append, hend] at hlength
    omega
  · cases m with
    | nil => simp [hbody]
    | cons x m =>
      obtain ⟨rfl, -⟩ := List.cons.inj hbody
      have hbracket : '<' ∈ "i class=\"".toList := by simp [hlead]
      exact absurd hbracket (by decide)

/-- With a quote in it a name is a class of no element, wherever the element is written. -/
theorem not_mem_classList_of_quote {name : Text} (hquote : '"' ∈ name) {e : Element} {start : Nat}
    (h : e.WrittenAt (classTag name) start) : name ∉ e.classList := by
  obtain ⟨before, after, hsplit, hstart⟩ := h.boundary
  have hafter : (classTag name).fromByte start = after := by
    rw [hsplit, ← hstart, fromByte_append]
  have hopens := h.opens
  have helement := h.eq_element
  rw [hafter] at hopens helement
  by_cases hbefore : before = []
  · rw [hbefore, List.nil_append] at hsplit
    rw [helement, ← hsplit]
    exact not_mem_classList_of_front hquote e.number
  · intro hmem
    rw [helement] at hmem
    obtain ⟨a, ha, hlists, hname⟩ := Element.mem_classList.1 hmem
    have hlength := length_class_lt ha hlists hname
    have hshort := length_le_of_opensTag hsplit hbefore hopens
    have htotal := hopens.length_eq
    rw [StartTag.behindName] at htotal
    change _ < (after.drop (1 + (StartTag.front after).name.length)).length at hlength
    omega

/-! ## Reading back -/

/-- A top-level element of a scanned text is written where its range starts. -/
theorem writtenAt_of_mem_nodes {t : Text} {e : Element} {range : Range} {children : List Node}
    (h : .element e range children ∈ (Document.scan t).nodes) : e.WrittenAt t range.start := by
  obtain ⟨next, hall⟩ := inOrder_scan t
  obtain ⟨-, -, -, middle, hnode⟩ := hall.of_mem_placesIn (mem_placesIn_of_mem h [])
  cases hnode with
  | element _ _ written => exact written

/-- Without a quote in it a text is the value of the one attribute of the one element. -/
theorem topElements_scan_classTag {name : Text} (hquote : '"' ∉ name) :
    (Document.scan (classTag name)).topElements = [elementOf 1 ['i'] [classText name]] := by
  have hprint : Outline.printAll [.element ['i'] [classText name] []] = classTag name := by
    simp [Outline.printAll, Outline.print, printTag, printAttributes, AttributeText.print,
      AttributeText.body, tagEnd, printClosing, classTag, classText]
  have htag : isTag ['i'] = true ∧ isVoid ['i'] = false ∧ isRaw ['i'] = false := by decide
  have hprintable : Outline.allPrintable [.element ['i'] [classText name] []] = true := by
    simp [Outline.allPrintable, Outline.isPrintable, Outline.isText, htag,
      isPrintable_classText hquote]
  have hscan : Scan.start.scanFrom 0 (Outline.printAll _ ++ []) = _ :=
    scanFrom_printAll hprintable .start (by simp)
  rw [List.append_nil, Scan.scanFrom, hprint] at hscan
  rw [Document.topElements, Document.scan, hscan]
  rfl

/-- A text is read back exactly if it is one word without a double quote in it. -/
theorem readsBack_iff {name : Text} :
    ReadsBack name ↔ name ≠ [] ∧ (∀ c ∈ name, isBlank c = false) ∧ '"' ∉ name := by
  constructor
  · rintro ⟨e, htop, hclasses⟩
    have hmem : name ∈ e.classList := by simp [hclasses]
    obtain ⟨hne, hblank⟩ := e.classList_words.2 name hmem
    refine ⟨hne, hblank, fun hquote => ?_⟩
    have helement : e ∈ (Document.scan (classTag name)).topElements := by simp [htop]
    obtain ⟨node, hnode, hsome⟩ := List.mem_filterMap.1 helement
    cases node with
    | text => cases hsome
    | element e' range children =>
      obtain rfl := Option.some.inj hsome
      exact not_mem_classList_of_quote hquote (writtenAt_of_mem_nodes hnode) hmem
  · rintro ⟨hne, hblank, hquote⟩
    refine ⟨_, topElements_scan_classTag hquote, ?_⟩
    have hclasses : classNames [classText name] = (words name).eraseDups := by
      simp [classNames, classText]
    rw [classList_elementOf, hclasses, words_eq_singleton hne hblank]
    rfl

end ClassHints.Markup

namespace ClassHints.Completion

open Text
open Markup (ReadsBack)
open Cursor (Position)

/-- A name that is accepted is one word. -/
theorem of_isValidName {name : Text} (h : isValidName name = true) :
    name ≠ [] ∧ ∀ c ∈ name, isBlank c = false := by
  simp only [isValidName, Bool.and_eq_true, Bool.not_eq_true', List.isEmpty_eq_false_iff,
    List.any_eq_false, breaksName, Bool.or_eq_true, not_or, Bool.not_eq_true] at h
  exact ⟨h.1.1, fun c hc => (h.2 c hc).1⟩

/-- A double quote is all that keeps an accepted name from being read back. -/
theorem readsBack_iff_of_isValidName {name : Text} (h : isValidName name = true) :
    ReadsBack name ↔ '"' ∉ name := by
  obtain ⟨hne, hblank⟩ := of_isValidName h
  rw [Markup.readsBack_iff]
  exact ⟨fun hreads => hreads.2.2, fun hquote => ⟨hne, hblank, hquote⟩⟩

/-- The label of a class candidate is a name that is accepted. -/
theorem isValidName_label {p : Package} {s : CompletionSettings} {language : Language} {t : Text}
    {position : Position} {c : Candidate} (hc : c ∈ complete p s language t position)
    (hkind : c.kind = .styleClass) : isValidName c.label = true := by
  by_cases hlanguage : language = .stylesheet
  · subst hlanguage
    obtain ⟨⟨v, index⟩, -, rfl⟩ := List.mem_map.1 hc
    dsimp only at hkind
    split at hkind <;> cases hkind
  · by_cases hranked : ∃ r, RankedAt p s t position language r
    · obtain ⟨r, hr⟩ := hranked
      rw [hr.complete_eq] at hc
      exact (((assembled_assemble p s r).mem_labels c.label).1 (List.mem_map_of_mem hc)).1
    · rw [complete_eq_nil hlanguage (not_exists.1 hranked)] at hc
      cases hc

/-- A text is read back from a class attribute exactly if it is one word without a double quote.
So a name that is accepted, and with it the label of every class that the service suggests, is read
back exactly if it has no double quote in it. -/
theorem readsBack_of_accepted (name : Text) :
    (ReadsBack name ↔ name ≠ [] ∧ (∀ c ∈ name, isBlank c = false) ∧ '"' ∉ name) ∧
    (isValidName name = true → (ReadsBack name ↔ '"' ∉ name)) ∧
    ∀ (service : Service) (language : Language) (t : Text) (position : Position),
      ∀ c ∈ service.complete language t position, c.kind = .styleClass → c.label = name →
        isValidName name = true ∧ (ReadsBack name ↔ '"' ∉ name) := by
  refine ⟨Markup.readsBack_iff, readsBack_iff_of_isValidName, ?_⟩
  rintro service language t position c hc hkind rfl
  cases hpublished : service.published with
  | none =>
    rw [Service.complete, hpublished] at hc
    cases hc
  | some snapshot =>
    rw [Service.complete, hpublished] at hc
    have hvalid := isValidName_label hc hkind
    exact ⟨hvalid, readsBack_iff_of_isValidName hvalid⟩

/-- A package with one class, whose name has an escaped quote in it. -/
def quotedPackage : Package :=
  ⟨⟨#[], #[], #[⟨[⟨"a\\\"b".toList, false⟩], [], none, ".a\\\"b".toList, none⟩]⟩,
    ⟨[], [], [0], [0], []⟩, []⟩

/-- The class with the quote is suggested and not read back; a name without one is. -/
theorem readsBack_of_accepted_escapedQuote :
    (∃ c ∈ Service.complete ⟨{}, some ⟨[], quotedPackage⟩, 1⟩ .markup "<i class=\"".toList ⟨0, 10⟩,
      c.kind = .styleClass ∧ c.label = "a\\\"b".toList ∧ ¬ReadsBack c.label) ∧
    ReadsBack "p-card".toList := by
  have hlabels : (Service.complete ⟨{}, some ⟨[], quotedPackage⟩, 1⟩ .markup "<i class=\"".toList
      ⟨0, 10⟩).map (fun c => (c.kind, c.label)) = [(.styleClass, "a\\\"b".toList)] := by
    decide +kernel
  obtain ⟨c, hc, hlabel⟩ := List.mem_map.1 (hlabels ▸ List.mem_singleton_self _)
  obtain ⟨hkind, hname⟩ := Prod.mk.inj hlabel
  obtain ⟨-, -, hsuggested⟩ := readsBack_of_accepted "a\\\"b".toList
  obtain ⟨-, haccepted, -⟩ := readsBack_of_accepted "p-card".toList
  refine ⟨⟨c, hc, hkind, hname, fun hreads => ?_⟩, (haccepted (by decide)).2 (by decide)⟩
  have hquote := (hsuggested _ _ _ _ c hc hkind hname).2.1 (hname ▸ hreads)
  exact absurd hquote (by decide)

end ClassHints.Completion
