import ClassHints.Completion.Candidate
import ClassHints.Proofs.Markup.Nesting
import ClassHints.Proofs.Markup.Prefix

/-!
# Suggestions inside an open start tag

A cursor behind an unfinished start tag is in the element of that tag, whatever follows it. The
element that is found, the elements around it and what is suggested there depend only on the
text before the cursor.
-/

namespace ClassHints.Cursor

open Markup Text

/-! ## The element that holds an offset -/

section

variable {t : Text} {number low next high offset : Nat} {nodes : List Node}
  {around : List Element}

/-- No element holds an offset before all of them, or if there is no room for any. -/
theorem locateIn_eq_none (h : InOrder t number low nodes next high)
    (hlow : offset < low ∨ high ≤ low) : locateIn offset around nodes = none := by
  induction h with
  | nil => rfl
  | text low_le start_lt _ _ rest ih =>
    have hle := rest.low_le_high
    rw [locateIn, locateNode, ih (by omega)]
  | @element _ _ _ _ _ e range children nodes _ low_le written _ inner rest _ ih =>
    have htag := written.lt_tagStop
    have hinner := inner.low_le_high
    have hle := rest.low_le_high
    have hholds : ¬holds range offset = true := by
      simp only [holds, Bool.and_eq_true, decide_eq_true_eq]
      omega
    rw [locateIn, locateNode, if_neg hholds, ih (by omega)]

/-- An element is found where it holds an offset behind its start and nothing in it does. -/
theorem locateIn_of_mem {inside : List Element} {e : Element} {range : Range}
    {children : List Node} (h : InOrder t number low nodes next high)
    (hmem : ⟨inside, .element e range children⟩ ∈ placesIn around nodes)
    (hstart : range.start < offset) (hstop : offset ≤ range.stop)
    (hchildren : locateIn offset (e :: inside) children = none) :
    locateIn offset around nodes = some ⟨e, range, inside⟩ := by
  induction h generalizing around with
  | nil => cases hmem
  | text _ _ _ _ _ ih =>
    rw [placesIn_text] at hmem
    rcases List.mem_cons.1 hmem with heq | hmem
    · cases heq
    · rw [locateIn, locateNode, ih hmem]
  | @element _ _ _ _ _ e' range' children' nodes _ _ written _ inner rest ihinner ih =>
    rw [placesIn_element] at hmem
    rcases List.mem_cons.1 hmem with heq | hmem
    · cases heq
      have hholds : holds range offset = true := by
        simp only [holds, Bool.and_eq_true, decide_eq_true_eq]
        omega
      rw [locateIn, locateNode, if_pos hholds, hchildren]
      rfl
    rcases List.mem_append.1 hmem with hmem | hmem
    · -- the element around it holds the offset as well
      obtain ⟨-, hlow, hhigh, -⟩ := inner.of_mem_placesIn hmem
      have htag := written.lt_tagStop
      have hholds : holds range' offset = true := by
        simp only [holds, Bool.and_eq_true, decide_eq_true_eq]
        simp only [Node.range] at hlow hhigh
        omega
      rw [locateIn, locateNode, if_pos hholds, ihinner hmem]
      rfl
    · -- the elements before it end where it starts or earlier
      obtain ⟨-, hlow, -⟩ := rest.of_mem_placesIn hmem
      have hholds : ¬holds range' offset = true := by
        simp only [holds, Bool.and_eq_true, decide_eq_true_eq]
        simp only [Node.range] at hlow
        omega
      rw [locateIn, locateNode, if_neg hholds, ih hmem]

end

/-! ## The start tag at the cursor -/

/-- A scan of a text ends inside a start tag: the last state that it gets to before its end has
an unfinished start tag left. -/
structure EndsInTag (t : Text) (s : Scan) (rest : Text) : Prop where
  reaches : Scan.Reaches t s rest
  opens : OpensTag rest
  unfinished : (StartTag.front rest).body.ending = .unfinished

/-- An offset of a document is in the element that a scan has come to: it is a node of the
document with the next number, it starts there, and what is open is around it. -/
structure InTag (s : Scan) (d : Document) (offset : Nat) (found : Location) : Prop where
  located : locate d offset = some found
  number : found.element.number = s.next
  start : found.range.start = s.offset
  ancestors : found.ancestors = s.frames.map Frame.element
  node : ∃ children,
    d.place? s.next = some ⟨found.ancestors, .element found.element found.range children⟩

/-- Inside the start tag that a scan has come to, and at its end if the text ends there as well,
the element of the tag is found. -/
theorem exists_inTag {t rest : Text} {s : Scan} {offset : Nat} (hreach : Scan.Reaches t s rest)
    (hopens : OpensTag rest) (hstart : s.offset < offset) (hstop : offset ≤ tagStop t s.offset)
    (hend : offset < tagStop t s.offset ∨ byteLength t ≤ offset) :
    ∃ found, InTag s (Document.scan t) offset found := by
  obtain ⟨range, children, hrange, hmem⟩ := exists_mem_places_of_reaches hreach hopens
  obtain ⟨next, hall⟩ := inOrder_scan t
  obtain ⟨-, -, hhigh, middle, hnode⟩ := hall.of_mem_placesIn hmem
  have hplace := place?_of_mem hmem
  rw [← hrange] at hstart hstop hend
  cases hnode with
  | element _ _ written _ inner _ =>
    have hinner := inner.low_le_high
    simp only [Node.range] at hhigh hinner inner
    have hchildren : locateIn offset
        ((StartTag.front rest).element s.next :: s.frames.map Frame.element) children = none :=
      locateIn_eq_none inner (by omega)
    have hlocated := locateIn_of_mem hall hmem hstart (by omega) hchildren
    exact ⟨_, hlocated, rfl, hrange, rfl, children, hplace⟩

namespace EndsInTag

variable {before rest : Text} {s : Scan} (h : EndsInTag before s rest)

include h

/-- The scan has come to the place where the unfinished tag starts. -/
theorem offset_add_eq : s.offset + byteLength rest = byteLength before := by
  obtain ⟨lead, rfl, hlead⟩ := h.reaches.eq_append
  rw [byteLength_append, hlead]

/-- The unfinished tag has at least one character. -/
theorem offset_lt : s.offset < byteLength before := by
  obtain ⟨d, tail, hrest, -⟩ := h.opens
  have hpos := byteLength_pos (hrest ▸ List.cons_ne_nil '<' (d :: tail) : rest ≠ [])
  have hoffset := h.offset_add_eq
  omega

/-- Without any text behind the cursor the element of the unfinished tag is a node of the document.
-/
theorem exists_inTag_self : ∃ found, InTag s (Document.scan before) (byteLength before) found := by
  have hstop : tagStop before s.offset = byteLength before := by
    rw [tagStop, h.reaches.fromByte_offset, h.opens.length_of_unfinished h.unfinished,
      List.take_length, h.offset_add_eq]
  exact exists_inTag h.reaches h.opens h.offset_lt (Nat.le_of_eq hstop.symm)
    (.inr (Nat.le_refl _))

/-- Whatever follows, the cursor stays in the element of the tag. -/
theorem exists_inTag_append (after : Text) :
    ∃ found, InTag s (Document.scan (before ++ after)) (byteLength before) found := by
  by_cases hafter : after = []
  · rw [hafter, List.append_nil]
    exact h.exists_inTag_self
  · obtain ⟨d, tail, hrest, -⟩ := h.opens
    have hreach := h.reaches.append (hrest ▸ List.cons_ne_nil '<' (d :: tail)) after
    obtain ⟨hopens, hlength⟩ := h.opens.lt_length_front_append hafter h.unfinished
    have hlt : byteLength before < tagStop (before ++ after) s.offset := by
      obtain ⟨k, hk⟩ := Nat.exists_eq_add_of_lt hlength
      have hmore : 0 < byteLength (after.take (k + 1)) := by
        refine byteLength_pos ?_
        simpa [List.take_eq_nil_iff] using hafter
      have hoffset := h.offset_add_eq
      rw [tagStop, hreach.fromByte_offset, hk, Nat.add_assoc, List.take_length_add_append,
        byteLength_append]
      omega
    exact exists_inTag hreach hopens h.offset_lt (Nat.le_of_lt hlt) (.inl hlt)

end EndsInTag

/-- What is looked at before an offset does not depend on what follows. -/
theorem classAttributeOpen_append (before after : Text) (floor lookback : Nat) :
    classAttributeOpen (before ++ after) (byteLength before) floor lookback =
      classAttributeOpen before (byteLength before) floor lookback := by
  have hall := takeBytes_append before []
  rw [List.append_nil] at hall
  unfold classAttributeOpen window
  rw [takeBytes_append, hall]

/-- Two locations of the cursor behind `before`, without and with `after` behind it: both are the
element of the tag that a scan has come to, a class attribute is open in both texts or in neither,
and what is suggested is the same. -/
structure SameSuggestions (s : Scan) (before after : Text) (found found' : Location) : Prop where
  alone : InTag s (Document.scan before) (byteLength before) found
  followed : InTag s (Document.scan (before ++ after)) (byteLength before) found'
  attributeOpen : ∀ lookback,
    classAttributeOpen (before ++ after) (byteLength before) found'.range.start lookback =
      classAttributeOpen before (byteLength before) found.range.start lookback
  ranking : ∀ p : Package,
    Completion.rank p found'.ancestors = Completion.rank p found.ancestors
  candidates : ∀ (p : Package) settings language,
    Completion.classCandidatesAt p settings language (before ++ after) (byteLength before) =
      Completion.classCandidatesAt p settings language before (byteLength before)

/-- What is suggested inside a start tag does not depend on the text behind the cursor. -/
theorem suggestions_of_endsInTag {before rest : Text} {s : Scan} (h : EndsInTag before s rest)
    (after : Text) : ∃ found found', SameSuggestions s before after found found' := by
  obtain ⟨found, hfound⟩ := h.exists_inTag_self
  obtain ⟨found', hfound'⟩ := h.exists_inTag_append after
  have hancestors : found'.ancestors = found.ancestors :=
    hfound'.ancestors.trans hfound.ancestors.symm
  have hopen (lookback : Nat) :
      classAttributeOpen (before ++ after) (byteLength before) found'.range.start lookback =
        classAttributeOpen before (byteLength before) found.range.start lookback := by
    rw [classAttributeOpen_append, hfound'.start, hfound.start]
  refine ⟨found, found', hfound, hfound', hopen, fun p => by rw [hancestors], ?_⟩
  intro p settings language
  unfold Completion.classCandidatesAt
  simp only [hfound.located, hfound'.located, hopen, hancestors]

/-- A list with a closed item, and an item whose classes are being written. -/
def openList : Text := "<ul class=\"p-list\"><li/><li class=\"p-list__".toList

/-- Behind the open item of the list the suggestions are the same with the rest of the list behind
the cursor. -/
theorem suggestions_of_endsInTag_openList : ∃ s rest, EndsInTag openList s rest ∧
    ∃ found found', SameSuggestions s openList "item\"></ul><li></li>".toList found found' := by
  have hstart : Scan.Reaches openList .start ('<' :: openList.drop 1) := .start
  have hlist : Scan.Reaches openList _ ('<' :: openList.drop 20) := hstart.step
  have hitem : Scan.Reaches openList _ (openList.drop 24) := hlist.step
  have h : EndsInTag openList _ _ := ⟨hitem, ⟨'l', _, rfl, rfl⟩, rfl⟩
  exact ⟨_, _, h, suggestions_of_endsInTag h _⟩

end ClassHints.Cursor
