import ClassHints.Cursor.Location
import ClassHints.Proofs.Markup.Nesting

/-!
# The innermost element at an offset

The way to an element leads from the outside in and never back: of each list of nodes the first
element that holds the offset is entered. What is found this way is an innermost element on any
forest. That no other way would have led further is due to the layout of scanned documents, where
neighbours share at most the byte offset at which one ends and the next one starts.
-/

namespace ClassHints.Cursor

open Markup Text

/-- No element among some nodes holds an offset. -/
def NoneHolds (offset : Nat) (nodes : List Node) : Prop :=
  ∀ e range children, .element e range children ∈ nodes → holds range offset = false

/-- A range holds the offsets from its start to its end, both included. -/
theorem holds_iff {range : Range} {offset : Nat} :
    holds range offset = true ↔ range.start ≤ offset ∧ offset ≤ range.stop := by
  simp only [holds, Bool.and_eq_true, decide_eq_true_eq]

/-! ## Forests -/

/-- What is found at an offset among nodes inside `around`: an element that is one of them or
below them, holds the offset, and has no element directly inside that does. The elements around
it hold the offset as well, as far as they belong to these nodes. -/
structure FoundIn (offset : Nat) (around : List Element) (nodes : List Node) (found : Location) :
    Prop where
  held : holds found.range offset = true
  placed : ∃ children, NoneHolds offset children ∧
    ⟨found.ancestors, .element found.element found.range children⟩ ∈ placesIn around nodes
  within : ∀ a ∈ found.ancestors, a ∈ around ∨ ∃ outer range children,
    ⟨outer, .element a range children⟩ ∈ placesIn around nodes ∧ holds range offset = true

/-- More nodes around what was found leave it where it is. -/
theorem FoundIn.mono {offset : Nat} {around : List Element} {nodes more : List Node}
    {found : Location} (h : FoundIn offset around nodes found)
    (hsub : ∀ p ∈ placesIn around nodes, p ∈ placesIn around more) :
    FoundIn offset around more found := by
  obtain ⟨children, hnone, hplaced⟩ := h.placed
  refine ⟨h.held, ⟨children, hnone, hsub _ hplaced⟩, fun a ha => ?_⟩
  rcases h.within a ha with hmem | ⟨outer, range, children, hmem, hheld⟩
  · exact .inl hmem
  · exact .inr ⟨outer, range, children, hsub _ hmem, hheld⟩

/-- An element is entered if it holds the offset: what is found inside it is found, or else it
is found itself. -/
theorem locateIn_element (offset : Nat) (around : List Element) (e : Element) (range : Range)
    (children nodes : List Node) :
    locateIn offset around (.element e range children :: nodes) =
      if holds range offset then
        some ((locateIn offset (e :: around) children).getD ⟨e, range, around⟩)
      else locateIn offset around nodes := by
  rw [locateIn, locateNode]
  split
  · next found hfound =>
    split at hfound
    · next hheld => rw [if_pos hheld, hfound]
    · cases hfound
  · next hnone =>
    split at hnone
    · cases hnone
    · next hheld => rw [if_neg hheld]

/-- No element is located exactly if none holds the offset. -/
theorem locateIn_eq_none_iff {offset : Nat} {around : List Element} {nodes : List Node} :
    locateIn offset around nodes = none ↔ NoneHolds offset nodes := by
  induction nodes with
  | nil => exact ⟨fun _ _ _ _ hmem => absurd hmem List.not_mem_nil, fun _ => rfl⟩
  | cons node nodes ih =>
    cases node with
    | text number range =>
      rw [locateIn, locateNode, ih]
      constructor
      · intro hnone e range children hmem
        rcases List.mem_cons.1 hmem with heq | hmem
        · cases heq
        · exact hnone e range children hmem
      · exact fun hnone e range children hmem =>
          hnone e range children (List.mem_cons_of_mem _ hmem)
    | element e range children =>
      rw [locateIn_element]
      split
      · next hheld =>
        refine ⟨fun heq => (by cases heq), fun hnone => ?_⟩
        have hfalse := hnone e range children List.mem_cons_self
        rw [hheld] at hfalse
        cases hfalse
      · next hheld =>
        rw [ih]
        constructor
        · intro hnone e' range' children' hmem
          rcases List.mem_cons.1 hmem with heq | hmem
          · cases heq
            exact Bool.eq_false_iff.2 hheld
          · exact hnone e' range' children' hmem
        · exact fun hnone e' range' children' hmem =>
            hnone e' range' children' (List.mem_cons_of_mem _ hmem)

/-- Every element on the way holds the offset, and the way ends where no element inside does. -/
theorem foundIn_of_locateIn {offset : Nat} {around : List Element} {nodes : List Node}
    {found : Location} (h : locateIn offset around nodes = some found) :
    FoundIn offset around nodes found := by
  induction nodes using Node.forest_induction generalizing around found with
  | nil => cases h
  | text number range nodes ih =>
    rw [locateIn, locateNode] at h
    refine (ih h).mono fun p hp => ?_
    rw [placesIn_text]
    exact List.mem_cons_of_mem _ hp
  | element e range children nodes ihinner ih =>
    rw [locateIn_element] at h
    split at h
    · next hheld =>
      have hself : ⟨around, .element e range children⟩ ∈
          placesIn around (.element e range children :: nodes) := by
        rw [placesIn_element]
        exact List.mem_cons_self
      cases hinner : locateIn offset (e :: around) children with
      | none =>
        rw [hinner] at h
        obtain rfl := Option.some.inj h
        refine ⟨hheld, ⟨children, locateIn_eq_none_iff.1 hinner, hself⟩, ?_⟩
        exact fun a ha => .inl ha
      | some inner =>
        rw [hinner] at h
        obtain rfl := Option.some.inj h
        have hfound := ihinner hinner
        have hsub : ∀ p ∈ placesIn (e :: around) children,
            p ∈ placesIn around (.element e range children :: nodes) := by
          intro p hp
          rw [placesIn_element]
          exact List.mem_cons_of_mem _ (List.mem_append_left _ hp)
        obtain ⟨inside, hnone, hplaced⟩ := hfound.placed
        refine ⟨hfound.held, ⟨inside, hnone, hsub _ hplaced⟩, fun a ha => ?_⟩
        rcases hfound.within a ha with hmem | ⟨outer, range', children', hmem, hheld'⟩
        · rcases List.mem_cons.1 hmem with rfl | hmem
          · exact .inr ⟨around, range, children, hself, hheld⟩
          · exact .inl hmem
        · exact .inr ⟨outer, range', children', hsub _ hmem, hheld'⟩
    · refine (ih h).mono fun p hp => ?_
      rw [placesIn_element]
      exact List.mem_cons_of_mem _ (List.mem_append_right _ hp)

/-- What is found inside some elements has them around it. -/
theorem mem_ancestors_of_locateIn {offset : Nat} {around : List Element} {nodes : List Node}
    {found : Location} (h : locateIn offset around nodes = some found) :
    ∀ a ∈ around, a ∈ found.ancestors := by
  induction nodes using Node.forest_induction generalizing around found with
  | nil => cases h
  | text number range nodes ih =>
    rw [locateIn, locateNode] at h
    exact ih h
  | element e range children nodes ihinner ih =>
    rw [locateIn_element] at h
    split at h
    · cases hinner : locateIn offset (e :: around) children with
      | none =>
        rw [hinner] at h
        obtain rfl := Option.some.inj h
        exact fun a ha => ha
      | some inner =>
        rw [hinner] at h
        obtain rfl := Option.some.inj h
        exact fun a ha => ihinner hinner a (List.mem_cons_of_mem e ha)
    · exact ih h

/-! ## Nodes in order -/

/-- An element with the offset behind its start is on the way. The elements before it end where
it starts or earlier, so that the way cannot lead into one of them. -/
theorem exists_located_of_mem {t : Text} {number low next high offset : Nat} {nodes : List Node}
    {around inside : List Element} {e : Element} {range : Range} {children : List Node}
    (h : InOrder t number low nodes next high)
    (hmem : ⟨inside, .element e range children⟩ ∈ placesIn around nodes)
    (hstart : range.start < offset) (hstop : offset ≤ range.stop) :
    ∃ found, locateIn offset around nodes = some found ∧
      (e = found.element ∨ e ∈ found.ancestors) := by
  induction h generalizing around with
  | nil => cases hmem
  | text _ _ _ _ _ ih =>
    rw [placesIn_text] at hmem
    rcases List.mem_cons.1 hmem with heq | hmem
    · cases heq
    · rw [locateIn, locateNode]
      exact ih hmem
  | @element _ _ _ _ _ e' range' children' nodes _ _ written _ inner rest ihinner ih =>
    rw [placesIn_element] at hmem
    rw [locateIn_element]
    rcases List.mem_cons.1 hmem with heq | hmem
    · cases heq
      rw [if_pos (holds_iff.2 ⟨Nat.le_of_lt hstart, hstop⟩)]
      refine ⟨_, rfl, ?_⟩
      cases hinner : locateIn offset (e :: inside) children with
      | none => exact .inl rfl
      | some found => exact .inr (mem_ancestors_of_locateIn hinner e List.mem_cons_self)
    rcases List.mem_append.1 hmem with hmem | hmem
    · -- the element around it holds the offset as well
      obtain ⟨-, hlow, hhigh, -⟩ := inner.of_mem_placesIn hmem
      have htag := written.lt_tagStop
      simp only [Node.range] at hlow hhigh
      rw [if_pos (holds_iff.2 ⟨by omega, by omega⟩)]
      obtain ⟨found, hfound, hcases⟩ := ihinner hmem
      exact ⟨found, by rw [hfound]; rfl, hcases⟩
    · obtain ⟨-, hlow, -⟩ := rest.of_mem_placesIn hmem
      simp only [Node.range] at hlow
      have hheld : ¬holds range' offset = true := by
        rw [holds_iff]
        omega
      rw [if_neg hheld]
      exact ih hmem

/-! ## Scanned documents -/

/-- An element that is found at an offset is an innermost one: it is a node of the document that
holds the offset, all elements around it do, and no element directly inside it does. -/
structure Innermost (d : Document) (offset : Nat) (found : Location) : Prop where
  held : found.range.start ≤ offset ∧ offset ≤ found.range.stop
  around : ∀ a ∈ found.ancestors, ∃ outer range children,
    d.place? a.number = some ⟨outer, .element a range children⟩ ∧
      range.start ≤ offset ∧ offset ≤ range.stop
  inside : ∃ children, NoneHolds offset children ∧ d.place? found.element.number =
    some ⟨found.ancestors, .element found.element found.range children⟩

/-- What is found at an offset of a document. -/
structure LocatesInnermost (d : Document) (offset : Nat) : Prop where
  innermost : ∀ found, locate d offset = some found → Innermost d offset found
  /-- Nothing is found only where no element holds the offset. -/
  missing : locate d offset = none ↔ NoneHolds offset d.nodes
  /-- Every element with the offset behind its start and not behind its end is the one that is
  found or around it. -/
  covering : ∀ p ∈ d.places, ∀ e range children, p.node = .element e range children →
    range.start < offset → offset ≤ range.stop →
    ∃ found, locate d offset = some found ∧ (e = found.element ∨ e ∈ found.ancestors)

/-- At every offset of every text, also past its end or inside a character, the innermost element
is found. -/
theorem locate_innermost (t : Text) (offset : Nat) :
    LocatesInnermost (Document.scan t) offset := by
  refine ⟨fun found hlocate => ?_, locateIn_eq_none_iff, ?_⟩
  · have hfound := foundIn_of_locateIn hlocate
    obtain ⟨children, hnone, hplaced⟩ := hfound.placed
    refine ⟨holds_iff.1 hfound.held, fun a ha => ?_, ⟨children, hnone, place?_of_mem hplaced⟩⟩
    rcases hfound.within a ha with hmem | ⟨outer, range, children', hmem, hheld⟩
    · cases hmem
    · exact ⟨outer, range, children', place?_of_mem hmem, holds_iff.1 hheld⟩
  · intro p hp e range children heq hstart hstop
    obtain ⟨next, hall⟩ := inOrder_scan t
    obtain ⟨inside, node⟩ := p
    obtain rfl := heq
    exact exists_located_of_mem hall hp hstart hstop

-- where two neighbours meet, the first one is found
example : (locate (Document.scan "<b></b><i></i>".toList) 7).map (·.range) = some ⟨0, 7⟩ := by
  decide +kernel

end ClassHints.Cursor
