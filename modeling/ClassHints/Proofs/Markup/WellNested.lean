import ClassHints.Proofs.Markup.Nesting

/-!
# Scanned documents are well nested

Every text can be scanned, and the entries of the document make up a tree: they are numbered in
pre-order, every node is directly inside one entry, and the bytes of a node lie inside those of
the entry around it and apart from those of its neighbours. What an element says is cut out of
the bytes that it covers.
-/

namespace ClassHints.Markup

open Text

/-- A beginning with few enough bytes is part of the longest beginning with so many bytes. -/
theorem prefix_takeBytes {u r : Text} {n : Nat} (h : u <+: r) (hn : byteLength u ≤ n) :
    u <+: Cursor.takeBytes n r := by
  induction u generalizing r n with
  | nil => exact List.nil_prefix
  | cons c u ih =>
    obtain ⟨rest, rfl⟩ := h
    rw [byteLength_cons] at hn
    rw [List.cons_append, Cursor.takeBytes, if_pos (by omega)]
    exact List.cons_prefix_cons.2 ⟨rfl, ih (List.prefix_append u rest) (by omega)⟩

/-- What an element says is cut out of the bytes that it covers, with the tag at their front. -/
theorem Element.WrittenAt.cutFrom {e : Element} {t : Text} {start stop : Nat}
    (h : e.WrittenAt t start) (hstop : tagStop t start ≤ stop) :
    '<' :: e.tag <+: t.slice start stop ∧ ∀ a ∈ e.attributes, a.CutFrom (t.slice start stop) := by
  have htag : (t.fromByte start).take (StartTag.front (t.fromByte start)).length <+:
      t.slice start stop := by
    refine prefix_takeBytes (List.take_prefix _ _) ?_
    unfold tagStop at hstop
    omega
  obtain ⟨hname, hattributes⟩ := h.opens.cutFrom
  rw [h.eq_element]
  exact ⟨hname.trans htag, fun a ha => (hattributes a ha).mono htag.isInfix⟩

/-- The classes of an element are different words. -/
theorem Element.classList_words (e : Element) : e.classList.Nodup ∧
    ∀ name ∈ e.classList, name ≠ [] ∧ ∀ c ∈ name, isBlank c = false := by
  refine ⟨nodup_eraseDups _, fun name hname => ?_⟩
  rw [classList, List.mem_eraseDups] at hname
  obtain ⟨a, -, ha⟩ := List.mem_flatMap.1 hname
  split at ha
  · exact of_mem_words ha
  · cases ha

/-- A scan of a text goes on from boundary to boundary until nothing is left. -/
structure Scan.Advances (t : Text) : Prop where
  /-- Between two steps the scan is between two characters of the text. -/
  boundary : ∀ s rest, Reaches t s rest →
    ∃ before, t = before ++ rest ∧ byteLength before = s.offset
  /-- A step covers at least one of the characters that are left, and none beyond them. -/
  progress : ∀ s c rest, Reaches t s (c :: rest) →
    0 < (s.step c rest).2 ∧ (s.step c rest).2 ≤ (c :: rest).length ∧
      s.offset < (s.step c rest).1.offset ∧ (s.step c rest).1.offset ≤ byteLength t
  /-- The document is made of what is found once nothing is left. -/
  finish : ∃ s, Reaches t s [] ∧
    Document.scan t = ⟨byteLength t, Scan.closeAll (byteLength t) s.frames s.nodes⟩

/-- The entries of a document make up a tree over the bytes of a text. -/
structure Document.WellNested (d : Document) (t : Text) : Prop where
  /-- The first entry is that of the document and covers all bytes. -/
  document : d.entries.head? = some ⟨0, ⟨0, byteLength t⟩, d.nodes⟩
  /-- The entries are numbered in the order of the listing, -/
  numbers : d.entries.map Entry.number = List.range d.size
  /-- and so are the nodes at and below a node. -/
  subtree : ∀ p ∈ d.places, (placesIn p.around [p.node]).map (·.node.number) =
    List.range' p.node.number p.node.size
  /-- Every other entry is directly inside one entry, once, -/
  once : (d.entries.flatMap (·.children.map Node.number)).Perm (List.range' 1 (d.size - 1))
  /-- and that one has a smaller number. -/
  parent_lt : ∀ entry ∈ d.entries, ∀ child ∈ entry.children, entry.number < child.number
  increasing : ∀ entry ∈ d.entries, (entry.children.map Node.number).Pairwise (· < ·)
  /-- Nodes start in the order of their numbers. -/
  starts : (d.places.map (·.node.range.start)).Pairwise (· < ·)
  /-- No node is empty, and every node starts and ends between two characters. -/
  ranges : ∀ p ∈ d.places, p.node.range.start < p.node.range.stop ∧
    IsBoundary t p.node.range.start ∧ IsBoundary t p.node.range.stop
  inside : ∀ entry ∈ d.entries, ∀ child ∈ entry.children,
    entry.range.start ≤ child.range.start ∧ child.range.stop ≤ entry.range.stop
  siblings : ∀ entry ∈ d.entries,
    entry.children.Pairwise fun a b => a.range.stop ≤ b.range.start
  texts : ∀ p ∈ d.places, ∀ number range, p.node = .text number range → p.node.children = []
  /-- The tag of an element stands at the front of its bytes, its attributes stand in them, and
  its classes are different words. -/
  elements : ∀ p ∈ d.places, ∀ e range children, p.node = .element e range children →
    '<' :: e.tag <+: t.slice range.start range.stop ∧
      (∀ a ∈ e.attributes, a.CutFrom (t.slice range.start range.stop)) ∧
      e.classList.Nodup ∧ ∀ name ∈ e.classList, name ≠ [] ∧ ∀ c ∈ name, isBlank c = false

/-- Every scan goes on from boundary to boundary up to the end of its text. -/
theorem Scan.advances (t : Text) : Scan.Advances t where
  boundary _ _ h := h.eq_append
  progress s c rest h := by
    have hstep := s.step_step c rest
    have hpos := hstep.byteLength_take_pos
    have hoffset := hstep.offset_eq
    obtain ⟨before, hsplit, hbefore⟩ := h.step.eq_append
    have htotal := congrArg byteLength hsplit
    rw [byteLength_append] at htotal
    exact ⟨hstep.pos, hstep.le_length, by omega, by omega⟩
  finish := by
    have hreach := reaches_scanFrom t
    obtain ⟨before, hsplit, hbefore⟩ := hreach.eq_append
    rw [List.append_nil] at hsplit
    subst hsplit
    refine ⟨_, hreach, ?_⟩
    rw [Document.scan, ← hbefore]

namespace Document

/-- What is directly inside an entry is in order, from the start of the entry on. -/
theorem inOrder_of_mem_entries {t : Text} {entry : Entry} (h : entry ∈ (scan t).entries) :
    ∃ inside next, entry.range.start ≤ inside ∧
      InOrder t (entry.number + 1) inside entry.children next entry.range.stop := by
  obtain ⟨next, hall⟩ := inOrder_scan t
  rcases List.mem_cons.1 h with rfl | h
  · exact ⟨0, next, Nat.le_refl _, hall⟩
  · obtain ⟨p, hp, rfl⟩ := List.mem_map.1 h
    obtain ⟨-, -, -, middle, hnode⟩ := hall.of_mem_placesIn hp
    obtain ⟨inside, hlt, hchildren⟩ := hnode.children
    exact ⟨inside, middle, Nat.le_of_lt hlt, hchildren⟩

/-- The entries of every scanned document make up a tree. -/
theorem wellNested_scan (t : Text) : (scan t).WellNested t := by
  obtain ⟨next, hall⟩ := inOrder_scan t
  have hnumbers : (scan t).places.map (·.node.number) = List.range' 1 (next - 1) :=
    hall.map_number_placesIn
  have hsize : (scan t).size = 1 + (next - 1) := by rw [size, hall.sizes_eq]
  constructor
  case document => rfl
  case numbers =>
    have hentries : (scan t).entries.map Entry.number =
        0 :: (scan t).places.map (·.node.number) := by
      rw [entries, List.map_cons, List.map_map]
      rfl
    rw [hentries, hnumbers, hsize, Nat.add_comm, List.range_eq_range', List.range'_succ]
  case subtree =>
    intro p hp
    obtain ⟨-, -, -, middle, hnode⟩ := hall.of_mem_placesIn hp
    have hnodeSize : p.node.size = middle - p.node.number := by
      have hsizes := hnode.sizes_eq
      rwa [Node.sizes, Node.sizes, Nat.add_zero] at hsizes
    rw [hnode.map_number_placesIn, hnodeSize]
  case once =>
    -- the children of all entries are the places again, in another order
    have hperm := perm_children [] (scan t).nodes
    rw [show (placesIn [] (scan t).nodes).map (·.node.number) = _ from hnumbers] at hperm
    rw [entries, List.flatMap_cons, List.flatMap_map, hsize, Nat.add_sub_cancel_left]
    exact hperm
  case parent_lt =>
    intro entry hentry child hchild
    obtain ⟨inside, middle, -, horder⟩ := inOrder_of_mem_entries hentry
    exact (horder.of_mem_placesIn (mem_placesIn_of_mem hchild [])).1
  case increasing =>
    intro entry hentry
    obtain ⟨inside, middle, -, horder⟩ := inOrder_of_mem_entries hentry
    exact List.pairwise_map.2 (horder.pairwise.imp And.left)
  case starts => exact List.pairwise_map.2 hall.pairwise_start
  case ranges =>
    intro p hp
    obtain ⟨-, -, -, middle, hnode⟩ := hall.of_mem_placesIn hp
    exact ⟨hnode.start_lt_stop, hnode.boundaries⟩
  case inside =>
    intro entry hentry child hchild
    obtain ⟨inside, middle, hle, horder⟩ := inOrder_of_mem_entries hentry
    obtain ⟨-, hlow, hhigh, -⟩ := horder.of_mem_placesIn (mem_placesIn_of_mem hchild [])
    exact ⟨Nat.le_trans hle hlow, hhigh⟩
  case siblings =>
    intro entry hentry
    obtain ⟨inside, middle, -, horder⟩ := inOrder_of_mem_entries hentry
    exact horder.pairwise.imp And.right
  case texts =>
    intro p _ number range heq
    rw [heq]
    rfl
  case elements =>
    intro p hp e range children heq
    obtain ⟨-, -, -, middle, hnode⟩ := hall.of_mem_placesIn hp
    rw [heq] at hnode
    cases hnode with
    | element _ _ written _ inner rest =>
      obtain ⟨htag, hattributes⟩ := written.cutFrom inner.low_le_high
      exact ⟨htag, hattributes, e.classList_words⟩

end Document

/-- Every text can be scanned, and what is found in it is well nested. -/
theorem scan_wellNested (t : Text) : Scan.Advances t ∧ (Document.scan t).WellNested t :=
  ⟨Scan.advances t, Document.wellNested_scan t⟩

end ClassHints.Markup
