import ClassHints.Proofs.Markup.Forest
import ClassHints.Proofs.Markup.Steps

/-!
# Nodes in order

A scan numbers its nodes in pre-order and lays them out one after the other: a node starts
where the one before it has ended or later, and what is inside an element lies behind its start
tag and before its end. The open elements of a scan keep this order open on the right, and a
closing tag or the end of the text closes them.
-/

namespace ClassHints.Markup

open Text

/-- The start tag of an element stands in a text at an offset. -/
structure Element.WrittenAt (e : Element) (t : Text) (start : Nat) : Prop where
  boundary : IsBoundary t start
  opens : OpensTag (t.fromByte start)
  eq_element : e = (StartTag.front (t.fromByte start)).element e.number

/-- The offset where the start tag at an offset of a text ends. -/
def tagStop (t : Text) (start : Nat) : Nat :=
  start + byteLength ((t.fromByte start).take (StartTag.front (t.fromByte start)).length)

/-- Nodes that are numbered in pre-order from `number` up to `next` and lie one after the other
in the bytes from `low` to `high` of a text. -/
inductive InOrder (t : Text) : Nat → Nat → List Node → Nat → Nat → Prop where
  | nil {number low high : Nat} (le : low ≤ high) : InOrder t number low [] number high
  | text {number low next high : Nat} {range : Range} {nodes : List Node}
    (low_le : low ≤ range.start) (start_lt : range.start < range.stop)
    (first : IsBoundary t range.start) (last : IsBoundary t range.stop)
    (rest : InOrder t (number + 1) range.stop nodes next high) :
    InOrder t number low (.text number range :: nodes) next high
  | element {number low middle next high : Nat} {e : Element} {range : Range}
    {children nodes : List Node} (number_eq : e.number = number) (low_le : low ≤ range.start)
    (written : e.WrittenAt t range.start) (last : IsBoundary t range.stop)
    (inner : InOrder t (number + 1) (tagStop t range.start) children middle range.stop)
    (rest : InOrder t middle range.stop nodes next high) :
    InOrder t number low (.element e range children :: nodes) next high

/-- A start tag covers at least one byte. -/
theorem Element.WrittenAt.lt_tagStop {e : Element} {t : Text} {start : Nat}
    (h : e.WrittenAt t start) : start < tagStop t start := by
  obtain ⟨d, rest, hrest, -⟩ := h.opens
  have hlength : 0 < (StartTag.front (t.fromByte start)).length := by
    unfold StartTag.length
    omega
  have hsize := Char.utf8Size_pos '<'
  unfold tagStop
  rw [hrest] at hlength ⊢
  obtain ⟨n, hn⟩ := Nat.exists_eq_succ_of_ne_zero (Nat.ne_of_gt hlength)
  rw [hn, List.take_succ_cons, byteLength_cons]
  omega

namespace InOrder

variable {t : Text} {number low next high : Nat} {nodes : List Node}

/-- Nodes in order do not end before they start. -/
theorem low_le_high (h : InOrder t number low nodes next high) : low ≤ high := by
  induction h with
  | nil le => exact le
  | text low_le start_lt _ _ _ ih => omega
  | element _ low_le written _ _ _ ihinner ih =>
    have hlt := written.lt_tagStop
    omega

/-- Numbers only go up. -/
theorem number_le_next (h : InOrder t number low nodes next high) : number ≤ next := by
  induction h with
  | nil => exact Nat.le_refl _
  | text _ _ _ _ _ ih => omega
  | element _ _ _ _ _ _ ihinner ih => omega

/-- More bytes on the right leave the order as it is. -/
theorem mono {high' : Nat} (h : InOrder t number low nodes next high) (hle : high ≤ high') :
    InOrder t number low nodes next high' := by
  induction h with
  | nil le => exact .nil (Nat.le_trans le hle)
  | text low_le start_lt first last _ ih => exact .text low_le start_lt first last (ih hle)
  | element number_eq low_le written last inner _ _ ih =>
    exact .element number_eq low_le written last inner (ih hle)

/-- Nodes in order are followed by nodes that go on in order. -/
theorem append {middle mid : Nat} {more : List Node} (h : InOrder t number low nodes middle mid)
    (hmore : InOrder t middle mid more next high) :
    InOrder t number low (nodes ++ more) next high := by
  induction h with
  | nil le =>
    cases hmore with
    | nil le' => exact .nil (Nat.le_trans le le')
    | text low_le start_lt first last rest =>
      exact .text (Nat.le_trans le low_le) start_lt first last rest
    | element number_eq low_le written last inner rest =>
      exact .element number_eq (Nat.le_trans le low_le) written last inner rest
  | text low_le start_lt first last _ ih => exact .text low_le start_lt first last (ih hmore)
  | element number_eq low_le written last inner _ _ ih =>
    exact .element number_eq low_le written last inner (ih hmore)

end InOrder

/-! ## Open elements -/

/-- Open elements, innermost first, with nodes in order before each of them. What comes next
in the innermost one has at least the given number and offset. -/
inductive OpenInOrder (t : Text) : List Frame → Nat → Nat → Prop where
  | nil : OpenInOrder t [] 1 0
  | cons {f : Frame} {outer : List Frame} {number low : Nat}
    (before : InOrder t number low f.before.reverse f.element.number f.start)
    (written : f.element.WrittenAt t f.start) (rest : OpenInOrder t outer number low) :
    OpenInOrder t (f :: outer) (f.element.number + 1) (tagStop t f.start)

namespace OpenInOrder

variable {t : Text} {number low next stop : Nat} {frames : List Frame} {nodes : List Node}

/-- The innermost open element closes. -/
theorem close {f : Frame} (h : OpenInOrder t (f :: frames) number low)
    (hnodes : InOrder t number low nodes.reverse next stop) (hstop : IsBoundary t stop) :
    ∃ number low, OpenInOrder t frames number low ∧
      InOrder t number low (f.close nodes stop :: f.before).reverse next stop := by
  cases h with
  | cons before written rest =>
    refine ⟨_, _, rest, ?_⟩
    rw [List.reverse_cons]
    refine before.append ?_
    exact .element rfl (Nat.le_refl _) written hstop hnodes (.nil (Nat.le_refl _))

/-- A closing tag closes open elements from the inside on. -/
theorem closeTag {tag : Text} {outer : List Frame} {found : List Node}
    (h : OpenInOrder t frames number low)
    (hnodes : InOrder t number low nodes.reverse next stop) (hstop : IsBoundary t stop)
    (hclose : Scan.closeTag stop tag frames nodes = some (outer, found)) :
    ∃ number low, OpenInOrder t outer number low ∧
      InOrder t number low found.reverse next stop := by
  induction frames generalizing number low nodes with
  | nil => cases hclose
  | cons f frames ih =>
    obtain ⟨number', low', hframes, hfound⟩ := h.close hnodes hstop
    rw [Scan.closeTag] at hclose
    split at hclose
    · cases hclose
      exact ⟨number', low', hframes, hfound⟩
    · exact ih hframes hfound hclose

/-- At the end of the text all elements close. -/
theorem closeAll (h : OpenInOrder t frames number low)
    (hnodes : InOrder t number low nodes.reverse next stop) (hstop : IsBoundary t stop) :
    InOrder t 1 0 (Scan.closeAll stop frames nodes) next stop := by
  induction frames generalizing number low nodes with
  | nil =>
    cases h
    exact hnodes
  | cons f frames ih =>
    obtain ⟨number', low', hframes, hfound⟩ := h.close hnodes hstop
    exact ih hframes hfound

end OpenInOrder

/-! ## Steps and scans -/

namespace Scan

/-- The nodes that a scan has found so far are in order, around what is still open. -/
def NodesInOrder (t : Text) (s : Scan) : Prop :=
  ∃ number low, OpenInOrder t s.frames number low ∧
    InOrder t number low s.nodes.reverse s.next s.offset

/-- At the start of a scan there are no nodes that could be out of order. -/
theorem nodesInOrder_start (t : Text) : NodesInOrder t start :=
  ⟨1, 0, .nil, .nil (Nat.le_refl _)⟩

/-- A node at the place of the scan goes on with the order. -/
theorem NodesInOrder.push {t : Text} {s : Scan} {node : Node} {next offset : Nat}
    (h : NodesInOrder t s) (hnode : InOrder t s.next s.offset [node] next offset) :
    NodesInOrder t { s.push node with offset := offset, next := next } := by
  obtain ⟨number, low, hframes, hnodes⟩ := h
  refine ⟨number, low, hframes, ?_⟩
  change InOrder t number low (node :: s.nodes).reverse next offset
  rw [List.reverse_cons]
  exact hnodes.append hnode

/-- Every step keeps the nodes in order. -/
theorem Step.nodesInOrder {t rest : Text} {s s' : Scan} {n : Nat} (hreach : Reaches t s rest)
    (h : NodesInOrder t s) (hstep : s.Step rest n s') : NodesInOrder t s' := by
  have hbyte := hreach.fromByte_offset
  obtain ⟨before, rfl, hbefore⟩ := hreach.eq_append
  have hpos := hstep.byteLength_take_pos
  have hoffset := hstep.offset_eq
  have hfirst : IsBoundary (before ++ rest) s.offset := ⟨before, rest, rfl, hbefore⟩
  have hboundary (k : Nat) :
      IsBoundary (before ++ rest) (s.offset + byteLength (rest.take k)) := by
    refine ⟨before ++ rest.take k, rest.drop k, by simp, ?_⟩
    rw [byteLength_append, hbefore]
  have htag : tagStop (before ++ rest) s.offset =
      s.offset + byteLength (rest.take (StartTag.front rest).length) := by
    rw [tagStop, hbyte]
  have hwritten (opens : OpensTag rest) :
      ((StartTag.front rest).element s.next).WrittenAt (before ++ rest) s.offset := by
    refine ⟨hfirst, ?_, ?_⟩
    · rwa [hbyte]
    · rw [hbyte]
      rfl
  cases hstep with
  | pass _ pos le =>
    obtain ⟨number, low, hframes, hnodes⟩ := h
    exact ⟨number, low, hframes, hnodes.mono (Nat.le_add_right _ _)⟩
  | close tag _ pos le =>
    obtain ⟨number, low, hframes, hnodes⟩ := h
    have hmoved := hnodes.mono (Nat.le_add_right s.offset (byteLength (rest.take n)))
    unfold Scan.close
    dsimp only
    split
    · next frames nodes hclose => exact hframes.closeTag hmoved (hboundary n) hclose
    · exact ⟨number, low, hframes, hmoved⟩
  | text _ pos le =>
    refine h.push (.text (Nat.le_refl _) ?_ hfirst (hboundary n) (.nil (Nat.le_refl _)))
    exact Nat.lt_add_of_pos_right hpos
  | leaf opens ending =>
    refine h.push (.element rfl (Nat.le_refl _) (hwritten opens) (hboundary _) (.nil ?_)
      (.nil (Nat.le_refl _)))
    exact Nat.le_of_eq htag
  | raw opens ending name m k le =>
    -- the content of a raw element is one text node, or none where it is empty
    have hcontent : byteLength (rest.take ((StartTag.front rest).length + m)) =
        byteLength (rest.take (StartTag.front rest).length) +
          byteLength ((rest.drop (StartTag.front rest).length).take m) := by
      rw [List.take_add, byteLength_append]
    have hinner := hboundary ((StartTag.front rest).length + m)
    have hlast := hboundary ((StartTag.front rest).length + m + k)
    rw [hcontent, ← Nat.add_assoc] at hinner
    rw [← hoffset] at hlast
    refine h.push (.element rfl (Nat.le_refl _) (hwritten opens) hlast ?_ (.nil (Nat.le_refl _)))
    rw [htag]
    split
    · refine .nil ?_
      dsimp only
      omega
    · next hnonempty =>
      have hpos := byteLength_pos fun hnil => hnonempty (List.isEmpty_iff.2 hnil)
      exact .text (Nat.le_refl _) (Nat.lt_add_of_pos_right hpos) (hboundary _) hinner
        (.nil (Nat.le_add_right _ _))
  | opened opens ending void raw =>
    obtain ⟨number, low, hframes, hnodes⟩ := h
    refine ⟨_, _, .cons hnodes (hwritten opens) hframes, .nil ?_⟩
    exact Nat.le_of_eq htag

end Scan

/-- The nodes of a scanned document are in order. -/
theorem inOrder_scan (t : Text) :
    ∃ next, InOrder t 1 0 (Document.scan t).nodes next (byteLength t) := by
  have hreach := Scan.reaches_scanFrom t
  obtain ⟨number, low, hframes, hnodes⟩ := hreach.invariant (Scan.nodesInOrder_start t)
    fun s rest n s' hreach hs hstep => hstep.nodesInOrder hreach hs
  obtain ⟨before, hsplit, hoffset⟩ := hreach.eq_append
  rw [List.append_nil] at hsplit
  rw [← hsplit] at hoffset
  have hall := hframes.closeAll hnodes ⟨t, [], by simp, hoffset⟩
  rw [← hoffset] at hall
  refine ⟨(Scan.start.scanFrom 0 t).next, ?_⟩
  rwa [Document.scan, ← hoffset]

/-! ## What the order says of all nodes -/

/-- The nodes of a forest are placed in it, with nothing more around them. -/
theorem mem_placesIn_of_mem {node : Node} {nodes : List Node} (h : node ∈ nodes)
    (around : List Element) : ⟨around, node⟩ ∈ placesIn around nodes := by
  induction nodes with
  | nil => cases h
  | cons first nodes ih =>
    rw [placesIn]
    rcases List.mem_cons.1 h with rfl | h
    · refine List.mem_append_left _ ?_
      cases node with
      | text | element => exact List.mem_cons_self
    · exact List.mem_append_right _ (ih h)

namespace InOrder

variable {t : Text} {number low next high : Nat} {nodes : List Node} {around : List Element}

/-- All nodes at any depth are numbered one after the other. -/
theorem map_number_placesIn (h : InOrder t number low nodes next high) :
    (placesIn around nodes).map (·.node.number) = List.range' number (next - number) := by
  induction h generalizing around with
  | nil => simp [placesIn]
  | @text number _ next _ _ _ _ _ _ _ rest ih =>
    have hle := rest.number_le_next
    have hsucc : next - number = (next - (number + 1)) + 1 := by omega
    rw [placesIn_text, List.map_cons, ih, hsucc, List.range'_succ]
    rfl
  | @element number _ middle next _ e _ _ _ number_eq _ _ _ inner rest ihinner ih =>
    have hinner := inner.number_le_next
    have hrest := rest.number_le_next
    have hsucc : next - number = ((middle - (number + 1)) + (next - middle)) + 1 := by omega
    have hmiddle : middle = number + 1 + (middle - (number + 1)) := by omega
    rw [placesIn_element, List.map_cons, List.map_append, ihinner, ih, hsucc, List.range'_succ,
      ← List.range'_append_1, ← hmiddle]
    exact congrArg (· :: _) number_eq

/-- Nodes in order are as many as the numbers that they take up. -/
theorem sizes_eq (h : InOrder t number low nodes next high) :
    Node.sizes nodes = next - number := by
  have hlength := congrArg List.length (@map_number_placesIn _ _ _ _ _ _ [] h)
  rwa [List.length_map, length_placesIn, List.length_range'] at hlength

/-- Every node at any depth is in order by itself, within the numbers and bytes of the whole. -/
theorem of_mem_placesIn {p : Placed} (h : InOrder t number low nodes next high)
    (hp : p ∈ placesIn around nodes) :
    number ≤ p.node.number ∧ low ≤ p.node.range.start ∧ p.node.range.stop ≤ high ∧
      ∃ middle, InOrder t p.node.number p.node.range.start [p.node] middle p.node.range.stop := by
  induction h generalizing around with
  | nil => cases hp
  | @text number low next high range nodes low_le start_lt first last rest ih =>
    have hle := rest.low_le_high
    rw [placesIn_text] at hp
    rcases List.mem_cons.1 hp with rfl | hp
    · exact ⟨Nat.le_refl _, low_le, hle, _,
        .text (Nat.le_refl _) start_lt first last (.nil (Nat.le_refl _))⟩
    · obtain ⟨hnumber, hlow, hhigh, hnode⟩ := ih hp
      exact ⟨by omega, by omega, hhigh, hnode⟩
  | @element number low middle next high e range children nodes number_eq low_le written last
      inner rest ihinner ih =>
    have hle := rest.low_le_high
    have hinner := inner.low_le_high
    have hnext := inner.number_le_next
    have htag := written.lt_tagStop
    rw [placesIn_element] at hp
    rcases List.mem_cons.1 hp with rfl | hp
    · refine ⟨Nat.le_of_eq number_eq.symm, low_le, hle, middle, ?_⟩
      subst number_eq
      exact .element rfl (Nat.le_refl _) written last inner (.nil (Nat.le_refl _))
    · rcases List.mem_append.1 hp with hp | hp
      · obtain ⟨hnumber, hlow, hhigh, hnode⟩ := ihinner hp
        exact ⟨by omega, by omega, by omega, hnode⟩
      · obtain ⟨hnumber, hlow, hhigh, hnode⟩ := ih hp
        exact ⟨by omega, by omega, hhigh, hnode⟩

/-- Of two neighbours the first has the smaller number and ends before the other starts. -/
theorem pairwise (h : InOrder t number low nodes next high) :
    nodes.Pairwise fun a b => a.number < b.number ∧ a.range.stop ≤ b.range.start := by
  induction h with
  | nil => exact .nil
  | text _ _ _ _ rest ih =>
    refine .cons (fun b hb => ?_) ih
    obtain ⟨hnumber, hlow, -⟩ := rest.of_mem_placesIn (mem_placesIn_of_mem hb [])
    exact ⟨hnumber, hlow⟩
  | element number_eq _ _ _ inner rest _ ih =>
    refine .cons (fun b hb => ?_) ih
    obtain ⟨hnumber, hlow, -⟩ := rest.of_mem_placesIn (mem_placesIn_of_mem hb [])
    have hnext := inner.number_le_next
    subst number_eq
    exact ⟨Nat.lt_of_lt_of_le hnext hnumber, hlow⟩

section

variable {node : Node} {middle : Nat}

/-- What is inside a node is in order, behind where the node starts. -/
theorem children (h : InOrder t node.number node.range.start [node] middle node.range.stop) :
    ∃ inside, node.range.start < inside ∧
      InOrder t (node.number + 1) inside node.children middle node.range.stop := by
  cases node with
  | text =>
    cases h with
    | text _ start_lt _ _ rest =>
      cases rest
      exact ⟨_, Nat.lt_succ_self _, .nil start_lt⟩
  | element =>
    cases h with
    | element _ _ written _ inner rest =>
      cases rest
      exact ⟨_, written.lt_tagStop, inner⟩

/-- A node covers at least one byte. -/
theorem start_lt_stop (h : InOrder t node.number node.range.start [node] middle node.range.stop) :
    node.range.start < node.range.stop := by
  obtain ⟨inside, hlt, hinner⟩ := h.children
  have hle := hinner.low_le_high
  omega

/-- A node starts and stops between two characters. -/
theorem boundaries (h : InOrder t node.number node.range.start [node] middle node.range.stop) :
    IsBoundary t node.range.start ∧ IsBoundary t node.range.stop := by
  cases node with
  | text =>
    cases h with
    | text _ _ first last => exact ⟨first, last⟩
  | element =>
    cases h with
    | element _ _ written last => exact ⟨written.boundary, last⟩

end

/-- Nodes start in the order of the listing. -/
theorem pairwise_start (h : InOrder t number low nodes next high) :
    (placesIn around nodes).Pairwise fun p q => p.node.range.start < q.node.range.start := by
  induction h generalizing around with
  | nil => exact .nil
  | text low_le start_lt _ _ rest ih =>
    refine .cons (fun q hq => ?_) ih
    obtain ⟨-, hlow, -⟩ := rest.of_mem_placesIn hq
    exact Nat.lt_of_lt_of_le start_lt hlow
  | @element _ _ _ _ _ e range children nodes _ _ written _ inner rest ihinner ih =>
    have htag := written.lt_tagStop
    have hle := inner.low_le_high
    rw [placesIn_element]
    refine .cons (fun q hq => ?_) (List.pairwise_append.2 ⟨ihinner, ih, fun p hp q hq => ?_⟩)
    · change range.start < _
      rcases List.mem_append.1 hq with hq | hq
      · obtain ⟨-, hlow, -⟩ := inner.of_mem_placesIn hq
        omega
      · obtain ⟨-, hlow, -⟩ := rest.of_mem_placesIn hq
        omega
    · obtain ⟨-, -, hhigh, _, hnode⟩ := inner.of_mem_placesIn hp
      obtain ⟨-, hlow, -⟩ := rest.of_mem_placesIn hq
      have hlt := hnode.start_lt_stop
      omega

end InOrder

/-- Every node of a scanned document is found by its number. -/
theorem place?_of_mem {t : Text} {p : Placed} (h : p ∈ (Document.scan t).places) :
    (Document.scan t).place? p.node.number = some p := by
  obtain ⟨next, hall⟩ := inOrder_scan t
  have hnodup : ((Document.scan t).places.map (·.node.number)).Nodup := by
    rw [show (Document.scan t).places.map (·.node.number) = _ from hall.map_number_placesIn]
    exact List.nodup_range'
  cases hfound : (Document.scan t).place? p.node.number with
  | none =>
    have hnone := List.find?_eq_none.1 hfound p h
    simp at hnone
  | some q =>
    have hmem := List.mem_of_find?_eq_some hfound
    have hnumber : q.node.number = p.node.number := by
      simpa using List.find?_some hfound
    rw [List.inj_on_of_nodup_map hnodup hmem h hnumber]

end ClassHints.Markup
