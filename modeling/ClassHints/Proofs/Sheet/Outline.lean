import ClassHints.Proofs.Sheet.FieldText
import ClassHints.Proofs.Sheet.Masking

/-!
# The order of nodes while they are read

Line comments wait until the reader passes them and are placed then, in whatever block is open.
Nodes, open blocks and waiting comments form one outline, in which every entry starts behind the
one before it. Placing a comment only moves the border between what is placed and what waits, so
that no comment is lost, repeated or put out of order.
-/

namespace ClassHints.Sheet

open Text

/-- The line comment that a node is, if it is one. -/
def Node.lineComment? : Node → Option Comment
  | .comment c => if c.style = .line then some c else none
  | _ => none

/-- What the outline keeps of a node: where it starts, and the line comment that it is. -/
structure Trace where
  start : Nat
  comment : Option Comment

/-- What the outline keeps of a node. -/
def Node.trace (node : Node) : Trace := ⟨node.span.start, node.lineComment?⟩

/-- The traces of the nodes that have been read, and of the blocks that are open around them. -/
def tracesOf : List Frame → List Node → List Trace
  | [], nodes => (allNodes nodes.reverse).map Node.trace
  | f :: outer, nodes =>
    tracesOf outer f.before ++ ⟨f.start.offset, none⟩ :: (allNodes nodes.reverse).map Node.trace

/-- One more node in the innermost block adds its own traces at the end. -/
theorem tracesOf_cons (frames : List Frame) (node : Node) (nodes : List Node) :
    tracesOf frames (node :: nodes) =
      tracesOf frames nodes ++ (node :: allNodes node.children).map Node.trace := by
  cases frames with
  | nil => simp [tracesOf, allNodes_append, allNodes_cons]
  | cons f outer => simp [tracesOf, allNodes_append, allNodes_cons]

/-- Closing a block leaves all traces as they are. -/
theorem tracesOf_node (f : Frame) (outer : List Frame) (nodes : List Node) (stop : Mark) :
    tracesOf outer (f.node nodes stop :: f.before) = tracesOf (f :: outer) nodes := by
  have htrace : (f.node nodes stop).trace = ⟨f.start.offset, none⟩ := by
    unfold Frame.node
    split <;> rfl
  rw [tracesOf_cons, List.map_cons, htrace, Frame.children_node]
  rfl

/-- Line comments that are placed leave their traces behind all others. -/
theorem tracesOf_comments (frames : List Frame) (nodes : List Node) {due : List Comment}
    (hdue : ∀ c ∈ due, c.style = .line) :
    tracesOf frames ((due.map Node.comment).reverse ++ nodes) =
      tracesOf frames nodes ++ due.map fun c => ⟨c.span.start, some c⟩ := by
  induction due generalizing nodes with
  | nil => simp
  | cons c due ih =>
    have hc : c.style = .line := hdue c (by simp)
    have hrest : ∀ d ∈ due, d.style = .line := fun d hd => hdue d (by simp [hd])
    rw [List.map_cons, List.reverse_cons, List.append_assoc, List.singleton_append, ih _ hrest,
      tracesOf_cons, List.map_cons, List.append_assoc]
    simp [Node.trace, Node.lineComment?, Node.span, Node.children, hc]

namespace Reader

/-- Where the nodes, the open blocks and the prelude of a reader start. -/
def starts (r : Reader) : List Nat :=
  (tracesOf r.frames r.nodes).map Trace.start ++ (r.prelude.map (·.start.offset)).toList

/-- Everything starts in order, before the place that the reader has come to, and the line
comments are those that have been placed and those that wait. -/
structure Outlined (comments : List Comment) (r : Reader) : Prop where
  ordered : (r.starts ++ r.waiting.map (·.span.start)).Pairwise (· < ·)
  below : ∀ start ∈ r.starts, start < r.spot.mark.offset
  complete : (tracesOf r.frames r.nodes).filterMap Trace.comment ++ r.waiting = comments

/-- The comments that are due at a place. -/
def due (r : Reader) : List Comment := r.waiting.takeWhile (·.span.start < r.spot.mark.offset)

/-- Settling a reader moves the comments that are due to its nodes. -/
theorem settled_eq (r : Reader) : r.settled = { r with
    nodes := (r.due.map Node.comment).reverse ++ r.nodes
    waiting := r.waiting.dropWhile (·.span.start < r.spot.mark.offset) } :=
  flush_eq r _

/-- Comments that are due start before the place that the reader has come to. -/
theorem start_lt_of_mem_due {r : Reader} {c : Comment} (h : c ∈ r.due) :
    c.span.start < r.spot.mark.offset := by
  simpa using List.mem_takeWhile_imp h

namespace Outlined

variable {comments : List Comment} {r : Reader} (h : r.Outlined comments)

include h

/-- The comments that wait are among all comments. -/
theorem waiting_subset : ∀ c ∈ r.waiting, c ∈ comments := by
  intro c hc
  rw [← h.complete]
  exact List.mem_append_right _ hc

/-- The comments that are due are among all comments. -/
theorem due_subset : ∀ c ∈ r.due, c ∈ comments := fun c hc =>
  h.waiting_subset c ((List.takeWhile_sublist _).subset hc)

/-- Placing the comments that are due changes nothing in the outline. -/
theorem settled (hidle : r.prelude = none) (hstyle : ∀ c ∈ comments, c.style = .line) :
    r.settled.Outlined comments := by
  have htraces : tracesOf r.settled.frames r.settled.nodes =
      tracesOf r.frames r.nodes ++ r.due.map fun c => ⟨c.span.start, some c⟩ := by
    rw [settled_eq]
    exact tracesOf_comments r.frames r.nodes fun c hc => hstyle c (h.due_subset c hc)
  have hsplit : r.due ++ r.settled.waiting = r.waiting := by
    rw [settled_eq]
    exact List.takeWhile_append_dropWhile
  have hstarts : r.settled.starts = r.starts ++ r.due.map (·.span.start) := by
    have hprelude : r.settled.prelude = none := hidle
    simp [starts, htraces, hidle, hprelude, Function.comp_def]
  constructor
  · rw [hstarts, List.append_assoc, ← List.map_append, hsplit]
    exact h.ordered
  · intro start hstart
    rw [hstarts, List.mem_append] at hstart
    rcases hstart with hstart | hstart
    · exact h.below start hstart
    · obtain ⟨c, hc, rfl⟩ := List.mem_map.1 hstart
      exact start_lt_of_mem_due (r := r) hc
  · have hdue : (r.due.map fun c => (⟨c.span.start, some c⟩ : Trace)).filterMap Trace.comment =
        r.due := by
      rw [List.filterMap_map]
      exact List.filterMap_some
    rw [htraces, List.filterMap_append, hdue, List.append_assoc, hsplit]
    exact h.complete

/-- What still waits once the comments are placed that are due starts here or later. -/
theorem le_start_of_mem_settled {c : Comment} (hc : c ∈ r.settled.waiting) :
    r.spot.mark.offset ≤ c.span.start := by
  rw [settled_eq] at hc
  have hordered : (r.waiting.map (·.span.start)).Pairwise (· < ·) :=
    (List.pairwise_append.1 h.ordered).2.1
  have hrest := hordered.sublist ((List.dropWhile_sublist
    (fun c : Comment => decide (c.span.start < r.spot.mark.offset))).map _)
  cases hw : r.waiting.dropWhile (·.span.start < r.spot.mark.offset) with
  | nil => simp [hw] at hc
  | cons first later =>
    have hfirst : r.spot.mark.offset ≤ first.span.start := by
      have hhead := List.head?_dropWhile_not
        (fun c : Comment => decide (c.span.start < r.spot.mark.offset)) r.waiting
      simpa [hw] using hhead
    rw [hw, List.map_cons] at hrest
    simp only [hw, List.mem_cons] at hc
    rcases hc with rfl | hc
    · exact hfirst
    · have hlt := (List.pairwise_cons.1 hrest).1 _ (List.mem_map_of_mem hc)
      omega

/-- A reader that goes on keeps its outline. -/
theorem moved (t : Text) : (r.moved t).Outlined comments := by
  refine ⟨h.ordered, fun start hstart => ?_, h.complete⟩
  have hlt := h.below start hstart
  rw [spot_moved, Spot.offset_advance]
  omega

/-- One more entry that starts here goes in front of all that waits. -/
theorem ordered_snoc (hidle : r.prelude = none)
    (hwaiting : ∀ c ∈ r.waiting, r.spot.mark.offset < c.span.start) :
    ((tracesOf r.frames r.nodes).map Trace.start ++ [r.spot.mark.offset] ++
      r.waiting.map (·.span.start)).Pairwise (· < ·) := by
  have hstarts : r.starts = (tracesOf r.frames r.nodes).map Trace.start := by
    simp [starts, hidle]
  have hordered := h.ordered
  have hbelow := h.below
  rw [hstarts] at hordered hbelow
  obtain ⟨hplaced, hwait, hacross⟩ := List.pairwise_append.1 hordered
  rw [List.append_assoc]
  apply List.pairwise_append.2
  refine ⟨hplaced, ?_, ?_⟩
  · refine List.pairwise_cons.2 ⟨?_, hwait⟩
    intro start hstart
    obtain ⟨c, hc, rfl⟩ := List.mem_map.1 hstart
    exact hwaiting c hc
  · intro start hstart later hlater
    rcases List.mem_cons.1 hlater with rfl | hlater
    · exact hbelow start hstart
    · exact hacross start hstart later hlater

/-- A prelude that starts here. -/
theorem begin (hidle : r.prelude = none)
    (hwaiting : ∀ c ∈ r.waiting, r.spot.mark.offset < c.span.start) {p : Prelude}
    (hp : p.start = r.spot.mark) {t : Text} (ht : t ≠ []) :
    ({ r with prelude := some p }.moved t).Outlined comments := by
  have hpos := byteLength_pos ht
  refine ⟨?_, ?_, h.complete⟩
  · simpa [starts, hp] using h.ordered_snoc hidle hwaiting
  · intro start hstart
    rw [spot_moved, Spot.offset_advance]
    change start < r.spot.mark.offset + byteLength t
    simp only [starts, prelude_moved, frames_moved, nodes_moved, Option.map_some,
      Option.toList_some, List.mem_append, List.mem_singleton, hp] at hstart
    rcases hstart with hstart | rfl
    · have hlt := h.below start (by simp [starts, hstart])
      omega
    · omega

/-- A node without nodes in it that starts here and is no line comment. -/
theorem push (hidle : r.prelude = none)
    (hwaiting : ∀ c ∈ r.waiting, r.spot.mark.offset < c.span.start) {node : Node}
    (hstart : node.span.start = r.spot.mark.offset) (hchildren : node.children = [])
    (hline : node.lineComment? = none) {t : Text} (ht : t ≠ []) :
    ((r.push node).moved t).Outlined comments := by
  have hpos := byteLength_pos ht
  have htraces : tracesOf r.frames (node :: r.nodes) =
      tracesOf r.frames r.nodes ++ [⟨r.spot.mark.offset, none⟩] := by
    rw [tracesOf_cons, hchildren, allNodes_nil]
    simp [Node.trace, hstart, hline]
  refine ⟨?_, ?_, ?_⟩
  · simpa [starts, Reader.push, hidle, htraces] using h.ordered_snoc hidle hwaiting
  · intro start hmem
    rw [spot_moved, Spot.offset_advance]
    change start < r.spot.mark.offset + byteLength t
    simp only [starts, Reader.push, prelude_moved, frames_moved, nodes_moved, hidle, htraces,
      Option.map_none, Option.toList_none, List.append_nil, List.map_append, List.map_cons,
      List.map_nil, List.mem_append, List.mem_singleton] at hmem
    rcases hmem with hmem | rfl
    · have hlt := h.below start (by simp [starts, hmem])
      omega
    · omega
  · simpa [Reader.push, htraces] using h.complete

/-- A prelude that ends leaves a statement where it started, or nothing. -/
theorem endStatement {p : Prelude} (hp : r.prelude = some p) (stop : Mark) :
    (r.endStatement p stop).Outlined comments := by
  have hstarts : r.starts = (tracesOf r.frames r.nodes).map Trace.start ++ [p.start.offset] := by
    simp [starts, hp]
  cases hs : p.statement? stop with
  | none =>
    have hsub : (r.endStatement p stop).starts.Sublist r.starts := by
      rw [hstarts]
      simp [starts, Reader.endStatement, hs]
    refine ⟨h.ordered.sublist (hsub.append_right _), ?_, ?_⟩
    · exact fun start hstart => h.below start (hsub.subset hstart)
    · simpa [Reader.endStatement, hs] using h.complete
  | some node =>
    obtain ⟨hspan, hchildren, hcomment⟩ := p.of_statement?_eq_some hs
    have hline : node.lineComment? = none := by
      cases node with
      | comment c => cases hcomment
      | _ => rfl
    have htraces : tracesOf r.frames (node :: r.nodes) =
        tracesOf r.frames r.nodes ++ [⟨p.start.offset, none⟩] := by
      rw [tracesOf_cons, hchildren, allNodes_nil]
      simp [Node.trace, hspan, hline, Mark.to]
    have hsame : (r.endStatement p stop).starts = r.starts := by
      rw [hstarts]
      simp [starts, Reader.endStatement, hs, htraces]
    refine ⟨?_, ?_, ?_⟩
    · rw [hsame]
      exact h.ordered
    · rw [hsame]
      exact h.below
    · simpa [Reader.endStatement, hs, htraces] using h.complete

/-- A block that opens starts where its prelude started. -/
theorem openBlock {p : Prelude} (hp : r.prelude = some p) : (r.openBlock p).Outlined comments := by
  have hsame : (r.openBlock p).starts = r.starts := by
    simp [starts, Reader.openBlock, hp, tracesOf]
  refine ⟨?_, ?_, ?_⟩
  · rw [hsame]
    exact h.ordered
  · rw [hsame]
    exact h.below
  · simpa [Reader.openBlock, tracesOf] using h.complete

/-- A block that closes becomes a node where it started. -/
theorem closeBlock {f : Frame} {outer : List Frame} (hframes : r.frames = f :: outer)
    (hidle : r.prelude = none) (hstyle : ∀ c ∈ comments, c.style = .line) (stop : Mark) :
    (r.closeBlock f outer r.spot.mark stop).Outlined comments := by
  have hsettled := h.settled hidle hstyle
  have hsame : tracesOf outer (f.node r.settled.nodes stop :: f.before) =
      tracesOf r.settled.frames r.settled.nodes := by
    have hframes' : r.settled.frames = f :: outer := hframes
    rw [tracesOf_node, hframes']
  constructor
  · simpa only [starts, Reader.closeBlock, ← Reader.settled.eq_def, hsame] using hsettled.ordered
  · simpa only [starts, Reader.closeBlock, ← Reader.settled.eq_def, hsame] using hsettled.below
  · simpa only [Reader.closeBlock, ← Reader.settled.eq_def, hsame] using hsettled.complete

/-- A prelude that goes on keeps its place. -/
theorem proceed {p : Prelude} (hp : r.prelude = some p) (lexeme : Lexeme) :
    ({ r with prelude := some (p.next lexeme) }).Outlined comments := by
  have hsame : ({ r with prelude := some (p.next lexeme) } : Reader).starts = r.starts := by
    simp [starts, hp]
  refine ⟨?_, ?_, h.complete⟩
  · rw [hsame]
    exact h.ordered
  · rw [hsame]
    exact h.below

end Outlined

/-! ## Whole runs -/

section Runs

variable {source : Text} {m : Masked} (hmasked : Masked.ofSource source = .ok m)

include hmasked

/-- Where no blank stands, the comments that still wait start later. -/
theorem Outlined.lt_start_of_mem_settled {r : Reader} (h : r.Outlined m.comments)
    (hsolid : SolidAt m.text r.spot.mark.offset) {c : Comment} (hc : c ∈ r.settled.waiting) :
    r.spot.mark.offset < c.span.start := by
  have hle := h.le_start_of_mem_settled hc
  have hmem : c ∈ m.comments := by
    apply h.waiting_subset
    rw [settled_eq] at hc
    exact (List.dropWhile_sublist _).subset hc
  obtain ⟨hbounds, -⟩ := Masked.comment_bounds hmasked hmem
  have hapart := Masked.apart_of_solidAt hmasked hsolid hmem
  omega

/-- Every step keeps the outline. -/
theorem Outlined.step {lexeme : Lexeme} {r r' : Reader} (h : r.Outlined m.comments)
    (hsolid : lexeme.token ≠ .blank → SolidAt m.text r.spot.mark.offset)
    (htext : lexeme.text ≠ []) (hstep : r.Step lexeme r') : r'.Outlined m.comments := by
  have hstyle : ∀ c ∈ m.comments, c.style = .line := fun c hc => Masked.style_eq hmasked hc
  cases hstep with
  | skip => exact h.moved _
  | comment hidle text htoken =>
    have hwaiting : ∀ c ∈ r.settled.waiting, r.settled.spot.mark.offset < c.span.start :=
      fun c hc => h.lt_start_of_mem_settled hmasked (hsolid (by simp [htoken])) hc
    exact (h.settled hidle hstyle).push hidle hwaiting rfl rfl rfl htext
  | atWord hidle name htoken =>
    have hwaiting : ∀ c ∈ r.settled.waiting, r.settled.spot.mark.offset < c.span.start :=
      fun c hc => h.lt_start_of_mem_settled hmasked (hsolid (by simp [htoken])) hc
    exact (h.settled hidle hstyle).begin hidle hwaiting rfl htext
  | start hidle htoken =>
    have hblank : lexeme.token ≠ .blank := by
      intro hblank
      simp [hblank, Token.startsPrelude] at htoken
    have hwaiting : ∀ c ∈ r.settled.waiting, r.settled.spot.mark.offset < c.span.start :=
      fun c hc => h.lt_start_of_mem_settled hmasked (hsolid hblank) hc
    exact (h.settled hidle hstyle).begin hidle hwaiting rfl htext
  | close hidle _ f outer hframes => exact (h.closeBlock hframes hidle hstyle _).moved _
  | proceed p hprelude => exact (h.proceed hprelude lexeme).moved _
  | finish p hprelude => exact (h.endStatement hprelude _).moved _
  | enter p hprelude => exact (h.openBlock hprelude).moved _
  | leave p hprelude _ _ f outer hframes =>
    exact ((h.endStatement hprelude r.spot.mark).closeBlock hframes rfl hstyle _).moved _

/-- At the end of the text no comment waits any longer. -/
theorem Outlined.closeAll {r : Reader} (h : r.Outlined m.comments) (hidle : r.prelude = none)
    (hend : r.spot.mark.offset = byteLength source) :
    ((allNodes (r.closeAll r.frames)).map (·.span.start)).Pairwise (· < ·) ∧
      (allNodes (r.closeAll r.frames)).filterMap Node.lineComment? = m.comments := by
  have hstyle : ∀ c ∈ m.comments, c.style = .line := fun c hc => Masked.style_eq hmasked hc
  -- the induction is on the blocks that are open; closing one leaves the outline as it is
  induction hframes : r.frames generalizing r with
  | nil =>
    have hsettled := h.settled hidle hstyle
    have hwaiting : r.settled.waiting = [] := by
      apply List.eq_nil_iff_forall_not_mem.2
      intro c hc
      have hle := h.le_start_of_mem_settled hc
      obtain ⟨hbounds, hstop, -⟩ :=
        Masked.comment_bounds hmasked (hsettled.waiting_subset c hc)
      omega
    have htraces : tracesOf r.settled.frames r.settled.nodes =
        (allNodes (r.closeAll [])).map Node.trace := by
      have hnil : r.settled.frames = [] := hframes
      rw [hnil]
      rfl
    have hordered := hsettled.ordered
    have hcomplete := hsettled.complete
    rw [hwaiting, List.map_nil, List.append_nil, starts, htraces, List.map_map] at hordered
    rw [hwaiting, List.append_nil, htraces, List.filterMap_map] at hcomplete
    exact ⟨(List.pairwise_append.1 hordered).1, hcomplete⟩
  | cons f outer ih =>
    rw [Reader.closeAll]
    exact ih (h.closeBlock hframes hidle hstyle _) hidle hend rfl

/-- All nodes that are read start in order, and the line comments are among them. -/
theorem Outlined.finish {r : Reader} (h : r.Outlined m.comments)
    (hend : r.spot.mark.offset = byteLength source) :
    ((allNodes r.finish).map (·.span.start)).Pairwise (· < ·) ∧
      (allNodes r.finish).filterMap Node.lineComment? = m.comments := by
  unfold Reader.finish
  split
  · next hidle => exact h.closeAll hmasked hidle hend
  · next p hp => exact (h.endStatement hp r.spot.mark).closeAll hmasked rfl hend

end Runs

end Reader

end ClassHints.Sheet
