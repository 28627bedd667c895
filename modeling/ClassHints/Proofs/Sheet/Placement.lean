import ClassHints.Proofs.Sheet.Outline
import ClassHints.Proofs.Sheet.Tokens

/-!
# The places of nodes

The nodes of a block stand one behind the other, inside the block and behind its brace. Line
comments are the exception: one that is written inside a prelude is placed behind the node that
the prelude makes, or in the block that it opens. Every other place is where a token starts or
ends, which a line comment is never cut by.
-/

namespace ClassHints.Sheet

open Text

/-! ## Places of tokens -/

section Lexemes

variable {t : Text} {done rest : List Lexeme} {lexeme : Lexeme}

/-- A text is what its lexemes say, one after the other. -/
theorem text_eq_of_lexemes (h : lexemes t = done ++ lexeme :: rest) :
    t = textOf done ++ (lexeme.text ++ textOf rest) := by
  rw [← flatMap_lexemes t, h]
  simp

/-- No lexeme is empty. -/
theorem text_ne_nil_of_lexemes (h : lexemes t = done ++ lexeme :: rest) : lexeme.text ≠ [] := by
  obtain ⟨c, u, n, -, htext, -⟩ := exists_readAt_of_append h
  simp [htext]

/-- A token that is no run of blanks does not start with a blank. -/
theorem solidAt_of_lexemes (h : lexemes t = done ++ lexeme :: rest)
    (hblank : lexeme.token ≠ .blank) : SolidAt t (byteLength (textOf done)) := by
  obtain ⟨c, u, n, hread, htext, -⟩ := exists_readAt_of_append h
  refine ⟨textOf done, c, u.take (n - 1) ++ textOf rest, ?_, hread.ne_space hblank, rfl⟩
  rw [text_eq_of_lexemes h, htext, List.cons_append]

/-- Behind a token of one character that is no blank. -/
theorem edgeAt_of_single (h : lexemes t = done ++ lexeme :: rest) {c : Char}
    (htext : lexeme.text = [c]) (hc : c ≠ ' ') :
    EdgeAt t (byteLength (textOf (done ++ [lexeme]))) := by
  left
  refine ⟨textOf done, c, textOf rest, ?_, hc, by simp [htext]⟩
  rw [text_eq_of_lexemes h, htext, List.singleton_append]

/-- Behind a block comment stands its slash, or the text ends there. -/
theorem edgeAt_of_comment (h : lexemes t = done ++ lexeme :: rest) {text : Text}
    (htoken : lexeme.token = .comment text) :
    EdgeAt t (byteLength (textOf (done ++ [lexeme]))) := by
  obtain ⟨c, u, n, hread, htext, hrest⟩ := exists_readAt_of_append h
  rw [htoken] at hread
  rcases hread.comment_cases with ⟨tail, hwhole, hn⟩ | hn
  · left
    have hlexeme : lexeme.text = '/' :: '*' :: (text ++ ['*']) ++ ['/'] := by
      obtain ⟨rfl, rfl⟩ := List.cons.inj hwhole
      have htake : n - 1 = ('*' :: (text ++ ['*', '/'])).length := by
        simp only [List.length_cons, List.length_append, List.length_nil]
        omega
      have hsplit : '*' :: (text ++ '*' :: '/' :: tail) = '*' :: (text ++ ['*', '/']) ++ tail := by
        simp
      rw [htext, hsplit, htake, List.take_left]
      simp
    refine ⟨textOf done ++ '/' :: '*' :: (text ++ ['*']), '/', textOf rest, ?_, by decide, ?_⟩
    · rw [text_eq_of_lexemes h, hlexeme]
      simp only [List.append_assoc, List.singleton_append]
    · simp [hlexeme]
  · right
    right
    have hnil : rest = [] := by
      rw [hrest, hn, Nat.add_sub_cancel, List.drop_length]
      rfl
    rw [hnil] at h
    rw [← h, textOf, flatMap_lexemes]

end Lexemes

/-! ## Nodes of one block -/

namespace Node

/-- The place behind the brace that opens the block of a node. -/
def bodyIn (t : Text) (node : Node) : Nat :=
  node.span.start + byteLength (textOf (node.atWordIn t) ++ (node.preludeIn t).whole) + 1

/-- The body of a node starts behind its prelude and its brace. -/
theorem CutOut.bodyIn_eq {t : Text} {node : Node} {p : Prelude}
    {before lead ls more rest : List Lexeme} (h : node.CutOut p before lead ls more rest)
    (hall : lexemes t = before ++ lead ++ ls ++ more ++ rest) :
    node.bodyIn t = byteLength (textOf (before ++ lead ++ ls)) + 1 := by
  unfold bodyIn
  rw [h.start_eq, h.atWordIn_eq hall, h.preludeIn_eq hall, h.collected.whole_eq]
  simp only [textOf, List.flatMap_append, byteLength_append]
  omega

end Node

/-- The nodes of a block, latest first, lie behind `floor` and before `limit`. Those that are no
line comments do not overlap. -/
structure Row (floor limit : Nat) (nodes : List Node) : Prop where
  behind : ∀ node ∈ nodes, node.lineComment? = none → floor ≤ node.span.start
  before : ∀ node ∈ nodes, node.span.stop ≤ limit
  apart : nodes.Pairwise fun later earlier => later.lineComment? = none →
    earlier.lineComment? = none → earlier.span.stop ≤ later.span.start

/-- A node that is no line comment runs from one token to another, and the nodes inside it lie
behind its brace. -/
structure Node.Placed (m : Masked) (node : Node) : Prop where
  listed : ∀ c ∈ node.lineComment?, c ∈ m.comments
  nonempty : node.lineComment? = none → node.span.start < node.span.stop
  solid : node.lineComment? = none → SolidAt m.text node.span.start
  edge : node.lineComment? = none → EdgeAt m.text node.span.stop
  row : Row (node.bodyIn m.text) node.span.stop node.children.reverse

/-- A row of nodes that are placed at every depth. -/
structure Laid (m : Masked) (floor limit : Nat) (nodes : List Node) : Prop where
  row : Row floor limit nodes
  placed : ∀ node ∈ allNodes nodes, node.Placed m

namespace Laid

variable {m : Masked} {floor limit limit' : Nat} {nodes : List Node}

/-- No nodes are laid anywhere. -/
theorem nil : Laid m floor limit [] := ⟨⟨by simp, by simp, .nil⟩, by simp⟩

/-- Nodes that are laid before a limit are laid before any later one. -/
theorem mono (h : Laid m floor limit nodes) (hle : limit ≤ limit') : Laid m floor limit' nodes :=
  ⟨⟨h.row.behind, fun node hnode => (h.row.before node hnode).trans hle, h.row.apart⟩, h.placed⟩

/-- A line comment joins the row wherever it starts. -/
theorem comment (h : Laid m floor limit nodes) {c : Comment} (hc : c ∈ m.comments)
    (hstyle : c.style = .line) (hstop : c.span.stop ≤ limit) :
    Laid m floor limit (.comment c :: nodes) := by
  have hline : (Node.comment c).lineComment? = some c := by simp [Node.lineComment?, hstyle]
  have hplaced : (Node.comment c).Placed m := by
    constructor
    · intro d hd
      rw [hline] at hd
      obtain rfl := Option.some.inj hd
      exact hc
    · simp [hline]
    · simp [hline]
    · simp [hline]
    · exact ⟨by simp [Node.children], by simp [Node.children], .nil⟩
  refine ⟨⟨?_, ?_, ?_⟩, ?_⟩
  · intro node hnode hnone
    rcases List.mem_cons.1 hnode with rfl | hnode
    · simp [hline] at hnone
    · exact h.row.behind node hnode hnone
  · intro node hnode
    rcases List.mem_cons.1 hnode with rfl | hnode
    · exact hstop
    · exact h.row.before node hnode
  · refine List.pairwise_cons.2 ⟨?_, h.row.apart⟩
    intro earlier _ hnone
    simp [hline] at hnone
  · intro node hnode
    rw [allNodes_cons, Node.children, allNodes_nil, List.singleton_append] at hnode
    rcases List.mem_cons.1 hnode with rfl | hnode
    · exact hplaced
    · exact h.placed node hnode

/-- Comments that are due can be laid behind the nodes. -/
theorem comments (h : Laid m floor limit nodes) {due : List Comment}
    (hdue : ∀ c ∈ due, c ∈ m.comments ∧ c.style = .line ∧ c.span.stop ≤ limit) :
    Laid m floor limit ((due.map Node.comment).reverse ++ nodes) := by
  induction due generalizing nodes with
  | nil => exact h
  | cons c due ih =>
    obtain ⟨hmem, hstyle, hstop⟩ := hdue c (by simp)
    rw [List.map_cons, List.reverse_cons, List.append_assoc, List.singleton_append]
    exact ih (h.comment hmem hstyle hstop) fun d hd => hdue d (by simp [hd])

/-- A node that starts behind all others joins the row. -/
theorem cons (h : Laid m floor limit nodes) (hfloor : floor ≤ limit) {node : Node}
    (hplaced : node.Placed m) (hchildren : ∀ child ∈ allNodes node.children, child.Placed m)
    (hstart : limit ≤ node.span.start) (hstop : node.span.stop ≤ limit')
    (hle : limit ≤ limit') : Laid m floor limit' (node :: nodes) := by
  have hmono := h.mono hle
  refine ⟨⟨?_, ?_, ?_⟩, ?_⟩
  · intro other hother hnone
    rcases List.mem_cons.1 hother with rfl | hother
    · omega
    · exact h.row.behind other hother hnone
  · intro other hother
    rcases List.mem_cons.1 hother with rfl | hother
    · exact hstop
    · exact hmono.row.before other hother
  · refine List.pairwise_cons.2 ⟨?_, h.row.apart⟩
    intro earlier hearlier _ _
    exact (h.row.before earlier hearlier).trans hstart
  · intro other hother
    rw [allNodes_cons, List.cons_append, List.mem_cons, List.mem_append] at hother
    rcases hother with rfl | hother | hother
    · exact hplaced
    · exact hchildren other hother
    · exact h.placed other hother

end Laid

/-- A node without nodes in it is placed by its two ends. -/
theorem Node.placed_of_leaf {m : Masked} {node : Node} (hchildren : node.children = [])
    (hline : node.lineComment? = none) (hlt : node.span.start < node.span.stop)
    (hsolid : SolidAt m.text node.span.start) (hedge : EdgeAt m.text node.span.stop) :
    node.Placed m := by
  refine ⟨by simp [hline], fun _ => hlt, fun _ => hsolid, fun _ => hedge, ?_⟩
  rw [hchildren]
  exact ⟨by simp, by simp, .nil⟩

/-! ## Blocks that are open -/

/-- The place behind the brace of an open block. -/
def Frame.bodyIn (t : Text) (f : Frame) : Nat := (f.node [] f.start).bodyIn t

/-- The body of a node starts where that of its block did. -/
theorem Frame.bodyIn_node (t : Text) (f : Frame) (nodes : List Node) (stop : Mark) :
    (f.node nodes stop).bodyIn t = f.bodyIn t := by
  unfold Frame.bodyIn Frame.node
  split <;> rfl

/-- A block that opens behind a prelude. -/
theorem Prelude.At.openedBy {p : Prelude} {before lead ls : List Lexeme} {brace : Lexeme}
    (h : p.At before lead ls) (hended : p.ends brace = true) (htext : brace.text = ['{'])
    (nodes : List Node) :
    Frame.OpenedBy ⟨p.head, p.start, trim (stripComments p.text), nodes⟩ p before lead ls brace :=
  ⟨h, hended, htext, rfl, rfl, rfl⟩

/-- The place behind the brace of an open block is the place behind its brace. -/
theorem Frame.OpenedBy.bodyIn_eq {t : Text} {f : Frame} {p : Prelude}
    {before lead ls more : List Lexeme} {brace : Lexeme} (h : f.OpenedBy p before lead ls brace)
    (hall : lexemes t = before ++ lead ++ ls ++ brace :: more) :
    f.bodyIn t = byteLength (textOf (before ++ lead ++ ls)) + 1 := by
  let stop : Mark := ⟨byteLength (textOf (before ++ lead ++ ls ++ brace :: more)), 1, 1⟩
  have hstop : stop.offset = byteLength (textOf (before ++ lead ++ ls ++ brace :: more)) := rfl
  have hcut := h.cutOut hstop [] []
  rw [← f.bodyIn_node t [] stop]
  apply hcut.bodyIn_eq
  rw [hall, List.append_nil]

/-- The node of a block runs from the start of the block. -/
theorem Frame.span_node (f : Frame) (nodes : List Node) (stop : Mark) :
    (f.node nodes stop).span = f.start.to stop := by
  unfold Frame.node
  split <;> rfl

/-- The node of a block is no line comment. -/
theorem Frame.lineComment?_node (f : Frame) (nodes : List Node) (stop : Mark) :
    (f.node nodes stop).lineComment? = none := by
  unfold Frame.node
  split <;> rfl

/-- A block starts before its body does. -/
theorem Frame.start_lt_bodyIn (t : Text) (f : Frame) : f.start.offset < f.bodyIn t := by
  have hspan : (f.node [] f.start).span.start = f.start.offset := by
    rw [f.span_node]
    rfl
  unfold bodyIn Node.bodyIn
  omega

/-- The rows of the open blocks, innermost first. The nodes before a block end where it
starts. -/
inductive Stacked (m : Masked) : List Frame → List Node → Nat → Prop where
  | top {nodes : List Node} {limit : Nat} (laid : Laid m 0 limit nodes) : Stacked m [] nodes limit
  | block {f : Frame} {outer : List Frame} {nodes : List Node} {limit : Nat}
    (laid : Laid m (f.bodyIn m.text) limit nodes) (behind : f.bodyIn m.text ≤ limit)
    (solid : SolidAt m.text f.start.offset) (around : Stacked m outer f.before f.start.offset) :
    Stacked m (f :: outer) nodes limit

/-- What is done to the innermost row leaves the blocks around it alone. -/
theorem Stacked.replace {m : Masked} {frames : List Frame} {nodes nodes' : List Node}
    {limit limit' : Nat} (h : Stacked m frames nodes limit) (hle : limit ≤ limit')
    (hlaid : ∀ floor ≤ limit, Laid m floor limit nodes → Laid m floor limit' nodes') :
    Stacked m frames nodes' limit' := by
  cases h with
  | top laid => exact .top (hlaid 0 (Nat.zero_le _) laid)
  | block laid behind solid around =>
    exact .block (hlaid _ behind laid) (behind.trans hle) solid around

/-- A block that closes joins the row around it. -/
theorem Stacked.close {m : Masked} {f : Frame} {outer : List Frame} {nodes : List Node}
    {limit : Nat} (h : Stacked m (f :: outer) nodes limit) {stop : Mark}
    (hle : limit ≤ stop.offset) (hedge : EdgeAt m.text stop.offset) :
    Stacked m outer (f.node nodes stop :: f.before) stop.offset := by
  cases h with
  | block laid behind solid around =>
    have hstart := f.start_lt_bodyIn m.text
    have hplaced : (f.node nodes stop).Placed m := by
      constructor
      · simp [f.lineComment?_node]
      all_goals rw [f.span_node]
      · intro _
        change f.start.offset < stop.offset
        omega
      · exact fun _ => solid
      · exact fun _ => hedge
      · rw [f.bodyIn_node, f.children_node, List.reverse_reverse]
        exact (laid.mono hle).row
    apply around.replace (by omega)
    intro floor hfloor hbefore
    apply hbefore.cons hfloor hplaced
    · intro child hchild
      rw [f.children_node, mem_allNodes_reverse] at hchild
      exact laid.placed child hchild
    · rw [f.span_node]
      exact Nat.le_refl _
    · rw [f.span_node]
      exact Nat.le_refl _
    · omega

namespace Reader

/-- Where the next node of the innermost block can start. -/
def limit (r : Reader) : Nat := (r.prelude.map (·.start.offset)).getD r.spot.mark.offset

/-- Between nodes the next one can start where the reader stands. -/
theorem limit_of_idle {r : Reader} (h : r.prelude = none) : r.limit = r.spot.mark.offset := by
  simp [limit, h]

/-- After the lexemes `done` all nodes are placed, and a prelude starts with a token. -/
structure Placed (m : Masked) (done : List Lexeme) (r : Reader) : Prop where
  tracks : r.Tracks (lexemes m.text) done
  outlined : r.Outlined m.comments
  stacked : Stacked m r.frames r.nodes r.limit
  solid : ∀ p ∈ r.prelude, SolidAt m.text p.start.offset

/-- A prelude starts where no blank stands. -/
theorem solid_step {t : Text} {lexeme : Lexeme} {r r' : Reader}
    (h : ∀ p ∈ r.prelude, SolidAt t p.start.offset)
    (hsolid : lexeme.token ≠ .blank → SolidAt t r.spot.mark.offset) (hstep : r.Step lexeme r') :
    ∀ p ∈ r'.prelude, SolidAt t p.start.offset := by
  intro q hq
  cases hstep with
  | skip hidle | comment hidle | close hidle => cases hidle.symm.trans hq
  | atWord hidle name htoken =>
    obtain rfl := Option.some.inj hq
    exact hsolid (by simp [htoken])
  | start hidle htoken =>
    obtain rfl := Option.some.inj hq
    refine hsolid fun hblank => ?_
    simp [hblank, Token.startsPrelude] at htoken
  | proceed p hprelude =>
    obtain rfl := Option.some.inj hq
    rw [Prelude.start_next]
    exact h p hprelude
  | finish | enter | leave => cases hq

/-- A prelude that ends as a statement joins the innermost row. -/
theorem stacked_endStatement {m : Masked} {r : Reader} {p : Prelude} (h : Stacked m r.frames r.nodes r.limit)
    (hp : r.prelude = some p) {stop : Mark} (hlt : p.start.offset < stop.offset)
    (hsolid : SolidAt m.text p.start.offset) (hedge : EdgeAt m.text stop.offset) :
    Stacked m (r.endStatement p stop).frames (r.endStatement p stop).nodes stop.offset := by
  have hlimit : r.limit = p.start.offset := by simp [limit, hp]
  rw [hlimit] at h
  apply h.replace (by omega)
  intro floor hfloor hlaid
  cases hs : p.statement? stop with
  | none =>
    simp only [endStatement, hs, Option.toList_none, List.nil_append]
    exact hlaid.mono (by omega)
  | some node =>
    obtain ⟨hspan, hchildren, hcomment⟩ := p.of_statement?_eq_some hs
    have hline : node.lineComment? = none := by
      cases node with
      | comment c => cases hcomment
      | _ => rfl
    have hplaced : node.Placed m := by
      apply Node.placed_of_leaf hchildren hline
      all_goals rw [hspan]
      · exact hlt
      · exact hsolid
      · exact hedge
    simp only [endStatement, hs, Option.toList_some, List.singleton_append]
    apply hlaid.cons hfloor hplaced
    · simp [hchildren]
    · rw [hspan]
      exact Nat.le_refl _
    · rw [hspan]
      exact Nat.le_refl _
    · omega

/-- What stands after the lexemes `done` is no blank, so the next node or brace is there. -/
theorem Placed.solidAt {m : Masked} {done rest : List Lexeme} {lexeme : Lexeme} {r : Reader}
    (hall : lexemes m.text = done ++ lexeme :: rest) (h : r.Placed m done)
    (hblank : lexeme.token ≠ .blank) : SolidAt m.text r.spot.mark.offset := by
  rw [h.tracks.offset_eq]
  exact solidAt_of_lexemes hall hblank

/-- The offset behind the next lexeme is the length of all lexemes up to it. -/
theorem Placed.offset_advance {m : Masked} {done : List Lexeme} {r : Reader} (h : r.Placed m done)
    (lexeme : Lexeme) :
    (r.spot.advance lexeme.text).mark.offset = byteLength (textOf (done ++ [lexeme])) := by
  simp [h.tracks.offset_eq]

/-- A closing brace that is read ends at an edge. -/
theorem Placed.edgeAt_closing {m : Masked} {done rest : List Lexeme} {lexeme : Lexeme} {r : Reader}
    (hall : lexemes m.text = done ++ lexeme :: rest) (h : r.Placed m done)
    (htoken : lexeme.token = .closing .curly) :
    EdgeAt m.text (r.spot.advance lexeme.text).mark.offset := by
  obtain ⟨c, u, n, hread, hlexeme, -⟩ := exists_readAt_of_append hall
  rw [htoken] at hread
  obtain ⟨rfl, rfl⟩ := hread.closing
  rw [h.offset_advance]
  exact edgeAt_of_single hall hlexeme (by decide)

/-- A prelude that ends at an opening brace becomes the innermost block, whose row is empty. -/
theorem Placed.stacked_openBlock {m : Masked} {done rest : List Lexeme} {lexeme : Lexeme}
    {r : Reader} (hall : lexemes m.text = done ++ lexeme :: rest) (h : r.Placed m done)
    {p : Prelude} (hprelude : r.prelude = some p) (hended : p.ends lexeme = true)
    (hbrace : lexeme.text = ['{']) :
    Stacked m (r.openBlock p).frames (r.openBlock p).nodes
      (r.spot.advance lexeme.text).mark.offset := by
  have hnext := h.offset_advance lexeme
  obtain ⟨before, lead, ls, rfl, hat⟩ := h.tracks.prelude_at p hprelude
  have hbody := (hat.openedBy hended hbrace r.nodes).bodyIn_eq hall
  have hsize : '{'.utf8Size = 1 := by decide
  have hbelow : byteLength (textOf (before ++ lead ++ ls)) + 1 =
      (r.spot.advance lexeme.text).mark.offset := by
    rw [hnext]
    simp [hbrace, hsize, Nat.add_assoc]
  -- the row around it ends where the prelude starts
  have hlimit : r.limit = p.start.offset := by simp [limit, hprelude]
  have haround := h.stacked
  rw [hlimit] at haround
  exact .block .nil (Nat.le_of_eq (hbody.trans hbelow)) (h.solid p hprelude) haround

section Steps

variable {source : Text} {m : Masked} (hmasked : Masked.ofSource source = .ok m)

include hmasked

/-- Comments that are due are placed at the end of the innermost row. -/
theorem stacked_settled {r : Reader} {limit : Nat}
    (h : Stacked m r.frames r.nodes limit) (houtlined : r.Outlined m.comments)
    (hle : limit ≤ r.spot.mark.offset) (hedge : EdgeAt m.text r.spot.mark.offset) :
    Stacked m r.settled.frames r.settled.nodes r.spot.mark.offset := by
  rw [settled_eq]
  apply h.replace hle
  intro floor _ hlaid
  apply (hlaid.mono hle).comments
  intro c hc
  have hmem := houtlined.due_subset c hc
  have hstart := start_lt_of_mem_due hc
  have hapart := Masked.apart_of_edgeAt hmasked hedge hmem
  exact ⟨hmem, Masked.style_eq hmasked hmem, by omega⟩

/-- A block that closes where no prelude is collected. -/
theorem stacked_closeBlock {r : Reader} {f : Frame} {outer : List Frame}
    (hframes : r.frames = f :: outer) {limit : Nat} (h : Stacked m r.frames r.nodes limit)
    (houtlined : r.Outlined m.comments) (hle : limit ≤ r.spot.mark.offset)
    (hhere : EdgeAt m.text r.spot.mark.offset) {stop : Mark}
    (hstop : r.spot.mark.offset ≤ stop.offset) (hedge : EdgeAt m.text stop.offset) :
    Stacked m (r.closeBlock f outer r.spot.mark stop).frames
      (r.closeBlock f outer r.spot.mark stop).nodes stop.offset := by
  have hsettled := stacked_settled hmasked h houtlined hle hhere
  have hframes' : r.settled.frames = f :: outer := hframes
  rw [hframes'] at hsettled
  exact hsettled.close hstop hedge

/-- A block comment between nodes joins the innermost row. -/
theorem Placed.stacked_comment {done rest : List Lexeme} {lexeme : Lexeme} {r : Reader}
    (hall : lexemes m.text = done ++ lexeme :: rest) (h : r.Placed m done)
    (hidle : r.prelude = none) {text : Text} (htoken : lexeme.token = .comment text) :
    let stop := (r.spot.advance lexeme.text).mark
    let node := Node.comment ⟨.block, text, r.spot.mark.to stop⟩
    Stacked m (r.settled.push node).frames (r.settled.push node).nodes stop.offset := by
  intro stop node
  have hsolid := h.solidAt hall (by simp [htoken])
  have hedge : EdgeAt m.text stop.offset := by
    rw [h.offset_advance]
    exact edgeAt_of_comment hall htoken
  have hlt : r.spot.mark.offset < stop.offset := by
    have hpos := byteLength_pos (text_ne_nil_of_lexemes hall)
    rw [Spot.offset_advance]
    omega
  have hplaced : node.Placed m := Node.placed_of_leaf rfl rfl hlt hsolid hedge
  have hsettled := stacked_settled hmasked h.stacked h.outlined
    (Nat.le_of_eq (limit_of_idle hidle)) (Or.inr (Or.inl hsolid))
  apply hsettled.replace (Nat.le_of_lt hlt)
  intro floor hfloor hlaid
  exact hlaid.cons hfloor hplaced (by simp [node, Node.children]) (Nat.le_refl _)
    (Nat.le_refl _) (Nat.le_of_lt hlt)

/-- Every step keeps the innermost row and the blocks around it in place. -/
theorem Placed.stacked_step {done rest : List Lexeme} {lexeme : Lexeme} {r r' : Reader}
    (hall : lexemes m.text = done ++ lexeme :: rest) (h : r.Placed m done)
    (hstep : r.Step lexeme r') : Stacked m r'.frames r'.nodes r'.limit := by
  have hshaped : lexeme.Shaped := shaped_of_mem_lexemes (t := m.text) (by simp [hall])
  have hgrow : r.spot.mark.offset ≤ (r.spot.advance lexeme.text).mark.offset := by
    rw [Spot.offset_advance]
    omega
  have hedge (hblank : lexeme.token ≠ .blank) : EdgeAt m.text r.spot.mark.offset :=
    Or.inr (Or.inl (h.solidAt hall hblank))
  have hbelow {p : Prelude} (hp : r.prelude = some p) : p.start.offset < r.spot.mark.offset :=
    h.outlined.below _ (by simp [starts, hp])
  have hsettled (hidle : r.prelude = none) (hblank : lexeme.token ≠ .blank) :
      Stacked m r.settled.frames r.settled.nodes r.spot.mark.offset :=
    stacked_settled hmasked h.stacked h.outlined (Nat.le_of_eq (limit_of_idle hidle))
      (hedge hblank)
  cases hstep with
  | skip hidle htoken =>
    have hle : r.limit ≤ (r.spot.advance lexeme.text).mark.offset := by
      rw [limit_of_idle hidle]
      exact hgrow
    rw [limit_of_idle (r := r.moved lexeme.text) hidle]
    exact h.stacked.replace hle fun floor _ hlaid => hlaid.mono hle
  | comment hidle text htoken =>
    rw [limit_of_idle]
    · exact h.stacked_comment hmasked hall hidle htoken
    · exact hidle
  | atWord hidle name htoken => exact hsettled hidle (by simp [htoken])
  | start hidle htoken =>
    refine hsettled hidle fun hblank => ?_
    simp [hblank, Token.startsPrelude] at htoken
  | close hidle htoken f outer hframes =>
    rw [limit_of_idle]
    · exact stacked_closeBlock hmasked hframes h.stacked h.outlined
        (Nat.le_of_eq (limit_of_idle hidle)) (hedge (by simp [htoken])) hgrow
        (h.edgeAt_closing hall htoken)
    · exact hidle
  | proceed p hprelude hcontinues =>
    -- the row still ends where the prelude started
    have hlimit : ({ r with prelude := some (p.next lexeme) }.moved lexeme.text).limit =
        r.limit := by
      simp [limit, hprelude]
    rw [hlimit]
    exact h.stacked
  | finish p hprelude hended htoken =>
    have hstop := edgeAt_of_single hall (hshaped.semicolon htoken) (by decide)
    rw [← h.offset_advance] at hstop
    exact stacked_endStatement h.stacked hprelude ((hbelow hprelude).trans_le hgrow)
      (h.solid p hprelude) hstop
  | enter p hprelude hended htoken =>
    exact h.stacked_openBlock hall hprelude hended (hshaped.brace htoken)
  | leave p hprelude hended htoken f outer hframes =>
    -- the statement ends before the brace, and then the block closes
    have hhere := hedge (by simp [htoken])
    have hstatement := stacked_endStatement h.stacked hprelude (hbelow hprelude)
      (h.solid p hprelude) hhere
    exact stacked_closeBlock (r := r.endStatement p r.spot.mark) hmasked hframes hstatement
      (h.outlined.endStatement hprelude _) (Nat.le_refl _) hhere hgrow
      (h.edgeAt_closing hall htoken)

/-- Every step keeps all nodes in place. -/
theorem Placed.step {done rest : List Lexeme} {lexeme : Lexeme} {r r' : Reader}
    (hall : lexemes m.text = done ++ lexeme :: rest) (h : r.Placed m done)
    (hstep : r.Step lexeme r') : r'.Placed m (done ++ [lexeme]) where
  tracks := h.tracks.step hall (shaped_of_mem_lexemes (t := m.text) (by simp [hall])) hstep
  outlined := h.outlined.step hmasked (h.solidAt hall) (text_ne_nil_of_lexemes hall) hstep
  stacked := h.stacked_step hmasked hall hstep
  solid := solid_step h.solid (h.solidAt hall) hstep

/-- At the end of the text all open blocks close, and what is left is one row. -/
theorem laid_closeAll {r : Reader} (h : Stacked m r.frames r.nodes r.spot.mark.offset)
    (houtlined : r.Outlined m.comments) (hidle : r.prelude = none)
    (hend : r.spot.mark.offset = byteLength m.text) :
    Laid m 0 (byteLength m.text) (r.closeAll r.frames).reverse := by
  have hedge : EdgeAt m.text r.spot.mark.offset := Or.inr (Or.inr hend)
  induction hframes : r.frames generalizing r with
  | nil =>
    have hsettled := stacked_settled hmasked h houtlined (Nat.le_refl _) hedge
    have hframes' : r.settled.frames = [] := hframes
    rw [hframes', hend] at hsettled
    rw [closeAll, List.reverse_reverse]
    cases hsettled with
    | top laid => exact laid
  | cons f outer ih =>
    have hstyle : ∀ c ∈ m.comments, c.style = .line := fun c hc => Masked.style_eq hmasked hc
    rw [closeAll]
    apply ih
    · exact stacked_closeBlock hmasked hframes h houtlined (Nat.le_refl _) hedge (Nat.le_refl _)
        hedge
    · exact houtlined.closeBlock hframes hidle hstyle _
    · exact hidle
    · exact hend
    · exact hedge
    · rfl

/-- At the end of the text all nodes are laid in the source. -/
theorem Placed.finish {r : Reader} (h : r.Placed m (lexemes m.text)) :
    Laid m 0 (byteLength m.text) r.finish.reverse := by
  have hend : r.spot.mark.offset = byteLength m.text := by
    rw [h.tracks.offset_eq, textOf, flatMap_lexemes]
  unfold Reader.finish
  split
  · next hidle =>
    have hstacked := h.stacked
    rw [limit_of_idle hidle] at hstacked
    exact laid_closeAll hmasked hstacked h.outlined hidle hend
  · next p hp =>
    have hbelow : p.start.offset < r.spot.mark.offset :=
      h.outlined.below _ (by simp [starts, hp])
    have hstacked := stacked_endStatement h.stacked hp hbelow (h.solid p hp)
      (Or.inr (Or.inr hend))
    exact laid_closeAll hmasked hstacked (h.outlined.endStatement hp _) rfl hend

end Steps

end Reader

/-! ## Whole stylesheets -/

/-- The nodes of a stylesheet are placed at every depth, start in order and keep all line
comments. -/
theorem parse_placed {source : Text} {nodes : List Node} (h : parse source = .ok nodes) :
    ∃ masked, Masked.ofSource source = .ok masked ∧
      Laid masked 0 (byteLength masked.text) nodes.reverse ∧
      ((allNodes nodes).map (·.span.start)).Pairwise (· < ·) ∧
      (allNodes nodes).filterMap Node.lineComment? = masked.comments := by
  obtain ⟨masked, r, hmasked, hread, rfl⟩ := exists_read_of_parse h
  have hstart : (Reader.start masked.comments).Placed masked [] := by
    refine ⟨⟨rfl, by simp [Reader.start], by simp [Reader.start], by simp [Reader.start]⟩,
      ⟨?_, ?_, ?_⟩, .top .nil, by simp [Reader.start]⟩
    · have hpairwise := Masked.pairwise_comments hmasked
      simp only [Reader.starts, Reader.start, tracesOf, List.reverse_nil, allNodes_nil,
        List.map_nil, Option.map_none, Option.toList_none, List.nil_append]
      apply List.pairwise_map.2
      apply List.Pairwise.imp_of_mem _ hpairwise
      intro c d hc hd hle
      obtain ⟨hlt, -⟩ := Masked.comment_bounds hmasked hc
      omega
    · simp [Reader.starts, Reader.start, tracesOf]
    · simp [Reader.start, tracesOf]
  have hplaced : r.Placed masked (lexemes masked.text) := by
    apply Reader.read_induction hstart _ hread
    intro done lexeme rest r₁ r₂ hall hdone hstep
    exact hdone.step hmasked hall hstep
  have hend : r.spot.mark.offset = byteLength source := by
    rw [hplaced.tracks.offset_eq, textOf, flatMap_lexemes, Masked.byteLength_text hmasked]
  exact ⟨masked, hmasked, hplaced.finish hmasked, hplaced.outlined.finish hmasked hend⟩

/-- The siblings of a forest: its own trees, which have no parent in it, and the nodes directly
inside any of its nodes. -/
inductive Siblings (nodes : List Node) : Option Node → List Node → Prop where
  | top : Siblings nodes none nodes
  | inside (parent : Node) (listed : parent ∈ allNodes nodes) :
    Siblings nodes (some parent) parent.children

/-- The spans of a forest are ordered and nested in the source, and the line comments are all
there. -/
structure WellPlaced (source : Text) (comments : List Comment) (nodes : List Node) : Prop where
  /-- A node starts behind the start of every node listed before it. -/
  ordered : ((allNodes nodes).map (·.span.start)).Pairwise (· < ·)
  /-- No span is empty or goes past the end. -/
  bounds : ∀ node ∈ allNodes nodes,
    node.span.start < node.span.stop ∧ node.span.stop ≤ byteLength source
  /-- Spans start and end between two characters. -/
  boundaries : ∀ node ∈ allNodes nodes,
    source.IsBoundary node.span.start ∧ source.IsBoundary node.span.stop
  /-- A node lies inside the node around it. -/
  nested : ∀ parent ∈ allNodes nodes, ∀ node ∈ parent.children,
    parent.span.start ≤ node.span.start ∧ node.span.stop ≤ parent.span.stop
  /-- Siblings do not overlap, line comments apart. -/
  disjoint : ∀ parent siblings, Siblings nodes parent siblings →
    siblings.Pairwise fun earlier later => earlier.lineComment? = none →
      later.lineComment? = none → earlier.span.stop ≤ later.span.start
  /-- Every line comment is listed once, in the order they are written. -/
  complete : (allNodes nodes).filterMap Node.lineComment? = comments

/-- The nodes of a row that are no line comments follow each other without overlap. -/
theorem Row.pairwise {floor limit : Nat} {nodes : List Node} (h : Row floor limit nodes.reverse) :
    nodes.Pairwise fun earlier later => earlier.lineComment? = none →
      later.lineComment? = none → earlier.span.stop ≤ later.span.start := by
  have hapart := List.pairwise_reverse.1 h.apart
  apply List.Pairwise.imp _ hapart
  intro earlier later hle hearlier hlater
  exact hle hlater hearlier

/-- The line comment that a node is has the span of the node. -/
theorem Node.span_eq_of_lineComment? {node : Node} {c : Comment}
    (h : node.lineComment? = some c) : node.span = c.span := by
  unfold lineComment? at h
  split at h
  · split at h
    · obtain rfl := Option.some.inj h
      rfl
    · cases h
  · cases h

/-- A node that is placed covers at least one byte, and starts and stops between two characters of
the source. -/
theorem Node.Placed.bounds {source : Text} {m : Masked}
    (hmasked : Masked.ofSource source = .ok m) {node : Node} (h : node.Placed m) :
    node.span.start < node.span.stop ∧ node.span.stop ≤ byteLength source ∧
      source.IsBoundary node.span.start ∧ source.IsBoundary node.span.stop := by
  cases hline : node.lineComment? with
  | some c =>
    rw [Node.span_eq_of_lineComment? hline]
    exact Masked.comment_bounds hmasked (h.listed c hline)
  | none =>
    have hstart := Masked.isBoundary_of_edgeAt hmasked (Or.inr (Or.inl (h.solid hline)))
    have hstop := Masked.isBoundary_of_edgeAt hmasked (h.edge hline)
    refine ⟨h.nonempty hline, ?_, hstart, hstop⟩
    obtain ⟨before, after, rfl, hlength⟩ := hstop
    rw [byteLength_append]
    omega

/-- Every stylesheet that is read gives ordered and nested spans and keeps its line comments. -/
theorem wellPlaced_of_parse {source : Text} {nodes : List Node} (h : parse source = .ok nodes) :
    ∃ masked, Masked.ofSource source = .ok masked ∧ WellPlaced source masked.comments nodes := by
  obtain ⟨masked, hmasked, hlaid, hordered, hcomplete⟩ := parse_placed h
  have hplaced : ∀ node ∈ allNodes nodes, node.Placed masked := by
    intro node hnode
    exact hlaid.placed node (mem_allNodes_reverse.2 hnode)
  refine ⟨masked, hmasked, hordered, ?_, ?_, ?_, ?_, hcomplete⟩
  · intro node hnode
    obtain ⟨hlt, hle, -⟩ := (hplaced node hnode).bounds hmasked
    exact ⟨hlt, hle⟩
  · intro node hnode
    obtain ⟨-, -, hstart, hstop⟩ := (hplaced node hnode).bounds hmasked
    exact ⟨hstart, hstop⟩
  · intro parent hparent node hnode
    constructor
    · -- the parent is listed before all nodes inside it
      obtain ⟨before, after, hlist⟩ := exists_allNodes_eq hparent
      rw [hlist, List.append_assoc, List.map_append, List.map_append] at hordered
      have hinner := (List.pairwise_append.1 (List.pairwise_append.1 hordered).2.1).1
      have hlt := (List.pairwise_cons.1 hinner).1 node.span.start
        (List.mem_map_of_mem (mem_allNodes_of_mem hnode))
      exact Nat.le_of_lt hlt
    · exact (hplaced parent hparent).row.before node (by simpa using hnode)
  · intro parent siblings hsiblings
    cases hsiblings with
    | top => exact hlaid.row.pairwise
    | inside parent hparent => exact (hplaced parent hparent).row.pairwise

/-- Line comments inside a selector list, a value and a block. -/
theorem wellPlaced_of_parse_lineComments :
    ∃ source nodes masked, source = ".a, // x\n.b \x7b $c: 1 // y\n; // z\n\x7d".toList ∧
      parse source = .ok nodes ∧ Masked.ofSource source = .ok masked ∧
      masked.comments.length = 3 ∧ WellPlaced source masked.comments nodes := by
  have hok : (parse ".a, // x\n.b \x7b $c: 1 // y\n; // z\n\x7d".toList).isOk = true := by
    decide +kernel
  obtain ⟨nodes, hparse⟩ := exists_of_isOk hok
  obtain ⟨masked, hmasked, hplaced⟩ := wellPlaced_of_parse hparse
  refine ⟨_, nodes, masked, rfl, hparse, hmasked, ?_, hplaced⟩
  rw [Masked.eq_of_ofSource hmasked]
  decide +kernel

end ClassHints.Sheet
