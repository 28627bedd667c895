import ClassHints.Proofs.Sheet.LineComments
import ClassHints.Proofs.Sheet.Placement

/-!
# The lines and columns of nodes

A line comment is placed by newlines and characters. Every other node is placed where its first
token starts, by the ruler of tokens, so that what lies before the node decides whether it has the
line and column that a line comment would have there. Nodes placed by the same ruler are in order;
across the two rulers they are where the rulers agree.
-/

namespace ClassHints.Sheet

open Text Ruler

/-! ## Tokens that nodes start with -/

/-- A mark where a token starts that is no run of blanks. -/
def TokenAt (t : Text) (mark : Mark) : Prop :=
  ∃ before c after, t = before ++ c :: after ∧ isSpacing c = false ∧
    mark = (Spot.start.advance before).mark

/-- A lexeme that is no run of blanks starts with a token behind the lexemes before it. -/
theorem tokenAt_of_lexemes {t : Text} {done rest : List Lexeme} {lexeme : Lexeme}
    (h : lexemes t = done ++ lexeme :: rest) (hblank : lexeme.token ≠ .blank) :
    TokenAt t (Spot.start.advance (textOf done)).mark := by
  obtain ⟨c, u, n, hread, htext, -⟩ := exists_readAt_of_append h
  refine ⟨textOf done, c, u.take (n - 1) ++ textOf rest, ?_, hread.isSpacing_eq_false hblank, rfl⟩
  rw [text_eq_of_lexemes h, htext, List.cons_append]

/-- A node that is no line comment starts with a token. -/
def Node.StartsIn (t : Text) (node : Node) : Prop :=
  node.lineComment? = none → TokenAt t node.span.first

/-- The node of a block starts where the block does. -/
theorem Frame.startsIn_node {t : Text} {f : Frame} (h : TokenAt t f.start) (nodes : List Node)
    (stop : Mark) : (f.node nodes stop).StartsIn t := by
  intro _
  rw [f.span_node]
  exact h

/-- The node of a statement starts where its prelude does. -/
theorem Prelude.startsIn_statement? {t : Text} {p : Prelude} (h : TokenAt t p.start)
    (stop : Mark) : ∀ node ∈ p.statement? stop, node.StartsIn t := by
  intro node hnode _
  rw [(p.of_statement?_eq_some hnode).1]
  exact h

namespace Reader

/-- After the lexemes `done` all nodes, open blocks and preludes start with a token, and only line
comments wait. -/
structure Marked (t : Text) (done : List Lexeme) (r : Reader) : Prop where
  spot : r.spot = Spot.start.advance (textOf done)
  waiting : ∀ c ∈ r.waiting, c.style = .line
  nodes : ∀ node ∈ allNodes r.nodes, node.StartsIn t
  frames : ∀ f ∈ r.frames, TokenAt t f.start ∧ ∀ node ∈ allNodes f.before, node.StartsIn t
  prelude : ∀ p ∈ r.prelude, TokenAt t p.start

namespace Marked

variable {t : Text} {done : List Lexeme} {r : Reader}

/-- Comments that wait need no token to start with. -/
theorem startsIn_waiting (h : r.Marked t done) : ∀ c ∈ r.waiting, (Node.comment c).StartsIn t := by
  intro c hc hnone
  simp [Node.lineComment?, h.waiting c hc] at hnone

/-- Line comments that find their place change nothing else. -/
theorem flush (h : r.Marked t done) (offset : Nat) : (r.flush offset).Marked t done where
  spot := h.spot
  waiting c hc := h.waiting c (List.mem_of_mem_drop hc)
  nodes := forall_flush h.startsIn_waiting h.nodes offset
  frames := h.frames
  prelude := h.prelude

/-- A statement that ends adds a node that starts with the token of its prelude. -/
theorem endStatement (h : r.Marked t done) {p : Prelude} (hp : r.prelude = some p) (stop : Mark) :
    (r.endStatement p stop).Marked t done where
  spot := h.spot
  waiting := h.waiting
  nodes := forall_endStatement h.nodes (p.startsIn_statement? (h.prelude p hp) stop)
  frames := h.frames
  prelude := by simp [Reader.endStatement]

/-- A block that opens starts with the token of its prelude. -/
theorem openBlock (h : r.Marked t done) {p : Prelude} (hp : r.prelude = some p) :
    (r.openBlock p).Marked t done where
  spot := h.spot
  waiting := h.waiting
  nodes := by simp [Reader.openBlock]
  frames := List.forall_mem_cons.2 ⟨⟨h.prelude p hp, h.nodes⟩, h.frames⟩
  prelude := by simp [Reader.openBlock]

/-- A block that closes becomes a node that starts with a token. -/
theorem closeBlock (h : r.Marked t done) {f : Frame} {outer : List Frame}
    (hframes : r.frames = f :: outer) (here stop : Mark) :
    (r.closeBlock f outer here stop).Marked t done := by
  have hall := h.frames
  rw [hframes] at hall
  obtain ⟨⟨hstart, hbefore⟩, houter⟩ := List.forall_mem_cons.1 hall
  exact ⟨h.spot, (h.flush here.offset).waiting, forall_closeBlock h.startsIn_waiting h.nodes hbefore
    outer here fun nodes => f.startsIn_node hstart nodes stop, houter, h.prelude⟩

/-- A prelude that is collected starts with a token. -/
theorem collect (h : r.Marked t done) {p : Prelude} (hp : TokenAt t p.start) :
    ({ r with prelude := some p }).Marked t done where
  spot := h.spot
  waiting := h.waiting
  nodes := h.nodes
  frames := h.frames
  prelude := by
    intro q hq
    obtain rfl := Option.some.inj hq
    exact hp

/-- A block comment starts with its own token. -/
theorem pushComment (h : r.Marked t done) {c : Comment} (hc : TokenAt t c.span.first) :
    (r.push (.comment c)).Marked t done where
  spot := h.spot
  waiting := h.waiting
  nodes := by
    intro node hnode
    rw [push, allNodes_cons, Node.children, allNodes_nil] at hnode
    rcases List.mem_cons.1 hnode with rfl | hnode
    · exact fun _ => hc
    · exact h.nodes node hnode
  frames := h.frames
  prelude := h.prelude

/-- The reader goes on behind a lexeme. -/
theorem moved (h : r.Marked t done) (lexeme : Lexeme) :
    (r.moved lexeme.text).Marked t (done ++ [lexeme]) where
  spot := by
    rw [spot_moved, h.spot, ← Spot.advance_append]
    simp
  waiting := h.waiting
  nodes := h.nodes
  frames := h.frames
  prelude := h.prelude

/-- Every step keeps the marks. -/
theorem step {rest : List Lexeme} {lexeme : Lexeme} {r' : Reader}
    (hall : lexemes t = done ++ lexeme :: rest) (h : r.Marked t done)
    (hstep : r.Step lexeme r') : r'.Marked t (done ++ [lexeme]) := by
  have htoken (hblank : lexeme.token ≠ .blank) : TokenAt t r.spot.mark := by
    rw [h.spot]
    exact tokenAt_of_lexemes hall hblank
  have hsettled : r.settled.Marked t done := h.flush _
  cases hstep with
  | skip => exact h.moved lexeme
  | comment hidle text hcomment =>
    refine (hsettled.pushComment ?_).moved lexeme
    exact htoken (by simp [hcomment])
  | atWord hidle name hword => exact (hsettled.collect (htoken (by simp [hword]))).moved lexeme
  | start hidle hstarts =>
    refine (hsettled.collect (htoken fun hblank => ?_)).moved lexeme
    simp [hblank, Token.startsPrelude] at hstarts
  | close hidle hclosing f outer hframes => exact (h.closeBlock hframes _ _).moved lexeme
  | proceed p hprelude =>
    refine (h.collect ?_).moved lexeme
    rw [Prelude.start_next]
    exact h.prelude p hprelude
  | finish p hprelude => exact (h.endStatement hprelude _).moved lexeme
  | enter p hprelude => exact (h.openBlock hprelude).moved lexeme
  | leave p hprelude _ _ f outer hframes =>
    exact ((h.endStatement hprelude r.spot.mark).closeBlock hframes _ _).moved lexeme

/-- The blocks that are open at the end of the text become nodes that start with tokens. -/
theorem closeAll (h : r.Marked t done) :
    ∀ node ∈ allNodes (r.closeAll r.frames), node.StartsIn t := by
  induction hframes : r.frames generalizing r with
  | nil =>
    intro node hnode
    rw [Reader.closeAll, mem_allNodes_reverse] at hnode
    exact (h.flush _).nodes node hnode
  | cons f outer ih =>
    rw [Reader.closeAll]
    exact ih (h.closeBlock hframes _ _) rfl

/-- At the end of the text all nodes start with tokens. -/
theorem finish (h : r.Marked t done) : ∀ node ∈ allNodes r.finish, node.StartsIn t := by
  unfold Reader.finish
  split
  · exact h.closeAll
  · next p hp => exact (h.endStatement hp r.spot.mark).closeAll

end Marked

end Reader

/-- In every stylesheet that is read, the nodes that are no line comments start with tokens. -/
theorem startsIn_of_parse {source : Text} {nodes : List Node} (h : parse source = .ok nodes)
    {m : Masked} (hmasked : Masked.ofSource source = .ok m) :
    ∀ node ∈ allNodes nodes, node.StartsIn m.text := by
  obtain ⟨m', r, hmasked', hread, rfl⟩ := exists_read_of_parse h
  obtain rfl : m = m' := Except.ok.inj (hmasked.symm.trans hmasked')
  have hstart : (Reader.start m.comments).Marked m.text [] :=
    ⟨rfl, fun c hc => Masked.style_eq hmasked hc, by simp [Reader.start], by simp [Reader.start],
      by simp [Reader.start]⟩
  refine Reader.Marked.finish (Reader.read_induction hstart ?_ hread)
  intro done lexeme rest r₁ r₂ hall hmarked hstep
  exact hmarked.step hall hstep

/-! ## Places in order -/

/-- Lines and columns that are counted from one. -/
def fromOne (p : Nat × Nat) : Nat × Nat := (p.1 + 1, p.2 + 1)

/-- Counting from one loses nothing. -/
theorem fromOne_inj {p q : Nat × Nat} : fromOne p = fromOne q ↔ p = q := by
  simp [fromOne, Prod.ext_iff]

/-- Counting from one keeps the order of places. -/
theorem toLex_fromOne_lt {p q : Nat × Nat} :
    toLex (fromOne p) < toLex (fromOne q) ↔ toLex p < toLex q := by
  simp [Prod.Lex.toLex_lt_toLex, fromOne]

/-- Of two places in a text the one with more bytes before it is greater. -/
theorem place_lt_of_byteLength_lt (r : Ruler) {before before' after after' : Text} {c : Char}
    (h : before ++ c :: after = before' ++ after') (hc : r.ends c = false)
    (hlt : byteLength before < byteLength before') :
    toLex (r.place before) < toLex (r.place before') := by
  rcases List.append_eq_append_iff.1 h with ⟨u, rfl, hu⟩ | ⟨u, rfl, -⟩
  · cases u with
    | nil => simp at hlt
    | cons d u =>
      obtain ⟨rfl, -⟩ := List.cons.inj hu
      exact r.place_lt before u hc
  · rw [byteLength_append] at hlt
    omega

/-- A line that goes on at one place has the places behind it in order. -/
theorem lineColumn_lt {source before after : Text} {c : Char} {offset : Nat}
    (h : source = before ++ c :: after) (hc : c ≠ '\n') (hboundary : source.IsBoundary offset)
    (hlt : byteLength before < offset) :
    toLex (lineColumn source (byteLength before)) < toLex (lineColumn source offset) := by
  obtain ⟨before', after', h', rfl⟩ := hboundary
  have hplace := place_lt_of_byteLength_lt newlines (h.symm.trans h') (by simpa [newlines] using hc)
    hlt
  have hfirst := lineColumn_append before (c :: after)
  have hsecond := lineColumn_append before' after'
  rw [← h] at hfirst
  rw [← h'] at hsecond
  rw [hfirst, hsecond]
  exact toLex_fromOne_lt.2 hplace

/-! ## Whole stylesheets -/

/-- Line and column of a node. -/
def Node.place (node : Node) : Nat × Nat := (node.span.line, node.span.column)

/-- The lines and columns of nodes in a text whose line comments are blanked out as `t`. -/
structure RuledBy (source t : Text) (nodes : List Node) : Prop where
  /-- Line comments are placed by newlines and characters. -/
  comment : ∀ node ∈ allNodes nodes, node.lineComment? ≠ none →
    node.place = lineColumn source node.span.start
  /-- All other nodes are placed by the ruler of tokens. -/
  token : ∀ node ∈ allNodes nodes, node.lineComment? = none →
    node.place = fromOne (tokens.place (Cursor.takeBytes node.span.start t))
  /-- That is the place by newlines and characters exactly if both count alike before it. -/
  agrees : ∀ node ∈ allNodes nodes, node.lineComment? = none →
    (node.place = lineColumn source node.span.start ↔
      CountedAlike (Cursor.takeBytes node.span.start t))
  /-- Nodes that are no line comments have their places in order. -/
  ordered : ((allNodes nodes).filter (·.lineComment?.isNone)).Pairwise fun earlier later =>
    toLex earlier.place < toLex later.place
  /-- All nodes have, if the rulers agree at each of them. -/
  orderedAlike : (∀ node ∈ allNodes nodes, node.lineComment? = none →
      CountedAlike (Cursor.takeBytes node.span.start t)) →
    (allNodes nodes).Pairwise fun earlier later => toLex earlier.place < toLex later.place

/-- The line and column of a node that starts with a token. -/
theorem TokenAt.place_eq {t : Text} {node : Node} (h : TokenAt t node.span.first) :
    ∃ before c after, t = before ++ c :: after ∧ isSpacing c = false ∧
      node.span.start = byteLength before ∧ node.place = fromOne (tokens.place before) := by
  obtain ⟨before, c, after, htext, hc, hmark⟩ := h
  rw [Spot.advance_start] at hmark
  obtain ⟨hstart, hline, hcolumn⟩ := Mark.mk.inj hmark
  exact ⟨before, c, after, htext, hc, hstart, Prod.ext hline hcolumn⟩

/-- Nodes that start with tokens have their places in the order of their starts. -/
theorem TokenAt.place_lt {t : Text} {node node' : Node} (h : TokenAt t node.span.first)
    (h' : TokenAt t node'.span.first) (hlt : node.span.start < node'.span.start) :
    toLex node.place < toLex node'.place := by
  obtain ⟨before, c, after, htext, hc, hstart, hplace⟩ := h.place_eq
  obtain ⟨before', c', after', htext', -, hstart', hplace'⟩ := h'.place_eq
  rw [hplace, hplace', toLex_fromOne_lt]
  apply place_lt_of_byteLength_lt tokens (htext.symm.trans htext')
  · simp only [isSpacing, Bool.or_eq_false_iff] at hc
    simp [tokens, isBreak, hc]
  · rwa [← hstart, ← hstart']

section Nodes

variable {source : Text} {m : Masked} (hmasked : Masked.ofSource source = .ok m) {node : Node}

include hmasked

/-- Line comments are placed by newlines and characters. -/
theorem place_of_lineComment {c : Comment} (hline : node.lineComment? = some c)
    (hc : c ∈ m.comments) : node.place = lineColumn source node.span.start := by
  obtain ⟨before, body, after, rfl, -, -, rfl⟩ := Masked.exists_written hmasked hc
  unfold Node.place
  rw [Node.span_eq_of_lineComment? hline, List.append_assoc, Mark.to, Mark.advance_start,
    lineColumn_append]

/-- What both rulers say of a node that starts with a token. -/
theorem place_of_tokenAt (h : TokenAt m.text node.span.first) :
    node.place = fromOne (tokens.place (Cursor.takeBytes node.span.start m.text)) ∧
      lineColumn source node.span.start =
        fromOne (newlines.place (Cursor.takeBytes node.span.start m.text)) := by
  obtain ⟨before, c, after, htext, hc, hstart, hplace⟩ := h.place_eq
  have hbefore : Cursor.takeBytes node.span.start m.text = before := by
    rw [htext, hstart, takeBytes_append]
  rw [hbefore, hplace, hstart]
  refine ⟨rfl, Masked.lineColumn_eq hmasked htext ?_ ?_⟩ <;> rintro rfl <;> cases hc

/-- No node starts with a newline. -/
theorem exists_char_of_node (hstarts : node.StartsIn m.text)
    (hlisted : ∀ c ∈ node.lineComment?, c ∈ m.comments) : ∃ before c after,
      source = before ++ c :: after ∧ c ≠ '\n' ∧ node.span.start = byteLength before := by
  cases hline : node.lineComment? with
  | some c =>
    obtain ⟨before, body, after, hsource, -, -, rfl⟩ :=
      Masked.exists_written hmasked (hlisted c hline)
    refine ⟨before, '/', '/' :: body ++ after, by simp [hsource], by decide, ?_⟩
    rw [Node.span_eq_of_lineComment? hline, Mark.to, Mark.advance_start]
  | none =>
    obtain ⟨before, c, after, htext, hc, hstart, -⟩ := (hstarts hline).place_eq
    have hno : c ≠ ' ' ∧ c ≠ '\n' := by
      constructor <;> rintro rfl <;> cases hc
    rw [Masked.eq_of_ofSource hmasked] at htext
    obtain ⟨before', after', hsource, hlength⟩ := exists_text_of_masked htext hno.1
    rw [flatMap_pieces] at hsource
    exact ⟨before', c, after', hsource, hno.2, hstart.trans hlength.symm⟩

end Nodes

/-- Every stylesheet that is read places its line comments by newlines and characters and all other
nodes by the ruler of tokens. -/
theorem ruledBy_of_parse {source : Text} {nodes : List Node} (h : parse source = .ok nodes) :
    ∃ masked, Masked.ofSource source = .ok masked ∧ RuledBy source masked.text nodes := by
  obtain ⟨masked, hmasked, hlaid, hordered, -⟩ := parse_placed h
  have hpairs := List.pairwise_map.1 hordered
  have hlisted : ∀ node ∈ allNodes nodes, ∀ c ∈ node.lineComment?, c ∈ masked.comments :=
    fun node hnode => (hlaid.placed node (mem_allNodes_reverse.2 hnode)).listed
  have hstarts := startsIn_of_parse h hmasked
  have hcomment : ∀ node ∈ allNodes nodes, node.lineComment? ≠ none →
      node.place = lineColumn source node.span.start := by
    intro node hnode hline
    obtain ⟨c, hc⟩ := Option.ne_none_iff_exists'.1 hline
    exact place_of_lineComment hmasked hc (hlisted node hnode c hc)
  have hagrees : ∀ node ∈ allNodes nodes, node.lineComment? = none →
      (node.place = lineColumn source node.span.start ↔
        CountedAlike (Cursor.takeBytes node.span.start masked.text)) := by
    intro node hnode hline
    obtain ⟨hplace, hcolumn⟩ := place_of_tokenAt hmasked (hstarts node hnode hline)
    rw [hplace, hcolumn, fromOne_inj, place_tokens_eq_iff]
  refine ⟨masked, hmasked, hcomment, ?_, hagrees, ?_, ?_⟩
  · exact fun node hnode hline => (place_of_tokenAt hmasked (hstarts node hnode hline)).1
  · apply List.Pairwise.imp_of_mem _ (hpairs.filter _)
    intro earlier later hearlier hlater hlt
    obtain ⟨hmem, hnone⟩ := List.mem_filter.1 hearlier
    obtain ⟨hmem', hnone'⟩ := List.mem_filter.1 hlater
    exact (hstarts earlier hmem (Option.isNone_iff_eq_none.1 hnone)).place_lt
      (hstarts later hmem' (Option.isNone_iff_eq_none.1 hnone')) hlt
  · intro halike
    have hplace : ∀ node ∈ allNodes nodes, node.place = lineColumn source node.span.start := by
      intro node hnode
      by_cases hline : node.lineComment? = none
      · exact (hagrees node hnode hline).2 (halike node hnode hline)
      · exact hcomment node hnode hline
    apply List.Pairwise.imp_of_mem _ hpairs
    intro earlier later hearlier hlater hlt
    obtain ⟨before, c, after, hsource, hc, hstart⟩ :=
      exists_char_of_node hmasked (hstarts earlier hearlier) (hlisted earlier hearlier)
    obtain ⟨before', c', after', hsource', -, hstart'⟩ :=
      exists_char_of_node hmasked (hstarts later hlater) (hlisted later hlater)
    rw [hplace earlier hearlier, hplace later hlater, hstart]
    exact lineColumn_lt hsource hc ⟨before', c' :: after', hsource', hstart'.symm⟩ (hstart ▸ hlt)

/-- Behind a carriage return that stands alone, a rule is on the second line and the comment to
its right on the first. -/
theorem ruledBy_of_parse_loneReturn :
    ∃ source nodes masked, source = "\r.a\x7b\x7d // c".toList ∧ parse source = .ok nodes ∧
      Masked.ofSource source = .ok masked ∧ RuledBy source masked.text nodes ∧
      nodes.map Node.place = [(2, 1), (1, 7)] ∧
      nodes.map (fun node => lineColumn source node.span.start) = [(1, 2), (1, 7)] := by
  have hok : (parse "\r.a\x7b\x7d // c".toList).isOk = true := by decide +kernel
  have hplaces : ∀ nodes ∈ (parse "\r.a\x7b\x7d // c".toList).toOption,
      nodes.map Node.place = [(2, 1), (1, 7)] ∧
      nodes.map (fun node => lineColumn "\r.a\x7b\x7d // c".toList node.span.start) =
        [(1, 2), (1, 7)] := by
    decide +kernel
  obtain ⟨nodes, hparse⟩ := exists_of_isOk hok
  obtain ⟨masked, hmasked, hruled⟩ := ruledBy_of_parse hparse
  refine ⟨_, nodes, masked, rfl, hparse, hmasked, hruled, ?_⟩
  apply hplaces
  rw [hparse]
  rfl

end ClassHints.Sheet
