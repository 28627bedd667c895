import ClassHints.Proofs.Sheet.PreludeText

/-!
# The fields of nodes and the text of their spans

Every node of a stylesheet is cut out of one prelude of the blanked text, which starts where
the node starts and ends at its semicolon, at the brace that opens its block or at the end of
the block around it. The fields come from the text taken into that prelude, so that they agree
with its whole text exactly if the prelude does not end with a bracket group that holds more
than blanks and comments.
-/

namespace ClassHints.Sheet

open Text

/-- The text of lexemes. -/
abbrev textOf (ls : List Lexeme) : Text := ls.flatMap Lexeme.text

/-- The place where a span starts. -/
def Span.first (s : Span) : Mark := ⟨s.start, s.line, s.column⟩

namespace Node

/-- How the prelude of a node starts. -/
def head : Node → Head
  | .statement name _ _ | .block name _ _ _ => .atWord name
  | .declaration .. | .rule .. | .comment _ => .other

/-- Whether a node is a comment, which has no prelude. -/
def isComment : Node → Bool
  | .comment _ => true
  | _ => false

/-- The at word that a node starts with, in the text that the node was read from. -/
def atWordIn (t : Text) (node : Node) : List Lexeme :=
  match node.head with
  | .atWord _ => (lexemes (t.fromByte node.span.start)).take 1
  | .other => []

/-- The prelude of a node, in the text that the node was read from. -/
def preludeIn (t : Text) (node : Node) : Prelude :=
  (Prelude.empty node.head node.span.first).run
    ((lexemes (t.fromByte node.span.start)).drop (node.atWordIn t).length)

/-- The fields of a node are cut out of a text: a declaration at its first colon, all other
nodes by stripping comments. -/
def FieldsFrom (t : Text) : Node → Prop
  | .declaration property value _ =>
    ∃ before after, cutAt? ':' t = some (before, after) ∧ property = trim before ∧
      value = trim after
  | .statement _ params _ | .block _ params _ _ => params = trim (stripComments t)
  | .rule selector _ _ => selector = trim (stripComments t)
  | .comment _ => True

/-- The span of a node covers its prelude: with the semicolon that ends a statement, if one
does, and with the brace of a block and what follows it. -/
def SpanCovers (t : Text) (node : Node) : Prop :=
  let found := t.slice node.span.start node.span.stop
  let lead := textOf (node.atWordIn t) ++ (node.preludeIn t).whole
  match node with
  | .declaration .. | .statement .. => found = lead ++ [';'] ∨ found = lead
  | .block .. | .rule .. => ∃ body, found = lead ++ '{' :: body
  | .comment _ => True

/-- The text passed over directly before the end of a prelude adds nothing to the fields. -/
def PassedBlank (t : Text) (node : Node) : Prop :=
  let p := node.preludeIn t
  match node with
  | .declaration .. => AllBlank p.passedText
  | .statement .. | .block .. | .rule .. => AddsBlanks p.text p.whole
  | .comment _ => True

/-- Fields cut out of what was taken are the fields of the whole text exactly if the text
passed over adds nothing. -/
theorem fieldsFrom_whole_iff {t : Text} {node : Node}
    (hfields : node.FieldsFrom (node.preludeIn t).text)
    (hgroup : (node.preludeIn t).GroupAfterBracket) :
    node.FieldsFrom (node.preludeIn t).whole ↔ node.PassedBlank t := by
  cases node with
  | declaration property value span =>
    obtain ⟨before, after, hcut, rfl, rfl⟩ := hfields
    have hwhole := cutAt?_append_right hcut (Prelude.passedText
      (preludeIn t (.declaration (trim before) (trim after) span)))
    constructor
    · rintro ⟨before', after', hcut', -, hafter⟩
      obtain ⟨-, rfl⟩ := Prod.mk.inj (Option.some.inj (hwhole.symm.trans hcut'))
      exact trim_append_eq_iff.1 hafter.symm
    · intro hblank
      exact ⟨before, _, hwhole, rfl, (trim_append_right after hblank).symm⟩
  | statement name params span =>
    exact hgroup.eq_trim_iff hfields
  | block name params nodes span =>
    exact hgroup.eq_trim_iff hfields
  | rule selector nodes span =>
    exact hgroup.eq_trim_iff hfields
  | comment c => exact Iff.rfl

end Node

/-! ## Preludes and nodes among the lexemes -/

/-- The lexemes `ls`, which follow `before` and the at word `lead`, have been collected in a
prelude. -/
structure Prelude.At (p : Prelude) (before lead ls : List Lexeme) : Prop where
  start_eq : p.start.offset = byteLength (textOf before)
  length_lead : lead.length = match p.head with | .atWord _ => 1 | .other => 0
  reaches : (Prelude.empty p.head p.start).Reaches ls p
  whole_eq : p.whole = textOf ls
  group : p.GroupAfterBracket

/-- One more lexeme is collected. -/
theorem Prelude.At.next {p : Prelude} {before lead ls : List Lexeme} {lexeme : Lexeme}
    (h : p.At before lead ls) (hcontinues : p.ends lexeme = false) (hshaped : lexeme.Shaped) :
    (p.next lexeme).At before lead (ls ++ [lexeme]) where
  start_eq := by rw [start_next, h.start_eq]
  length_lead := by rw [head_next, h.length_lead]
  reaches := by
    rw [head_next, start_next]
    exact h.reaches.next hcontinues
  whole_eq := by simp [whole_next, h.whole_eq]
  group := h.group.next hshaped

/-- A prelude begins with no lexemes, behind its at word if it has one. -/
theorem Prelude.at_empty {head : Head} {start : Mark} {before lead : List Lexeme}
    (hstart : start.offset = byteLength (textOf before))
    (hlead : lead.length = match head with | .atWord _ => 1 | .other => 0) :
    (Prelude.empty head start).At before lead [] where
  start_eq := hstart
  length_lead := hlead
  reaches := fun _ => rfl
  whole_eq := rfl
  group := by
    rintro (h | h)
    · exact absurd rfl h
    · exact absurd rfl h

/-- A node ends with the lexemes `more` behind its prelude: a semicolon or nothing for a
statement, a block with its opening brace otherwise. -/
def Node.EndsWith (more : List Lexeme) : Node → Prop
  | .declaration .. | .statement .. => more = [] ∨ textOf more = [';']
  | .block .. | .rule .. => ∃ body, textOf more = '{' :: body
  | .comment _ => True

/-- A node is cut out of a prelude among all lexemes, and its span runs from the first lexeme
of the prelude to the last lexeme of `more`. -/
structure Node.CutOut (node : Node) (p : Prelude) (before lead ls more rest : List Lexeme) :
    Prop where
  collected : p.At before lead ls
  stops : p.Stops (more ++ rest)
  head_eq : node.head = p.head
  first_eq : node.span.first = p.start
  fields : node.FieldsFrom p.text
  stop_eq : node.span.stop = byteLength (textOf (before ++ lead ++ ls ++ more))
  endsWith : node.EndsWith more

/-- A node is a comment or cut out of a prelude among the lexemes `all`. -/
def Node.Good (all : List Lexeme) (node : Node) : Prop :=
  node.isComment = true ∨ ∃ p before lead ls more rest,
    all = before ++ lead ++ ls ++ more ++ rest ∧ node.CutOut p before lead ls more rest

/-- A prelude that ends as a statement gives a good node, if any. -/
theorem Prelude.At.statement?_good {p : Prelude} {all before lead ls more rest : List Lexeme}
    {stop : Mark} (h : p.At before lead ls) (hall : all = before ++ lead ++ ls ++ more ++ rest)
    (hstops : p.Stops (more ++ rest)) (hmore : more = [] ∨ textOf more = [';'])
    (hstop : stop.offset = byteLength (textOf (before ++ lead ++ ls ++ more))) :
    ∀ node ∈ p.statement? stop, node.Good all := by
  intro node hnode
  refine Or.inr ⟨p, before, lead, ls, more, rest, hall, ?_⟩
  unfold statement? at hnode
  split at hnode
  · next name hhead =>
    obtain rfl := Option.some.inj hnode
    exact ⟨h, hstops, hhead.symm, rfl, rfl, hstop, hmore⟩
  · next hhead =>
    split at hnode
    · cases hnode
    · next property value hcut =>
      split at hnode
      · cases hnode
      · obtain rfl := Option.some.inj hnode
        exact ⟨h, hstops, hhead.symm, rfl, ⟨property, value, hcut, rfl, rfl⟩, hstop, hmore⟩

/-- A statement runs from the start of its prelude to its end and has no nodes in it. -/
theorem Prelude.of_statement?_eq_some {p : Prelude} {stop : Mark} {node : Node}
    (h : p.statement? stop = some node) :
    node.span = p.start.to stop ∧ node.children = [] ∧ node.isComment = false := by
  unfold statement? at h
  split at h
  · obtain rfl := Option.some.inj h
    exact ⟨rfl, rfl, rfl⟩
  · split at h
    · cases h
    · split at h
      · cases h
      · obtain rfl := Option.some.inj h
        exact ⟨rfl, rfl, rfl⟩

/-- A block is open: its prelude has been collected, and `done` goes on with its brace. -/
structure Frame.OpenedBy (f : Frame) (p : Prelude) (before lead ls : List Lexeme)
    (brace : Lexeme) : Prop where
  collected : p.At before lead ls
  ended : p.ends brace = true
  text_eq : brace.text = ['{']
  head_eq : f.head = p.head
  start_eq : f.start = p.start
  prelude_eq : f.prelude = trim (stripComments p.text)

/-- The prelude of an open block is among the lexemes read, and the nodes before it are
good. -/
structure Frame.Good (all done : List Lexeme) (f : Frame) : Prop where
  opened : ∃ p before lead ls brace more, done = before ++ lead ++ ls ++ brace :: more ∧
    f.OpenedBy p before lead ls brace
  before_good : ∀ node ∈ allNodes f.before, node.Good all

/-- An open block stays good when one more lexeme is read. -/
theorem Frame.Good.snoc {all done : List Lexeme} {f : Frame} (h : f.Good all done)
    (lexeme : Lexeme) : f.Good all (done ++ [lexeme]) where
  opened := by
    obtain ⟨p, before, lead, ls, brace, more, rfl, hopened⟩ := h.opened
    exact ⟨p, before, lead, ls, brace, more ++ [lexeme], by simp, hopened⟩
  before_good := h.before_good

/-- A block that is closed is cut out of the prelude before its brace. -/
theorem Frame.OpenedBy.cutOut {f : Frame} {p : Prelude} {before lead ls more : List Lexeme}
    {brace : Lexeme} {stop : Mark} (h : f.OpenedBy p before lead ls brace)
    (hstop : stop.offset = byteLength (textOf (before ++ lead ++ ls ++ brace :: more)))
    (nodes : List Node) (rest : List Lexeme) :
    (f.node nodes stop).CutOut p before lead ls (brace :: more) rest := by
  have hstops : p.Stops (brace :: more ++ rest) := by
    intro lexeme hlexeme
    obtain rfl := Option.some.inj hlexeme
    exact h.ended
  have hbody : ∃ body, textOf (brace :: more) = '{' :: body :=
    ⟨textOf more, by simp [h.text_eq]⟩
  unfold Frame.node
  split
  · next name hhead =>
    exact ⟨h.collected, hstops, hhead.symm.trans h.head_eq, by rw [← h.start_eq]; rfl,
      h.prelude_eq, hstop, hbody⟩
  · next hhead =>
    exact ⟨h.collected, hstops, hhead.symm.trans h.head_eq, by rw [← h.start_eq]; rfl,
      h.prelude_eq, hstop, hbody⟩

/-- A block that is closed behind the lexemes `done` is a good node. -/
theorem Frame.Good.node_good {all done rest : List Lexeme} {f : Frame} {stop : Mark}
    (h : f.Good all done) (hall : all = done ++ rest)
    (hstop : stop.offset = byteLength (textOf done)) (nodes : List Node) :
    (f.node nodes stop).Good all := by
  obtain ⟨p, before, lead, ls, brace, more, rfl, hopened⟩ := h.opened
  exact Or.inr ⟨p, before, lead, ls, brace :: more, rest, hall, hopened.cutOut hstop nodes rest⟩

/-- The nodes inside a block that is closed are the nodes read in it. -/
@[simp]
theorem Frame.children_node (f : Frame) (nodes : List Node) (stop : Mark) :
    (f.node nodes stop).children = nodes.reverse := by
  unfold Frame.node
  split <;> rfl

/-! ## What the reader keeps -/

/-- After the lexemes `done` the reader stands behind them, its nodes are good, and what it
collects is among them. -/
structure Reader.Tracks (all done : List Lexeme) (r : Reader) : Prop where
  offset_eq : r.spot.mark.offset = byteLength (textOf done)
  nodes_good : ∀ node ∈ allNodes r.nodes, node.Good all
  frames_good : ∀ f ∈ r.frames, f.Good all done
  prelude_at : ∀ p ∈ r.prelude, ∃ before lead ls, done = before ++ lead ++ ls ∧
    p.At before lead ls

namespace Reader

section Nodes

variable {P : Node → Prop} {r : Reader}

/-- What holds of the comments that wait and of the nodes so far holds once comments find their
place. -/
theorem forall_flush (hcomment : ∀ c ∈ r.waiting, P (.comment c))
    (h : ∀ node ∈ allNodes r.nodes, P node) (offset : Nat) :
    ∀ node ∈ allNodes (r.flush offset).nodes, P node := by
  have hcomments (cs : List Comment) (hcs : ∀ c ∈ cs, P (.comment c)) :
      ∀ node ∈ allNodes (cs.map Node.comment), P node := by
    induction cs with
    | nil => simp
    | cons c cs ih =>
      obtain ⟨hc, hrest⟩ := List.forall_mem_cons.1 hcs
      intro node hnode
      rw [List.map_cons, allNodes_cons, Node.children, allNodes_nil] at hnode
      rcases List.mem_cons.1 hnode with rfl | hnode
      · exact hc
      · exact ih hrest node hnode
  intro node hnode
  rw [flush, allNodes_append, List.mem_append, mem_allNodes_reverse] at hnode
  rcases hnode with hnode | hnode
  · exact hcomments _ (fun c hc => hcomment c ((List.takeWhile_sublist _).subset hc)) node hnode
  · exact h node hnode

/-- A block that is closed joins the nodes before it. -/
theorem forall_closeBlock (hcomment : ∀ c ∈ r.waiting, P (.comment c))
    (h : ∀ node ∈ allNodes r.nodes, P node) {f : Frame}
    (hbefore : ∀ node ∈ allNodes f.before, P node) (outer : List Frame) (here : Mark)
    {stop : Mark} (hblock : ∀ nodes, P (f.node nodes stop)) :
    ∀ node ∈ allNodes (r.closeBlock f outer here stop).nodes, P node := by
  intro node hnode
  rw [closeBlock, allNodes_cons, List.cons_append, List.mem_cons, List.mem_append,
    Frame.children_node, mem_allNodes_reverse] at hnode
  rcases hnode with rfl | hnode | hnode
  · exact hblock _
  · exact forall_flush hcomment h _ node hnode
  · exact hbefore node hnode

/-- A prelude that ends as a statement joins the nodes before it. -/
theorem forall_endStatement (h : ∀ node ∈ allNodes r.nodes, P node) {p : Prelude} {stop : Mark}
    (hstatement : ∀ node ∈ p.statement? stop, P node) :
    ∀ node ∈ allNodes (r.endStatement p stop).nodes, P node := by
  intro node hnode
  rw [endStatement] at hnode
  cases hs : p.statement? stop with
  | none =>
    rw [hs] at hnode
    exact h node hnode
  | some statement =>
    have hchildren : allNodes statement.children = [] := by
      rw [(p.of_statement?_eq_some hs).2.1, allNodes_nil]
    rw [hs, Option.toList_some, List.singleton_append, allNodes_cons, hchildren,
      List.singleton_append] at hnode
    rcases List.mem_cons.1 hnode with rfl | hnode
    · exact hstatement node hs
    · exact h node hnode

end Nodes

/-- Line comments that find their place are good nodes. -/
theorem flush_good {all : List Lexeme} {r : Reader} (h : ∀ node ∈ allNodes r.nodes, node.Good all)
    (offset : Nat) : ∀ node ∈ allNodes (r.flush offset).nodes, node.Good all :=
  forall_flush (fun _ _ => Or.inl rfl) h offset

/-- A block that is closed behind the lexemes `done` is a good node. -/
theorem closeBlock_good {all done rest : List Lexeme} {r : Reader} {f : Frame}
    (hnodes : ∀ node ∈ allNodes r.nodes, node.Good all) (hframe : f.Good all done)
    (hall : all = done ++ rest) (outer : List Frame) (here : Mark) {stop : Mark}
    (hstop : stop.offset = byteLength (textOf done)) :
    ∀ node ∈ allNodes (r.closeBlock f outer here stop).nodes, node.Good all :=
  forall_closeBlock (fun _ _ => Or.inl rfl) hnodes hframe.before_good outer here
    fun nodes => hframe.node_good hall hstop nodes

/-- A lexeme that starts a prelude does not end it. -/
theorem ends_empty {lexeme : Lexeme} (h : lexeme.token.startsPrelude = true) (head : Head)
    (start : Mark) : (Prelude.empty head start).ends lexeme = false := by
  unfold Token.startsPrelude at h
  unfold Prelude.ends Token.endsPrelude
  split at h <;> simp_all [Prelude.empty]

/-- Every step keeps track. -/
theorem Tracks.step {all done rest : List Lexeme} {lexeme : Lexeme} {r r' : Reader}
    (hall : all = done ++ lexeme :: rest) (hshaped : lexeme.Shaped) (h : r.Tracks all done)
    (hstep : r.Step lexeme r') : r'.Tracks all (done ++ [lexeme]) := by
  have hsnoc : all = (done ++ [lexeme]) ++ rest := by simp [hall]
  have hoffset : (r.spot.advance lexeme.text).mark.offset = byteLength (textOf (done ++ [lexeme])) := by
    simp [h.offset_eq]
  have hframes : ∀ f ∈ r.frames, f.Good all (done ++ [lexeme]) := fun f hf =>
    (h.frames_good f hf).snoc lexeme
  have hsettled : ∀ node ∈ allNodes r.settled.nodes, node.Good all := flush_good h.nodes_good _
  cases hstep with
  | skip hidle htoken =>
    exact ⟨hoffset, h.nodes_good, hframes, by simp [hidle]⟩
  | comment hidle text htoken =>
    refine ⟨hoffset, ?_, hframes, by simp [hidle, settled, push, flush]⟩
    intro node hnode
    rw [nodes_moved, push, allNodes_cons, Node.children, allNodes_nil] at hnode
    rcases List.mem_cons.1 hnode with rfl | hnode
    · exact Or.inl rfl
    · exact hsettled node hnode
  | atWord hidle name htoken =>
    refine ⟨hoffset, hsettled, hframes, ?_⟩
    intro p hp
    obtain rfl := Option.some.inj hp
    exact ⟨done, [lexeme], [], by simp, Prelude.at_empty h.offset_eq rfl⟩
  | start hidle htoken =>
    refine ⟨hoffset, hsettled, hframes, ?_⟩
    intro p hp
    obtain rfl := Option.some.inj hp
    have hempty : (Prelude.empty .other r.spot.mark).At done [] [] :=
      Prelude.at_empty h.offset_eq rfl
    exact ⟨done, [], [lexeme], by simp, hempty.next (ends_empty htoken _ _) hshaped⟩
  | close hidle htoken f outer heq =>
    rw [heq] at hframes
    refine ⟨hoffset, ?_, ?_, by simp [hidle, closeBlock, flush]⟩
    · exact closeBlock_good h.nodes_good (hframes f (by simp)) hsnoc outer _ hoffset
    · exact fun g hg => hframes g (List.mem_cons_of_mem f hg)
  | proceed p hprelude hcontinues =>
    refine ⟨hoffset, h.nodes_good, hframes, ?_⟩
    intro q hq
    obtain rfl := Option.some.inj hq
    obtain ⟨before, lead, ls, rfl, hat⟩ := h.prelude_at p hprelude
    exact ⟨before, lead, ls ++ [lexeme], by simp, hat.next hcontinues hshaped⟩
  | finish p hprelude hended htoken =>
    obtain ⟨before, lead, ls, rfl, hat⟩ := h.prelude_at p hprelude
    -- the statement is cut out with its semicolon, which ends the prelude
    have hstops : p.Stops ([lexeme] ++ rest) := by
      intro l hl
      obtain rfl := Option.some.inj hl
      exact hended
    have hmore : textOf [lexeme] = [';'] := by simp [hshaped.semicolon htoken]
    refine ⟨hoffset, ?_, hframes, by simp [endStatement]⟩
    exact forall_endStatement h.nodes_good
      (hat.statement?_good hsnoc hstops (Or.inr hmore) hoffset)
  | enter p hprelude hended htoken =>
    refine ⟨hoffset, by simp [openBlock], ?_, by simp [openBlock]⟩
    intro f hf
    rw [frames_moved, openBlock] at hf
    rcases List.mem_cons.1 hf with rfl | hf
    · obtain ⟨before, lead, ls, rfl, hat⟩ := h.prelude_at p hprelude
      refine ⟨⟨p, before, lead, ls, lexeme, [], rfl, ?_⟩, h.nodes_good⟩
      exact ⟨hat, hended, hshaped.brace htoken, rfl, rfl, rfl⟩
    · exact hframes f hf
  | leave p hprelude hended htoken f outer heq =>
    obtain ⟨before, lead, ls, rfl, hat⟩ := h.prelude_at p hprelude
    have hstops : p.Stops ([] ++ lexeme :: rest) := by
      intro l hl
      obtain rfl := Option.some.inj hl
      exact hended
    have hnodes : ∀ node ∈ allNodes (r.endStatement p r.spot.mark).nodes, node.Good all :=
      forall_endStatement h.nodes_good (hat.statement?_good (by simp [hall]) hstops (Or.inl rfl)
        (by simp [h.offset_eq]))
    rw [heq] at hframes
    refine ⟨hoffset, ?_, ?_, by simp [closeBlock, flush, endStatement]⟩
    · exact closeBlock_good hnodes (hframes f (by simp)) hsnoc outer _ hoffset
    · exact fun g hg => hframes g (List.mem_cons_of_mem f hg)

/-- The blocks that are open at the end of the text are closed there. -/
theorem closeAll_good {all : List Lexeme} {r : Reader} {frames : List Frame}
    (hoffset : r.spot.mark.offset = byteLength (textOf all))
    (hnodes : ∀ node ∈ allNodes r.nodes, node.Good all)
    (hframes : ∀ f ∈ frames, f.Good all all) :
    ∀ node ∈ allNodes (r.closeAll frames), node.Good all := by
  induction frames generalizing r with
  | nil =>
    intro node hnode
    rw [closeAll, mem_allNodes_reverse] at hnode
    exact flush_good hnodes _ node hnode
  | cons f outer ih =>
    rw [closeAll]
    refine ih hoffset ?_ fun g hg => hframes g (List.mem_cons_of_mem f hg)
    exact closeBlock_good hnodes (hframes f (by simp)) (List.append_nil all).symm outer _ hoffset

/-- At the end of the text all nodes are good. -/
theorem Tracks.finish_good {all : List Lexeme} {r : Reader} (h : r.Tracks all all) :
    ∀ node ∈ allNodes r.finish, node.Good all := by
  unfold finish
  split
  · exact closeAll_good h.offset_eq h.nodes_good h.frames_good
  · next p hprelude =>
    obtain ⟨before, lead, ls, hall, hat⟩ := h.prelude_at p hprelude
    have hstops : p.Stops ([] ++ []) := by
      intro l hl
      cases hl
    refine closeAll_good (r := r.endStatement p r.spot.mark) h.offset_eq ?_ h.frames_good
    exact forall_endStatement h.nodes_good (hat.statement?_good (by simp [← hall]) hstops
      (Or.inl rfl) (by simp [h.offset_eq, hall]))

end Reader

/-- A stylesheet that is read has been blanked out, and all its lexemes have been read. -/
theorem exists_read_of_parse {source : Text} {nodes : List Node} (h : parse source = .ok nodes) :
    ∃ masked r, Masked.ofSource source = .ok masked ∧
      (lexemes masked.text).foldlM Reader.step (Reader.start masked.comments) = .ok r ∧
      nodes = r.finish := by
  obtain ⟨masked, hmasked, hrest⟩ := exists_of_bind_eq_ok h
  obtain ⟨r, hread, hfinish⟩ := exists_of_bind_eq_ok hrest
  exact ⟨masked, r, hmasked, hread, (Except.ok.inj hfinish).symm⟩

/-- Every node of a stylesheet that is read is a comment or cut out of a prelude. -/
theorem parse_good {source : Text} {nodes : List Node} (h : parse source = .ok nodes) :
    ∃ masked, Masked.ofSource source = .ok masked ∧
      ∀ node ∈ allNodes nodes, node.Good (lexemes masked.text) := by
  obtain ⟨masked, r, hmasked, hread, rfl⟩ := exists_read_of_parse h
  have hstart : (Reader.start masked.comments).Tracks (lexemes masked.text) [] :=
    ⟨rfl, by simp [Reader.start], by simp [Reader.start], by simp [Reader.start]⟩
  refine ⟨masked, hmasked, Reader.Tracks.finish_good (Reader.read_induction hstart ?_ hread)⟩
  intro done lexeme rest r₁ r₂ hall htracks hstep
  have hshaped : lexeme.Shaped := shaped_of_mem_lexemes (t := masked.text) (by simp [hall])
  exact htracks.step hall hshaped hstep

/-! ## Nodes in the text -/

namespace Node.CutOut

variable {t : Text} {node : Node} {p : Prelude} {before lead ls more rest : List Lexeme}

/-- A node starts where the lexemes before it end. -/
theorem start_eq (h : node.CutOut p before lead ls more rest) :
    node.span.start = byteLength (textOf before) := by
  rw [← h.collected.start_eq, ← h.first_eq]
  rfl

/-- From the start of a node on, the text has the lexemes of the node and what follows. -/
theorem lexemes_fromByte (h : node.CutOut p before lead ls more rest)
    (hall : lexemes t = before ++ lead ++ ls ++ more ++ rest) :
    lexemes (t.fromByte node.span.start) = lead ++ (ls ++ (more ++ rest)) := by
  have hsplit : lexemes t = before ++ (lead ++ (ls ++ (more ++ rest))) := by
    rw [hall]
    simp only [List.append_assoc]
  have htext : t = textOf before ++ textOf (lead ++ (ls ++ (more ++ rest))) := by
    rw [← List.flatMap_append, ← hsplit, flatMap_lexemes]
  have hfrom : t.fromByte node.span.start = textOf (lead ++ (ls ++ (more ++ rest))) := by
    rw [h.start_eq, htext]
    exact fromByte_append _ _
  rw [hfrom]
  exact lexemes_of_append hsplit

/-- The at word of a node is the one that its prelude was led by. -/
theorem atWordIn_eq (h : node.CutOut p before lead ls more rest)
    (hall : lexemes t = before ++ lead ++ ls ++ more ++ rest) : node.atWordIn t = lead := by
  have hlength := h.collected.length_lead
  unfold atWordIn
  rw [h.lexemes_fromByte hall, h.head_eq]
  cases hhead : p.head with
  | atWord name =>
    rw [hhead] at hlength
    exact List.take_left' hlength
  | other =>
    rw [hhead] at hlength
    exact (List.length_eq_zero_iff.1 hlength).symm

/-- The prelude found in the text is the prelude that the node was cut out of. -/
theorem preludeIn_eq (h : node.CutOut p before lead ls more rest)
    (hall : lexemes t = before ++ lead ++ ls ++ more ++ rest) : node.preludeIn t = p := by
  unfold preludeIn
  rw [h.atWordIn_eq hall, h.lexemes_fromByte hall, List.drop_left, h.head_eq, h.first_eq,
    h.collected.reaches, h.stops.run_eq]

/-- The span of a node that is cut out covers its prelude. -/
theorem spanCovers (h : node.CutOut p before lead ls more rest)
    (hall : lexemes t = before ++ lead ++ ls ++ more ++ rest) : node.SpanCovers t := by
  have hstop : node.span.stop =
      byteLength (textOf before) + byteLength (textOf (lead ++ ls ++ more)) := by
    rw [h.stop_eq]
    simp only [List.flatMap_append, byteLength_append, Nat.add_assoc]
  have htext : t = textOf before ++ textOf (lead ++ ls ++ more) ++ textOf rest := by
    rw [← List.flatMap_append, ← List.flatMap_append, ← List.append_assoc, ← List.append_assoc,
      ← hall, flatMap_lexemes]
  have hfound : t.slice node.span.start node.span.stop =
      textOf lead ++ p.whole ++ textOf more := by
    rw [h.start_eq, hstop, htext, slice_append, h.collected.whole_eq]
    simp only [List.flatMap_append]
  have hends := h.endsWith
  unfold SpanCovers
  rw [hfound, h.atWordIn_eq hall, h.preludeIn_eq hall]
  cases node with
  | declaration property value span | statement name params span =>
    rcases hends with rfl | hmore
    · exact Or.inr (List.append_nil _)
    · exact Or.inl (by rw [hmore])
  | block name params nodes span | rule selector nodes span =>
    obtain ⟨body, hbody⟩ := hends
    exact ⟨body, by rw [hbody]⟩
  | comment c => trivial

end Node.CutOut

/-- Every node at any depth is cut out of the prelude that its span starts with. Its fields are
the fields of the whole prelude exactly if the bracket group directly before the end of the
prelude, which only an opening bracket can leave behind, adds nothing but blanks. -/
theorem fieldsFrom_preludeIn_of_parse {source : Text} {nodes : List Node}
    (h : parse source = .ok nodes) :
    ∃ masked, Masked.ofSource source = .ok masked ∧
      ∀ node ∈ allNodes nodes, node.isComment = false →
        node.SpanCovers masked.text ∧
        node.FieldsFrom (node.preludeIn masked.text).text ∧
        (node.FieldsFrom (node.preludeIn masked.text).whole ↔ node.PassedBlank masked.text) ∧
        (node.preludeIn masked.text).GroupAfterBracket := by
  obtain ⟨masked, hmasked, hgood⟩ := parse_good h
  refine ⟨masked, hmasked, fun node hnode hcomment => ?_⟩
  rcases hgood node hnode with hc | ⟨p, before, lead, ls, more, rest, hall, hcut⟩
  · rw [hc] at hcomment
    cases hcomment
  · have hprelude := hcut.preludeIn_eq hall
    have hfields : node.FieldsFrom (node.preludeIn masked.text).text := by
      rw [hprelude]
      exact hcut.fields
    have hgroup : (node.preludeIn masked.text).GroupAfterBracket := by
      rw [hprelude]
      exact hcut.collected.group
    exact ⟨hcut.spanCovers hall, hfields, Node.fieldsFrom_whole_iff hfields hgroup, hgroup⟩

/-- A function call directly before the semicolon loses its arguments. -/
theorem fieldsFrom_preludeIn_of_parse_call :
    ∃ node : Node, node = .declaration "$a".toList "fn(".toList ⟨0, 10, 1, 1⟩ ∧
      parse "$a: fn(x);".toList = .ok [node] ∧
      ∃ masked, Masked.ofSource "$a: fn(x);".toList = .ok masked ∧
        node.SpanCovers masked.text ∧ ¬node.FieldsFrom (node.preludeIn masked.text).whole := by
  refine ⟨.declaration "$a".toList "fn(".toList ⟨0, 10, 1, 1⟩, rfl, ?_⟩
  have hparse : parse "$a: fn(x);".toList =
      .ok [.declaration "$a".toList "fn(".toList ⟨0, 10, 1, 1⟩] := by rfl
  have htext : Masked.ofSource "$a: fn(x);".toList = .ok ⟨"$a: fn(x);".toList, []⟩ := by rfl
  have hpassed : ((Node.declaration "$a".toList "fn(".toList ⟨0, 10, 1, 1⟩).preludeIn
      "$a: fn(x);".toList).passedText = ['x', ')'] := by decide +kernel
  refine ⟨hparse, ?_⟩
  obtain ⟨masked, hmasked, hnodes⟩ := fieldsFrom_preludeIn_of_parse hparse
  obtain ⟨hspan, -, hiff, -⟩ := hnodes _ (by rw [allNodes_cons]; exact List.mem_cons_self) rfl
  refine ⟨masked, hmasked, hspan, fun hfields => ?_⟩
  rw [htext] at hmasked
  obtain rfl := Except.ok.inj hmasked
  have hblank := hiff.1 hfields
  rw [Node.PassedBlank, hpassed] at hblank
  exact absurd (hblank 'x' (by simp)) (by decide)

end ClassHints.Sheet
