import ClassHints.Proofs.Sheet.PrintedPieces
import ClassHints.Proofs.Sheet.Reading

/-!
# Reading the parts of a printed stylesheet

A printed statement, block or comment adds one node to the block that the reader is in. What is
said of the reader ties three things together: where it stands, which line comments wait for
their place, and the nodes of the innermost open block with the comments before the reader
placed among them.
-/

namespace ClassHints.Sheet

open Text

/-! ## What a statement and a block make of a printed lead -/

/-- A safe text has no blanks at its ends. -/
theorem trim_of_isSafe {t : Text} (h : isSafe t = true) : trim t = t := by
  simp only [isSafe, Bool.and_eq_true, beq_iff_eq] at h
  exact h.1.2

/-- Nor has a text that is safe or empty. -/
theorem trim_of_isSafeOrEmpty {t : Text} (h : isSafeOrEmpty t = true) : trim t = t := by
  rcases Bool.or_eq_true_iff.1 h with h | h
  · rw [List.isEmpty_iff.1 h]
    rfl
  · exact trim_of_isSafe h

/-- Safe text holds no slash, and so no comment. -/
theorem SafeRun.slash_not_mem {t : Text} (h : SafeRun t) : '/' ∉ t := by
  intro hmem
  have hsafe := h '/' hmem
  revert hsafe
  decide

/-- A safe text is found again between blanks. -/
theorem trim_stripComments_safe {t : Text} (h : SafeRun t) (htrim : trim t = t) {b e : Text}
    (hb : AllBlank b) (hbs : SafeRun b) (he : AllBlank e) (hes : SafeRun e) :
    trim (stripComments (b ++ t ++ e)) = t := by
  rw [stripComments_eq_self ((hbs.append h).append hes).slash_not_mem, trim_append_right _ he,
    trim_append_left hb, htrim]

/-- A prelude that holds a declaration, with the first colon between its parts, gives the
declaration. -/
theorem statement?_declaration {p : Prelude} {start stop : Mark} {property value : Text}
    (h : p.Holds .other start (declarationText property value)) (hp : isSafe property = true)
    (hcolon : ':' ∉ property) (hv : isSafeOrEmpty value = true) :
    p.statement? stop = some (.declaration property value (start.to stop)) := by
  have hcut : cutAt? ':' p.text = some (property, ' ' :: value) := by
    rw [h.text_eq]
    exact cutAt?_append hcolon _
  have hne : property.isEmpty = false := by
    simp only [isSafe, Bool.and_eq_true, Bool.not_eq_true'] at hp
    exact hp.1.1
  have hvalue : trim (' ' :: value) = value := by
    rw [← List.singleton_append, trim_append_left (allBlank_singleton (by decide)),
      trim_of_isSafeOrEmpty hv]
  simp [Prelude.statement?, h.head_eq, hcut, trim_of_isSafe hp, hne, hvalue, h.start_eq]

/-- A prelude that holds an at-rule gives the at-rule. -/
theorem statement?_atRule {p : Prelude} {start stop : Mark} {name params : Text}
    (h : p.Holds (.atWord name) start (' ' :: params)) (hp : isSafeOrEmpty params = true) :
    p.statement? stop = some (.statement name params (start.to stop)) := by
  have hparams := trim_stripComments_safe (safeRun_of_isSafeOrEmpty hp) (trim_of_isSafeOrEmpty hp)
    (b := [' ']) (e := []) (allBlank_singleton (by decide)) (safeRun_singleton (by decide))
    (fun c hc => absurd hc List.not_mem_nil) (fun c hc => absurd hc List.not_mem_nil)
  rw [List.append_nil, List.singleton_append] at hparams
  simp [Prelude.statement?, h.head_eq, h.text_eq, hparams, h.start_eq]

/-- A prelude whose text ends with a blank does not stand after a number sign. -/
theorem Prelude.Holds.afterSharp_eq {p : Prelude} {head : Head} {start : Mark} {t : Text}
    (h : p.Holds head start (t ++ [' '])) : p.afterSharp = false := by
  by_contra hsharp
  have hlast := h.sharp (by simpa using hsharp)
  simp at hlast

/-! ## The reader before and after printed nodes -/

/-- The reader `r'` stands after a text of `size` bytes that adds `nodes` to the innermost
block of `r`, and only the comments `later` wait for a place behind it. -/
structure Reader.Adds (r r' : Reader) (size : Nat) (nodes : List Node) (later : List Comment) :
    Prop where
  idle : r'.prelude = none
  frames_eq : r'.frames = r.frames
  offset_eq : r'.spot.mark.offset = r.spot.mark.offset + size
  waiting_eq : r'.settled.waiting = later
  nodes_eq : unplacedAll r'.settled.nodes =
    (unplacedAll nodes).reverse ++ unplacedAll r.settled.nodes

/-- What adds some nodes and then others adds both. -/
theorem Reader.Adds.trans {r r' r'' : Reader} {m n : Nat} {nodes nodes' : List Node}
    {later later' : List Comment} (h : r.Adds r' m nodes later)
    (h' : r'.Adds r'' n nodes' later') : r.Adds r'' (m + n) (nodes ++ nodes') later' where
  idle := h'.idle
  frames_eq := h'.frames_eq.trans h.frames_eq
  offset_eq := by rw [h'.offset_eq, h.offset_eq, Nat.add_assoc]
  waiting_eq := h'.waiting_eq
  nodes_eq := by
    rw [h'.nodes_eq, h.nodes_eq]
    simp [unplacedAll_eq_map]

/-- A node that is pushed after all comments before it were placed, when those that wait start
behind it. -/
theorem Reader.adds_of_push {r r' : Reader} {node node' : Node} {size : Nat}
    {later : List Comment} (hidle : r'.prelude = none) (hframes : r'.frames = r.frames)
    (hoffset : r'.spot.mark.offset = r.spot.mark.offset + size) (hwaiting : r'.waiting = later)
    (hlater : ∀ c ∈ later, r.spot.mark.offset + size ≤ c.span.start)
    (hnodes : r'.nodes = node' :: r.settled.nodes) (hnode : node'.unplaced = node.unplaced) :
    r.Adds r' size [node] later := by
  have hsettled : r'.settled = r' := by
    apply flush_eq_self
    rw [hwaiting, hoffset]
    exact hlater
  refine ⟨hidle, hframes, hoffset, by rw [hsettled, hwaiting], ?_⟩
  rw [hsettled, hnodes]
  simp [unplacedAll, hnode]

namespace Reader

/-- Reading a text adds nodes to the innermost block, whatever is read after it. -/
def ReadsAs (r : Reader) (t : Text) (nodes : List Node) (later : List Comment) : Prop :=
  ∀ rest, ∃ r', r.read (t ++ rest) = r'.read rest ∧ r.Adds r' (byteLength t) nodes later

/-- Reading a lead, up to the character that ends a prelude, leaves a prelude that has taken
`taken`, with the comments before the lead placed. -/
def LeadsTo (r : Reader) (lead : Text) (head : Head) (taken : Text) : Prop :=
  ∀ d t, EndsPrelude d → ∃ p, Prelude.Holds p head r.spot.mark taken ∧
    r.read (lead ++ d :: t) = ({ r.settled with prelude := some p }.moved lead).read (d :: t)

/-- A lead of safe characters that starts with no blank is taken as it is. -/
theorem leadsTo_other {r : Reader} (hidle : r.prelude = none) {lead : Text} (hs : SafeRun lead)
    {c : Char} (hhead : lead.head? = some c) (hc : isSpacing c = false) :
    r.LeadsTo lead .other lead := by
  obtain ⟨s, rfl⟩ : ∃ s, lead = c :: s := by
    cases lead with
    | nil => simp at hhead
    | cons b s => exact ⟨s, by simpa using hhead⟩
  intro d t hd
  exact read_safe_start hidle hc hs hd t

/-- The lead of an at-rule is taken without its name. -/
theorem leadsTo_atRule {r : Reader} (hidle : r.prelude = none) {name params : Text}
    (hn : isAtName name = true) (hp : SafeRun params) :
    r.LeadsTo (atRuleText name params) (.atWord name) (' ' :: params) := by
  cases name with
  | nil => simp [isAtName] at hn
  | cons c name =>
    simp only [isAtName, Bool.and_eq_true] at hn
    intro d t hd
    have hempty : Prelude.Holds ⟨.atWord (c :: name), r.spot.mark, [], [], [], false⟩
        (.atWord (c :: name)) r.spot.mark [] := ⟨rfl, rfl, rfl, rfl, rfl, by simp⟩
    have hrun : SafeRun (' ' :: params) := (safeRun_singleton (by decide)).append hp
    obtain ⟨p, hholds, hread⟩ := read_safe_run (t := t)
      (r := { r.settled with
        prelude := some ⟨.atWord (c :: name), r.spot.mark, [], [], [], false⟩ }.moved
          ('@' :: c :: name)) rfl hempty hrun hd
    refine ⟨p, hholds, ?_⟩
    have hword := read_atWord hidle hn.1 hn.2 (params ++ d :: t)
    have hassoc : atRuleText (c :: name) params ++ d :: t =
        '@' :: (c :: name ++ ' ' :: (params ++ d :: t)) := by simp [atRuleText]
    rw [hassoc, hword]
    rw [List.cons_append] at hread
    exact hread.trans (by simp [moved, atRuleText, Spot.advance])

/-- A printed statement is read as the node that its prelude makes. -/
theorem readsAs_statement {r : Reader} {lead taken : Text} {head : Head} {node : Node}
    (hlead : r.LeadsTo lead head taken)
    (hlater : ∀ c ∈ r.settled.waiting,
      r.spot.mark.offset + byteLength (lead ++ [';', '\n']) ≤ c.span.start)
    (hnode : ∀ p stop, Prelude.Holds p head r.spot.mark taken →
      ∃ node', p.statement? stop = some node' ∧ node'.unplaced = node.unplaced) :
    r.ReadsAs (lead ++ [';', '\n']) [node] r.settled.waiting := by
  intro rest
  obtain ⟨p, hholds, hread⟩ := hlead ';' ('\n' :: rest) (Or.inl rfl)
  obtain ⟨node', hstatement, hsame⟩ := hnode p ((r.spot.advance lead).next ';').mark hholds
  let added : Reader := { r.settled with nodes := node' :: r.settled.nodes, prelude := none }
  have hend : ({ r.settled with prelude := some p }.moved lead).endStatement p
      ((r.spot.advance lead).next ';').mark = added.moved lead := by
    simp [endStatement, hstatement, moved, added]
  have hread' : r.read (lead ++ [';', '\n'] ++ rest) =
      ((added.moved lead).moved [';', '\n']).read rest := by
    rw [List.append_assoc]
    refine hread.trans ((read_semicolon rfl hholds.pending_eq ('\n' :: rest)).trans ?_)
    refine (congrArg (fun r => (r.moved [';']).read ('\n' :: rest)) hend).trans ?_
    exact read_spacing (b := ['\n']) rfl (by simp [isSpacing]) rest
  refine ⟨_, hread', adds_of_push rfl rfl ?_ rfl hlater rfl hsame⟩
  simp [added, settled, flush]

/-- A printed block is read as one node, once its nodes are read inside it. -/
theorem readsAs_block {r : Reader} {lead taken innerText : Text} {head : Head} {node : Node}
    {inner : List Node} {later : List Comment}
    (hlead : r.LeadsTo (lead ++ [' ']) head (taken ++ [' ']))
    (hwaiting : ∀ c ∈ r.settled.waiting,
      r.spot.mark.offset + byteLength (lead ++ [' ', '{', '\n']) ≤ c.span.start)
    (hinner : ∀ r' : Reader, r'.prelude = none →
      r'.spot.mark.offset = r.spot.mark.offset + byteLength (lead ++ [' ', '{', '\n']) →
      r'.settled.waiting = r.settled.waiting → r'.ReadsAs innerText inner later)
    (hlater : ∀ c ∈ later, r.spot.mark.offset +
      byteLength (lead ++ [' ', '{', '\n'] ++ innerText ++ ['}', '\n']) ≤ c.span.start)
    (hnode : ∀ nodes stop before, unplacedAll nodes = (unplacedAll inner).reverse →
      (Frame.node ⟨head, r.spot.mark, trim (stripComments (taken ++ [' '])), before⟩ nodes
        stop).unplaced = node.unplaced) :
    r.ReadsAs (lead ++ [' ', '{', '\n'] ++ innerText ++ ['}', '\n']) [node] later := by
  intro rest
  obtain ⟨p, hholds, hread⟩ := hlead '{' ('\n' :: innerText ++ '}' :: '\n' :: rest) (Or.inr rfl)
  -- the reader right after the opening brace, with the frame of the block on its stack
  let frame : Frame := ⟨head, r.spot.mark, trim (stripComments (taken ++ [' '])), r.settled.nodes⟩
  let opened : Reader := { r.settled with
    spot := r.spot.advance (lead ++ [' ', '{', '\n'])
    frames := frame :: r.frames
    nodes := []
    prelude := none }
  have hopen : r.read (lead ++ [' ', '{', '\n'] ++ innerText ++ ['}', '\n'] ++ rest) =
      opened.read (innerText ++ '}' :: '\n' :: rest) := by
    have hassoc : lead ++ [' ', '{', '\n'] ++ innerText ++ ['}', '\n'] ++ rest =
        lead ++ [' '] ++ '{' :: ('\n' :: innerText ++ '}' :: '\n' :: rest) := by simp
    rw [hassoc]
    refine hread.trans ?_
    rw [read_opening rfl hholds.pending_eq hholds.afterSharp_eq]
    refine (read_spacing (b := ['\n']) rfl (by simp [isSpacing])
      (innerText ++ '}' :: '\n' :: rest)).trans ?_
    simp [opened, frame, openBlock, moved, Spot.advance, hholds.head_eq, hholds.start_eq,
      hholds.text_eq, settled, flush]
  have hoffset : opened.spot.mark.offset =
      r.spot.mark.offset + byteLength (lead ++ [' ', '{', '\n']) := by
    simp only [opened, Spot.offset_advance]
  have hsettled : opened.settled = opened := flush_eq_self (by
    rw [hoffset]
    exact hwaiting)
  obtain ⟨r', hread', hadds⟩ := hinner opened rfl hoffset (by rw [hsettled]) ('}' :: '\n' :: rest)
  have hframes : r'.frames = frame :: r.frames := hadds.frames_eq
  have hclosed := read_closing hadds.idle hframes ('\n' :: rest)
  have hspacing := read_spacing (b := ['\n']) (t := rest)
    (r := (r'.closeBlock frame r.frames r'.spot.mark (r'.spot.next '}').mark).moved ['}'])
    hadds.idle (by simp [isSpacing])
  refine ⟨_, hopen.trans (hread'.trans (hclosed.trans hspacing)), ?_⟩
  have hinside : unplacedAll r'.settled.nodes = (unplacedAll inner).reverse := by
    rw [hadds.nodes_eq, hsettled]
    simp [opened, unplacedAll]
  refine adds_of_push hadds.idle rfl ?_ hadds.waiting_eq hlater rfl (hnode _ _ _ hinside)
  have hend : byteLength ['}', '\n'] = 2 := by decide
  simp only [spot_moved, Spot.offset_advance, byteLength_append, hend]
  change r'.spot.mark.offset + byteLength ['}'] + byteLength ['\n'] = _
  rw [hadds.offset_eq, hoffset, byteLength_append]
  have hbrace : byteLength ['}'] = 1 := by decide
  have hnewline : byteLength ['\n'] = 1 := by decide
  omega

/-- A printed block comment is read as one node. -/
theorem readsAs_blockComment {r : Reader} (hidle : r.prelude = none) {text : Text} {span : Span}
    (h : mentions text "*/".toList = false)
    (hlater : ∀ c ∈ r.settled.waiting, r.spot.mark.offset +
      byteLength ('/' :: '*' :: text ++ ['*', '/'] ++ ['\n']) ≤ c.span.start) :
    r.ReadsAs ('/' :: '*' :: text ++ ['*', '/'] ++ ['\n']) [.comment ⟨.block, text, span⟩]
      r.settled.waiting := by
  intro rest
  obtain ⟨place, hread⟩ := read_comment hidle h ('\n' :: rest)
  have hspacing := read_spacing (b := ['\n']) (t := rest)
    (r := (r.settled.push (.comment ⟨.block, text, place⟩)).moved
      ('/' :: '*' :: (text ++ ['*', '/']))) hidle (by simp [isSpacing])
  have hassoc : '/' :: '*' :: text ++ ['*', '/'] ++ ['\n'] ++ rest =
      '/' :: '*' :: (text ++ '*' :: '/' :: '\n' :: rest) := by simp
  refine ⟨_, by rw [hassoc]; exact hread.trans hspacing, ?_⟩
  refine adds_of_push hidle rfl ?_ rfl hlater rfl rfl
  rw [moved_moved, spot_moved, Spot.offset_advance]
  rfl

/-- A blanked line comment adds the comment that waits at its place. -/
theorem readsAs_lineComment {r : Reader} (hidle : r.prelude = none) {b : Text}
    (hblank : ∀ c ∈ b, isSpacing c = true) (hpositive : 0 < byteLength b) {comment node : Comment}
    {later : List Comment} (hwaiting : r.settled.waiting = comment :: later)
    (hstart : comment.span.start = r.spot.mark.offset)
    (hlater : ∀ c ∈ later, r.spot.mark.offset + byteLength b ≤ c.span.start)
    (hnode : (Node.comment comment).unplaced = (Node.comment node).unplaced) :
    r.ReadsAs b [.comment node] later := by
  intro rest
  have hoffset : (r.moved b).spot.mark.offset = r.spot.mark.offset + byteLength b := by
    rw [spot_moved, Spot.offset_advance]
  have hplaced := flush_cons hwaiting (by omega) hlater
  rw [settled, flush_flush r (Nat.le_add_right _ _)] at hplaced
  have hsettled : (r.moved b).settled =
      { r.settled with
        nodes := .comment comment :: r.settled.nodes
        waiting := later }.moved b := by
    unfold settled
    rw [hoffset]
    exact congrArg (fun r' : Reader => r'.moved b) hplaced
  refine ⟨_, read_spacing hidle hblank rest, hidle, rfl, hoffset, ?_, ?_⟩
  · rw [hsettled]
    rfl
  · rw [hsettled]
    simp [unplacedAll, hnode]

end Reader

end ClassHints.Sheet
