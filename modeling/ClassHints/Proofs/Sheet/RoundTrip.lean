import ClassHints.Proofs.Sheet.PrintedReading

/-!
# Printing and reading

Every forest that can be printed is read back from its printed form, whatever its depth. The
induction is over the forest, with the reader and the comments that wait for it general, since
a nested forest is read inside an open block and with the comments behind it still waiting.
-/

namespace ClassHints.Sheet

open Text

/-- The line comments of a printed forest that starts at a mark. -/
def printedComments (m : Mark) (nodes : List Node) : List Comment :=
  commentsFrom m (piecesAll nodes)

/-- The printed forest with its line comments blanked out. -/
def maskedText (nodes : List Node) : Text := (piecesAll nodes).flatMap Piece.masked

/-- A printed forest is read back wherever a reader stands between nodes, as long as the
comments that wait there are those of the forest and comments behind it. -/
def ReadBack (nodes : List Node) : Prop :=
  ∀ (r : Reader) (m : Mark) (later : List Comment), r.prelude = none →
    m.offset = r.spot.mark.offset →
    r.settled.waiting = printedComments m nodes ++ later →
    (∀ c ∈ later, r.spot.mark.offset + byteLength (maskedText nodes) ≤ c.span.start) →
    r.ReadsAs (maskedText nodes) nodes later

/-- A forest has as many bytes with its comments masked as without. -/
theorem byteLength_maskedText (nodes : List Node) :
    byteLength (maskedText nodes) = byteLength (printAll nodes) := by
  rw [maskedText, byteLength_flatMap_masked, flatMap_text_piecesAll]

/-- A forest that is read back can be followed by another one. -/
theorem ReadBack.append {nodes nodes' : List Node} (h : ReadBack nodes) (h' : ReadBack nodes') :
    ReadBack (nodes ++ nodes') := by
  intro r m later hidle hm hwaiting hlater rest
  have htext : maskedText (nodes ++ nodes') = maskedText nodes ++ maskedText nodes' := by
    rw [maskedText, piecesAll_append, List.flatMap_append]
    rfl
  have hcomments : printedComments m (nodes ++ nodes') =
      printedComments m nodes ++ printedComments (m.advance (printAll nodes)) nodes' := by
    rw [printedComments, piecesAll_append, commentsFrom_append, flatMap_text_piecesAll]
    rfl
  rw [htext, byteLength_append] at hlater
  rw [hcomments, List.append_assoc] at hwaiting
  -- what waits behind the first nodes starts with the comments of the other nodes
  have hmiddle : ∀ c ∈ printedComments (m.advance (printAll nodes)) nodes' ++ later,
      r.spot.mark.offset + byteLength (maskedText nodes) ≤ c.span.start := by
    intro c hc
    rcases List.mem_append.1 hc with hc | hc
    · have hle := le_start_of_mem_commentsFrom hc
      rw [Mark.offset_advance, hm, ← byteLength_maskedText] at hle
      exact hle
    · have hle := hlater c hc
      omega
  obtain ⟨r', hread, hadds⟩ := h r m _ hidle hm hwaiting hmiddle (maskedText nodes' ++ rest)
  obtain ⟨r'', hread', hadds'⟩ := h' r' (m.advance (printAll nodes)) later hadds.idle
    (by rw [Mark.offset_advance, hadds.offset_eq, hm, byteLength_maskedText]) hadds.waiting_eq
    (by
      intro c hc
      have hle := hlater c hc
      rw [hadds.offset_eq]
      omega) rest
  refine ⟨r'', ?_, ?_⟩
  · rw [htext, List.append_assoc, hread, hread']
  · rw [htext, byteLength_append]
    exact hadds.trans hadds'

/-- The empty forest is read back. -/
theorem readBack_nil : ReadBack [] := by
  intro r m later hidle _ hwaiting _ rest
  exact ⟨r, rfl, hidle, rfl, rfl, hwaiting, rfl⟩

/-- A safe text starts with no blank. -/
theorem exists_head_of_isSafe {t : Text} (h : isSafe t = true) (u : Text) :
    ∃ c, (t ++ u).head? = some c ∧ isSpacing c = false := by
  have htrim := trim_of_isSafe h
  cases t with
  | nil => simp [isSafe] at h
  | cons c t =>
    refine ⟨c, rfl, ?_⟩
    by_contra hspacing
    have hblank : isBlank c = true := isBlank_of_isSpacing (by simpa using hspacing)
    have hshort : (trim (c :: t)).length ≤ t.length := by
      rw [← List.singleton_append, trim_append_left (allBlank_singleton hblank)]
      exact length_trim_le t
    rw [htrim, List.length_cons] at hshort
    omega

/-- A declaration with a safe property and value is read back, as its property has no colon. -/
theorem readBack_declaration {property value : Text} {span : Span} (hp : isSafe property = true)
    (hcolon : ':' ∉ property) (hv : isSafeOrEmpty value = true) :
    ReadBack [.declaration property value span] := by
  intro r m later hidle _ hwaiting hlater
  have htext : maskedText [.declaration property value span] =
      declarationText property value ++ [';', '\n'] := by
    simp [maskedText, piecesAll, Node.pieces]
  have hnone : r.settled.waiting = later := by
    simpa [printedComments, piecesAll, Node.pieces] using hwaiting
  obtain ⟨c, hhead, hc⟩ := exists_head_of_isSafe hp (':' :: ' ' :: value)
  have hlead := Reader.leadsTo_other hidle (safeRun_declarationText (safeRun_of_isSafe hp)
    (safeRun_of_isSafeOrEmpty hv)) hhead hc
  rw [htext] at hlater ⊢
  rw [← hnone] at hlater ⊢
  exact Reader.readsAs_statement hlead hlater fun p stop hholds =>
    ⟨_, statement?_declaration hholds hp hcolon hv, rfl⟩

/-- A statement with a safe prelude is read back. -/
theorem readBack_statement {name params : Text} {span : Span} (hn : isAtName name = true)
    (hp : isSafeOrEmpty params = true) : ReadBack [.statement name params span] := by
  intro r m later hidle _ hwaiting hlater
  have htext : maskedText [.statement name params span] =
      atRuleText name params ++ [';', '\n'] := by
    simp [maskedText, piecesAll, Node.pieces]
  have hnone : r.settled.waiting = later := by
    simpa [printedComments, piecesAll, Node.pieces] using hwaiting
  have hlead := Reader.leadsTo_atRule hidle hn (safeRun_of_isSafeOrEmpty hp)
  rw [htext] at hlater ⊢
  rw [← hnone] at hlater ⊢
  exact Reader.readsAs_statement hlead hlater fun p stop hholds =>
    ⟨_, statement?_atRule hholds hp, rfl⟩

/-- A printed node with a block is read back if its lead and the nodes inside it are. -/
theorem readBack_of_block {node : Node} {inner : List Node} (lead taken : Text) (head : Head)
    (hpieces : node.pieces = blockPieces lead (piecesAll inner)) (hinner : ReadBack inner)
    (hlead : ∀ r : Reader, r.prelude = none → r.LeadsTo (lead ++ [' ']) head (taken ++ [' ']))
    (hnode : ∀ start nodes stop before, unplacedAll nodes = (unplacedAll inner).reverse →
      (Frame.node ⟨head, start, trim (stripComments (taken ++ [' '])), before⟩ nodes
        stop).unplaced = node.unplaced) : ReadBack [node] := by
  intro r m later hidle hm hwaiting hlater
  have htext : maskedText [node] =
      lead ++ [' ', '{', '\n'] ++ maskedText inner ++ ['}', '\n'] := by
    simp [maskedText, piecesAll, hpieces, flatMap_masked_blockPieces]
  have hcomments : printedComments m [node] =
      printedComments (m.advance (lead ++ [' ', '{', '\n'])) inner := by
    simp [printedComments, piecesAll, hpieces, commentsFrom_blockPieces]
  rw [htext] at hlater ⊢
  rw [hcomments] at hwaiting
  have hbehind : ∀ c ∈ later, r.spot.mark.offset + byteLength (lead ++ [' ', '{', '\n']) +
      byteLength (maskedText inner) ≤ c.span.start := by
    intro c hc
    have hle := hlater c hc
    rw [byteLength_append, byteLength_append] at hle
    omega
  refine Reader.readsAs_block (hlead r hidle) ?_ ?_ hlater (hnode r.spot.mark)
  · intro c hc
    rw [hwaiting] at hc
    rcases List.mem_append.1 hc with hc | hc
    · have hle := le_start_of_mem_commentsFrom hc
      rwa [Mark.offset_advance, hm] at hle
    · have hle := hbehind c hc
      omega
  · intro r' hidle' hoffset hwaiting'
    refine hinner r' _ later hidle' ?_ (hwaiting'.trans hwaiting) ?_
    · rw [Mark.offset_advance, hoffset, hm]
    · rw [hoffset]
      exact hbehind

/-- A forest that was collected latest first is reversed to the right order. -/
theorem unplacedAll_reverse {nodes inner : List Node}
    (h : unplacedAll nodes = (unplacedAll inner).reverse) :
    unplacedAll nodes.reverse = unplacedAll inner := by
  rw [unplacedAll_eq_map, List.map_reverse, ← unplacedAll_eq_map, h, List.reverse_reverse]

/-- An at-rule with a block is read back if the nodes inside it are. -/
theorem readBack_block {name params : Text} {inner : List Node} {span : Span}
    (hn : isAtName name = true) (hp : isSafeOrEmpty params = true) (hinner : ReadBack inner) :
    ReadBack [.block name params inner span] := by
  have hblank : AllBlank [' '] := allBlank_singleton (by decide)
  have hsafe : SafeRun [' '] := safeRun_singleton (by decide)
  have hrun := safeRun_of_isSafeOrEmpty hp
  have hparams : trim (stripComments (' ' :: params ++ [' '])) = params :=
    trim_stripComments_safe hrun (trim_of_isSafeOrEmpty hp) hblank hsafe hblank hsafe
  refine readBack_of_block (atRuleText name params) (' ' :: params) (.atWord name) rfl hinner
    (fun r hidle => ?_) ?_
  · have hlead := Reader.leadsTo_atRule hidle hn (hrun.append hsafe)
    simpa [atRuleText] using hlead
  · intro start nodes stop before hnodes
    simp only [Frame.node, hparams, Node.unplaced, unplacedAll_reverse hnodes]

/-- A rule is read back if the nodes inside it are. -/
theorem readBack_rule {selector : Text} {inner : List Node} {span : Span}
    (hs : isSafe selector = true) (hinner : ReadBack inner) :
    ReadBack [.rule selector inner span] := by
  have hblank : AllBlank [' '] := allBlank_singleton (by decide)
  have hsafe : SafeRun [' '] := safeRun_singleton (by decide)
  have hselector : trim (stripComments (selector ++ [' '])) = selector :=
    trim_stripComments_safe (b := []) (safeRun_of_isSafe hs) (trim_of_isSafe hs)
      (fun c hc => absurd hc List.not_mem_nil) (fun c hc => absurd hc List.not_mem_nil) hblank hsafe
  refine readBack_of_block selector selector .other rfl hinner (fun r hidle => ?_) ?_
  · obtain ⟨c, hhead, hc⟩ := exists_head_of_isSafe hs [' ']
    exact Reader.leadsTo_other hidle ((safeRun_of_isSafe hs).append hsafe) hhead hc
  · intro start nodes stop before hnodes
    simp only [Frame.node, hselector, Node.unplaced, unplacedAll_reverse hnodes]

/-- A comment is read back. -/
theorem readBack_comment {c : Comment} (h : c.isPrintable = true) : ReadBack [.comment c] := by
  obtain ⟨style, text, span⟩ := c
  intro r m later hidle hm hwaiting hlater
  cases style with
  | block =>
    have hend : mentions text "*/".toList = false := by simpa [Comment.isPrintable] using h
    have htext : maskedText [.comment ⟨.block, text, span⟩] =
        '/' :: '*' :: text ++ ['*', '/'] ++ ['\n'] := by
      simp [maskedText, piecesAll, Node.pieces, Comment.piece, Piece.masked, Comment.print]
    have hnone : r.settled.waiting = later := by
      simpa [printedComments, piecesAll, Node.pieces, Comment.piece, commentsFrom,
        Piece.comment?] using hwaiting
    rw [htext] at hlater ⊢
    rw [← hnone] at hlater ⊢
    exact Reader.readsAs_blockComment hidle hend hlater
  | line =>
    simp only [Comment.isPrintable, Bool.and_eq_true, beq_iff_eq] at h
    have htext : maskedText [.comment ⟨.line, text, span⟩] =
        List.replicate (byteLength ('/' :: '/' :: text)) ' ' ++ ['\n'] := by
      simp [maskedText, piecesAll, Node.pieces, Comment.piece, Piece.masked, Comment.print]
    have hone : r.settled.waiting =
        ⟨.line, text, m.to (m.advance ('/' :: '/' :: text))⟩ :: later := by
      simpa [printedComments, piecesAll, Node.pieces, Comment.piece, commentsFrom,
        Piece.comment?, Comment.print, h.1] using hwaiting
    have hblank : ∀ c ∈ List.replicate (byteLength ('/' :: '/' :: text)) ' ' ++ ['\n'],
        isSpacing c = true := by
      intro c hc
      rcases List.mem_append.1 hc with hc | hc
      · rw [List.eq_of_mem_replicate hc]
        decide
      · rw [List.mem_singleton.1 hc]
        decide
    have hpositive :
        0 < byteLength (List.replicate (byteLength ('/' :: '/' :: text)) ' ' ++ ['\n']) := by
      have hnewline : byteLength ['\n'] = 1 := by decide
      rw [byteLength_append, hnewline]
      omega
    rw [htext] at hlater ⊢
    exact Reader.readsAs_lineComment hidle hblank hpositive hone hm hlater rfl

/-- Every printable forest is read back. -/
theorem readBack_of_allPrintable {nodes : List Node} (h : allPrintable nodes = true) :
    ReadBack nodes := by
  induction nodes using Node.forest_induction with
  | nil => exact readBack_nil
  | declaration property value span nodes ih =>
    simp only [allPrintable, Node.isPrintable, Bool.and_eq_true, Bool.not_eq_true',
      List.contains_eq_mem, decide_eq_false_iff_not] at h
    exact (readBack_declaration h.1.1.1 h.1.1.2 h.1.2).append (ih h.2)
  | statement name params span nodes ih =>
    simp only [allPrintable, Node.isPrintable, Bool.and_eq_true] at h
    exact (readBack_statement h.1.1 h.1.2).append (ih h.2)
  | block name params inner span nodes ihinner ih =>
    simp only [allPrintable, Node.isPrintable, Bool.and_eq_true] at h
    exact (readBack_block h.1.1.1 h.1.1.2 (ihinner h.1.2)).append (ih h.2)
  | rule selector inner span nodes ihinner ih =>
    simp only [allPrintable, Node.isPrintable, Bool.and_eq_true] at h
    exact (readBack_rule h.1.1 (ihinner h.1.2)).append (ih h.2)
  | comment c nodes ih =>
    simp only [allPrintable, Node.isPrintable, Bool.and_eq_true] at h
    exact (readBack_comment h.1).append (ih h.2)

/-! ## What is read back -/

/-- Whether a forest can be printed does not depend on its places. -/
theorem allPrintable_unplacedAll (nodes : List Node) :
    allPrintable (unplacedAll nodes) = allPrintable nodes := by
  induction nodes using Node.forest_induction with
  | nil => rfl
  | declaration _ _ _ _ ih | statement _ _ _ _ ih =>
    simp [unplacedAll, Node.unplaced, allPrintable, Node.isPrintable, ih]
  | block _ _ _ _ _ ihinner ih | rule _ _ _ _ ihinner ih =>
    simp [unplacedAll, Node.unplaced, allPrintable, Node.isPrintable, ih, ihinner]
  | comment c nodes ih =>
    simp [unplacedAll, Node.unplaced, allPrintable, Node.isPrintable, Comment.isPrintable, ih]

/-- Every rule of a printable forest has a safe selector list, at any depth. -/
theorem isSafe_of_rule_mem {nodes : List Node} (h : allPrintable nodes = true) {selector : Text}
    {inner : List Node} {span : Span} (hmem : .rule selector inner span ∈ allNodes nodes) :
    isSafe selector = true := by
  induction nodes using Node.forest_induction with
  | nil =>
    rw [allNodes_nil] at hmem
    cases hmem
  | declaration _ _ _ _ ih | statement _ _ _ _ ih | comment _ _ ih =>
    simp only [allPrintable, Bool.and_eq_true] at h
    simp only [allNodes, List.mem_cons, reduceCtorEq, false_or] at hmem
    exact ih h.2 hmem
  | block _ _ _ _ _ ihinner ih =>
    simp only [allPrintable, Node.isPrintable, Bool.and_eq_true] at h
    simp only [allNodes, List.mem_append, List.mem_cons, reduceCtorEq, false_or] at hmem
    rcases hmem with hmem | hmem
    · exact ihinner h.1.2 hmem
    · exact ih h.2 hmem
  | rule _ _ _ _ ihinner ih =>
    simp only [allPrintable, Node.isPrintable, Bool.and_eq_true] at h
    simp only [allNodes, List.mem_append, List.mem_cons, Node.rule.injEq] at hmem
    rcases hmem with (⟨rfl, -, -⟩ | hmem) | hmem
    · exact h.1.1
    · exact ihinner h.1.2 hmem
    · exact ih h.2 hmem

/-- A character in front belongs to the first part. -/
theorem consPart_eq_modifyHead {parts : List Text} (c : Char) (h : parts ≠ []) :
    consPart c parts = parts.modifyHead (List.cons c) := by
  cases parts with
  | nil => exact absurd rfl h
  | cons part parts => rfl

/-- Safe text is cut at each of its commas. -/
theorem commaPartsFrom_safe {t : Text} (h : SafeRun t) :
    commaPartsFrom selectorGrouping none 0 t = splitWhere (· == ',') t := by
  unfold splitWhere
  induction t with
  | nil => rfl
  | cons c t ih =>
    obtain ⟨-, h2, h3, h4, h5, h6, h7, h8, h9, -⟩ := isSafeChar_iff.1 (h c (by simp))
    have hopens : selectorGrouping.opens c = false := by simp [selectorGrouping, h2, h4, h6]
    have hcloses : selectorGrouping.closes c = false := by simp [selectorGrouping, h3, h5, h7]
    have hparts := List.splitOnP_ne_nil (· == ',') t
    rw [commaPartsFrom, List.splitOnP_cons_eq_if_modifyHead, ih h.tail, consPart_eq_modifyHead c hparts]
    simp [h8, h9, hopens, hcloses]

/-- The selectors of a safe selector list are its parts between commas, without the empty
ones. -/
theorem splitSelectors_safe {t : Text} (h : SafeRun t) :
    splitSelectors t = ((splitWhere (· == ',') t).map trim).filter (!·.isEmpty) := by
  unfold splitSelectors commaParts
  rw [stripComments_eq_self h.slash_not_mem, commaPartsFrom_safe h]

/-- Reading undoes printing: the printed form of a printable forest is accepted, and gives the
same forest up to places. The selectors of every rule in it are the trimmed parts between the
commas of the selector list it was printed with. -/
theorem parse_printAll {nodes : List Node} (h : allPrintable nodes = true) :
    ∃ found, parse (printAll nodes) = .ok found ∧ unplacedAll found = unplacedAll nodes ∧
      ∀ selector inner span, .rule selector inner span ∈ allNodes found →
        splitSelectors selector =
          ((splitWhere (· == ',') selector).map trim).filter (!·.isEmpty) := by
  let r := Reader.start (printedComments .start nodes)
  have hsettled : r.settled = r := Reader.flush_eq_self fun c _ => Nat.zero_le _
  obtain ⟨r', hread, hadds⟩ := readBack_of_allPrintable h r .start [] rfl rfl
    (by rw [hsettled, List.append_nil]; rfl) (by simp) []
  rw [List.append_nil, Reader.read_nil] at hread
  have hfinish : r'.finish = r'.settled.nodes.reverse := by
    have hframes : r'.frames = [] := hadds.frames_eq
    simp only [Reader.finish, hadds.idle, hframes, Reader.closeAll]
    rfl
  have hsame : unplacedAll r'.finish = unplacedAll nodes := by
    rw [hfinish]
    apply unplacedAll_reverse
    rw [hadds.nodes_eq, hsettled]
    simp [r, Reader.start, unplacedAll]
  refine ⟨r'.finish, ?_, hsame, ?_⟩
  · unfold parse
    rw [ofSource_printAll h]
    change (r.read (maskedText nodes) >>= fun r' => pure r'.finish) = _
    rw [hread]
    rfl
  · intro selector inner span hmem
    have hprintable : allPrintable r'.finish = true := by
      rw [← allPrintable_unplacedAll, hsame, allPrintable_unplacedAll, h]
    exact splitSelectors_safe (safeRun_of_isSafe (isSafe_of_rule_mem hprintable hmem))

/-- A forest with every kind of node, a comment that ends its block and an empty value. -/
def sampleForest : List Node :=
  [.comment ⟨.line, "cards".toList, ⟨0, 0, 0, 0⟩⟩,
    .block "mixin".toList "vf-p-card".toList
      [.rule ".p-card, #main > li:hover".toList
        [.declaration "$gap".toList "1.5rem !default".toList ⟨0, 0, 0, 0⟩,
          .declaration "color".toList [] ⟨0, 0, 0, 0⟩,
          .comment ⟨.block, "* two * stars *".toList, ⟨0, 0, 0, 0⟩⟩] ⟨0, 0, 0, 0⟩,
        .statement "include".toList "vf-base".toList ⟨0, 0, 0, 0⟩,
        .comment ⟨.line, "/ \"done\" \x7b".toList, ⟨0, 0, 0, 0⟩⟩] ⟨0, 0, 0, 0⟩]

/-- The sample is printable, and what is read back has its selectors cut at the commas. -/
theorem parse_printAll_sampleForest : allPrintable sampleForest = true ∧
    ∃ found, parse (printAll sampleForest) = .ok found ∧
      unplacedAll found = unplacedAll sampleForest ∧
      ∀ selector inner span, .rule selector inner span ∈ allNodes found →
        splitSelectors selector =
          ((splitWhere (· == ',') selector).map trim).filter (!·.isEmpty) :=
  ⟨by decide, parse_printAll (by decide)⟩

end ClassHints.Sheet
