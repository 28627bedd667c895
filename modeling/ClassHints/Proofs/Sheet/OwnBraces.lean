import ClassHints.Proofs.Sheet.Braces
import ClassHints.Proofs.Sheet.Placement

/-!
# The braces of blocks

A block should end with the brace that closes it. The braces of an accepted stylesheet are
balanced among its pieces, hence among its tokens where the two agree. The reader passes over
brackets as a group, though, and a brace that closes while a parenthesis or a square bracket is
open closes nothing. Where no brace does that, every block ends with its own brace.
-/

namespace ClassHints.Sheet

open Text

/-! ## Balance -/

/-- The number of braces that are open behind some braces, of which `depth` were open before
them. There is none if a brace closes that was never opened. -/
def braceDepth? : Nat → List Brace → Option Nat
  | depth, [] => some depth
  | depth, .opening :: bs => braceDepth? (depth + 1) bs
  | 0, .closing :: _ => none
  | depth + 1, .closing :: bs => braceDepth? depth bs

/-- The depth behind two runs of braces is that of the second, from that of the first. -/
theorem braceDepth?_append (depth : Nat) (as bs : List Brace) :
    braceDepth? depth (as ++ bs) = (braceDepth? depth as).bind (braceDepth? · bs) := by
  fun_induction braceDepth? depth as with
  | case1 => rfl
  | case2 depth as ih => exact ih
  | case3 => rfl
  | case4 depth as ih => exact ih

/-- Braces that close only their own do so also behind other open braces. -/
theorem braceDepth?_succ {depth depth' : Nat} {bs : List Brace}
    (h : braceDepth? depth bs = some depth') : braceDepth? (depth + 1) bs = some (depth' + 1) := by
  fun_induction braceDepth? depth bs with
  | case1 =>
    obtain rfl := Option.some.inj h
    rfl
  | case2 depth bs ih => exact ih h
  | case3 => cases h
  | case4 depth bs ih => exact ih h

/-- Pieces without a fault are whole, and their braces are balanced. -/
theorem of_faultFrom_eq_none {m : Mark} {opened : List Mark} {ps : List Piece}
    (h : faultFrom m opened ps = none) : (∀ p ∈ ps, ∀ cause, p.kind ≠ .broken cause) ∧
      braceDepth? opened.length (ps.filterMap Piece.brace?) = some 0 := by
  fun_induction faultFrom m opened ps with
  | case1 m opened =>
    cases opened with
    | nil => exact ⟨by simp, rfl⟩
    | cons mark outer => cases h
  | case2 => cases h
  | case3 m opened p ps hkind ih =>
    obtain ⟨hwhole, hdepth⟩ := ih h
    refine ⟨List.forall_mem_cons.2 ⟨by simp [hkind], hwhole⟩, ?_⟩
    rw [List.filterMap_cons_some (b := .opening) (by simp [Piece.brace?, hkind])]
    exact hdepth
  | case4 => cases h
  | case5 m p ps mark outer hkind ih =>
    obtain ⟨hwhole, hdepth⟩ := ih h
    refine ⟨List.forall_mem_cons.2 ⟨by simp [hkind], hwhole⟩, ?_⟩
    rw [List.filterMap_cons_some (b := .closing) (by simp [Piece.brace?, hkind])]
    exact hdepth
  | case6 m opened p ps hkind ih | case7 m opened p ps hkind ih =>
    obtain ⟨hwhole, hdepth⟩ := ih h
    refine ⟨List.forall_mem_cons.2 ⟨by simp [hkind], hwhole⟩, ?_⟩
    rw [List.filterMap_cons_none (by simp [Piece.brace?, hkind])]
    exact hdepth

/-! ## Open brackets -/

/-- The brace of the first lexeme comes before those behind it. -/
theorem filterMap_brace?_cons (l : Lexeme) (ls : List Lexeme) :
    (l :: ls).filterMap Lexeme.brace? = l.brace?.toList ++ ls.filterMap Lexeme.brace? := by
  rw [List.filterMap_cons]
  cases l.brace? <;> rfl

/-- The brackets that are open behind a lexeme, innermost first. A closing bracket counts only
if it fits. -/
def bracketsAfter (opened : List Bracket) (lexeme : Lexeme) : List Bracket :=
  match lexeme.token, opened with
  | .opening b, group => b :: group
  | .closing b, innermost :: outer => if b = innermost then outer else opened
  | _, group => group

/-- The brackets that are open behind lexemes, innermost first. -/
def openBrackets (ls : List Lexeme) : List Bracket := ls.foldl bracketsAfter []

/-- Whether no brace closes while the innermost bracket is a parenthesis or a square bracket. -/
def bracesFit (opened : List Bracket) : List Lexeme → Bool
  | [] => true
  | l :: ls =>
    (l.token != .closing .curly || opened.head?.all (· == .curly)) &&
      bracesFit (bracketsAfter opened l) ls

/-- One more lexeme changes the open brackets by itself. -/
theorem openBrackets_snoc (ls : List Lexeme) (l : Lexeme) :
    openBrackets (ls ++ [l]) = bracketsAfter (openBrackets ls) l := by
  rw [openBrackets, List.foldl_append]
  rfl

/-- What a lexeme does to the open brackets, it does to the innermost of them. -/
theorem bracketsAfter_append {opened : List Bracket} (h : opened ≠ []) (outer : List Bracket)
    (l : Lexeme) : bracketsAfter (opened ++ outer) l = bracketsAfter opened l ++ outer := by
  obtain ⟨innermost, opened, rfl⟩ := List.exists_cons_of_ne_nil h
  unfold bracketsAfter
  cases l.token with
  | closing b =>
    simp only [List.cons_append]
    split <;> rfl
  | _ => rfl

/-- Where only braces are open, no other bracket closes anything. -/
theorem bracketsAfter_of_curly {opened : List Bracket} (h : ∀ b ∈ opened, b = .curly) {l : Lexeme}
    (hl : l.token ≠ .closing .curly) :
    bracketsAfter opened l = l.token.opened?.toList ++ opened := by
  unfold bracketsAfter
  cases htoken : l.token with
  | closing b =>
    cases opened with
    | nil => rfl
    | cons innermost outer =>
      obtain rfl := h innermost (by simp)
      have hb : b ≠ .curly := by
        rintro rfl
        exact hl htoken
      exact if_neg hb
  | _ => rfl

/-- A lexeme changes the number of open braces as it should, if it closes no brace in the wrong
place. -/
theorem braceDepth?_bracketsAfter {opened : List Bracket} {l : Lexeme}
    (hfit : l.token = .closing .curly → opened.head? = some .curly) :
    braceDepth? (opened.count .curly) l.brace?.toList =
      some ((bracketsAfter opened l).count .curly) := by
  unfold Lexeme.brace? bracketsAfter
  cases htoken : l.token with
  | opening b =>
    cases b with
    | curly => simp [braceDepth?]
    | round | square => rfl
  | closing b =>
    cases b with
    | curly =>
      obtain ⟨outer, rfl⟩ := List.head?_eq_some_iff.1 (hfit htoken)
      simp [braceDepth?]
    | round | square =>
      cases opened with
      | nil => rfl
      | cons innermost outer => cases innermost <;> rfl
  | _ => rfl

/-- A run over lexemes with balanced braces that all fit: the open braces are counted right, and
every brace that closes finds one open. -/
theorem of_bracesFit {ls : List Lexeme} {opened : List Bracket} {depth : Nat}
    (hfit : bracesFit opened ls = true)
    (h : braceDepth? (opened.count .curly) (ls.filterMap Lexeme.brace?) = some depth) :
    (ls.foldl bracketsAfter opened).count .curly = depth ∧
      ∀ before l after, ls = before ++ l :: after → l.token = .closing .curly →
        (before.foldl bracketsAfter opened).head? = some .curly := by
  induction ls generalizing opened with
  | nil => exact ⟨Option.some.inj h, by simp⟩
  | cons l ls ih =>
    rw [bracesFit, Bool.and_eq_true] at hfit
    obtain ⟨hfirst, hlater⟩ := hfit
    rw [filterMap_brace?_cons, braceDepth?_append] at h
    have hhere : l.token = .closing .curly → opened.head? = some .curly := by
      intro htoken
      have hbrace : l.brace? = some .closing := by simp [Lexeme.brace?, htoken]
      cases opened with
      | nil =>
        rw [hbrace] at h
        cases h
      | cons innermost outer => simpa [htoken] using hfirst
    rw [braceDepth?_bracketsAfter hhere] at h
    obtain ⟨hcount, hclosing⟩ := ih hlater h
    refine ⟨hcount, ?_⟩
    intro before closing after hls htoken
    cases before with
    | nil =>
      obtain ⟨rfl, -⟩ := List.cons.inj hls
      exact hhere htoken
    | cons first before =>
      obtain ⟨rfl, hbehind⟩ := List.cons.inj hls
      exact hclosing before closing after hbehind htoken

/-! ## Blocks and their braces -/

/-- The lexeme that opens a block. -/
def openingBrace : Lexeme := ⟨.opening .curly, ['{']⟩

/-- The lexeme that closes a block. -/
def closingBrace : Lexeme := ⟨.closing .curly, ['}']⟩

/-- Whether a node has a block. -/
def Node.hasBlock : Node → Bool
  | .block .. | .rule .. => true
  | .declaration .. | .statement .. | .comment _ => false

/-- The block of a node begins with a brace behind its prelude, and the node ends with the brace
that closes the block: the braces between the two are balanced. -/
def Node.ClosedIn (t : Text) (node : Node) : Prop :=
  ∃ before body rest, lexemes t = before ++ openingBrace :: (body ++ closingBrace :: rest) ∧
    node.bodyIn t = byteLength (textOf (before ++ [openingBrace])) ∧
    node.span.stop = byteLength (textOf (before ++ openingBrace :: (body ++ [closingBrace]))) ∧
    braceDepth? 0 (body.filterMap Lexeme.brace?) = some 0

/-- Every node that has a block ends with the brace of the block. -/
def AllClosed (t : Text) (nodes : List Node) : Prop :=
  ∀ node ∈ allNodes nodes, node.hasBlock = true → node.ClosedIn t

/-- A block is open with `depth` braces open inside it, and all blocks before it are closed. -/
structure Frame.OpenIn (t : Text) (done : List Lexeme) (depth : Nat) (f : Frame) : Prop where
  brace : ∃ before body, done = before ++ openingBrace :: body ∧
    f.bodyIn t = byteLength (textOf (before ++ [openingBrace])) ∧
    braceDepth? 0 (body.filterMap Lexeme.brace?) = some depth
  closed : AllClosed t f.before

/-- Blocks are open, innermost first, with one more brace open inside each than inside the one
before it. -/
inductive OpenBlocks (t : Text) (done : List Lexeme) : Nat → List Frame → Prop where
  | nil {depth : Nat} : OpenBlocks t done depth []
  | cons {depth : Nat} {f : Frame} {outer : List Frame} (innermost : f.OpenIn t done depth)
    (around : OpenBlocks t done (depth + 1) outer) : OpenBlocks t done depth (f :: outer)

/-- A lexeme inside open blocks opens or closes one brace in all of them. -/
theorem OpenBlocks.snoc {t : Text} {done : List Lexeme} {l : Lexeme} {depth depth' : Nat}
    {frames : List Frame} (h : OpenBlocks t done depth frames)
    (hdepth : braceDepth? depth l.brace?.toList = some depth') :
    OpenBlocks t (done ++ [l]) depth' frames := by
  induction h generalizing depth' with
  | nil => exact .nil
  | cons innermost around ih =>
    refine .cons ⟨?_, innermost.closed⟩ (ih (braceDepth?_succ hdepth))
    obtain ⟨before, body, rfl, hbody, hdepth₀⟩ := innermost.brace
    refine ⟨before, body ++ [l], by simp, hbody, ?_⟩
    rw [List.filterMap_append, braceDepth?_append, hdepth₀, filterMap_brace?_cons,
      List.filterMap_nil, List.append_nil]
    exact hdepth

/-- A block that closes with its own brace. -/
theorem Frame.OpenIn.closedIn {t : Text} {done rest : List Lexeme} {f : Frame}
    (h : f.OpenIn t done 0) (hall : lexemes t = done ++ closingBrace :: rest) {stop : Mark}
    (hstop : stop.offset = byteLength (textOf (done ++ [closingBrace]))) (nodes : List Node) :
    (f.node nodes stop).ClosedIn t := by
  obtain ⟨before, body, rfl, hbody, hdepth⟩ := h.brace
  refine ⟨before, body, rest, by rw [hall]; simp, by rw [f.bodyIn_node, hbody], ?_, hdepth⟩
  rw [f.span_node]
  change stop.offset = _
  simpa using hstop

/-- A lexeme that closes a block is the brace itself. -/
theorem closingBrace_of_lexemes {t : Text} {done rest : List Lexeme} {l : Lexeme}
    (h : lexemes t = done ++ l :: rest) (htoken : l.token = .closing .curly) :
    l = closingBrace := by
  obtain ⟨c, u, n, hread, htext, -⟩ := exists_readAt_of_append h
  rw [htoken] at hread
  obtain ⟨rfl, rfl⟩ := hread.closing
  cases l with
  | mk token text =>
    obtain rfl : token = .closing .curly := htoken
    obtain rfl : text = ['}'] := htext
    rfl

/-- A lexeme that opens a block is the brace itself. -/
theorem openingBrace_of_lexemes {t : Text} {done rest : List Lexeme} {l : Lexeme}
    (h : lexemes t = done ++ l :: rest) (htoken : l.token = .opening .curly) :
    l = openingBrace := by
  have hshaped : l.Shaped := shaped_of_mem_lexemes (t := t) (by simp [h])
  cases l with
  | mk token text =>
    obtain rfl : token = .opening .curly := htoken
    obtain rfl : text = ['{'] := hshaped.brace rfl
    rfl

/-! ## Steps among brackets -/

/-- A lexeme that a prelude passes over changes its open brackets. -/
theorem Prelude.pending_pass (p : Prelude) (l : Lexeme) :
    (p.pass l).pending = bracketsAfter p.pending l := rfl

/-- The lexeme after which a prelude goes on leaves its group in step with the open brackets. -/
theorem Prelude.bracketsAfter_pending {p : Prelude} {l : Lexeme} (h : p.ends l = false)
    {outer : List Bracket} (houter : ∀ b ∈ outer, b = .curly) :
    bracketsAfter (p.pending ++ outer) l = (p.next l).pending ++ outer := by
  cases hpending : p.pending with
  | nil =>
    have hl : l.token ≠ .closing .curly := by
      intro htoken
      simp [ends, hpending, htoken, Token.endsPrelude] at h
    rw [List.nil_append, bracketsAfter_of_curly houter hl]
    simp [next, hpending, take]
  | cons innermost group =>
    have hnext : p.next l = p.pass l := by simp [next, hpending]
    rw [bracketsAfter_append (by simp), hnext, pending_pass, hpending]

/-- The open brackets are those of a group, innermost, and the braces of the open blocks. -/
structure Nested (t : Text) (done : List Lexeme) (group : List Bracket) (frames : List Frame) :
    Prop where
  brackets : openBrackets done = group ++ frames.map fun _ => .curly
  blocks : OpenBlocks t done (group.count .curly) frames

namespace Nested

variable {t : Text} {done : List Lexeme} {l : Lexeme} {f : Frame} {frames : List Frame}

/-- A token that is no bracket changes nothing. -/
theorem quiet (h : Nested t done [] frames) (hopened : l.token.opened? = none)
    (hclosing : l.token ≠ .closing .curly) : Nested t (done ++ [l]) [] frames := by
  have hbrace : l.brace? = none := by
    unfold Lexeme.brace?
    split
    · next htoken =>
      rw [htoken] at hopened
      cases hopened
    · next htoken => exact absurd htoken hclosing
    · rfl
  constructor
  · rw [openBrackets_snoc, h.brackets, List.nil_append, bracketsAfter_of_curly (by simp) hclosing,
      hopened]
    rfl
  · apply h.blocks.snoc
    rw [hbrace]
    rfl

/-- A prelude that goes on keeps count of the brackets in its group. -/
theorem next {p : Prelude} (h : Nested t done p.pending frames) (hcontinues : p.ends l = false)
    (hfit : l.token = .closing .curly → (openBrackets done).head? = some .curly) :
    Nested t (done ++ [l]) (p.next l).pending frames := by
  constructor
  · rw [openBrackets_snoc, h.brackets, p.bracketsAfter_pending hcontinues (by simp)]
  · have hown := p.bracketsAfter_pending hcontinues (List.forall_mem_nil _)
    rw [List.append_nil, List.append_nil] at hown
    apply h.blocks.snoc
    rw [← hown]
    apply braceDepth?_bracketsAfter
    intro htoken
    have hhead := hfit htoken
    rw [h.brackets] at hhead
    cases hpending : p.pending with
    | nil => simp [Prelude.ends, hpending, htoken, Token.endsPrelude] at hcontinues
    | cons innermost group =>
      rw [hpending] at hhead
      exact hhead

/-- A brace that opens a block. -/
theorem enter (h : Nested t done [] frames) (hf : f.OpenIn t (done ++ [openingBrace]) 0) :
    Nested t (done ++ [openingBrace]) [] (f :: frames) := by
  refine ⟨?_, .cons hf (h.blocks.snoc rfl)⟩
  rw [openBrackets_snoc, h.brackets]
  rfl

/-- A brace that closes the innermost block. -/
theorem leave (h : Nested t done [] (f :: frames)) :
    f.OpenIn t done 0 ∧ Nested t (done ++ [closingBrace]) [] frames := by
  obtain ⟨hbrackets, hblocks⟩ := h
  cases hblocks with
  | cons innermost around =>
    refine ⟨innermost, ?_, around.snoc rfl⟩
    rw [openBrackets_snoc, hbrackets]
    rfl

end Nested

/-! ## What the reader keeps -/

/-- A statement has no block. -/
theorem hasBlock_of_statement? {p : Prelude} {stop : Mark} {node : Node}
    (h : node ∈ p.statement? stop) : node.hasBlock = false := by
  unfold Prelude.statement? at h
  split at h
  · obtain rfl := Option.some.inj h
    rfl
  · split at h
    · cases h
    · split at h
      · cases h
      · obtain rfl := Option.some.inj h
        rfl

namespace Reader

/-- The brackets that the prelude of a reader has passed over and not closed yet. -/
def pending (r : Reader) : List Bracket := (r.prelude.map Prelude.pending).getD []

/-- Between nodes no bracket is passed over. -/
theorem pending_of_idle {r : Reader} (h : r.prelude = none) : r.pending = [] := by
  simp [pending, h]

/-- The brackets that a reader has passed over are those of its prelude. -/
theorem pending_of_some {r : Reader} {p : Prelude} (h : r.prelude = some p) :
    r.pending = p.pending := by
  simp [pending, h]

/-- A lexeme ends a prelude only where no bracket is open. -/
theorem pending_of_ends {r : Reader} {p : Prelude} {l : Lexeme} (hp : r.prelude = some p)
    (h : p.ends l = true) : r.pending = [] := by
  simp only [Prelude.ends, Bool.and_eq_true, List.isEmpty_iff] at h
  rw [pending_of_some hp, h.1]

/-- A reader refuses a brace only if it has no block open and passes over no group. -/
theorem of_strayBrace {r : Reader} {l : Lexeme} {fault : Fault} (h : r.step l = .error fault)
    (hcause : fault.cause = .strayBrace) :
    l.token = .closing .curly ∧ r.pending = [] ∧ r.frames = [] := by
  cases hp : r.prelude with
  | none =>
    simp only [step, hp] at h
    cases hs : r.stepIdle l (r.spot.advance l.text).mark with
    | ok r' =>
      rw [hs] at h
      cases h
    | error fault' =>
      rw [hs] at h
      obtain rfl := Except.error.inj h
      unfold stepIdle at hs
      split at hs
      case h_6 htoken =>
        split at hs
        · next hframes => exact ⟨htoken, pending_of_idle hp, hframes⟩
        · cases hs
      all_goals cases hs
      all_goals cases hcause
  | some p =>
    simp only [step, hp] at h
    cases hs : r.stepPrelude p l (r.spot.advance l.text).mark with
    | ok r' =>
      rw [hs] at h
      cases h
    | error fault' =>
      rw [hs] at h
      obtain rfl := Except.error.inj h
      unfold stepPrelude at hs
      dsimp only at hs
      split at hs
      · cases hs
      · next hpending =>
        have hempty : r.pending = [] := by simpa [pending, hp] using hpending
        split at hs
        case h_2 => split at hs <;> cases hs
        case h_3 htoken =>
          split at hs
          · next hframes => exact ⟨htoken, hempty, hframes⟩
          · cases hs
        all_goals cases hs
        all_goals cases hcause

/-- After the lexemes `done` the reader is in step with the open brackets, and all blocks that it
has read are closed by their own braces. -/
structure Closing (t : Text) (done : List Lexeme) (r : Reader) : Prop where
  tracks : r.Tracks (lexemes t) done
  nested : Nested t done r.pending r.frames
  closed : AllClosed t r.nodes

/-- At the start no bracket is open and no block is read. -/
theorem closing_start (t : Text) (comments : List Comment) :
    (Reader.start comments).Closing t [] where
  tracks := ⟨rfl, by simp [Reader.start], by simp [Reader.start], by simp [Reader.start]⟩
  nested := ⟨rfl, .nil⟩
  closed := by simp [AllClosed, Reader.start]

section Steps

variable {t : Text} {r : Reader}

/-- Placing comments adds no block. -/
theorem allClosed_flush (h : AllClosed t r.nodes) (offset : Nat) :
    AllClosed t (r.flush offset).nodes :=
  forall_flush (by simp [Node.hasBlock]) h offset

/-- A statement that ends adds no block. -/
theorem allClosed_endStatement (h : AllClosed t r.nodes) (p : Prelude) (stop : Mark) :
    AllClosed t (r.endStatement p stop).nodes := by
  apply forall_endStatement h
  intro node hnode hblock
  rw [hasBlock_of_statement? hnode] at hblock
  cases hblock

/-- A block that the reader closes at its brace. -/
theorem allClosed_closeBlock {done rest : List Lexeme} {f : Frame} (h : AllClosed t r.nodes)
    (hf : f.OpenIn t done 0) (hall : lexemes t = done ++ closingBrace :: rest)
    (outer : List Frame) (here : Mark) {stop : Mark}
    (hstop : stop.offset = byteLength (textOf (done ++ [closingBrace]))) :
    AllClosed t (r.closeBlock f outer here stop).nodes := by
  apply forall_closeBlock (by simp [Node.hasBlock]) h hf.closed outer here
  intro nodes _
  exact hf.closedIn hall hstop nodes

/-- Every step closes blocks by their own braces, if the lexeme closes no brace in the wrong
place. -/
theorem Closing.step {done rest : List Lexeme} {l : Lexeme} {r' : Reader}
    (hall : lexemes t = done ++ l :: rest)
    (hfit : l.token = .closing .curly → (openBrackets done).head? = some .curly)
    (h : r.Closing t done) (hstep : r.Step l r') : r'.Closing t (done ++ [l]) := by
  have hshaped : l.Shaped := shaped_of_mem_lexemes (t := t) (by simp [hall])
  have htracks := h.tracks.step hall hshaped hstep
  have hstop : (r.spot.advance l.text).mark.offset = byteLength (textOf (done ++ [l])) := by
    simp [h.tracks.offset_eq]
  have hnested := h.nested
  cases hstep with
  | skip hidle htoken =>
    rw [pending_of_idle hidle] at hnested
    refine ⟨htracks, ?_, h.closed⟩
    rw [pending_of_idle (by exact hidle)]
    apply hnested.quiet
    · rcases htoken with htoken | htoken <;> rw [htoken] <;> rfl
    · rcases htoken with htoken | htoken <;> simp [htoken]
  | comment hidle text htoken =>
    rw [pending_of_idle hidle] at hnested
    refine ⟨htracks, ?_, ?_⟩
    · rw [pending_of_idle (by exact hidle)]
      exact hnested.quiet (by rw [htoken]; rfl) (by simp [htoken])
    · intro node hnode hblock
      rw [nodes_moved, push, allNodes_cons, Node.children, allNodes_nil] at hnode
      rcases List.mem_cons.1 hnode with rfl | hnode
      · cases hblock
      · exact allClosed_flush h.closed _ node hnode hblock
  | atWord hidle name htoken =>
    rw [pending_of_idle hidle] at hnested
    refine ⟨htracks, ?_, allClosed_flush h.closed _⟩
    exact hnested.quiet (by rw [htoken]; rfl) (by simp [htoken])
  | start hidle htoken =>
    rw [pending_of_idle hidle] at hnested
    refine ⟨htracks, ?_, allClosed_flush h.closed _⟩
    -- a prelude begins as an empty one that goes on
    have hempty : Nested t done (Prelude.empty .other r.spot.mark).pending r.frames := hnested
    exact hempty.next (ends_empty htoken _ _) hfit
  | close hidle htoken f outer hframes =>
    obtain rfl := closingBrace_of_lexemes hall htoken
    rw [pending_of_idle hidle, hframes] at hnested
    obtain ⟨hopen, hrest⟩ := hnested.leave
    refine ⟨htracks, ?_, allClosed_closeBlock h.closed hopen hall outer _ hstop⟩
    rw [pending_of_idle (by exact hidle)]
    exact hrest
  | proceed p hprelude hcontinues =>
    rw [pending_of_some hprelude] at hnested
    exact ⟨htracks, hnested.next hcontinues hfit, h.closed⟩
  | finish p hprelude hended htoken =>
    rw [pending_of_ends hprelude hended] at hnested
    refine ⟨htracks, ?_, allClosed_endStatement h.closed p _⟩
    exact hnested.quiet (by rw [htoken]; rfl) (by simp [htoken])
  | enter p hprelude hended htoken =>
    obtain rfl := openingBrace_of_lexemes hall htoken
    rw [pending_of_ends hprelude hended] at hnested
    refine ⟨htracks, hnested.enter ⟨⟨done, [], rfl, ?_, rfl⟩, h.closed⟩, ?_⟩
    · obtain ⟨before, lead, ls, rfl, hat⟩ := h.tracks.prelude_at p hprelude
      have hsize : '{'.utf8Size = 1 := by decide
      rw [(hat.openedBy hended rfl r.nodes).bodyIn_eq hall]
      simp [openingBrace, hsize, Nat.add_assoc]
    · simp [AllClosed, openBlock]
  | leave p hprelude hended htoken f outer hframes =>
    obtain rfl := closingBrace_of_lexemes hall htoken
    rw [pending_of_ends hprelude hended, hframes] at hnested
    obtain ⟨hopen, hrest⟩ := hnested.leave
    refine ⟨htracks, hrest, ?_⟩
    exact allClosed_closeBlock (allClosed_endStatement h.closed p _) hopen hall outer _ hstop

/-- Where no block is open at the end, all blocks of the stylesheet are closed. -/
theorem allClosed_finish (h : AllClosed t r.nodes) (hframes : r.frames = []) :
    AllClosed t r.finish := by
  unfold finish
  split
  · rw [hframes]
    intro node hnode
    rw [closeAll, mem_allNodes_reverse] at hnode
    exact allClosed_flush h _ node hnode
  · next p hprelude =>
    rw [hframes]
    intro node hnode
    rw [closeAll, mem_allNodes_reverse] at hnode
    exact allClosed_flush (allClosed_endStatement h p _) _ node hnode

end Steps

end Reader

/-! ## Whole stylesheets -/

/-- A stylesheet that is blanked out and refused is refused while its lexemes are read. -/
theorem read_eq_error_of_parse {source : Text} {m : Masked} {fault : Fault}
    (hmasked : Masked.ofSource source = .ok m) (h : parse source = .error fault) :
    (lexemes m.text).foldlM Reader.step (Reader.start m.comments) = .error fault := by
  have hparse : parse source = (lexemes m.text).foldlM Reader.step (Reader.start m.comments) >>=
      fun r => pure r.finish := by
    unfold parse
    rw [hmasked]
    rfl
  rw [hparse] at h
  cases hread : (lexemes m.text).foldlM Reader.step (Reader.start m.comments) with
  | ok r =>
    rw [hread] at h
    cases h
  | error fault' =>
    rw [hread] at h
    exact congrArg Except.error (Except.error.inj h)

/-- A node that is closed ends with a brace in the source too. -/
theorem Node.ClosedIn.slice_eq {source : Text} {m : Masked} {node : Node}
    (h : node.ClosedIn m.text) (hmasked : Masked.ofSource source = .ok m) :
    source.slice (node.span.stop - 1) node.span.stop = ['}'] := by
  obtain ⟨before, body, rest, hall, -, hstop, -⟩ := h
  rw [Masked.eq_of_ofSource hmasked, ← List.cons_append, ← List.append_assoc] at hall
  obtain ⟨lead, after, hsource, hlength⟩ := exists_text_of_masked (text_eq_of_lexemes hall)
    (by decide)
  have hend : node.span.stop = byteLength lead + byteLength ['}'] := by
    rw [hstop, hlength]
    simp [closingBrace, Nat.add_assoc]
  have hsplit : source = lead ++ ['}'] ++ after := by
    rw [← flatMap_pieces source, hsource]
    simp
  have hone : byteLength ['}'] = 1 := by decide
  have hstart : node.span.stop - 1 = byteLength lead := by omega
  rw [hstart, hend, hsplit, slice_append]

/-- The braces of an accepted stylesheet are balanced among its tokens, where the tokens have the
addresses of the pieces and no string is cut off. -/
theorem braceDepth?_of_agree {source : Text} {m : Masked} (hmasked : Masked.ofSource source = .ok m)
    (hagree : Agree 0 (pieces source) m.text) :
    braceDepth? 0 ((lexemes m.text).filterMap Lexeme.brace?) = some 0 := by
  cases hfault : faultFrom .start [] (pieces source) with
  | some fault => simp [Masked.ofSource, hfault] at hmasked
  | none =>
    obtain ⟨hwhole, hdepth⟩ := of_faultFrom_eq_none hfault
    rw [Masked.eq_of_ofSource hmasked] at hagree ⊢
    rw [filterMap_brace?_eq (allCut_pieces source) hwhole hagree]
    exact hdepth

/-- Where the scanners agree and every brace fits, no brace is stray, and every block ends with
its own brace. -/
theorem ownBraces_of_agree {source : Text} {m : Masked} (hmasked : Masked.ofSource source = .ok m)
    (hagree : Agree 0 (pieces source) m.text) (hfit : bracesFit [] (lexemes m.text) = true) :
    (∀ fault, parse source = .error fault → fault.cause ≠ .strayBrace) ∧
      ∀ nodes, parse source = .ok nodes → ∀ node ∈ allNodes nodes, node.hasBlock = true →
        node.ClosedIn m.text ∧ source.slice (node.span.stop - 1) node.span.stop = ['}'] := by
  have hdepth := braceDepth?_of_agree hmasked hagree
  obtain ⟨hcount, hclosing⟩ := of_bracesFit hfit hdepth
  have hstep : ∀ (done : List Lexeme) (l : Lexeme) rest (r₁ r₂ : Reader), lexemes m.text = done ++ l :: rest →
      r₁.Closing m.text done → r₁.Step l r₂ → r₂.Closing m.text (done ++ [l]) := by
    intro done l rest r₁ r₂ hall hdone hstep
    exact hdone.step hall (hclosing done l rest hall) hstep
  have hstart := Reader.closing_start m.text m.comments
  constructor
  · intro fault hparse hcause
    have hread := read_eq_error_of_parse hmasked hparse
    obtain ⟨done, l, rest, r, hall, hr, herror⟩ := Reader.exists_step_eq_error hstart hstep hread
    obtain ⟨htoken, hpending, hframes⟩ := Reader.of_strayBrace herror hcause
    have hhead : (openBrackets done).head? = some .curly := hclosing done l rest hall htoken
    rw [hr.nested.brackets, hpending, hframes] at hhead
    cases hhead
  · intro nodes hparse node hnode hblock
    obtain ⟨m', r, hmasked', hread, rfl⟩ := exists_read_of_parse hparse
    obtain rfl : m = m' := Except.ok.inj (hmasked.symm.trans hmasked')
    have hr : r.Closing m.text (lexemes m.text) := Reader.read_induction hstart hstep hread
    have hframes : r.frames = [] := by
      change (openBrackets (lexemes m.text)).count .curly = 0 at hcount
      rw [hr.nested.brackets, List.count_append] at hcount
      have hnone : (r.frames.map fun _ => Bracket.curly).count .curly = 0 := by omega
      simpa using hnone
    have hclosed := Reader.allClosed_finish hr.closed hframes node hnode hblock
    exact ⟨hclosed, hclosed.slice_eq hmasked⟩

/-- Braces in an interpolation, an address, a string and a line comment. -/
theorem ownBraces_of_agree_nested :
    ∃ (source : Text) (m : Masked) (nodes : List Node), source =
        "@b (x) \x7b .a#\x7b$c\x7d \x7b d: url(\x7d) (\"\x7d\"); // \x7d\n\x7d \x7d".toList ∧
      Masked.ofSource source = .ok m ∧ Agree 0 (pieces source) m.text ∧
      bracesFit [] (lexemes m.text) = true ∧ parse source = .ok nodes ∧
      ∀ node ∈ allNodes nodes, node.hasBlock = true → node.ClosedIn m.text ∧
        source.slice (node.span.stop - 1) node.span.stop = ['}'] := by
  have hok : (parse
      "@b (x) \x7b .a#\x7b$c\x7d \x7b d: url(\x7d) (\"\x7d\"); // \x7d\n\x7d \x7d".toList).isOk =
        true := by
    decide +kernel
  obtain ⟨nodes, hparse⟩ := exists_of_isOk hok
  obtain ⟨m, hmasked, -⟩ := exists_of_bind_eq_ok hparse
  have htext := congrArg Masked.text (Masked.eq_of_ofSource hmasked)
  refine ⟨_, m, nodes, rfl, hmasked, ?agree, ?fit, hparse,
    (ownBraces_of_agree hmasked ?agree ?fit).2 nodes hparse⟩
  case agree =>
    rw [htext]
    constructor
    · decide +kernel
    · decide +kernel
  case fit =>
    rw [htext]
    decide +kernel

end ClassHints.Sheet
