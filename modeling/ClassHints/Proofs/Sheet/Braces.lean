import ClassHints.Proofs.Sheet.Agreement

/-!
# The braces that two scanners see

Braces are counted among the pieces of a stylesheet, but blocks are formed from its tokens. Where
the two scanners agree, they see the same braces. Both stand at the same place again and again:
strings, comments and addresses are cut alike, and a token that covers many pieces is calm, so
that none of these pieces is a brace.
-/

namespace ClassHints.Sheet

open Text

/-! ## Calm text -/

/-- A line comment is masked by as many blanks as it has bytes. -/
theorem masked_lineComment (text : Text) :
    (Piece.mk .lineComment ('/' :: text)).masked = ' ' :: List.replicate (byteLength text) ' ' := by
  have hslash : '/'.utf8Size = 1 := by decide
  rw [Piece.masked, byteLength_cons, hslash, Nat.add_comm, List.replicate_succ]

/-- A calm character starts a piece that is no brace and holds nothing else but blanks. -/
theorem Piece.CutAt.of_calm {rest t u : Text} {p : Piece} {c : Char} (h : p.CutAt rest)
    (hbroken : ∀ cause, p.kind ≠ .broken cause) (haddress : p.isAddress = false)
    (htext : p.masked ++ t = c :: u) (hc : isCalm c = true) :
    p.brace? = none ∧ ∃ b, p.masked = c :: b ∧ ∀ d ∈ b, isSpacing d = true := by
  have hclash {d : Char} {s : Text} (hd : isCalm d = false) (hs : d :: s = c :: u) : False := by
    obtain ⟨rfl, -⟩ := List.cons.inj hs
    rw [hc] at hd
    cases hd
  cases h with
  | address p _ htrue =>
    rw [haddress] at htrue
    cases htrue
  | escape escaped => exact (hclash (by decide) htext).elim
  | string quote body hquote =>
    rcases hquote with rfl | rfl <;> exact (hclash (by decide) htext).elim
  | comment body => exact (hclash (by decide) htext).elim
  | lineComment text =>
    rw [masked_lineComment] at htext ⊢
    obtain ⟨rfl, -⟩ := List.cons.inj htext
    refine ⟨rfl, _, rfl, ?_⟩
    intro d hd
    rw [List.eq_of_mem_replicate hd]
    decide
  | opening => exact (hclash (by decide) htext).elim
  | closing => exact (hclash (by decide) htext).elim
  | single d =>
    obtain ⟨rfl, -⟩ := List.cons.inj htext
    exact ⟨rfl, [], rfl, by simp⟩
  | broken cause => exact absurd rfl (hbroken cause)

/-- A backslash starts an escape. -/
theorem Piece.CutAt.of_backslash {rest t u : Text} {p : Piece} (h : p.CutAt rest)
    (hbroken : ∀ cause, p.kind ≠ .broken cause) (htext : p.masked ++ t = '\\' :: u) :
    ∃ escaped : Text, p = ⟨.plain, '\\' :: escaped⟩ ∧ escaped.length ≤ 1 ∧
      (escaped = [] → rest = []) := by
  have hclash {d : Char} {s : Text} (hd : d ≠ '\\') (hs : d :: s = '\\' :: u) : False :=
    hd (List.cons.inj hs).1
  cases h with
  | address p hplain haddress =>
    obtain ⟨kind, text⟩ := p
    obtain rfl : kind = .plain := hplain
    unfold Piece.isAddress at haddress
    split at haddress
    · next c d s heq =>
      obtain rfl : text = c :: d :: s := heq
      obtain ⟨rfl, -⟩ := List.cons.inj htext
      exact absurd haddress (by decide)
    · cases haddress
  | escape escaped hshort hlast => exact ⟨escaped, rfl, hshort, hlast⟩
  | string quote body hquote =>
    rcases hquote with rfl | rfl <;> exact (hclash (by decide) htext).elim
  | comment body => exact (hclash (by decide) htext).elim
  | lineComment text =>
    rw [masked_lineComment] at htext
    exact (hclash (by decide) htext).elim
  | opening => exact (hclash (by decide) htext).elim
  | closing => exact (hclash (by decide) htext).elim
  | single d hshort =>
    obtain ⟨rfl, -⟩ := List.cons.inj htext
    exact absurd hshort (by decide)
  | broken cause => exact absurd rfl (hbroken cause)

/-- Where a backslash stands, the next piece is an escape. -/
theorem AllCut.of_backslash {ps : List Piece} {b u : Text} (h : AllCut ps)
    (hbroken : ∀ p ∈ ps, ∀ cause, p.kind ≠ .broken cause) (hb : ∀ c ∈ b, isSpacing c = true)
    (htext : b ++ ps.flatMap Piece.masked = '\\' :: u) :
    b = [] ∧ ∃ escaped rest, ps = ⟨.plain, '\\' :: escaped⟩ :: rest ∧ AllCut rest ∧
      u = escaped ++ rest.flatMap Piece.masked ∧ escaped.length ≤ 1 ∧
      (escaped = [] → u = []) := by
  cases b with
  | cons c b =>
    obtain ⟨rfl, -⟩ := List.cons.inj htext
    exact absurd (hb '\\' (by simp)) (by decide)
  | nil =>
    refine ⟨rfl, ?_⟩
    cases h with
    | nil => cases htext
    | @cons p ps cut hrest =>
      rw [List.nil_append, List.flatMap_cons] at htext
      obtain ⟨escaped, rfl, hshort, hlast⟩ := cut.of_backslash (hbroken p (by simp)) htext
      have hu : u = escaped ++ ps.flatMap Piece.masked := (List.cons.inj htext).2.symm
      refine ⟨escaped, ps, rfl, hrest, hu, hshort, ?_⟩
      rintro rfl
      have hlength := byteLength_flatMap_masked ps
      rw [hlast rfl, byteLength_nil] at hlength
      cases hmasked : ps.flatMap Piece.masked with
      | nil => rw [hu, hmasked, List.append_nil]
      | cons c v =>
        have hpos := byteLength_pos (t := ps.flatMap Piece.masked) (by simp [hmasked])
        omega

/-- An escape is no address. -/
theorem isAddress_escape (escaped : Text) : (Piece.mk .plain ('\\' :: escaped)).isAddress = false := by
  cases escaped with
  | nil => rfl
  | cons c escaped => rfl

/-- What the pieces write behind the blanks `b` has no address in its part `w`. -/
def AddressesBehind (ps : List Piece) (b w : Text) : Prop :=
  ∀ before p after, ps = before ++ p :: after → p.isAddress = true →
    byteLength w ≤ byteLength (b ++ before.flatMap Piece.masked)

namespace AddressesBehind

variable {p : Piece} {ps : List Piece} {b w : Text}

/-- A blank that is passed leaves the addresses behind the rest. -/
theorem blank {d : Char} (h : AddressesBehind ps (d :: b) (d :: w)) : AddressesBehind ps b w := by
  intro before q after hps hq
  have hle := h before q after hps hq
  simp only [List.cons_append, byteLength_cons] at hle
  omega

/-- The first piece of a text without addresses is none. -/
theorem isAddress_eq {c : Char} (h : AddressesBehind (p :: ps) [] (c :: w)) :
    p.isAddress = false := by
  by_contra hp
  have hle := h [] p ps rfl (Bool.not_eq_false _ ▸ hp)
  have hpos := c.utf8Size_pos
  simp only [byteLength_cons, List.flatMap_nil, List.append_nil, byteLength_nil] at hle
  omega

/-- A piece that is passed leaves the addresses behind the rest. -/
theorem tail {lead : Text} (h : AddressesBehind (p :: ps) [] (lead ++ w))
    (hmasked : p.masked = lead ++ b) : AddressesBehind ps b w := by
  intro before q after hps hq
  have hle := h (p :: before) q after (by rw [hps, List.cons_append]) hq
  rw [List.nil_append, List.flatMap_cons, hmasked] at hle
  simp only [byteLength_append] at hle ⊢
  omega

end AddressesBehind

/-- The blanks `b` and the first pieces, neither braces nor addresses, write the text `w`, but for
blanks that the last of these pieces leaves. -/
def CutsCalm (ps : List Piece) (b w : Text) : Prop :=
  ∃ before rest left, ps = before ++ rest ∧ b ++ before.flatMap Piece.masked = w ++ left ∧
    (∀ c ∈ left, isSpacing c = true) ∧ ∀ p ∈ before, p.brace? = none ∧ p.isAddress = false

namespace CutsCalm

variable {p : Piece} {ps : List Piece} {b w : Text}

/-- No text is written by the blanks alone. -/
theorem nil (hb : ∀ c ∈ b, isSpacing c = true) : CutsCalm ps b [] :=
  ⟨[], ps, b, rfl, by simp, hb, by simp⟩

/-- One blank more. -/
theorem blank (d : Char) (h : CutsCalm ps b w) : CutsCalm ps (d :: b) (d :: w) := by
  obtain ⟨before, rest, left, hps, heq, hleft, hplain⟩ := h
  exact ⟨before, rest, left, hps, by rw [List.cons_append, heq, List.cons_append], hleft, hplain⟩

/-- One piece more, whose blanks stand before the rest. -/
theorem cons {lead : Text} (h : CutsCalm ps b w) (hbrace : p.brace? = none)
    (haddress : p.isAddress = false) (hmasked : p.masked = lead ++ b) :
    CutsCalm (p :: ps) [] (lead ++ w) := by
  obtain ⟨before, rest, left, hps, heq, hleft, hplain⟩ := h
  refine ⟨p :: before, rest, left, by rw [hps, List.cons_append], ?_, hleft, ?_⟩
  · rw [List.nil_append, List.flatMap_cons, hmasked, List.append_assoc, heq, List.append_assoc]
  · exact List.forall_mem_cons.2 ⟨⟨hbrace, haddress⟩, hplain⟩

end CutsCalm

/-- Calm text in which no address starts is cut into pieces that are neither braces nor addresses,
but for blanks that the last of them may have left. -/
theorem cutsCalm_of_calm {w : Text} {dangling : Bool} (hw : Calm w dangling)
    {ps : List Piece} (hcut : AllCut ps) (hbroken : ∀ p ∈ ps, ∀ cause, p.kind ≠ .broken cause)
    {b v : Text} (hb : ∀ c ∈ b, isSpacing c = true)
    (htext : b ++ ps.flatMap Piece.masked = w ++ v)
    (hend : dangling = true → ∀ c ∈ v.head?, isSpacing c = true)
    (haddress : AddressesBehind ps b w) : CutsCalm ps b w := by
  -- the induction is on the calm text; `b` are the blanks left of the piece that it has reached
  induction hw generalizing ps b with
  | nil => exact .nil hb
  | @char c w dangling hc _ ih =>
    cases b with
    | cons d b =>
      obtain ⟨rfl, htail⟩ := List.cons.inj htext
      exact (ih hcut hbroken (fun e he => hb e (by simp [he])) htail hend haddress.blank).blank d
    | nil =>
      cases hcut with
      | nil => cases htext
      | @cons p ps cut hrest =>
        rw [List.nil_append, List.flatMap_cons, List.cons_append] at htext
        obtain ⟨hbrace, b, hmasked, hb⟩ :=
          cut.of_calm (hbroken p (by simp)) haddress.isAddress_eq htext hc
        rw [hmasked, List.cons_append] at htext
        have hlead : p.masked = [c] ++ b := hmasked
        have hcalm := ih hrest (fun q hq => hbroken q (by simp [hq])) hb (List.cons.inj htext).2
          hend (haddress.tail hlead)
        exact hcalm.cons hbrace haddress.isAddress_eq hlead
  | @escape c w dangling _ ih =>
    obtain ⟨rfl, escaped, rest, rfl, hrest, hu, hshort, hlast⟩ := hcut.of_backslash hbroken hb htext
    match escaped, hshort with
    | [], _ => cases hlast rfl
    | [d], _ =>
      obtain ⟨rfl, htail⟩ := List.cons.inj hu
      have hlead : (Piece.mk .plain ['\\', c]).masked = ['\\', c] ++ [] := rfl
      have hcalm := ih hrest (fun q hq => hbroken q (by simp [hq])) (by simp) htail.symm hend
        (haddress.tail hlead)
      exact hcalm.cons rfl (isAddress_escape _) hlead
  | dangling =>
    -- the backslash takes one blank of what follows with it, or the text ends there
    obtain ⟨rfl, escaped, rest, rfl, hrest, hu, hshort, -⟩ := hcut.of_backslash hbroken hb htext
    have hescaped : ∀ c ∈ escaped, isSpacing c = true := by
      intro c hc
      match escaped, hshort with
      | [d], _ =>
        obtain rfl := List.mem_singleton.1 hc
        have hv : v = c :: rest.flatMap Piece.masked := hu
        exact hend rfl c (by rw [hv]; rfl)
    have hlead : (Piece.mk .plain ('\\' :: escaped)).masked = ['\\'] ++ escaped := rfl
    exact (CutsCalm.nil hescaped).cons rfl (isAddress_escape _) hlead

/-! ## The same braces -/

/-- No brace starts like an address. -/
theorem Token.ReadAt.of_brace {c : Char} {u : Text} {token : Token} {n : Nat}
    (h : ReadAt c u token n) (hbrace : token = .opening .curly ∨ token = .closing .curly) :
    c.toLower ≠ 'u' := by
  cases h with
  | punctuation token hself =>
    unfold punctuation? at hself
    split at hself
    case h_8 => cases hself
    all_goals decide
  | identifier =>
    rcases identifierToken_fst (c :: u) with hident | hident <;> rw [hident] at hbrace <;>
      simp at hbrace
  | string =>
    split at hbrace <;> simp at hbrace
  | _ => simp at hbrace

section Steps

variable {offset : Nat} {p : Piece} {ps : List Piece}

/-- Where the next piece is no address, neither is the next lexeme. -/
theorem Agree.of_not_address {t : Text} (h : Agree offset (p :: ps) t) (hp : p.isAddress = false)
    (htext : p.text ≠ []) : startsAddress t = false := by
  cases ht : startsAddress t with
  | false => rfl
  | true =>
    cases hl : lexemes t with
    | nil =>
      have hnil := flatMap_lexemes t
      rw [hl, List.flatMap_nil] at hnil
      rw [← hnil] at ht
      cases ht
    | cons l ls =>
      have hstart : (l :: ls).flatMap Lexeme.text = t := by rw [← hl, flatMap_lexemes]
      have haddresses := h.addresses
      rw [hl, addressLexemes_cons, hstart, ht, if_pos rfl, addressPieces_cons, if_neg (by simp [hp])]
        at haddresses
      have hmem : (offset, l.text) ∈ addressPieces (offset + byteLength p.text) ps := by
        rw [haddresses]
        simp
      have hle := le_of_mem_markedFrom hmem
      have hpos := byteLength_pos htext
      dsimp only at hle
      omega

/-- Where the next piece is an address, the next lexeme is the same address. -/
theorem Agree.of_address {t : Text} (h : Agree offset (p :: ps) (p.text ++ t))
    (hp : p.isAddress = true) : startsAddress (p.text ++ t) = true ∧
      ∃ l, lexemes (p.text ++ t) = l :: lexemes t ∧ l.text = p.text ∧ l.brace? = none := by
  obtain ⟨c, d, u, htext, hc⟩ : ∃ c d u, p.text = c :: d :: u ∧ c.toLower = 'u' := by
    unfold Piece.isAddress at hp
    split at hp
    · next c d u htext => exact ⟨c, d, u, htext, by simpa using hp⟩
    · cases hp
  have hwhole : p.text ++ t = c :: (d :: u ++ t) := by rw [htext]; rfl
  have hlexemes := lexemes_cons c (d :: u ++ t)
  have hread := Token.readAt_front c (d :: u ++ t)
  generalize Token.front c (d :: u ++ t) = found at hlexemes hread
  have haddresses := h.addresses
  have hback : (⟨found.1, c :: (d :: u ++ t).take (found.2 - 1)⟩ ::
      lexemes ((d :: u ++ t).drop (found.2 - 1)) : List Lexeme).flatMap Lexeme.text =
        p.text ++ t := by
    rw [← hlexemes, flatMap_lexemes, hwhole]
  rw [addressPieces_cons, if_pos hp, hwhole, hlexemes, addressLexemes_cons, hback] at haddresses
  split at haddresses
  · next hstart =>
    have hsame : p.text = c :: (d :: u ++ t).take (found.2 - 1) :=
      (Prod.mk.inj (List.cons.inj haddresses).1).2
    have hrest : (d :: u ++ t).drop (found.2 - 1) = t := by
      have hcancel : p.text ++ (d :: u ++ t).drop (found.2 - 1) = p.text ++ t := by
        rw [hwhole]
        nth_rewrite 1 [hsame]
        rw [List.cons_append, List.take_append_drop]
      exact List.append_cancel_left hcancel
    rw [hrest] at hlexemes
    refine ⟨hstart, _, by rw [hwhole, hlexemes], hsame.symm, ?_⟩
    unfold Lexeme.brace?
    split
    · next htoken => exact absurd hc (hread.of_brace (Or.inl htoken))
    · next htoken => exact absurd hc (hread.of_brace (Or.inr htoken))
    · rfl
  · have hmem : (offset, p.text) ∈ addressLexemes (offset + byteLength
        (c :: (d :: u ++ t).take (found.2 - 1))) (lexemes ((d :: u ++ t).drop (found.2 - 1))) := by
      rw [← haddresses]
      simp
    have hle := le_of_mem_markedFrom hmem
    have hpos := c.utf8Size_pos
    dsimp only at hle
    rw [byteLength_cons] at hle
    omega

end Steps

/-! ## The next place where both scanners stand -/

/-- Both scanners come to stand behind some of the pieces, and have seen the same braces until
there. -/
def Resumes (ps : List Piece) : Prop :=
  ∃ before rest offset, ps = before ++ rest ∧ before ≠ [] ∧
    Agree offset rest (rest.flatMap Piece.masked) ∧
    (lexemes (ps.flatMap Piece.masked)).filterMap Lexeme.brace? =
      before.filterMap Piece.brace? ++
        (lexemes (rest.flatMap Piece.masked)).filterMap Lexeme.brace?

section Resuming

variable {offset : Nat} {p : Piece} {ps : List Piece}

/-- A piece that is a lexeme by itself. -/
theorem resumes_of_lexeme {l : Lexeme} (h : Agree offset (p :: ps) ((p :: ps).flatMap Piece.masked))
    (hlexemes : lexemes ((p :: ps).flatMap Piece.masked) = l :: lexemes (ps.flatMap Piece.masked))
    (htext : l.text = p.text) (hbrace : l.brace? = p.brace?)
    (haddress : p.isAddress = startsAddress ((p :: ps).flatMap Piece.masked)) :
    Resumes (p :: ps) := by
  refine ⟨[p], ps, offset + byteLength p.text, rfl, by simp, ⟨?_, ?_⟩, ?_⟩
  · intro l' hl'
    apply h.strings
    rw [hlexemes]
    exact List.mem_cons_of_mem _ hl'
  · have haddresses := h.addresses
    have hstart : (l :: lexemes (ps.flatMap Piece.masked)).flatMap Lexeme.text =
        (p :: ps).flatMap Piece.masked := by
      rw [← hlexemes, flatMap_lexemes]
    rw [hlexemes, addressPieces_cons, addressLexemes_cons, hstart, htext, haddress] at haddresses
    split at haddresses
    · exact (List.cons.inj haddresses).2
    · exact haddresses
  · rw [hlexemes, List.filterMap_cons, List.filterMap_cons, hbrace]
    cases p.brace? <;> rfl

/-- A piece that leaves only blanks. -/
theorem resumes_of_blanks (h : Agree offset (p :: ps) ((p :: ps).flatMap Piece.masked))
    (hmasked : ∀ c ∈ p.masked, isSpacing c = true) (hbrace : p.brace? = none)
    (haddress : p.isAddress = false) : Resumes (p :: ps) := by
  have haddresses := h.addresses
  rw [addressPieces_cons, if_neg (by simp [haddress]), ← p.byteLength_masked, List.flatMap_cons]
    at haddresses
  have hstrings := h.strings
  rw [List.flatMap_cons] at hstrings
  refine ⟨[p], ps, offset + byteLength p.masked, rfl, by simp, ?_, ?_⟩
  · exact .of_spacing hmasked hstrings haddresses
  · rw [List.flatMap_cons, filterMap_brace?_spacing hmasked, List.filterMap_cons_none hbrace]
    rfl

/-- A calm lexeme, which may cover many pieces. -/
theorem resumes_of_calm (hcut : AllCut (p :: ps))
    (hbroken : ∀ q ∈ p :: ps, ∀ cause, q.kind ≠ .broken cause)
    (h : Agree offset (p :: ps) ((p :: ps).flatMap Piece.masked)) {c : Char} {u : Text}
    (htext : (p :: ps).flatMap Piece.masked = c :: u) (hc : startsCalm c = true)
    (hstart : startsAddress ((p :: ps).flatMap Piece.masked) = false) : Resumes (p :: ps) := by
  have hread := Token.readAt_front c u
  rw [htext] at hstart
  obtain ⟨hopening, hclosing, dangling, hcalm, hend⟩ := hread.calm hc hstart
  have hlexemes := lexemes_cons c u
  generalize hn : (Token.front c u).2 - 1 = n at hcalm hend hlexemes
  have hsplit : c :: u = (c :: u.take n) ++ u.drop n := by
    rw [List.cons_append, List.take_append_drop]
  have haddresses := h.addresses
  have hwhole : (⟨(Token.front c u).1, c :: u.take n⟩ :: lexemes (u.drop n) : List Lexeme).flatMap
      Lexeme.text = c :: u := by
    rw [← hlexemes, flatMap_lexemes]
  rw [htext, hlexemes, addressLexemes_cons, hwhole, hstart, if_neg (by simp)] at haddresses
  have hlong : AddressesBehind (p :: ps) [] (c :: u.take n) := by
    intro before q after hps hq
    have hmem := mem_addressPieces hq offset before after
    rw [← hps, haddresses] at hmem
    have hle := le_of_mem_markedFrom hmem
    dsimp only at hle
    rw [List.nil_append, byteLength_flatMap_masked]
    omega
  obtain ⟨before, rest, left, hps, heq, hleft, hplain⟩ : CutsCalm (p :: ps) [] (c :: u.take n) :=
    cutsCalm_of_calm hcalm hcut hbroken (by simp) (by rw [List.nil_append, htext, hsplit]) hend
      hlong
  have hbehind : u.drop n = left ++ rest.flatMap Piece.masked := by
    rw [List.nil_append] at heq
    rw [hps, List.flatMap_append, heq, hsplit, List.append_assoc] at htext
    exact (List.append_cancel_left htext).symm
  have hnone : (Lexeme.mk (Token.front c u).1 (c :: u.take n)).brace? = none := by
    unfold Lexeme.brace?
    split
    · next htoken => exact absurd htoken hopening
    · next htoken => exact absurd htoken hclosing
    · rfl
  rw [hbehind] at hlexemes haddresses
  refine ⟨before, rest, offset + byteLength (c :: u.take n) + byteLength left, hps, ?_, ?_, ?_⟩
  · rintro rfl
    cases heq
  · apply Agree.of_spacing hleft
    · intro l hl
      apply h.strings
      rw [htext, hlexemes]
      exact List.mem_cons_of_mem _ hl
    · have hlength := congrArg byteLength heq
      rw [List.nil_append, byteLength_flatMap_masked, byteLength_append] at hlength
      rw [hps, addressPieces_append, addressPieces_eq_nil fun q hq => (hplain q hq).2,
        List.nil_append, hlength, ← Nat.add_assoc] at haddresses
      exact haddresses
  · have hbefore : before.filterMap Piece.brace? = [] :=
      List.filterMap_eq_nil_iff.2 fun q hq => (hplain q hq).1
    rw [htext, hlexemes, List.filterMap_cons_none hnone, filterMap_brace?_spacing hleft, hbefore,
      List.nil_append]

/-- Whatever the next piece is, the scanners meet again. -/
theorem resumes (hcut : AllCut (p :: ps)) (hbroken : ∀ q ∈ p :: ps, ∀ cause, q.kind ≠ .broken cause)
    (h : Agree offset (p :: ps) ((p :: ps).flatMap Piece.masked)) : Resumes (p :: ps) := by
  have hcut' := hcut
  cases hcut' with
  | cons cut hrest =>
    cases cut with
    | address p hplain haddress =>
      have hmasked : p.masked = p.text := by simp [Piece.masked, hplain]
      have htext : (p :: ps).flatMap Piece.masked = p.text ++ ps.flatMap Piece.masked := by
        rw [List.flatMap_cons, hmasked]
      have h' := h
      rw [htext] at h'
      obtain ⟨hstart, l, hlexemes, hl, hbrace⟩ := h'.of_address haddress
      rw [← htext] at hlexemes hstart
      refine resumes_of_lexeme h hlexemes hl ?_ (haddress.trans hstart.symm)
      rw [hbrace]
      simp [Piece.brace?, hplain]
    | escape escaped hshort hlast =>
      refine resumes_of_calm hcut hbroken h rfl (by decide) ?_
      exact h.of_not_address (isAddress_escape escaped) (by simp)
    | string quote body hquote hend =>
      -- a string of the pieces is whole for the tokens too, since none of them is cut off
      have hlexemes : lexemes (quote :: (body ++ ps.flatMap Piece.masked)) =
          ⟨.plain, quote :: body⟩ :: lexemes (ps.flatMap Piece.masked) := by
        apply lexemes_append
        · apply front_string hquote hend
          have hfirst := h.strings
          change ∀ l ∈ lexemes (quote :: (body ++ ps.flatMap Piece.masked)), _ at hfirst
          rw [lexemes_cons] at hfirst
          exact hfirst _ List.mem_cons_self
        · rfl
      refine resumes_of_lexeme h hlexemes rfl rfl ?_
      rcases hquote with rfl | rfl <;> cases body <;> rfl
    | comment body hinner =>
      have hlexemes : lexemes ('/' :: ('*' :: (body ++ ['*', '/']) ++ ps.flatMap Piece.masked)) =
          ⟨.comment body, '/' :: '*' :: (body ++ ['*', '/'])⟩ ::
            lexemes (ps.flatMap Piece.masked) := by
        apply lexemes_append (n := body.length + 4)
        · have hfront := front_comment hinner (ps.flatMap Piece.masked)
          simpa using hfront
        · simp
      exact resumes_of_lexeme h hlexemes rfl rfl rfl
    | lineComment text =>
      refine resumes_of_blanks h ?_ rfl ?_
      · rw [masked_lineComment, ← List.replicate_succ]
        intro c hc
        rw [List.eq_of_mem_replicate hc]
        decide
      · cases text <;> rfl
    | opening =>
      have hlexemes : lexemes ('{' :: ([] ++ ps.flatMap Piece.masked)) =
          ⟨.opening .curly, ['{']⟩ :: lexemes (ps.flatMap Piece.masked) := lexemes_append rfl rfl
      exact resumes_of_lexeme h hlexemes rfl rfl rfl
    | closing =>
      have hlexemes : lexemes ('}' :: ([] ++ ps.flatMap Piece.masked)) =
          ⟨.closing .curly, ['}']⟩ :: lexemes (ps.flatMap Piece.masked) := lexemes_append rfl rfl
      exact resumes_of_lexeme h hlexemes rfl rfl rfl
    | single c hshort hcomment =>
      by_cases hspacing : isSpacing c = true
      · refine resumes_of_blanks h ?_ rfl rfl
        intro d hd
        rw [List.mem_singleton.1 hd]
        exact hspacing
        -- what starts no longer piece is blank, calm, or a slash with no star behind it
      · by_cases hslash : c = '/'
        · have hstar := head?_masked_ne (hcomment hslash) (by decide)
          subst hslash
          have hlexemes : lexemes ('/' :: ([] ++ ps.flatMap Piece.masked)) =
              ⟨.plain, ['/']⟩ :: lexemes (ps.flatMap Piece.masked) :=
            lexemes_append (front_slash hstar) rfl
          exact resumes_of_lexeme h hlexemes rfl rfl rfl
        · refine resumes_of_calm hcut hbroken h rfl ?_ (h.of_not_address rfl (by simp))
          have hcalm : isCalm c = true := by
            simp [startsLongPiece] at hshort
            simp [isCalm, hshort, hslash]
          simp [startsCalm, hspacing, hcalm]
    | broken cause text => exact absurd rfl (hbroken ⟨.broken cause, text⟩ (by simp) cause)

end Resuming

/-- Where the addresses agree and no string is cut off, the tokens have the braces of the
pieces. -/
theorem filterMap_brace?_eq {ps : List Piece} (hcut : AllCut ps)
    (hbroken : ∀ p ∈ ps, ∀ cause, p.kind ≠ .broken cause) {offset : Nat}
    (h : Agree offset ps (ps.flatMap Piece.masked)) :
    (lexemes (ps.flatMap Piece.masked)).filterMap Lexeme.brace? = ps.filterMap Piece.brace? := by
  induction hn : ps.length using Nat.strong_induction_on generalizing ps offset with
  | _ n ih =>
    cases ps with
    | nil => rfl
    | cons p ps =>
      obtain ⟨before, rest, offset', hps, hne, hagree, hbraces⟩ := resumes hcut hbroken h
      have hshort : rest.length < n := by
        have hpos := List.length_pos_iff.2 hne
        rw [← hn, hps, List.length_append]
        omega
      rw [hps] at hcut hbroken
      have hrest := ih rest.length hshort hcut.of_append
        (fun q hq => hbroken q (by simp [hq])) hagree rfl
      rw [hbraces, hrest, hps, List.filterMap_append]

end ClassHints.Sheet
