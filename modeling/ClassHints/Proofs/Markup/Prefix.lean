import ClassHints.Proofs.Markup.Forest
import ClassHints.Proofs.Markup.Steps

/-!
# Scanning a text that goes on

A step that leaves something of the text is decided by what it covers, so that a scan takes the
same steps when the text goes on, up to the step that comes to its end. What a scan has found
stays found: where the elements around it close may change, but nothing that was said of it
before.
-/

namespace ClassHints.Markup

open Text

namespace Scan

variable {s : Scan}

/-- A run of text that ends before the end of the text does not change when the text goes on. -/
theorem textRun_append {c : Char} {rest : Text} (h : (s.textRun c rest).2 < (c :: rest).length)
    (u : Text) : s.textRun c (rest ++ u) = s.textRun c rest := by
  have hlt : (rest.takeWhile (· != '<')).length < rest.length := by
    simpa [textRun] using h
  unfold textRun
  rw [takeWhile_append_of_length_lt hlt u]

/-- A closing tag that ends before the text does is the same when the text goes on. -/
theorem closing_append {body : Text}
    (h : lengthPast ['>'] (body.drop (tagName body).length) <
      (body.drop (tagName body).length).length) (u : Text) :
    tagName (body ++ u) = tagName body ∧
      lengthPast ['>'] ((body ++ u).drop (tagName body).length) =
        lengthPast ['>'] (body.drop (tagName body).length) := by
  have hroom : (tagName body).length < body.length := by
    rw [List.length_drop] at h
    omega
  refine ⟨takeWhile_append_of_length_lt hroom u, ?_⟩
  rw [List.drop_append_of_le_length (Nat.le_of_lt hroom), lengthPast_append h]

/-- A start tag that ends before the text does is the same when the text goes on, and so is the
content of an element of text that ends before. -/
theorem openTag_append {t : Text} (hopens : OpensTag t) (h : (s.openTag t).2 < t.length)
    (u : Text) : s.openTag (t ++ u) = s.openTag t := by
  have hfront (hending : (StartTag.front t).body.ending ≠ .unfinished) :
      StartTag.front (t ++ u) = StartTag.front t := by
    have hsame := hopens.front_take_append hending (t.drop (StartTag.front t).length ++ u)
    rwa [← List.append_assoc, List.take_append_drop] at hsame
  have htake : (t ++ u).take (StartTag.front t).length = t.take (StartTag.front t).length :=
    List.take_append_of_le_length hopens.length_le
  have hdrop : (t ++ u).drop (StartTag.front t).length = t.drop (StartTag.front t).length ++ u :=
    List.drop_append_of_le_length hopens.length_le
  rw [openTag_eq] at h ⊢
  rw [openTag_eq]
  cases hending : (StartTag.front t).body.ending with
  | unfinished => simp [hending] at h
  | selfClosed =>
    rw [hfront (by simp [hending])]
    simp only [hending, htake]
  | opened =>
    rw [hfront (by simp [hending])]
    simp only [hending, htake, hdrop] at h ⊢
    split_ifs with hvoid hraw
    · rfl
    · rw [if_neg hvoid, if_pos hraw] at h
      have htotal : t.length = (StartTag.front t).length +
          (t.drop (StartTag.front t).length).length := by
        have hle := hopens.length_le
        rw [List.length_drop]
        omega
      generalize t.drop (StartTag.front t).length = rest at h htotal
      have hk : lengthPast ['>'] (rest.drop (rawLength (StartTag.front t).name rest)) <
          (rest.drop (rawLength (StartTag.front t).name rest)).length := by
        rw [List.length_drop]
        dsimp only at h
        omega
      have hm : rawLength (StartTag.front t).name rest < rest.length := by
        rw [List.length_drop] at hk
        omega
      rw [rawLength_append hm, List.take_append_of_le_length (Nat.le_of_lt hm),
        List.drop_append_of_le_length (Nat.le_of_lt hm), lengthPast_append hk,
        List.take_append_of_le_length (Nat.le_of_lt hk)]
    · rfl

/-- A step that leaves something of the text is the same when the text goes on. -/
theorem step_append {c : Char} {rest : Text} (h : (s.step c rest).2 < (c :: rest).length)
    (u : Text) : s.step c (rest ++ u) = s.step c rest := by
  have hpass {piece t : Text} (hlt : lengthPast piece t < t.length) :
      (s.move ((t ++ u).take (lengthPast piece (t ++ u))), lengthPast piece (t ++ u)) =
        (s.move (t.take (lengthPast piece t)), lengthPast piece t) := by
    rw [lengthPast_append hlt, List.take_append_of_le_length (Nat.le_of_lt hlt)]
  fun_cases step s c rest with
  | case1 tail => exact hpass h
  | case2 tail hno =>
    have hstep {v : Text} (hv : ∀ w, v = '-' :: '-' :: w → False) : s.step '<' ('!' :: v) =
        (s.move (('<' :: '!' :: v).take (lengthPast ['>'] ('<' :: '!' :: v))),
          lengthPast ['>'] ('<' :: '!' :: v)) := by
      rw [step]
      exact hv
    rw [hstep hno] at h
    dsimp only at h
    -- a text that is too short to show a comment has no bracket either
    have hno' : ∀ v, tail ++ u = '-' :: '-' :: v → False := by
      intro v heq
      rcases tail with _ | ⟨d, _ | ⟨e, tail⟩⟩
      · exact absurd h (by decide)
      · obtain ⟨rfl, -⟩ := List.cons.inj heq
        exact absurd h (by decide)
      · simp only [List.cons_append, List.cons.injEq] at heq
        exact hno tail (by rw [heq.1, heq.2.1])
    rw [List.cons_append, hstep hno']
    exact hpass h
  | case3 tail => exact hpass h
  | case4 body =>
    rw [step] at h
    dsimp only [List.length_cons] at h
    have hpast : lengthPast ['>'] (body.drop (tagName body).length) <
        (body.drop (tagName body).length).length := by
      rw [List.length_drop]
      omega
    obtain ⟨hname, hsame⟩ := closing_append hpast u
    rw [List.cons_append, step, hname, hsame, ← List.cons_append, ← List.cons_append,
      List.take_append_of_le_length (Nat.le_of_lt h)]
  | case5 d tail _ _ _ _ hd =>
    rw [step_of_isAlpha s hd] at h
    rw [List.cons_append, step_of_isAlpha s hd]
    exact openTag_append ⟨d, tail, rfl, hd⟩ h u
  | case6 d tail _ hbang hquestion hslash hd =>
    have hstep (v : Text) : s.step '<' (d :: v) = s.textRun '<' (d :: v) := by
      rw [step, if_neg hd]
      · exact fun _ heq _ => hbang heq
      · exact hbang
      · exact hquestion
      · exact hslash
    rw [hstep] at h
    rw [List.cons_append, hstep]
    exact textRun_append h u
  | case7 c rest _ _ _ _ htag =>
    have hc : c ≠ '<' := by
      rintro rfl
      cases rest with
      | nil => exact absurd h (by simp [step, textRun])
      | cons d tail => exact htag d tail rfl rfl
    rw [step_of_ne s hc] at h
    rw [step_of_ne s hc, textRun_append h u]

/-- A scan gets to the same states when the text goes on, as long as something is left. -/
theorem Reaches.append {t rest : Text} (h : Reaches t s rest) (hrest : rest ≠ []) (u : Text) :
    Reaches (t ++ u) s (rest ++ u) := by
  induction h with
  | start => exact .start
  | @step s c rest _ ih =>
    have hlt : (s.step c rest).2 < (c :: rest).length := by
      rw [ne_eq, List.drop_eq_nil_iff] at hrest
      omega
    have hcons : Reaches (t ++ u) s (c :: (rest ++ u)) := ih (List.cons_ne_nil c rest)
    have hreach := hcons.step
    rw [step_append hlt u, ← List.cons_append,
      List.drop_append_of_le_length (Nat.le_of_lt hlt)] at hreach
    exact hreach

end Scan

/-- A start tag that a text ends in goes on when the text does. -/
theorem OpensTag.lt_length_front_append {t u : Text} (h : OpensTag t) (hu : u ≠ [])
    (hending : (StartTag.front t).body.ending = .unfinished) :
    OpensTag (t ++ u) ∧ t.length < (StartTag.front (t ++ u)).length := by
  have hopens : OpensTag (t ++ u) := by
    obtain ⟨d, rest, rfl, hd⟩ := h
    exact ⟨d, rest ++ u, rfl, hd⟩
  refine ⟨hopens, ?_⟩
  by_contra hnot
  have hle : (StartTag.front (t ++ u)).length ≤ t.length := by omega
  have hended : (StartTag.front (t ++ u)).body.ending ≠ .unfinished := by
    intro hending'
    have hlength := hopens.length_of_unfinished hending'
    have hpos := List.length_pos_iff.2 hu
    rw [List.length_append] at hlength
    omega
  -- the tag would end within `t`, and so it would end without `u`
  have hsame := hopens.front_take_append hended (t.drop (StartTag.front (t ++ u)).length)
  rw [List.take_append_of_le_length hle, List.take_append_drop] at hsame
  rw [hsame] at hending
  exact hended hending

/-! ## What is found stays found -/

/-- The element of a node, unless the node is a text. -/
def Node.element? : Node → Option Element
  | text .. => none
  | element e _ _ => some e

/-- Where a node comes from: the elements around it, what it is itself and where it starts. -/
structure Origin where
  around : List Element
  element : Option Element
  start : Nat

/-- Where a placed node comes from. -/
def Placed.origin (p : Placed) : Origin := ⟨p.around, p.node.element?, p.node.range.start⟩

namespace Scan

/-- The origins of the nodes that open elements have in them, and of these elements. -/
def originsOf : List Frame → List Node → List Origin
  | [], nodes => (placesIn [] nodes.reverse).map Placed.origin
  | f :: outer, nodes =>
    originsOf outer f.before ++
      ⟨outer.map Frame.element, some f.element, f.start⟩ ::
        (placesIn (f.element :: outer.map Frame.element) nodes.reverse).map Placed.origin

/-- The origins of the nodes that a scan has found. -/
def origins (s : Scan) : List Origin := originsOf s.frames s.nodes

/-- One more node in the innermost open element adds its own origins at the end. -/
theorem originsOf_cons (frames : List Frame) (node : Node) (nodes : List Node) :
    originsOf frames (node :: nodes) =
      originsOf frames nodes ++ (node.places (frames.map Frame.element)).map Placed.origin := by
  cases frames with
  | nil => simp [originsOf, placesIn_append, placesIn]
  | cons f outer => simp [originsOf, placesIn_append, placesIn]

/-- Closing an element leaves all origins as they are. -/
theorem originsOf_close (f : Frame) (outer : List Frame) (nodes : List Node) (stop : Nat) :
    originsOf outer (f.close nodes stop :: f.before) = originsOf (f :: outer) nodes := by
  rw [originsOf_cons]
  rfl

/-- Closing elements changes where they end, and not where they come from. -/
theorem originsOf_closeTag {stop : Nat} {tag : Text} {frames outer : List Frame}
    {nodes found : List Node} (h : closeTag stop tag frames nodes = some (outer, found)) :
    originsOf outer found = originsOf frames nodes := by
  induction frames generalizing nodes with
  | nil => cases h
  | cons f frames ih =>
    rw [closeTag] at h
    split at h
    · cases h
      exact originsOf_close f _ nodes stop
    · rw [ih h, originsOf_close]

/-- Nor does closing all that are open at the end of the text. -/
theorem originsOf_closeAll (stop : Nat) (frames : List Frame) (nodes : List Node) :
    (placesIn [] (closeAll stop frames nodes)).map Placed.origin = originsOf frames nodes := by
  induction frames generalizing nodes with
  | nil => rfl
  | cons f frames ih => rw [closeAll, ih, originsOf_close]

/-- A step adds origins behind those before. -/
theorem Step.isPrefix_origins {s s' : Scan} {t : Text} {n : Nat} (h : s.Step t n s') :
    s.origins <+: s'.origins := by
  cases h with
  | pass => exact List.prefix_rfl
  | close tag =>
    unfold Scan.close
    dsimp only
    split
    · next frames nodes hclose =>
      have hsame : originsOf frames nodes = s.origins := originsOf_closeTag hclose
      exact hsame ▸ List.prefix_rfl
    · exact List.prefix_rfl
  | text | leaf | raw => exact ⟨_, (originsOf_cons s.frames _ s.nodes).symm⟩
  | opened => exact List.prefix_append _ _

/-- A scan only adds origins. -/
theorem origins_scanFrom (s : Scan) (skip : Nat) (t : Text) :
    s.origins <+: (s.scanFrom skip t).origins := by
  induction t generalizing s skip with
  | nil => exact List.prefix_rfl
  | cons c t ih =>
    cases skip with
    | zero => exact (s.step_step c t).isPrefix_origins.trans (ih _ _)
    | succ skip => exact ih s skip

/-- The element of a start tag is found with the open elements around it. -/
theorem mem_origins_openTag (s : Scan) (t : Text) :
    ⟨s.frames.map Frame.element, some ((StartTag.front t).element s.next), s.offset⟩ ∈
      (s.openTag t).1.origins := by
  have hpush (stop : Nat) (children : List Node) :
      ⟨s.frames.map Frame.element, some ((StartTag.front t).element s.next), s.offset⟩ ∈
        originsOf s.frames
          (.element ((StartTag.front t).element s.next) ⟨s.offset, stop⟩ children :: s.nodes) := by
    rw [originsOf_cons]
    exact List.mem_append_right _ List.mem_cons_self
  rw [openTag_eq]
  dsimp only
  cases (StartTag.front t).body.ending with
  | unfinished | selfClosed => exact hpush _ _
  | opened =>
    dsimp only
    split_ifs
    · exact hpush _ _
    · dsimp only [origins, addRaw, push]
      exact hpush _ _
    · exact List.mem_append_right _ List.mem_cons_self

end Scan

/-- A start tag that a scan gets to is an element of the document, inside what is open there. -/
theorem exists_mem_places_of_reaches {t rest : Text} {s : Scan} (hreach : Scan.Reaches t s rest)
    (hopens : OpensTag rest) : ∃ range children, range.start = s.offset ∧
      ⟨s.frames.map Frame.element, .element ((StartTag.front rest).element s.next) range children⟩ ∈
        (Document.scan t).places := by
  obtain ⟨d, tail, rfl, hd⟩ := hopens
  have hmem := s.mem_origins_openTag ('<' :: d :: tail)
  rw [← s.step_of_isAlpha hd] at hmem
  have hlast := (Scan.origins_scanFrom _ 0
    (('<' :: d :: tail).drop (s.step '<' (d :: tail)).2)).subset hmem
  rw [← Scan.scanFrom_cons, hreach.scanFrom_eq, Scan.origins,
    ← Scan.originsOf_closeAll (Scan.start.scanFrom 0 t).offset] at hlast
  obtain ⟨⟨around, node⟩, hplace, horigin⟩ := List.mem_map.1 hlast
  cases node with
  | text => cases horigin
  | element e range children =>
    obtain ⟨rfl, he, hstart⟩ := Origin.mk.inj horigin
    obtain rfl := Option.some.inj he
    exact ⟨range, children, hstart, hplace⟩

end ClassHints.Markup
