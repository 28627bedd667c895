import ClassHints.Proofs.Sheet.Placement

/-!
# Comments directly before nodes

A comment that is listed directly before a node need not be written there: a line comment inside
a prelude is listed behind the node that the prelude makes, or first in the block that it opens.
This file says where a comment is written that is listed directly before a node.
-/

namespace ClassHints.Sheet

open Text

/-- The last node of a list that is no comment. -/
def lastNode? (nodes : List Node) : Option Node := (nodes.filter (!·.isComment)).getLast?

namespace Comment

/-- The comment is written behind the node before it, and behind the brace of the block around
it. -/
def RightBefore (t : Text) (parent : Option Node) (before : List Node) (c : Comment) : Prop :=
  (∀ sibling ∈ lastNode? before, sibling.span.stop ≤ c.span.start) ∧
    ∀ node ∈ parent, node.bodyIn t ≤ c.span.start

/-- The comment is written inside the node before it, or between the start of the block around it
and its brace. -/
def Inside (t : Text) (parent : Option Node) (before : List Node) (c : Comment) : Prop :=
  (∃ sibling ∈ lastNode? before,
    sibling.span.start < c.span.start ∧ c.span.stop ≤ sibling.span.stop) ∨
      ∃ node ∈ parent, node.span.start < c.span.start ∧ c.span.stop < node.bodyIn t

end Comment

/-- A text has the words of the comment that is listed directly before a node. The comment is
written before the node; it is written right before it unless it is a line comment inside the
node or the prelude before. -/
def DescribedBy (t : Text) (parent : Option Node) (siblings : List Node) (text : Text)
    (node : Node) : Prop :=
  ∃ before c after, siblings = before ++ .comment c :: node :: after ∧
    text = Comment.prose c.text ∧ c.span.stop ≤ node.span.start ∧
    (c.RightBefore t parent before ↔ ¬c.Inside t parent before) ∧
    (c.Inside t parent before → c.style = .line)

/-- The trees of a forest are among its nodes, in order. -/
theorem sublist_allNodes (nodes : List Node) : nodes.Sublist (allNodes nodes) := by
  induction nodes with
  | nil => exact List.nil_sublist _
  | cons node nodes ih =>
    rw [allNodes_cons, List.cons_append]
    exact (ih.trans (List.sublist_append_right _ _)).cons_cons node

/-- Siblings are listed in their order, behind their parent. -/
theorem Siblings.sublist {nodes siblings : List Node} {parent : Option Node}
    (h : Siblings nodes parent siblings) :
    (parent.toList ++ siblings).Sublist (allNodes nodes) := by
  cases h with
  | top => exact sublist_allNodes nodes
  | inside parent hparent =>
    obtain ⟨before, after, hlist⟩ := exists_allNodes_eq hparent
    rw [hlist, List.append_assoc]
    apply List.sublist_append_of_sublist_right
    apply List.sublist_append_of_sublist_left
    exact (sublist_allNodes parent.children).cons_cons parent

/-- Siblings inside a node are siblings around it as well. -/
theorem Siblings.of_children {nodes siblings : List Node} {node : Node} {parent : Option Node}
    (hnode : node ∈ allNodes nodes) (h : Siblings node.children parent siblings) :
    Siblings nodes (some (parent.getD node)) siblings := by
  cases h with
  | top => exact .inside node hnode
  | inside parent hparent =>
    obtain ⟨before, after, hlist⟩ := exists_allNodes_eq hnode
    refine .inside parent ?_
    rw [hlist]
    simp [hparent]

/-- A node that is no comment is no line comment. -/
theorem lineComment?_of_isComment {node : Node} (h : node.isComment = false) :
    node.lineComment? = none := by
  cases node with
  | comment c => cases h
  | _ => rfl

/-- The last node that is no comment is one of the nodes. -/
theorem lastNode?_mem {nodes : List Node} {node : Node} (h : node ∈ lastNode? nodes) :
    node ∈ nodes ∧ node.isComment = false := by
  have hmem := List.mem_filter.1 (List.mem_of_getLast? h)
  exact ⟨hmem.1, by simpa using hmem.2⟩

/-- The brace that opens a block stands right before the nodes in it. -/
theorem Node.Good.solidAt_brace {t : Text} {node child : Node} (h : node.Good (lexemes t))
    (hchild : child ∈ node.children) : SolidAt t (node.bodyIn t - 1) := by
  rcases h with hcomment | ⟨p, before, lead, ls, more, rest, hall, hcut⟩
  · cases node with
    | comment c => cases hchild
    | _ => cases hcomment
  · have hends := hcut.endsWith
    have hbrace : ∃ body, textOf more = '{' :: body := by
      cases node with
      | block | rule => exact hends
      | declaration | statement | comment => cases hchild
    obtain ⟨body, hmore⟩ := hbrace
    rw [hcut.bodyIn_eq hall]
    refine ⟨textOf (before ++ lead ++ ls), '{', body ++ textOf rest, ?_, by decide, rfl⟩
    rw [← flatMap_lexemes t, hall, List.flatMap_append, List.flatMap_append]
    simp [hmore]

/-- A comment is a block comment, or one of the line comments. -/
theorem Node.Placed.style_cases {m : Masked} {c : Comment} (h : (Node.comment c).Placed m) :
    (Node.comment c).lineComment? = none ∨ c.style = .line ∧ c ∈ m.comments := by
  by_cases hstyle : c.style = .line
  · right
    exact ⟨hstyle, h.listed c (by simp [Node.lineComment?, hstyle])⟩
  · left
    simp [Node.lineComment?, hstyle]

/-- A comment is right before a node or inside what comes before it, once this holds of the node
before it and of the block around it. -/
theorem describedBy_of_cases {t : Text} {parent : Option Node} {siblings before after : List Node}
    {c : Comment} {node : Node} (hsplit : siblings = before ++ .comment c :: node :: after)
    (hlt : c.span.start < c.span.stop) (hafter : c.span.stop ≤ node.span.start)
    (hsibling : ∀ sibling ∈ lastNode? before, sibling.span.stop ≤ c.span.start ∨
      c.style = .line ∧ sibling.span.start < c.span.start ∧ c.span.stop ≤ sibling.span.stop)
    (hparent : ∀ p ∈ parent, p.bodyIn t ≤ c.span.start ∨
      c.style = .line ∧ p.span.start < c.span.start ∧ c.span.stop < p.bodyIn t) :
    DescribedBy t parent siblings (Comment.prose c.text) node := by
  have hright : ¬c.Inside t parent before → c.RightBefore t parent before := by
    intro hinside
    constructor
    · intro sibling hmem
      rcases hsibling sibling hmem with hbehind | ⟨-, hwithin⟩
      · exact hbehind
      · exact absurd (Or.inl ⟨sibling, hmem, hwithin⟩) hinside
    · intro p hmem
      rcases hparent p hmem with hbehind | ⟨-, hbefore⟩
      · exact hbehind
      · exact absurd (Or.inr ⟨p, hmem, hbefore⟩) hinside
  refine ⟨before, c, after, hsplit, rfl, hafter, ⟨?_, hright⟩, ?_⟩
  · rintro ⟨hbehind, hbody⟩ (⟨sibling, hmem, -, hstop⟩ | ⟨p, hmem, -, hstop⟩)
    · have hle := hbehind sibling hmem
      omega
    · have hle := hbody p hmem
      omega
  · rintro (⟨sibling, hmem, -, hstop⟩ | ⟨p, hmem, -, hstop⟩)
    · rcases hsibling sibling hmem with hbehind | ⟨hstyle, -⟩
      · omega
      · exact hstyle
    · rcases hparent p hmem with hbehind | ⟨hstyle, -⟩
      · omega
      · exact hstyle

section Places

variable {source : Text} {m : Masked} (hmasked : Masked.ofSource source = .ok m) {c : Comment}
  {node : Node}

include hmasked

/-- A comment that is listed before a node is written before it. -/
theorem stop_le_of_listed_before (hc : (Node.comment c).Placed m) (hnode : node.Placed m)
    (hline : node.lineComment? = none) (hstarts : c.span.start < node.span.start)
    (hapart : (Node.comment c).lineComment? = none → c.span.stop ≤ node.span.start) :
    c.span.stop ≤ node.span.start := by
  rcases hc.style_cases with hblock | ⟨-, hmem⟩
  · exact hapart hblock
  · have hsolid := Masked.apart_of_solidAt hmasked (hnode.solid hline) hmem
    omega

/-- A comment that is listed behind a node is written behind it, or it is a line comment inside
the node. -/
theorem behind_or_within_of_listed (hc : (Node.comment c).Placed m) (hnode : node.Placed m)
    (hline : node.lineComment? = none) (hstarts : node.span.start < c.span.start)
    (hapart : (Node.comment c).lineComment? = none → node.span.stop ≤ c.span.start) :
    node.span.stop ≤ c.span.start ∨
      c.style = .line ∧ node.span.start < c.span.start ∧ c.span.stop ≤ node.span.stop := by
  rcases hc.style_cases with hblock | ⟨hstyle, hmem⟩
  · exact Or.inl (hapart hblock)
  · rcases Masked.apart_of_edgeAt hmasked (hnode.edge hline) hmem with hbehind | hwithin
    · exact Or.inl hbehind
    · exact Or.inr ⟨hstyle, hstarts, hwithin⟩

/-- A comment inside a block is written behind its brace, or it is a line comment before it. -/
theorem behind_or_before_brace (hc : (Node.comment c).Placed m)
    (hsolid : SolidAt m.text (node.bodyIn m.text - 1)) (hstarts : node.span.start < c.span.start)
    (hapart : (Node.comment c).lineComment? = none → node.bodyIn m.text ≤ c.span.start) :
    node.bodyIn m.text ≤ c.span.start ∨
      c.style = .line ∧ node.span.start < c.span.start ∧ c.span.stop < node.bodyIn m.text := by
  rcases hc.style_cases with hblock | ⟨hstyle, hmem⟩
  · exact Or.inl (hapart hblock)
  · have hpos : 0 < node.bodyIn m.text := Nat.succ_pos _
    rcases Masked.apart_of_solidAt hmasked hsolid hmem with hbehind | hbefore
    · left
      omega
    · right
      exact ⟨hstyle, hstarts, by omega⟩

/-- Where the comment is written that is listed directly before a node. -/
theorem describedBy_of_parse {nodes siblings before after : List Node} {parent : Option Node}
    (hparse : parse source = .ok nodes) (hsiblings : Siblings nodes parent siblings)
    (hsplit : siblings = before ++ .comment c :: node :: after) (hnode : node.isComment = false) :
    DescribedBy m.text parent siblings (Comment.prose c.text) node := by
  obtain ⟨masked, hmasked', hlaid, hordered, -⟩ := parse_placed hparse
  obtain rfl := Except.ok.inj (hmasked.symm.trans hmasked')
  obtain ⟨masked, hmasked', hgood⟩ := parse_good hparse
  obtain rfl := Except.ok.inj (hmasked.symm.trans hmasked')
  obtain ⟨masked, hmasked', hwell⟩ := wellPlaced_of_parse hparse
  obtain rfl := Except.ok.inj (hmasked.symm.trans hmasked')
  have hsublist := hsiblings.sublist
  have hstarts := hordered.sublist (hsublist.map (·.span.start))
  rw [List.map_append] at hstarts
  obtain ⟨-, hstarts, hparent⟩ := List.pairwise_append.1 hstarts
  have hplaced {other : Node} (hother : other ∈ siblings) : other.Placed m :=
    hlaid.placed other (mem_allNodes_reverse.2 (hsublist.subset (by simp [hother])))
  have hapart := hwell.disjoint parent siblings hsiblings
  have hc : (Node.comment c).Placed m := hplaced (by simp [hsplit])
  have hline := lineComment?_of_isComment hnode
  rw [hsplit] at hstarts hapart
  apply describedBy_of_cases hsplit (hc.bounds hmasked).1
  · obtain ⟨-, hlater, -⟩ := List.pairwise_append.1 hapart
    rw [List.map_append] at hstarts
    obtain ⟨-, hstarts, -⟩ := List.pairwise_append.1 hstarts
    apply stop_le_of_listed_before hmasked hc (hplaced (by simp [hsplit])) hline
    · exact (List.pairwise_cons.1 hstarts).1 _ (by simp)
    · exact fun hblock => (List.pairwise_cons.1 hlater).1 node (by simp) hblock hline
  · intro sibling hmem
    obtain ⟨hbefore, hsibling⟩ := lastNode?_mem hmem
    have hother := lineComment?_of_isComment hsibling
    rw [List.map_append] at hstarts
    apply behind_or_within_of_listed hmasked hc (hplaced (by simp [hsplit, hbefore])) hother
    · exact (List.pairwise_append.1 hstarts).2.2 _ (List.mem_map_of_mem hbefore) _
        List.mem_cons_self
    · exact (List.pairwise_append.1 hapart).2.2 sibling hbefore _ (by simp) hother
  · intro p hp
    cases hsiblings with
    | top => cases hp
    | inside p' hlisted =>
      obtain rfl := Option.some.inj hp
      have hchild : Node.comment c ∈ p'.children := by simp [hsplit]
      apply behind_or_before_brace hmasked hc ((hgood p' hlisted).solidAt_brace hchild)
      · exact hparent _ (by simp) _ (List.mem_map_of_mem hchild)
      · have hrow := (hlaid.placed p' (mem_allNodes_reverse.2 hlisted)).row
        exact hrow.behind _ (List.mem_reverse.2 hchild)

end Places

end ClassHints.Sheet
