import ClassHints.Model.TopLevel
import ClassHints.Proofs.Model.WrittenTrees
import ClassHints.Proofs.Sheet.CommentPlaces
import Mathlib.Data.List.Forall2

/-!
# Where descriptions come from

Variables, mixins and class trees take the words of a comment that waits for them. In each of the
three walks over nodes the comment that waits is the node directly before, so that a description
always has the place of the comment listed there. What a walk makes corresponds one to one to the
nodes that it is made from, so that of two nodes written alike it is clear which one is described.
-/

namespace ClassHints.Model

open Text
open Sheet (Node Comment Siblings DescribedBy Masked parse allNodes isVariable splitSelectors)

/-! ## The nodes that something is made from -/

/-- The nodes at the top level that items are made from, in order. -/
def itemNodes (nodes : List Node) : List Node :=
  nodes.filter fun node => (Item.ofNode? none node).isSome

/-- The declarations in the body of a mixin that its variables are made from, in order. -/
def variableNodes (body : List Node) : List Node :=
  body.filter fun
    | .declaration property _ _ => isVariable property
    | _ => false

mutual

/-- The rules that the trees of a node are made from, in the order of the trees: a rule without a
class has no tree, and the rules inside it have none. -/
def treeRules : Node → List Node
  | .rule selector nodes span =>
    if (subClasses (splitSelectors selector)).isEmpty then []
    else .rule selector nodes span :: treeRulesAll nodes
  | _ => []

/-- The rules that the trees of nodes are made from, in the order of the trees. -/
def treeRulesAll : List Node → List Node
  | [] => []
  | node :: nodes => treeRules node ++ treeRulesAll nodes

end

/-- The rules of one body behind another one are behind those of the other. -/
theorem treeRulesAll_append (nodes more : List Node) :
    treeRulesAll (nodes ++ more) = treeRulesAll nodes ++ treeRulesAll more := by
  induction nodes with
  | nil => rfl
  | cons node nodes ih => rw [List.cons_append, treeRulesAll, ih, treeRulesAll, List.append_assoc]

/-! ## The comment that waits -/

/-- The comment that waits is the last of the nodes before. -/
def Waits (before : List Node) (pending : Option Text) : Prop :=
  ∀ text ∈ pending, ∃ first c, before = first ++ [.comment c] ∧ text = Comment.prose c.text

/-- A node is listed directly behind a comment with the words `text`. -/
def ListedBehind (siblings : List Node) (text : Text) (node : Node) : Prop :=
  ∃ before c after, siblings = before ++ .comment c :: node :: after ∧ text = Comment.prose c.text

/-- No comment waits at the start of a walk, nor behind a node that has used it up. -/
theorem waits_none (before : List Node) : Waits before none := by
  intro text htext
  cases htext

/-- A comment waits for the node behind it, and no other node leaves one to wait. -/
theorem waits_wordsOf? (before : List Node) (node : Node) :
    Waits (before ++ [node]) (wordsOf? (some node)) := by
  intro text htext
  cases node with
  | comment c =>
    obtain rfl := Option.some.inj htext
    exact ⟨before, c, rfl, rfl⟩
  | _ => cases htext

/-- The node that takes the words of a comment that waits is listed directly behind it. -/
theorem Waits.listedBehind {before after : List Node} {pending : Option Text}
    (h : Waits before pending) {text : Text} (htext : text ∈ pending) (node : Node) :
    ListedBehind (before ++ node :: after) text node := by
  obtain ⟨first, c, rfl, rfl⟩ := h text htext
  exact ⟨first, c, after, by simp, rfl⟩

/-! ## Items -/

/-- The words that an item got from a comment. -/
def Item.description? : Item → Option Text
  | .variable v => v.comment
  | .imports _ => none
  | .mixin _ _ description => description

/-- An item is the one that a node makes, given its own words. -/
def Item.MadeFrom (item : Item) (node : Node) : Prop := item ∈ Item.ofNode? item.description? node

/-- Whether a node makes an item does not depend on the comment that waits. -/
theorem Item.isSome_ofNode? (comment : Option Text) (node : Node) :
    (Item.ofNode? comment node).isSome = (Item.ofNode? none node).isSome := by
  cases node <;>
    simp only [Item.ofNode?, Item.ofAtRule?, apply_ite Option.isSome, Option.isSome_some]

/-- An item has no other words than the comment that waited for its node. -/
theorem Item.madeFrom_of_mem {comment : Option Text} {node : Node} {item : Item}
    (h : item ∈ Item.ofNode? comment node) :
    item.MadeFrom node ∧ ∀ text ∈ item.description?, text ∈ comment := by
  have hrule {name params : Text} {body : List Node}
      (hitem : item ∈ Item.ofAtRule? name params body comment) :
      item ∈ Item.ofAtRule? name params body item.description? ∧
        ∀ text ∈ item.description?, text ∈ comment := by
    unfold Item.ofAtRule? at hitem ⊢
    split at hitem
    · next himport =>
      obtain rfl := Option.some.inj hitem
      exact ⟨if_pos himport, fun text htext => by cases htext⟩
    · next himport =>
      split at hitem
      · next hmixin =>
        obtain rfl := Option.some.inj hitem
        exact ⟨(if_neg himport).trans (if_pos hmixin), fun text htext => htext⟩
      · cases hitem
  cases node with
  | declaration property value span =>
    simp only [Item.MadeFrom, Item.ofNode?] at h ⊢
    split at h
    · next hvariable =>
      obtain rfl := Option.some.inj h
      exact ⟨if_pos hvariable, fun text htext => htext⟩
    · cases h
  | statement name params span => exact hrule h
  | block name params body span => exact hrule h
  | rule selector nodes span => cases h
  | comment c => cases h

/-- A node that is no comment gives its item and leaves no comment to wait. -/
theorem itemsFrom_cons {node : Node} (h : ∀ c, node ≠ .comment c) (pending : Option Text)
    (nodes : List Node) : itemsFrom pending (node :: nodes) =
      (Item.ofNode? pending node).toList ++ itemsFrom (wordsOf? (some node)) nodes := by
  cases node with
  | comment c => exact absurd rfl (h c)
  | _ => rfl

/-- The items correspond to the nodes that make one, and each is described by the comment listed
directly before its node. -/
theorem forall₂_itemsFrom {before : List Node} {pending : Option Text}
    (hwaits : Waits before pending) (nodes : List Node) :
    List.Forall₂ (fun item node => item.MadeFrom node ∧
        ∀ text ∈ item.description?, ListedBehind (before ++ nodes) text node)
      (itemsFrom pending nodes) (itemNodes nodes) := by
  induction nodes generalizing before pending with
  | nil => exact .nil
  | cons node nodes ih =>
    have hrest := ih (waits_wordsOf? before node)
    rw [List.append_assoc, List.singleton_append] at hrest
    by_cases hcomment : ∃ c, node = .comment c
    -- a comment makes no item, and waits for the node behind it
    · obtain ⟨c, rfl⟩ := hcomment
      exact hrest
    · rw [itemsFrom_cons fun c hc => hcomment ⟨c, hc⟩, itemNodes, List.filter_cons,
        ← Item.isSome_ofNode? pending]
      cases hitem : Item.ofNode? pending node with
      | none => exact hrest
      | some item =>
        obtain ⟨hmade, hwords⟩ := Item.madeFrom_of_mem hitem
        refine .cons ⟨hmade, fun text htext => ?_⟩ hrest
        exact hwaits.listedBehind (hwords text htext) node

/-! ## Trees -/

/-- A tree has the classes and the selector list of a rule. -/
def ClassTree.MadeFrom (tree : ClassTree) (rule : Node) : Prop :=
  ∃ inner span, rule = .rule tree.selector inner span ∧
    tree.classes = writtenClasses tree.selector inner

/-- The description of a tree is that of the comment listed directly before its rule, among the
siblings of some forest. -/
def ClassTree.DescribedIn (nodes : List Node) (tree : ClassTree) (rule : Node) : Prop :=
  ∀ text ∈ tree.description, ∃ parent siblings,
    Siblings nodes parent siblings ∧ ListedBehind siblings text rule

/-- What is described inside a node is described inside the nodes around it. -/
theorem ClassTree.DescribedIn.of_children {nodes : List Node} {node rule : Node} {tree : ClassTree}
    (hnode : node ∈ nodes) (h : tree.DescribedIn node.children rule) :
    tree.DescribedIn nodes rule := by
  intro text htext
  obtain ⟨parent, siblings, hsiblings, hlisted⟩ := h text htext
  exact ⟨_, siblings, hsiblings.of_children (Sheet.mem_allNodes_of_mem hnode), hlisted⟩

/-- The trees that nodes inside a tree add correspond to the rules among and inside these nodes,
and are described there. -/
def NestedDescribed (nodes : List Node) : Prop :=
  ∀ (before : List Node) (previous : Option Node) (parent first : Nat),
    Waits before (wordsOf? previous) →
      List.Forall₂ (fun tree rule => tree.MadeFrom rule ∧ tree.parent ≠ none ∧
          tree.DescribedIn (before ++ nodes) rule)
        (entriesAll parent first (writtenTrees previous nodes)) (treeRulesAll nodes)

/-- The first tree that a node adds is that of the node itself, and all others are nested in it. -/
theorem forall₂_entries {node : Node} (h : NestedDescribed node.children)
    (description : Option Text) (parent : Option Nat) (first : Nat) :
    List.Forall₂ (fun tree rule => tree.MadeFrom rule ∧
        (rule = node ∧ tree.parent = parent ∧ tree.description = description ∨
          tree.parent ≠ none ∧ tree.DescribedIn node.children rule))
      ((writtenTree? description node).elim [] (·.entries parent first)) (treeRules node) := by
  cases node with
  | rule selector nodes span =>
    rw [writtenTree?, treeRules]
    split
    · exact .nil
    · have hnested := h [] none first (first + 1) (waits_none [])
      refine .cons ⟨⟨nodes, span, rfl, rfl⟩, Or.inl ⟨rfl, rfl, rfl⟩⟩ (hnested.imp ?_)
      exact fun tree rule hdescribed => ⟨hdescribed.1, Or.inr hdescribed.2⟩
  | declaration property value span => exact .nil
  | statement name params span => exact .nil
  | block name params nodes span => exact .nil
  | comment c => exact .nil

/-- One more node in front of nodes inside a tree. -/
theorem NestedDescribed.cons (node : Node) {nodes : List Node}
    (hnode : NestedDescribed node.children) (hnodes : NestedDescribed nodes) :
    NestedDescribed (node :: nodes) := by
  intro before previous parent first hwaits
  have hhere : List.Forall₂ (fun tree rule => tree.MadeFrom rule ∧ tree.parent ≠ none ∧
        tree.DescribedIn (before ++ node :: nodes) rule)
      ((writtenTree? (wordsOf? previous) node).elim [] (·.entries (some parent) first))
      (treeRules node) := by
    refine (forall₂_entries hnode (wordsOf? previous) (some parent) first).imp ?_
    rintro tree rule ⟨hmade, ⟨rfl, hparent, hdescription⟩ | ⟨hparent, hnested⟩⟩
    · refine ⟨hmade, by simp [hparent], fun text htext => ?_⟩
      rw [hdescription] at htext
      exact ⟨none, _, .top, hwaits.listedBehind htext _⟩
    · exact ⟨hmade, hparent, hnested.of_children (by simp)⟩
  have hlater (first : Nat) :=
    hnodes (before ++ [node]) (some node) parent first (waits_wordsOf? before node)
  simp only [List.append_assoc, List.singleton_append] at hlater
  rw [writtenTrees, treeRulesAll]
  -- the trees behind are numbered from behind those of the node
  cases hwritten : writtenTree? (wordsOf? previous) node with
  | none =>
    rw [hwritten] at hhere
    exact List.rel_append hhere (hlater first)
  | some t =>
    rw [hwritten] at hhere
    exact List.rel_append hhere (hlater (first + t.size))

/-- The trees of all nodes inside a tree are described in these nodes. -/
theorem nestedDescribed (nodes : List Node) : NestedDescribed nodes := by
  induction nodes using Node.children_induction with
  | nil => exact fun before previous parent first hwaits => .nil
  | cons node nodes hinner ih => exact .cons node hinner ih

/-! ## Mixins -/

/-- A variable is the one that a declaration makes, given its own words. -/
def Variable.MadeFrom (v : Variable) (node : Node) : Prop :=
  ∃ property value span, node = .declaration property value span ∧
    v = Variable.make property value v.comment

/-- A tree of a mixin is described in its body: a root among the nodes of the body, a nested tree
inside one of them. -/
def ClassTree.DescribedInBody (body : List Node) (tree : ClassTree) (rule : Node) : Prop :=
  ∀ text ∈ tree.description, ∃ parent siblings, Siblings body parent siblings ∧
    (parent = none ↔ tree.parent = none) ∧ ListedBehind siblings text rule

/-- The trees that a node of a body adds are described in the body. -/
theorem forall₂_entries_body {body before after : List Node} {pending : Option Text} {node : Node}
    (hwaits : Waits before pending) (hbody : body = before ++ node :: after) (first : Nat) :
    List.Forall₂ (fun tree rule => tree.MadeFrom rule ∧ tree.DescribedInBody body rule)
      ((writtenTree? pending node).elim [] (·.entries none first)) (treeRules node) := by
  refine (forall₂_entries (nestedDescribed node.children) pending none first).imp ?_
  rintro tree rule ⟨hmade, ⟨rfl, hparent, hdescription⟩ | ⟨hparent, hnested⟩⟩
  · refine ⟨hmade, fun text htext => ?_⟩
    rw [hdescription] at htext
    rw [hbody]
    exact ⟨none, _, .top, by simp [hparent], hwaits.listedBehind htext _⟩
  · refine ⟨hmade, fun text htext => ?_⟩
    obtain ⟨parent, siblings, hsiblings, hlisted⟩ := hnested text htext
    have hmem : node ∈ allNodes body := Sheet.mem_allNodes_of_mem (by simp [hbody])
    exact ⟨_, siblings, hsiblings.of_children hmem, by simp [hparent], hlisted⟩

/-- After the nodes `before` of a body, what has been added to the trees `old` is described in
the body. -/
structure MixinDraft.Described (old : Trees) (body before : List Node) (d : MixinDraft) :
    Prop where
  waits : Waits before d.pending
  vars : List.Forall₂ (fun v node => v.MadeFrom node ∧
      ∀ text ∈ v.comment, ListedBehind body text node)
    d.vars (variableNodes before)
  trees : ∃ added, d.trees = old ++ added.toArray ∧
    List.Forall₂ (fun tree rule => tree.MadeFrom rule ∧ tree.DescribedInBody body rule)
      added (treeRulesAll before)

/-- A node is read that adds some variables and trees of its own. -/
theorem MixinDraft.Described.snoc {old : Trees} {body before : List Node} {d d' : MixinDraft}
    {node : Node} {vars : List Variable} {added : List ClassTree} (h : d.Described old body before)
    (hwaits : Waits (before ++ [node]) d'.pending) (hvars : d'.vars = d.vars ++ vars)
    (htrees : d'.trees = d.trees ++ added.toArray)
    (hvariables : List.Forall₂ (fun v node => v.MadeFrom node ∧
        ∀ text ∈ v.comment, ListedBehind body text node) vars (variableNodes [node]))
    (hrules : List.Forall₂ (fun tree rule => tree.MadeFrom rule ∧ tree.DescribedInBody body rule)
      added (treeRules node)) :
    d'.Described old body (before ++ [node]) := by
  obtain ⟨earlier, hearlier, hmade⟩ := h.trees
  refine ⟨hwaits, ?_, earlier ++ added, ?_, ?_⟩
  · rw [hvars, variableNodes, List.filter_append]
    exact List.rel_append h.vars hvariables
  · rw [htrees, hearlier, Array.append_assoc, List.append_toArray earlier]
  · rw [treeRulesAll_append, treeRulesAll, treeRulesAll, List.append_nil]
    exact List.rel_append hmade hrules

/-- Only a comment leaves words to wait for the node behind it. -/
theorem MixinDraft.pending_add (d : MixinDraft) (node : Node) :
    (d.add node).pending = wordsOf? (some node) := by
  cases node with
  | comment c => rfl
  | statement name params span | block name params nodes span =>
    obtain ⟨includes, hadd⟩ := exists_addAtRule_eq { d with pending := none } name params
    exact congrArg MixinDraft.pending hadd
  | declaration property value span =>
    simp only [MixinDraft.add]
    split <;> rfl
  | rule selector nodes span => rfl

/-- One more node of a body is read. -/
theorem MixinDraft.Described.add {old : Trees} {body before after : List Node} {d : MixinDraft}
    {node : Node} (h : d.Described old body before) (hbody : body = before ++ node :: after) :
    (d.add node).Described old body (before ++ [node]) := by
  have hwaits : Waits (before ++ [node]) (d.add node).pending := by
    rw [MixinDraft.pending_add]
    exact waits_wordsOf? before node
  have hvars : d.vars = d.vars ++ [] := (List.append_nil _).symm
  have htrees : d.trees = d.trees ++ ([] : List ClassTree).toArray := by simp
  cases node with
  | comment c => exact h.snoc hwaits hvars htrees .nil .nil
  | statement name params span | block name params nodes span =>
    obtain ⟨includes, hadd⟩ := exists_addAtRule_eq { d with pending := none } name params
    exact h.snoc hwaits ((congrArg MixinDraft.vars hadd).trans hvars)
      ((congrArg MixinDraft.trees hadd).trans htrees) .nil .nil
  | declaration property value span =>
    rw [MixinDraft.add] at hwaits ⊢
    by_cases hvariable : isVariable property
    · rw [if_pos hvariable] at hwaits ⊢
      have hnode : variableNodes [.declaration property value span] =
          [.declaration property value span] := List.filter_cons_of_pos hvariable
      refine h.snoc hwaits rfl htrees ?_ .nil
      rw [hnode]
      refine .cons ⟨⟨property, value, span, rfl, rfl⟩, fun text htext => ?_⟩ .nil
      exact hbody ▸ h.waits.listedBehind htext _
    · rw [if_neg hvariable] at hwaits ⊢
      have hnode : variableNodes [.declaration property value span] = [] :=
        List.filter_cons_of_neg hvariable
      refine h.snoc hwaits hvars htrees ?_ .nil
      rw [hnode]
      exact .nil
  | rule selector nodes span =>
    have hnode := forall₂_entries_body h.waits hbody d.trees.size
    refine h.snoc hwaits hvars ?_ .nil hnode
    exact growTree_eq_append none d.pending (.rule selector nodes span) d.trees

/-- All that a mixin adds is described in its body. -/
theorem readMixin_described (params : Text) (body : List Node) (description : Option Text)
    (trees : Trees) :
    ∃ d : MixinDraft, d.Described trees body body ∧
      (readMixin params body description trees).1.vars = d.vars ∧
      (readMixin params body description trees).2 = d.trees := by
  -- the induction is on the nodes still to be read
  have hfold (rest : List Node) : ∀ before d, body = before ++ rest →
      d.Described trees body before →
        (rest.foldl MixinDraft.add d).Described trees body body := by
    induction rest with
    | nil =>
      intro before d hbody h
      rw [List.append_nil] at hbody
      rwa [← hbody] at h
    | cons node rest ih =>
      intro before d hbody h
      exact ih (before ++ [node]) (d.add node) (by simp [hbody]) (h.add hbody)
  have hstart : (⟨[], [], [], none, trees⟩ : MixinDraft).Described trees body [] :=
    ⟨waits_none _, .nil, [], by simp, .nil⟩
  exact ⟨_, hfold body [] _ rfl hstart, rfl, rfl⟩

/-! ## Descriptions in the source -/

/-- What a mixin adds to the trees `old` corresponds to nodes of its body: its variables to the
declarations of variables, and its trees, which lie behind the old ones, to the rules that have
one. Each is described by the comment listed directly before its node; that of a root tree is a
node of the body, and that of a nested tree lies inside one. -/
structure BodyDescribed (t : Text) (mixin : Node) (old : Trees) (read : Mixin × Trees) :
    Prop where
  vars : List.Forall₂ (fun v node => v.MadeFrom node ∧
      ∀ text ∈ v.comment, DescribedBy t (some mixin) mixin.children text node)
    read.1.vars (variableNodes mixin.children)
  trees : ∃ added, read.2 = old ++ added.toArray ∧
    List.Forall₂ (fun tree rule => tree.MadeFrom rule ∧
        ∀ text ∈ tree.description, ∃ parent siblings,
          Siblings mixin.children parent siblings ∧ (parent = none ↔ tree.parent = none) ∧
          DescribedBy t (some (parent.getD mixin)) siblings text rule)
      added (treeRulesAll mixin.children)

section Source

variable {source : Text} {nodes : List Node} {masked : Masked}

/-- A description has the place of the comment it comes from. -/
theorem ListedBehind.describedBy {siblings : List Node} {text : Text} {node : Node}
    {parent : Option Node} (h : ListedBehind siblings text node)
    (hmasked : Masked.ofSource source = .ok masked) (hparse : parse source = .ok nodes)
    (hsiblings : Siblings nodes parent siblings) (hnode : node.isComment = false) :
    DescribedBy masked.text parent siblings text node := by
  obtain ⟨before, c, after, hsplit, rfl⟩ := h
  exact Sheet.describedBy_of_parse hmasked hparse hsiblings hsplit hnode

/-- A comment makes no item. -/
theorem Item.MadeFrom.isComment_eq {item : Item} {node : Node} (h : item.MadeFrom node) :
    node.isComment = false := by
  cases node with
  | comment c => cases h
  | _ => rfl

/-- The body of a mixin is what stands inside its node. -/
theorem Item.MadeFrom.children_eq {params : Text} {body : List Node} {description : Option Text}
    {node : Node} (h : (Item.mixin params body description).MadeFrom node) :
    body = node.children := by
  have hrule {name params' : Text} {body' : List Node} {comment : Option Text}
      (h : Item.mixin params body description ∈ Item.ofAtRule? name params' body' comment) :
      body = body' := by
    unfold Item.ofAtRule? at h
    split at h
    · cases h
    · split at h
      · obtain ⟨-, rfl, -⟩ := Item.mixin.inj (Option.some.inj h)
        rfl
      · cases h
  cases node with
  | statement name params' span => exact hrule h
  | block name params' body' span => exact hrule h
  | declaration property value span =>
    simp only [Item.MadeFrom, Item.ofNode?] at h
    split at h <;> cases h
  | rule selector inner span => cases h
  | comment c => cases h

/-- What a mixin adds has the places of the comments in its body. -/
theorem bodyDescribed_readMixin {mixin : Node} (hmasked : Masked.ofSource source = .ok masked)
    (hparse : parse source = .ok nodes) (hmixin : mixin ∈ nodes) (params : Text)
    (description : Option Text) (trees : Trees) :
    BodyDescribed masked.text mixin trees
      (readMixin params mixin.children description trees) := by
  have hlisted := Sheet.mem_allNodes_of_mem hmixin
  obtain ⟨d, hdescribed, hvars, htrees⟩ :=
    readMixin_described params mixin.children description trees
  constructor
  case vars =>
    rw [hvars]
    refine hdescribed.vars.imp fun v node ⟨hmade, hbehind⟩ => ⟨hmade, fun text htext => ?_⟩
    obtain ⟨property, value, span, rfl, -⟩ := hmade
    exact (hbehind text htext).describedBy hmasked hparse (.inside mixin hlisted) rfl
  case trees =>
    rw [htrees]
    obtain ⟨added, heq, hadded⟩ := hdescribed.trees
    refine ⟨added, heq, hadded.imp fun tree rule ⟨hmade, hbody⟩ => ⟨hmade, fun text htext => ?_⟩⟩
    obtain ⟨inner, span, rfl, -⟩ := hmade
    obtain ⟨parent, siblings, hsiblings, hparent, hbehind⟩ := hbody text htext
    exact ⟨parent, siblings, hsiblings, hparent,
      hbehind.describedBy hmasked hparse (hsiblings.of_children hlisted) rfl⟩

/-- The items at the top level correspond one to one, in order, to the nodes that make one, and so
do the variables and class trees of every mixin to the nodes in its body. Every description, of a
variable or mixin at the top level, of a variable in the body of a mixin and of a class tree at any
depth, comes from the comment listed directly before this node. The comment is written before the
node, and right before it unless it is a line comment inside the node or the prelude before. -/
theorem descriptions_of_parse (hparse : parse source = .ok nodes) :
    ∃ masked, Masked.ofSource source = .ok masked ∧
      List.Forall₂ (fun item node => item.MadeFrom node ∧
          (∀ text ∈ item.description?, DescribedBy masked.text none nodes text node) ∧
          ∀ params body description, item = .mixin params body description →
            body = node.children ∧ ∀ trees,
              BodyDescribed masked.text node trees (readMixin params body description trees))
        (classify nodes) (itemNodes nodes) := by
  obtain ⟨masked, r, hmasked, -⟩ := Sheet.exists_read_of_parse hparse
  refine ⟨masked, hmasked, ?_⟩
  have hitems := forall₂_itemsFrom (waits_none []) nodes
  refine List.forall₂_iff_zip.2 ⟨hitems.length_eq, fun {item node} hpair => ?_⟩
  obtain ⟨hmade, hlisted⟩ := List.forall₂_zip hitems hpair
  have hnode : node ∈ nodes := List.mem_of_mem_filter (List.of_mem_zip hpair).2
  refine ⟨hmade, fun text htext => ?_, ?_⟩
  · exact (hlisted text htext).describedBy hmasked hparse .top hmade.isComment_eq
  · rintro params body description rfl
    obtain rfl := hmade.children_eq
    exact ⟨rfl, bodyDescribed_readMixin hmasked hparse hnode params description⟩

end Source

/-- A comment inside the value of a variable describes the variable behind it. -/
theorem descriptions_of_parse_insideValue :
    ∃ (first node : Node) (c : Comment) (masked : Masked) (item other : Item),
      parse "$a: 1 // note\n;$b: 2;".toList = .ok [first, .comment c, node] ∧
      Masked.ofSource "$a: 1 // note\n;$b: 2;".toList = .ok masked ∧
      classify [first, .comment c, node] = [other, item] ∧
      item = .variable (Variable.make "$b".toList "2".toList (some "note".toList)) ∧
      item.MadeFrom node ∧
      DescribedBy masked.text none [first, .comment c, node] "note".toList node ∧
      c.Inside masked.text none [first] := by
  let first : Node := .declaration "$a".toList "1".toList ⟨0, 15, 1, 1⟩
  let node : Node := .declaration "$b".toList "2".toList ⟨15, 21, 2, 2⟩
  let c : Comment := ⟨.line, "note".toList, ⟨6, 13, 1, 7⟩⟩
  have hparse : parse "$a: 1 // note\n;$b: 2;".toList = .ok [first, .comment c, node] := by rfl
  have hitems : classify [first, .comment c, node] =
      [.variable (Variable.make "$a".toList "1".toList none),
        .variable (Variable.make "$b".toList "2".toList (some "note".toList))] := by
    have hwords : Comment.prose ['n', 'o', 't', 'e'] = ['n', 'o', 't', 'e'] := by decide
    simp [classify, itemsFrom, Item.ofNode?, Sheet.isVariable, first, node, c, hwords]
  have hnodes : itemNodes [first, .comment c, node] = [first, node] := rfl
  obtain ⟨masked, hmasked, hmade⟩ := descriptions_of_parse hparse
  rw [hitems, hnodes, List.forall₂_cons, List.forall₂_cons] at hmade
  obtain ⟨-, ⟨hnode, hdescribed, -⟩, -⟩ := hmade
  refine ⟨first, node, c, masked, _, _, hparse, hmasked, hitems, rfl, hnode, ?_, ?_⟩
  · exact hdescribed "note".toList rfl
  · exact Or.inl ⟨first, rfl, by decide, by decide⟩

end ClassHints.Model
