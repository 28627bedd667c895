import ClassHints.Model.Mixin
import ClassHints.Proofs.Model.TreeOrder
import ClassHints.Proofs.Sheet.Forest

/-!
# Growing trees in pre-order

A rule adds its own tree first and the trees of the rules nested in it after that, and learns
of its children last. The trees that are there already stay as they are, so that a body of
rules adds a run of trees in pre-order.
-/

namespace ClassHints.Model

open Sheet (Node)

/-- The parent of a tree depends on the tree at its number only. -/
theorem parentOf_congr {trees old : Trees} {id : Nat} (h : trees[id]? = old[id]?) :
    parentOf trees id = parentOf old id := by
  rw [parentOf, h, parentOf]

/-- The children of a tree depend on the tree at its number only. -/
theorem childrenOf_congr {trees old : Trees} {id : Nat} (h : trees[id]? = old[id]?) :
    childrenOf trees id = childrenOf old id := by
  rw [childrenOf, h, childrenOf]

namespace Grows

variable {old trees : Trees} {oldStop stop : Nat → Nat} {parent : Option Nat} {ids : List Nat}

/-- Nothing is added. -/
theorem refl (hlt : ∀ id, id < stop id) (trees : Trees) (parent : Option Nat) :
    Grows trees stop parent [] trees stop where
  size_le := Nat.le_refl _
  getElem?_eq _ _ := rfl
  stop_eq _ _ := rfl
  lt_stop := hlt
  fills := rfl
  parent_eq _ hid := by cases hid
  children_fill id hle hlt := by omega
  parent_child id hle hlt := by omega

/-- The numbers of the trees that are added are new, and all in use afterwards. -/
theorem lt_size_of_mem (h : Grows old oldStop parent ids trees stop) {id : Nat} (hid : id ∈ ids) :
    old.size ≤ id ∧ id < trees.size := by
  have hbounds := h.fills.bounds h.lt_stop hid
  have hpos := h.lt_stop id
  omega

/-- First some trees are added and then some more. -/
theorem trans {middle : Trees} {middleStop : Nat → Nat} {more : List Nat}
    (h : Grows old oldStop parent ids middle middleStop)
    (hmore : Grows middle middleStop parent more trees stop) :
    Grows old oldStop parent (ids ++ more) trees stop where
  size_le := Nat.le_trans h.size_le hmore.size_le
  getElem?_eq id hid := by
    have hle := h.size_le
    rw [hmore.getElem?_eq id (by omega), h.getElem?_eq id hid]
  stop_eq id hid := by
    have hle := h.size_le
    rw [hmore.stop_eq id (by omega), h.stop_eq id hid]
  lt_stop := hmore.lt_stop
  fills := by
    have hfills : Fills stop old.size ids middle.size :=
      h.fills.congr fun id hid => hmore.stop_eq id (h.lt_size_of_mem hid).2
    exact hfills.append hmore.fills
  parent_eq id hid := by
    rcases List.mem_append.1 hid with hid | hid
    · rw [parentOf_congr (hmore.getElem?_eq id (h.lt_size_of_mem hid).2)]
      exact h.parent_eq id hid
    · exact hmore.parent_eq id hid
  children_fill id hle hlt := by
    by_cases hid : id < middle.size
    · have hfill := h.children_fill id hle hid
      rw [childrenOf_congr (hmore.getElem?_eq id hid), hmore.stop_eq id hid]
      refine hfill.congr fun child hchild => hmore.stop_eq child ?_
      exact lt_size_of_parentOf (h.parent_child id hle hid child hchild)
    · exact hmore.children_fill id (by omega) hlt
  parent_child id hle hlt child hchild := by
    by_cases hid : id < middle.size
    · rw [childrenOf_congr (hmore.getElem?_eq id hid)] at hchild
      have hparent := h.parent_child id hle hid child hchild
      rwa [parentOf_congr (hmore.getElem?_eq child (lt_size_of_parentOf hparent))]
    · exact hmore.parent_child id (by omega) hlt child hchild

/-- A tree is planted, the trees below it are added, and it learns of its children. -/
theorem plant {tree : ClassTree} {children : List Nat} {grown : Trees}
    (h : Grows (old.push tree) oldStop (some old.size) children grown stop) :
    Grows old oldStop tree.parent [old.size]
      (grown.modify old.size fun t => { t with children := children })
      (fun id => if id = old.size then grown.size else stop id) := by
  have hsize : old.size + 1 ≤ grown.size := by simpa using h.size_le
  have hself : grown[old.size]? = some tree := by
    rw [h.getElem?_eq old.size (by simp)]
    simp
  -- only the entry at `old.size` changes after the trees below it were added
  have hother {id : Nat} (hid : id ≠ old.size) :
      (grown.modify old.size fun t => { t with children := children })[id]? = grown[id]? := by
    rw [Array.getElem?_modify, if_neg (Ne.symm hid)]
  have hplanted : (grown.modify old.size fun t => { t with children := children })[old.size]? =
      some { tree with children := children } := by
    rw [Array.getElem?_modify, if_pos rfl, hself]
    rfl
  have hchildren : ∀ child ∈ children, child ≠ old.size := by
    intro child hchild
    have hle := (h.lt_size_of_mem hchild).1
    simp only [Array.size_push] at hle
    omega
  have hinner {id : Nat} (hle : old.size + 1 ≤ id) (hlt : id < grown.size) :
      ∀ child ∈ childrenOf grown id, child ≠ old.size := by
    intro child hchild
    have hfill := h.children_fill id (by simpa using hle) hlt
    have hbounds := hfill.bounds h.lt_stop hchild
    omega
  constructor
  case size_le =>
    rw [Array.size_modify]
    omega
  case getElem?_eq =>
    intro id hid
    rw [hother (by omega), h.getElem?_eq id (by simp; omega), Array.getElem?_push,
      if_neg (by omega)]
  case stop_eq =>
    intro id hid
    rw [if_neg (by omega), h.stop_eq id (by simp; omega)]
  case lt_stop =>
    intro id
    have hpos := h.lt_stop id
    by_cases hid : id = old.size
    · rw [if_pos hid]
      omega
    · rw [if_neg hid]
      exact hpos
  case fills =>
    refine ⟨rfl, ?_⟩
    dsimp only
    rw [if_pos rfl, Array.size_modify]
    rfl
  case parent_eq =>
    intro id hid
    rw [List.mem_singleton.1 hid, parentOf, hplanted]
    rfl
  case children_fill =>
    intro id hle hlt
    rw [Array.size_modify] at hlt
    by_cases hid : id = old.size
    · subst hid
      have hfill : Fills stop (old.size + 1) children grown.size := by simpa using h.fills
      rw [if_pos rfl, childrenOf, hplanted]
      exact hfill.congr fun child hchild => if_neg (hchildren child hchild)
    · have hfill := h.children_fill id (by simp; omega) hlt
      rw [if_neg hid, childrenOf_congr (hother hid)]
      exact hfill.congr fun child hchild => if_neg (hinner (by omega) hlt child hchild)
  case parent_child =>
    intro id hle hlt child hchild
    rw [Array.size_modify] at hlt
    by_cases hid : id = old.size
    · subst hid
      rw [childrenOf, hplanted] at hchild
      rw [parentOf_congr (hother (hchildren child hchild))]
      exact h.parent_eq child hchild
    · rw [childrenOf_congr (hother hid)] at hchild
      rw [parentOf_congr (hother (hinner (by omega) hlt child hchild))]
      exact h.parent_child id (by simp; omega) hlt child hchild

end Grows

/-! ## Rules -/

/-- The trees of nodes inside a tree are added in pre-order. -/
def GrowsAll (nodes : List Node) : Prop :=
  ∀ (parent : Nat) (pending : Option Text) (trees : Trees) (stop : Nat → Nat),
    (∀ id, id < stop id) →
    ∃ stop', Grows trees stop (some parent) (growTrees parent pending nodes trees).1
      (growTrees parent pending nodes trees).2 stop'

/-- The tree of a node is added in pre-order if the trees of the nodes inside it are. -/
theorem growTree_grows (node : Node) (h : GrowsAll node.children) (parent : Option Nat)
    (description : Option Text) (trees : Trees) {stop : Nat → Nat} (hlt : ∀ id, id < stop id) :
    ∃ stop', Grows trees stop parent (growTree parent description node trees).1.toList
      (growTree parent description node trees).2 stop' := by
  cases node with
  | rule selector nodes span =>
    rw [growTree]
    dsimp only
    split
    · exact ⟨stop, .refl hlt trees parent⟩
    · let base := subClasses (Sheet.splitSelectors selector)
      let tree : ClassTree :=
        ⟨base ++ continuedClasses base nodes, [], parent, selector, description⟩
      obtain ⟨stop', hgrows⟩ := h trees.size none (trees.push tree) stop hlt
      exact ⟨_, hgrows.plant⟩
  | declaration property value span => exact ⟨stop, .refl hlt trees parent⟩
  | statement name params span => exact ⟨stop, .refl hlt trees parent⟩
  | block name params nodes span => exact ⟨stop, .refl hlt trees parent⟩
  | comment c => exact ⟨stop, .refl hlt trees parent⟩

/-- A node that is no comment adds its tree, and the nodes after it add theirs. -/
theorem growTrees_cons {node : Node} (h : ∀ c, node ≠ .comment c) (parent : Nat)
    (pending : Option Text) (nodes : List Node) (trees : Trees) :
    growTrees parent pending (node :: nodes) trees =
      ((growTree (some parent) pending node trees).1.toList ++
          (growTrees parent none nodes (growTree (some parent) pending node trees).2).1,
        (growTrees parent none nodes (growTree (some parent) pending node trees).2).2) := by
  rw [growTrees]
  exact h

/-- One more node in front: its trees come first, then those of the nodes behind it. -/
theorem GrowsAll.cons (node : Node) {nodes : List Node} (hnode : GrowsAll node.children)
    (hnodes : GrowsAll nodes) : GrowsAll (node :: nodes) := by
  intro parent pending trees stop hlt
  by_cases hcomment : ∃ c, node = .comment c
  · obtain ⟨c, rfl⟩ := hcomment
    rw [growTrees]
    exact hnodes parent _ trees stop hlt
  · rw [growTrees_cons fun c hc => hcomment ⟨c, hc⟩]
    obtain ⟨stop₁, hfirst⟩ := growTree_grows node hnode (some parent) pending trees hlt
    obtain ⟨stop₂, hrest⟩ := hnodes parent none _ stop₁ hfirst.lt_stop
    exact ⟨stop₂, hfirst.trans hrest⟩

/-- The trees of all nodes are added in pre-order. -/
theorem growsAll (nodes : List Node) : GrowsAll nodes := by
  induction nodes using Node.children_induction with
  | nil => exact fun parent pending trees stop hlt =>
    ⟨stop, by rw [growTrees]; exact .refl hlt trees (some parent)⟩
  | cons node nodes hinner ih => exact .cons node hinner ih

/-! ## Mixins -/

namespace MixinDraft

/-- An at-rule changes the names of the includes at most. -/
theorem exists_addAtRule_eq (d : MixinDraft) (name params : Text) :
    ∃ includes, d.addAtRule name params = { d with includes := includes } := by
  unfold addAtRule
  split
  · exact ⟨_, rfl⟩
  · exact ⟨d.includes, rfl⟩

/-- A node of a body adds to the own trees of the mixin in pre-order. -/
theorem add_grows {old : Trees} {oldStop stop : Nat → Nat} {d : MixinDraft}
    (h : Grows old oldStop none d.ownTrees d.trees stop) (node : Node) :
    ∃ stop', Grows old oldStop none (d.add node).ownTrees (d.add node).trees stop' := by
  cases node with
  | comment c => exact ⟨stop, h⟩
  | statement name params span | block name params nodes span =>
    obtain ⟨includes, hadd⟩ := exists_addAtRule_eq { d with pending := none } name params
    simp only [add]
    rw [hadd]
    exact ⟨stop, h⟩
  | declaration property value span =>
    unfold add
    dsimp only
    split <;> exact ⟨stop, h⟩
  | rule selector nodes span =>
    obtain ⟨stop', hrule⟩ := growTree_grows (.rule selector nodes span) (growsAll nodes) none
      d.pending d.trees h.lt_stop
    exact ⟨stop', h.trans hrule⟩

end MixinDraft

/-- The trees of a mixin are added in pre-order, and its own trees are those without a
parent. -/
theorem readMixin_grows (params : Text) (body : List Node) (description : Option Text)
    (trees : Trees) {stop : Nat → Nat} (hlt : ∀ id, id < stop id) :
    ∃ stop', Grows trees stop none (readMixin params body description trees).1.ownTrees
      (readMixin params body description trees).2 stop' := by
  have hfold (d : MixinDraft) {stop₁ : Nat → Nat}
      (h : Grows trees stop none d.ownTrees d.trees stop₁) :
      ∃ stop', Grows trees stop none (body.foldl MixinDraft.add d).ownTrees
        (body.foldl MixinDraft.add d).trees stop' := by
    induction body generalizing d stop₁ with
    | nil => exact ⟨stop₁, h⟩
    | cons node body ih =>
      obtain ⟨stop₂, hnode⟩ := d.add_grows h node
      exact ih (d.add node) hnode
  exact hfold _ (.refl hlt trees none)

end ClassHints.Model
