import ClassHints.Proofs.Model.TreeOrder
import Mathlib.Data.Finset.Card
import Mathlib.Data.Finset.Range
import Mathlib.Logic.Relation

/-!
# Listing trees that are nested in no circle

The listing below a tree goes down to a limited depth. Where no tree is nested in itself, a
step down leaves fewer trees to reach, so that the depth is never used up: the listing of a tree
is the tree followed by the listings of its children. Children may be shared, repeated or
missing.
-/

namespace ClassHints.Model

/-- A tree is nested directly in another one. -/
def Nests (trees : Trees) (id child : Nat) : Prop := child ∈ childrenOf trees id

/-- No tree is nested in itself at any depth. -/
def Acyclic (trees : Trees) : Prop := ∀ id, ¬Relation.TransGen (Nests trees) id id

/-- Trees whose children come after them are nested in no circle. -/
theorem acyclic_of_lt {trees : Trees}
    (h : ∀ id < trees.size, ∀ child ∈ childrenOf trees id, id < child) : Acyclic trees := by
  have hlt {id x : Nat} (hpath : Relation.TransGen (Nests trees) id x) : id < x := by
    induction hpath with
    | single hchild => exact h _ (lt_size_of_mem_childrenOf hchild) _ hchild
    | tail _ hchild ih => exact ih.trans (h _ (lt_size_of_mem_childrenOf hchild) _ hchild)
  exact fun id hcircle => Nat.lt_irrefl id (hlt hcircle)

open Classical in
/-- How many trees there are at and below a tree. -/
noncomputable def extent (trees : Trees) (id : Nat) : Nat :=
  ((Finset.range trees.size).filter (Relation.ReflTransGen (Nests trees) id)).card

/-- There are no more trees below a tree than there are trees. -/
theorem extent_le_size (trees : Trees) (id : Nat) : extent trees id ≤ trees.size := by
  classical
  unfold extent
  calc _ ≤ (Finset.range trees.size).card := Finset.card_filter_le _ _
    _ = trees.size := Finset.card_range _

/-- The listing to one more level is the number itself, then the listings of its children. -/
theorem listBelow_cons (trees : Trees) (depth id : Nat) :
    listBelow trees (depth + 1) id =
      id :: (childrenOf trees id).flatMap (listBelow trees depth) := rfl

section

variable {trees : Trees} (h : Acyclic trees) {id child : Nat}

include h

/-- Fewer trees are below a child, as its parent is not. -/
theorem extent_lt_of_mem_childrenOf (hchild : child ∈ childrenOf trees id) :
    extent trees child < extent trees id := by
  classical
  unfold extent
  apply Finset.card_lt_card
  rw [Finset.ssubset_iff_of_subset]
  · refine ⟨id, ?_, ?_⟩
    · simpa using ⟨lt_size_of_mem_childrenOf hchild, Relation.ReflTransGen.refl⟩
    · intro hmem
      have hback := (Finset.mem_filter.1 hmem).2
      exact h id (Relation.TransGen.head' hchild hback)
  · intro x hx
    obtain ⟨hsize, hpath⟩ := Finset.mem_filter.1 hx
    exact Finset.mem_filter.2 ⟨hsize, hpath.head hchild⟩

/-- A listing that reaches all trees below a tree does not change with more depth. -/
theorem listBelow_succ {depth : Nat} (hdepth : extent trees id ≤ depth) :
    listBelow trees (depth + 1) id = listBelow trees depth id := by
  induction depth generalizing id with
  | zero =>
    have hnone : childrenOf trees id = [] := by
      refine List.eq_nil_iff_forall_not_mem.2 fun child hchild => ?_
      have hlt := extent_lt_of_mem_childrenOf h hchild
      omega
    rw [listBelow_cons, hnone]
    rfl
  | succ depth ih =>
    rw [listBelow_cons, listBelow_cons]
    congr 1
    refine List.flatMap_congr fun child hchild => ih ?_
    have hlt := extent_lt_of_mem_childrenOf h hchild
    omega

/-- The listing of a tree is the tree and the listings of its children. A child that is missing
is listed and has nothing below it. -/
theorem flatten_eq_cons (hid : id < trees.size) :
    flatten trees id = id :: (childrenOf trees id).flatMap fun child =>
      if child < trees.size then flatten trees child else [child] := by
  have hmissing {child : Nat} (hchild : ¬child < trees.size) (depth : Nat) :
      listBelow trees depth child = [child] := by
    cases depth with
    | zero => rfl
    | succ depth =>
      rw [listBelow, Array.getElem?_eq_none (Nat.not_lt.1 hchild)]
      rfl
  have hchildren : (childrenOf trees id).flatMap (listBelow trees trees.size) =
      (childrenOf trees id).flatMap fun child =>
        if child < trees.size then flatten trees child else [child] := by
    refine List.flatMap_congr fun child _ => ?_
    by_cases hchild : child < trees.size
    · rw [if_pos hchild, flatten, if_pos hchild]
    · rw [if_neg hchild, hmissing hchild]
  rw [flatten, if_pos hid, ← listBelow_succ h (extent_le_size trees id), listBelow_cons, hchildren]

end

end ClassHints.Model
