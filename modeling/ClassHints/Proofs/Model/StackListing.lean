import ClassHints.Proofs.Model.Flattening
import Mathlib.Computability.StateTransition

/-!
# Listing trees from a stack

Trees can be listed without recursion: the trees to be listed wait on a stack, and a tree that is
taken from it leaves its children there. Nothing notes which trees were met, so that a tree that
is shared is listed each time it is reached, and a circle is followed for ever. The listing comes
to an end from every tree exactly if no tree is nested in itself, and then it is the recursive
listing.
-/

namespace ClassHints.Model

open StateTransition (eval mem_eval evalInduction Reaches)

/-- A listing under way. -/
structure Listing where
  /-- The trees that wait to be listed, the next one first. -/
  stack : List Nat
  listed : List Nat

namespace Listing

/-- List the tree on top of the stack and leave its children there. An empty stack ends the
listing. -/
def step (trees : Trees) : Listing → Option Listing
  | ⟨[], _⟩ => none
  | ⟨id :: stack, listed⟩ => some ⟨childrenOf trees id ++ stack, listed ++ [id]⟩

/-- What is listed when the stack is empty. There is a result only if it ever is. -/
def run (trees : Trees) (stack : List Nat) : Part (List Nat) :=
  (eval (step trees) ⟨stack, []⟩).map listed

end Listing

/-- List a tree and what is below it from a stack, or only what is below it. A number without a
tree puts nothing on the stack. -/
def listFrom (trees : Trees) (root : Nat) (ignoreRoot : Bool) : Part (List Nat) :=
  match trees[root]? with
  | some t => Listing.run trees (if ignoreRoot then t.children else [root])
  | none => Listing.run trees []

/-- The listing of a tree that exists starts with the tree on the stack, or with its children. -/
theorem listFrom_of_lt {trees : Trees} {id : Nat} (hid : id < trees.size) (ignoreRoot : Bool) :
    listFrom trees id ignoreRoot =
      Listing.run trees (if ignoreRoot then childrenOf trees id else [id]) := by
  rw [listFrom, childrenOf, Array.getElem?_eq_getElem hid]
  rfl

/-! ## No circles: the listing ends -/

namespace Listing

/-- Whatever a stack has below a number, the number is listed with all that is below it before the
rest is. -/
def ListsTop (trees : Trees) (id : Nat) : Prop :=
  ∀ stack listed, Reaches (step trees) ⟨id :: stack, listed⟩
    ⟨stack, listed ++ listBelow trees trees.size id⟩

/-- Trees that are each listed with all that is below them are so one after the other. -/
theorem reaches_append {trees : Trees} {ids : List Nat} (h : ∀ id ∈ ids, ListsTop trees id)
    (stack listed : List Nat) : Reaches (step trees) ⟨ids ++ stack, listed⟩
      ⟨stack, listed ++ ids.flatMap (listBelow trees trees.size)⟩ := by
  induction ids generalizing listed with
  | nil =>
    rw [List.flatMap_nil, List.append_nil]
    exact .refl
  | cons id ids ih =>
    have htop := h id List.mem_cons_self (ids ++ stack) listed
    have hrest := ih (fun x hx => h x (List.mem_cons_of_mem id hx))
      (listed ++ listBelow trees trees.size id)
    rw [List.append_assoc, ← List.flatMap_cons] at hrest
    exact htop.trans hrest

end Listing

section

open Listing

variable {trees : Trees} (h : Acyclic trees)

include h

/-- At full depth a number is listed with the listings of its children. One without a tree has no
children. -/
theorem listBelow_size (id : Nat) : listBelow trees trees.size id =
    id :: (childrenOf trees id).flatMap (listBelow trees trees.size) := by
  rw [← listBelow_succ h (extent_le_size trees id), listBelow_cons]

/-- Where no tree is nested in itself, every number is listed with all that is below it. -/
theorem listsTop (id : Nat) : ListsTop trees id := by
  -- fewer trees are at and below a child than its parent, however often the child is shared
  induction hn : extent trees id using Nat.strongRecOn generalizing id with
  | ind n ih =>
    have hchildren : ∀ child ∈ childrenOf trees id, ListsTop trees child := by
      intro child hchild
      have hlt := extent_lt_of_mem_childrenOf h hchild
      exact ih _ (hn ▸ hlt) child rfl
    intro stack listed
    have hbelow := reaches_append hchildren stack (listed ++ [id])
    rw [List.append_assoc, List.singleton_append, ← listBelow_size h id] at hbelow
    exact .head rfl hbelow

/-- A stack of trees is listed to the end, tree by tree. -/
theorem run_eq_some (ids : List Nat) :
    run trees ids = Part.some (ids.flatMap (listBelow trees trees.size)) := by
  have hreaches := reaches_append (fun id (_ : id ∈ ids) => listsTop h id) [] []
  rw [List.append_nil, List.nil_append] at hreaches
  have heval := Part.eq_some_iff.2 (mem_eval.2 ⟨hreaches, rfl⟩)
  rw [run, heval, Part.map_some]

/-- Nothing is listed for a number without a tree. -/
theorem listFrom_of_le {id : Nat} (hid : trees.size ≤ id) (ignoreRoot : Bool) :
    listFrom trees id ignoreRoot = Part.some [] := by
  rw [listFrom, Array.getElem?_eq_none hid]
  exact run_eq_some h []

/-- From the stack the listing of a tree is its recursive listing. -/
theorem listFrom_eq_flatten (id : Nat) :
    listFrom trees id false = Part.some (flatten trees id) := by
  by_cases hid : id < trees.size
  · rw [listFrom_of_lt hid, flatten, if_pos hid]
    simpa using run_eq_some h [id]
  · rw [listFrom_of_le h (Nat.not_lt.1 hid), flatten, if_neg hid]

/-- Without the tree itself its children are on the stack from the start. -/
theorem listFrom_eq_descendants (id : Nat) :
    listFrom trees id true = Part.some (descendants trees id) := by
  by_cases hid : id < trees.size
  · rw [listFrom_of_lt hid, descendants, flatten, if_pos hid, listBelow_size h id]
    exact run_eq_some h (childrenOf trees id)
  · rw [listFrom_of_le h (Nat.not_lt.1 hid), descendants, flatten, if_neg hid]
    rfl

end

/-! ## Circles: the listing never ends -/

/-- Below what is listed to the end every way down is finite. -/
theorem Listing.acc_of_mem_eval {trees : Trees} {l last : Listing}
    (h : last ∈ eval (step trees) l) :
    ∀ id ∈ l.stack, Acc (fun child id => Nests trees id child) id := by
  refine evalInduction h fun l _ ih => ?_
  obtain ⟨stack, listed⟩ := l
  cases stack with
  | nil => simp
  | cons top stack =>
    have hnext := ih _ rfl
    intro id hid
    rcases List.mem_cons.1 hid with rfl | hid
    · exact ⟨_, fun child hchild => hnext child (List.mem_append_left _ hchild)⟩
    · exact hnext id (List.mem_append_right _ hid)

/-- A tree with only finite ways down from it is not nested in itself. -/
theorem not_transGen_of_acc {trees : Trees} {id : Nat}
    (h : Acc (fun child id => Nests trees id child) id) :
    ¬Relation.TransGen (Nests trees) id id := by
  induction h with
  | intro id _ ih =>
    intro hcircle
    obtain ⟨child, hchild, hback⟩ := Relation.TransGen.head'_iff.1 hcircle
    exact ih child hchild (Relation.TransGen.tail' hback hchild)

/-- If every listing comes to an end, no tree is nested in itself. -/
theorem acyclic_of_listFrom {trees : Trees}
    (h : ∀ id < trees.size, ∃ result, result ∈ listFrom trees id false) : Acyclic trees := by
  intro id hcircle
  obtain ⟨child, hchild, -⟩ := Relation.TransGen.head'_iff.1 hcircle
  have hid := lt_size_of_mem_childrenOf hchild
  obtain ⟨result, hresult⟩ := h id hid
  rw [listFrom_of_lt hid] at hresult
  obtain ⟨last, hlast, -⟩ := (Part.mem_map_iff _).1 hresult
  exact not_transGen_of_acc (Listing.acc_of_mem_eval hlast id (by simp)) hcircle

/-! ## Pre-order -/

/-- Every listing from the stack comes to an end, and is the recursive listing in pre-order. -/
structure ListsInPreOrder (trees : Trees) : Prop where
  ends : ∀ id, listFrom trees id false = Part.some (flatten trees id)
  below_ends : ∀ id, listFrom trees id true = Part.some (descendants trees id)
  /-- A tree comes first, then the listings of its children in order. A child that is missing
  is listed alone. -/
  unfolds : ∀ id < trees.size, flatten trees id = id :: (childrenOf trees id).flatMap fun child =>
    if child < trees.size then flatten trees child else [child]
  below : ∀ id < trees.size, flatten trees id = id :: descendants trees id
  missing : ∀ id, trees.size ≤ id → flatten trees id = [] ∧ descendants trees id = []

/-- Trees that are nested in no circle, and no others, are all listed in pre-order from the
stack. -/
theorem acyclic_iff_listsInPreOrder (trees : Trees) : Acyclic trees ↔ ListsInPreOrder trees := by
  constructor
  · intro h
    constructor
    case ends => exact listFrom_eq_flatten h
    case below_ends => exact listFrom_eq_descendants h
    case unfolds => exact fun id hid => flatten_eq_cons h hid
    case below =>
      intro id hid
      rw [descendants, flatten_eq_cons h hid]
      rfl
    case missing =>
      intro id hid
      have hnone : flatten trees id = [] := if_neg (Nat.not_lt.2 hid)
      exact ⟨hnone, by rw [descendants, hnone]; rfl⟩
  · intro h
    refine acyclic_of_listFrom fun id _ => ⟨flatten trees id, ?_⟩
    rw [h.ends id]
    exact Part.mem_some _

/-- A tree without classes, with some trees below it. -/
def bareTree (children : List Nat) : ClassTree := ⟨[], children, none, [], none⟩

/-- A child that is shared, one that is repeated, and one that is missing. -/
def sharedTrees : Trees := #[bareTree [1, 2, 2], bareTree [3, 7], bareTree [3], bareTree []]

/-- The shared child is listed below both of its parents and the repeated one twice, and the missing
one alone. -/
theorem acyclic_iff_listsInPreOrder_sharedTrees :
    Acyclic sharedTrees ∧ ListsInPreOrder sharedTrees ∧
      flatten sharedTrees 0 = [0, 1, 3, 7, 2, 3, 2, 3] := by
  have hacyclic : Acyclic sharedTrees := acyclic_of_lt (by decide)
  exact ⟨hacyclic, (acyclic_iff_listsInPreOrder sharedTrees).1 hacyclic, by decide⟩

end ClassHints.Model
