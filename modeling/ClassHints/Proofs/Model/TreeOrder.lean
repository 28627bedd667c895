import ClassHints.Model.ClassTree
import Mathlib.Data.List.Chain

/-!
# Trees in pre-order

The trees of a package are numbered so that the trees at and below a tree fill a range: a tree
comes first, and its children fill the rest of the range one after the other. From this follow
what is listed below a tree, which chain leads to a tree, and that the two fit together.
-/

namespace ClassHints.Model

/-- The tree around a tree. -/
def parentOf (trees : Trees) (id : Nat) : Option Nat := trees[id]?.bind ClassTree.parent

/-- The trees nested in a tree. -/
def childrenOf (trees : Trees) (id : Nat) : List Nat := trees[id]?.elim [] ClassTree.children

/-- A number with a parent is that of a tree. -/
theorem lt_size_of_parentOf {trees : Trees} {id parent : Nat} (h : parentOf trees id = some parent) :
    id < trees.size := by
  obtain ⟨t, ht, -⟩ := Option.bind_eq_some_iff.1 h
  exact (Array.getElem?_eq_some_iff.1 ht).1

/-- A number with children is that of a tree. -/
theorem lt_size_of_mem_childrenOf {trees : Trees} {id child : Nat}
    (h : child ∈ childrenOf trees id) : id < trees.size := by
  by_cases hlt : id < trees.size
  · exact hlt
  · rw [childrenOf, Array.getElem?_eq_none (Nat.not_lt.1 hlt)] at h
    cases h

/-- A number below which something is listed is that of a tree. -/
theorem lt_size_of_mem_flatten {trees : Trees} {id x : Nat} (h : x ∈ flatten trees id) :
    id < trees.size := by
  by_contra hnot
  rw [flatten, if_neg hnot] at h
  cases h

/-! ## Chains of numbers -/

/-- The numbers of the trees from a tree up to the outermost tree around it, at most as many
as there are steps. -/
def climbIds (trees : Trees) : Nat → Nat → List Nat
  | 0, _ => []
  | steps + 1, id =>
    if id < trees.size then id :: (parentOf trees id).elim [] (climbIds trees steps) else []

/-- The numbers of the trees from the outermost one down to a tree. -/
def pathIds (trees : Trees) (id : Nat) : List Nat := (climbIds trees trees.size id).reverse

/-- A chain of trees has a tree for each number. -/
theorem map_some_climb (trees : Trees) (steps id : Nat) :
    (climb trees steps id).map some = (climbIds trees steps id).map (trees[·]?) := by
  induction steps generalizing id with
  | zero => rfl
  | succ steps ih =>
    rw [climb, climbIds, parentOf]
    by_cases hid : id < trees.size
    · rw [Array.getElem?_eq_getElem hid, if_pos hid, List.map_cons, List.map_cons,
        Array.getElem?_eq_getElem hid]
      dsimp only [Option.bind_some]
      cases trees[id].parent with
      | none => rfl
      | some parent =>
        dsimp only [Option.elim]
        rw [ih]
    · rw [Array.getElem?_eq_none (Nat.not_lt.1 hid), if_neg hid]
      rfl

/-- The path to a tree is made of the trees at the numbers of the path. -/
theorem map_some_treePath (trees : Trees) (id : Nat) :
    (treePath trees id).map some = (pathIds trees id).map (trees[·]?) := by
  rw [treePath, pathIds, List.map_reverse, map_some_climb, List.map_reverse]

/-! ## Ranges filled by trees -/

/-- Trees fill a range: each one starts where the one before it stops. -/
def Fills (stop : Nat → Nat) : Nat → List Nat → Nat → Prop
  | first, [], last => first = last
  | first, id :: ids, last => id = first ∧ Fills stop (stop id) ids last

namespace Fills

variable {stop : Nat → Nat} {first middle last : Nat} {ids : List Nat}

/-- A range that is filled up to a place and from there on is filled. -/
theorem append {more : List Nat} (h : Fills stop first ids middle)
    (hmore : Fills stop middle more last) : Fills stop first (ids ++ more) last := by
  induction ids generalizing first with
  | nil =>
    obtain rfl : first = middle := h
    exact hmore
  | cons id ids ih => exact ⟨h.1, ih h.2⟩

/-- Only where the given trees stop matters. -/
theorem congr {stop' : Nat → Nat} (h : Fills stop first ids last)
    (hstop : ∀ id ∈ ids, stop' id = stop id) : Fills stop' first ids last := by
  induction ids generalizing first with
  | nil => exact h
  | cons id ids ih =>
    refine ⟨h.1, ?_⟩
    rw [hstop id List.mem_cons_self]
    exact ih h.2 fun id' hid' => hstop id' (List.mem_cons_of_mem id hid')

/-- Every place of the range lies in one of the trees. -/
theorem exists_cover (h : Fills stop first ids last) {x : Nat} (hfirst : first ≤ x)
    (hlast : x < last) : ∃ id ∈ ids, id ≤ x ∧ x < stop id := by
  induction ids generalizing first with
  | nil =>
    have heq : first = last := h
    omega
  | cons id ids ih =>
    obtain ⟨rfl, hrest⟩ := h
    by_cases hx : x < stop id
    · exact ⟨id, List.mem_cons_self, hfirst, hx⟩
    · obtain ⟨id', hid', hcover⟩ := ih hrest (by omega)
      exact ⟨id', List.mem_cons_of_mem id hid', hcover⟩

variable (hlt : ∀ id, id < stop id)

include hlt

/-- A range that is filled does not end before it starts. -/
theorem le (h : Fills stop first ids last) : first ≤ last := by
  induction ids generalizing first with
  | nil => exact Nat.le_of_eq h
  | cons id ids ih =>
    obtain ⟨rfl, hrest⟩ := h
    have hle := ih hrest
    have hid := hlt id
    omega

/-- Every tree lies in the range. -/
theorem bounds (h : Fills stop first ids last) {id : Nat} (hid : id ∈ ids) :
    first ≤ id ∧ stop id ≤ last := by
  induction ids generalizing first with
  | nil => cases hid
  | cons id' ids ih =>
    obtain ⟨rfl, hrest⟩ := h
    rcases List.mem_cons.1 hid with rfl | hid
    · exact ⟨Nat.le_refl _, hrest.le hlt⟩
    · obtain ⟨hfirst, hlast⟩ := ih hrest hid
      have hid' := hlt id'
      exact ⟨by omega, hlast⟩

/-- No tree fills its place twice. -/
theorem nodup (h : Fills stop first ids last) : ids.Nodup := by
  induction ids generalizing first with
  | nil => exact List.nodup_nil
  | cons id ids ih =>
    obtain ⟨-, hrest⟩ := h
    refine List.nodup_cons.2 ⟨fun hmem => ?_, ih hrest⟩
    have hle := (hrest.bounds hlt hmem).1
    have hid := hlt id
    omega

/-- Lists that fill the range of each tree together fill the whole range. -/
theorem flatMap_eq_range' (h : Fills stop first ids last) {list : Nat → List Nat}
    (hlist : ∀ id ∈ ids, list id = List.range' id (stop id - id)) :
    ids.flatMap list = List.range' first (last - first) := by
  induction ids generalizing first with
  | nil =>
    obtain rfl : first = last := h
    simp
  | cons id ids ih =>
    obtain ⟨rfl, hrest⟩ := h
    have hid := hlt id
    have hle := hrest.le hlt
    have hsplit : last - id = (stop id - id) + (last - stop id) := by omega
    have hnext : stop id = id + 1 * (stop id - id) := by omega
    rw [List.flatMap_cons, hlist id List.mem_cons_self,
      ih hrest fun id' hid' => hlist id' (List.mem_cons_of_mem id hid'), hsplit,
      ← List.range'_append, ← hnext]

end Fills

/-- The trees `trees` go on from the trees `old` with the trees `ids` around `parent` and all
trees below them. `stop` says where the range of a tree ends. -/
structure Grows (old : Trees) (oldStop : Nat → Nat) (parent : Option Nat) (ids : List Nat)
    (trees : Trees) (stop : Nat → Nat) : Prop where
  size_le : old.size ≤ trees.size
  getElem?_eq : ∀ id < old.size, trees[id]? = old[id]?
  stop_eq : ∀ id < old.size, stop id = oldStop id
  lt_stop : ∀ id, id < stop id
  fills : Fills stop old.size ids trees.size
  parent_eq : ∀ id ∈ ids, parentOf trees id = parent
  children_fill : ∀ id, old.size ≤ id → id < trees.size →
    Fills stop (id + 1) (childrenOf trees id) (stop id)
  parent_child : ∀ id, old.size ≤ id → id < trees.size → ∀ child ∈ childrenOf trees id,
    parentOf trees child = some id

/-- Trees are in pre-order: they have grown from nothing, and `roots` are the trees without a
parent. -/
def PreOrder (trees : Trees) (roots : List Nat) (stop : Nat → Nat) : Prop :=
  Grows #[] (· + 1) none roots trees stop

namespace PreOrder

variable {trees : Trees} {roots : List Nat} {stop : Nat → Nat}

/-- A child comes after its parent, and its range lies in that of the parent. -/
theorem lt_of_mem_childrenOf (h : PreOrder trees roots stop) {id child : Nat}
    (hchild : child ∈ childrenOf trees id) : id < child ∧ stop child ≤ stop id := by
  have hsize := lt_size_of_mem_childrenOf hchild
  exact (h.children_fill id (Nat.zero_le id) hsize).bounds h.lt_stop hchild

/-- A tree is the parent of its children. -/
theorem parentOf_of_mem_childrenOf (h : PreOrder trees roots stop) {id child : Nat}
    (hchild : child ∈ childrenOf trees id) : parentOf trees child = some id :=
  h.parent_child id (Nat.zero_le id) (lt_size_of_mem_childrenOf hchild) child hchild

/-- No child is listed twice. -/
theorem nodup_childrenOf (h : PreOrder trees roots stop) {id : Nat} (hid : id < trees.size) :
    (childrenOf trees id).Nodup :=
  (h.children_fill id (Nat.zero_le id) hid).nodup h.lt_stop

/-- What lies in the range of a tree is the tree or a child of a tree in the range, and its own
range ends there too. -/
theorem within (h : PreOrder trees roots stop) {id x : Nat} (hid : id < trees.size)
    (hfirst : id ≤ x) (hlast : x < stop id) :
    stop x ≤ stop id ∧
      (x = id ∨ ∃ parent, id ≤ parent ∧ parent < stop id ∧ x ∈ childrenOf trees parent) := by
  -- the induction is on the length of the range, which is shorter for a child
  induction hn : stop id - id using Nat.strongRecOn generalizing id with
  | ind n ih =>
    by_cases hx : x = id
    · subst hx
      exact ⟨Nat.le_refl _, Or.inl rfl⟩
    · obtain ⟨child, hchild, hle, hlt⟩ :=
        (h.children_fill id (Nat.zero_le id) hid).exists_cover (x := x) (by omega) hlast
      obtain ⟨hafter, hstop⟩ := h.lt_of_mem_childrenOf hchild
      have hsize := lt_size_of_parentOf (h.parentOf_of_mem_childrenOf hchild)
      have hpos := h.lt_stop child
      obtain ⟨hxstop, hcases⟩ := ih (stop child - child) (by omega) hsize hle hlt rfl
      refine ⟨by omega, Or.inr ?_⟩
      rcases hcases with rfl | ⟨parent, hparent, hparent', hmem⟩
      · exact ⟨id, Nat.le_refl _, h.lt_stop id, hchild⟩
      · exact ⟨parent, by omega, by omega, hmem⟩

/-- Every tree lies in the range of one of the roots. -/
theorem exists_root (h : PreOrder trees roots stop) {x : Nat} (hx : x < trees.size) :
    ∃ root ∈ roots, root < trees.size ∧ root ≤ x ∧ x < stop root ∧ stop root ≤ trees.size := by
  obtain ⟨root, hroot, hle, hlt⟩ := h.fills.exists_cover (Nat.zero_le x) hx
  exact ⟨root, hroot, by omega, hle, hlt, (h.fills.bounds h.lt_stop hroot).2⟩

/-- The range of a tree ends with the last tree at the latest. -/
theorem stop_le_size (h : PreOrder trees roots stop) {x : Nat} (hx : x < trees.size) :
    stop x ≤ trees.size := by
  obtain ⟨root, -, hsize, hle, hlt, hstop⟩ := h.exists_root hx
  have hwithin := (h.within hsize hle hlt).1
  omega

/-- A tree is a root or a child of some tree. -/
theorem mem_roots_or_mem_childrenOf (h : PreOrder trees roots stop) {x : Nat}
    (hx : x < trees.size) : x ∈ roots ∨ ∃ parent, x ∈ childrenOf trees parent := by
  obtain ⟨root, hroot, hsize, hle, hlt, -⟩ := h.exists_root hx
  rcases (h.within hsize hle hlt).2 with rfl | ⟨parent, -, -, hmem⟩
  · exact Or.inl hroot
  · exact Or.inr ⟨parent, hmem⟩

/-- The roots are the trees without a parent. -/
theorem mem_roots_iff (h : PreOrder trees roots stop) {x : Nat} :
    x ∈ roots ↔ x < trees.size ∧ parentOf trees x = none := by
  constructor
  · intro hroot
    have hstop := (h.fills.bounds h.lt_stop hroot).2
    have hpos := h.lt_stop x
    exact ⟨by omega, h.parent_eq x hroot⟩
  · rintro ⟨hx, hnone⟩
    rcases h.mem_roots_or_mem_childrenOf hx with hroot | ⟨parent, hmem⟩
    · exact hroot
    · rw [h.parentOf_of_mem_childrenOf hmem] at hnone
      cases hnone

/-- A tree is among the children of its parent and of no other tree. -/
theorem mem_childrenOf_iff (h : PreOrder trees roots stop) {x parent : Nat} :
    x ∈ childrenOf trees parent ↔ parentOf trees x = some parent := by
  constructor
  · exact h.parentOf_of_mem_childrenOf
  · intro hparent
    have hx := lt_size_of_parentOf hparent
    rcases h.mem_roots_or_mem_childrenOf hx with hroot | ⟨parent', hmem⟩
    · rw [(h.mem_roots_iff.1 hroot).2] at hparent
      cases hparent
    · have heq := h.parentOf_of_mem_childrenOf hmem
      rw [hparent] at heq
      rwa [Option.some.inj heq]

/-- No root is listed twice. -/
theorem nodup_roots (h : PreOrder trees roots stop) : roots.Nodup := h.fills.nodup h.lt_stop

/-! ## Listing what is below a tree -/

/-- A listing that goes deep enough gives the range of the tree. -/
theorem listBelow_eq (h : PreOrder trees roots stop) {id depth : Nat} (hid : id < trees.size)
    (hdepth : stop id - id ≤ depth + 1) :
    listBelow trees depth id = List.range' id (stop id - id) := by
  have hpos := h.lt_stop id
  induction depth generalizing id with
  | zero =>
    have hone : stop id - id = 1 := by omega
    rw [hone]
    rfl
  | succ depth ih =>
    have hfill := h.children_fill id (Nat.zero_le id) hid
    have hchildren : (childrenOf trees id).flatMap (listBelow trees depth) =
        List.range' (id + 1) (stop id - (id + 1)) := by
      refine hfill.flatMap_eq_range' h.lt_stop fun child hchild => ?_
      obtain ⟨hafter, hstop⟩ := h.lt_of_mem_childrenOf hchild
      have hsize := lt_size_of_parentOf (h.parentOf_of_mem_childrenOf hchild)
      have hpos := h.lt_stop child
      exact ih hsize (by omega) hpos
    have hsucc : stop id - id = (stop id - (id + 1)) + 1 := by omega
    rw [hsucc, List.range'_succ, ← hchildren]
    rfl

/-- The trees at and below a tree are those of its range. -/
theorem flatten_eq (h : PreOrder trees roots stop) {id : Nat} (hid : id < trees.size) :
    flatten trees id = List.range' id (stop id - id) := by
  have hstop := h.stop_le_size hid
  rw [flatten, if_pos hid]
  exact h.listBelow_eq hid (by omega)

/-- What is listed below a tree is what lies in its range. -/
theorem mem_flatten_iff (h : PreOrder trees roots stop) {id x : Nat} (hid : id < trees.size) :
    x ∈ flatten trees id ↔ id ≤ x ∧ x < stop id := by
  have hpos := h.lt_stop id
  rw [h.flatten_eq hid, List.mem_range'_1]
  omega

/-! ## Climbing to the outermost tree -/

/-- A parent comes before its children. -/
theorem parent_lt (h : PreOrder trees roots stop) {x parent : Nat}
    (hparent : parentOf trees x = some parent) : parent < x :=
  (h.lt_of_mem_childrenOf (h.mem_childrenOf_iff.2 hparent)).1

/-- As many steps as the number of a tree lead out of all trees around it. -/
theorem climbIds_eq (h : PreOrder trees roots stop) {id steps : Nat} (hsteps : id < steps) :
    climbIds trees steps id = climbIds trees (id + 1) id := by
  induction id using Nat.strongRecOn generalizing steps with
  | ind id ih =>
    obtain ⟨steps, rfl⟩ : ∃ n, steps = n + 1 := ⟨steps - 1, by omega⟩
    rw [climbIds, climbIds]
    cases hparent : parentOf trees id with
    | none => rfl
    | some parent =>
      have hlt := h.parent_lt hparent
      dsimp only [Option.elim]
      rw [ih parent hlt (by omega : parent < steps), ih parent hlt hlt]

/-- The chain to a tree goes on from the chain to its parent. -/
theorem pathIds_eq (h : PreOrder trees roots stop) {id : Nat} (hid : id < trees.size) :
    pathIds trees id = (parentOf trees id).elim [] (pathIds trees) ++ [id] := by
  rw [pathIds, h.climbIds_eq hid, climbIds, if_pos hid]
  cases hparent : parentOf trees id with
  | none => rfl
  | some parent =>
    have hlt := h.parent_lt hparent
    dsimp only [Option.elim]
    rw [List.reverse_cons, h.climbIds_eq hlt, pathIds, h.climbIds_eq (by omega : parent < trees.size)]

/-- What holds of trees without a parent, and of a tree if it holds of its parent, holds of all
trees. -/
theorem parent_induction (h : PreOrder trees roots stop) {motive : Nat → Prop}
    (root : ∀ id < trees.size, parentOf trees id = none → motive id)
    (child : ∀ id parent, parentOf trees id = some parent → motive parent → motive id) :
    ∀ id < trees.size, motive id := by
  intro id hid
  induction id using Nat.strongRecOn with
  | ind id ih =>
    cases hparent : parentOf trees id with
    | none => exact root id hid hparent
    | some parent =>
      have hlt := h.parent_lt hparent
      exact child id parent hparent (ih parent hlt (by omega))

/-- The path to a tree without a parent is the tree alone. -/
theorem pathIds_of_root (h : PreOrder trees roots stop) {id : Nat} (hid : id < trees.size)
    (hnone : parentOf trees id = none) : pathIds trees id = [id] := by
  rw [h.pathIds_eq hid, hnone]
  rfl

/-- The path to any other tree goes on from the path to its parent. -/
theorem pathIds_of_parent (h : PreOrder trees roots stop) {id parent : Nat}
    (hparent : parentOf trees id = some parent) :
    pathIds trees id = pathIds trees parent ++ [id] := by
  rw [h.pathIds_eq (lt_size_of_parentOf hparent), hparent]
  rfl

/-- The path to a tree ends with the tree. -/
theorem getLast?_pathIds (h : PreOrder trees roots stop) {id : Nat} (hid : id < trees.size) :
    (pathIds trees id).getLast? = some id := by
  rw [h.pathIds_eq hid, List.getLast?_append]
  rfl

/-- The chain to a tree starts with a root. -/
theorem exists_head?_pathIds (h : PreOrder trees roots stop) {id : Nat} (hid : id < trees.size) :
    ∃ root ∈ roots, (pathIds trees id).head? = some root := by
  refine h.parent_induction (motive := fun id => ∃ root ∈ roots,
    (pathIds trees id).head? = some root) ?_ ?_ id hid
  · intro id hid hnone
    rw [h.pathIds_of_root hid hnone]
    exact ⟨id, h.mem_roots_iff.2 ⟨hid, hnone⟩, rfl⟩
  · rintro id parent hparent ⟨root, hroot, hhead⟩
    refine ⟨root, hroot, ?_⟩
    rw [h.pathIds_of_parent hparent, List.head?_append, hhead]
    rfl

/-- Of two trees that follow each other in a chain the first is the parent of the second. -/
theorem isChain_pathIds (h : PreOrder trees roots stop) {id : Nat} (hid : id < trees.size) :
    (pathIds trees id).IsChain fun a b => parentOf trees b = some a := by
  refine h.parent_induction (motive := fun id =>
    (pathIds trees id).IsChain fun a b => parentOf trees b = some a) ?_ ?_ id hid
  · intro id hid hnone
    rw [h.pathIds_of_root hid hnone]
    exact List.isChain_singleton id
  · intro id parent hparent ih
    have hsize : parent < trees.size := by
      have hlt := h.parent_lt hparent
      have hid := lt_size_of_parentOf hparent
      omega
    rw [h.pathIds_of_parent hparent]
    refine List.isChain_append.2 ⟨ih, List.isChain_singleton id, ?_⟩
    intro a ha b hb
    rw [h.getLast?_pathIds hsize] at ha
    obtain rfl := Option.some.inj ha
    obtain rfl := Option.some.inj hb
    exact hparent

/-- The trees on the chain to a tree are those whose range it lies in. -/
theorem mem_pathIds_iff (h : PreOrder trees roots stop) {a x : Nat} (hx : x < trees.size) :
    a ∈ pathIds trees x ↔ a ≤ x ∧ x < stop a := by
  refine h.parent_induction (motive := fun x => a ∈ pathIds trees x ↔ a ≤ x ∧ x < stop a)
    ?_ ?_ x hx
  · intro x hx hnone
    have hpos := h.lt_stop x
    rw [h.pathIds_of_root hx hnone, List.mem_singleton]
    constructor
    · rintro rfl
      exact ⟨Nat.le_refl _, hpos⟩
    · rintro ⟨hle, hlt⟩
      rcases (h.within (by omega) hle hlt).2 with heq | ⟨parent, -, -, hmem⟩
      · exact heq.symm
      · rw [h.parentOf_of_mem_childrenOf hmem] at hnone
        cases hnone
  · intro x parent hparent ih
    have hx := lt_size_of_parentOf hparent
    have hpos := h.lt_stop x
    obtain ⟨hafter, hstop⟩ := h.lt_of_mem_childrenOf (h.mem_childrenOf_iff.2 hparent)
    rw [h.pathIds_of_parent hparent, List.mem_append, List.mem_singleton, ih]
    constructor
    · rintro (⟨hle, hlt⟩ | rfl)
      · have hwithin := (h.within (by omega) hle hlt).1
        exact ⟨by omega, by omega⟩
      · exact ⟨Nat.le_refl _, hpos⟩
    · rintro ⟨hle, hlt⟩
      rcases (h.within (by omega) hle hlt).2 with heq | ⟨parent', hle', hlt', hmem⟩
      · exact Or.inr heq.symm
      · have heq := h.parentOf_of_mem_childrenOf hmem
        rw [hparent] at heq
        rw [Option.some.inj heq]
        exact Or.inl ⟨hle', hlt'⟩

/-- A tree is listed below exactly the trees on the chain to it. -/
theorem mem_flatten_iff_mem_pathIds (h : PreOrder trees roots stop) {x : Nat}
    (hx : x < trees.size) (a : Nat) : x ∈ flatten trees a ↔ a ∈ pathIds trees x := by
  by_cases ha : a < trees.size
  · rw [h.mem_flatten_iff ha, h.mem_pathIds_iff hx]
  · rw [h.mem_pathIds_iff hx, flatten, if_neg ha]
    constructor
    · intro hmem
      cases hmem
    · rintro ⟨hle, -⟩
      omega

/-- A tree is listed below its parent. -/
theorem mem_flatten_of_parentOf (h : PreOrder trees roots stop) {x parent : Nat}
    (hparent : parentOf trees x = some parent) : x ∈ flatten trees parent := by
  have hmem := h.mem_childrenOf_iff.2 hparent
  obtain ⟨hlt, hstop⟩ := h.lt_of_mem_childrenOf hmem
  have hpos := h.lt_stop x
  exact (h.mem_flatten_iff (lt_size_of_mem_childrenOf hmem)).2 ⟨by omega, by omega⟩

/-- What is below a tree is below all trees around it. -/
theorem mem_flatten_trans (h : PreOrder trees roots stop) {a b x : Nat}
    (hb : b ∈ flatten trees a) (hx : x ∈ flatten trees b) : x ∈ flatten trees a := by
  have ha := lt_size_of_mem_flatten hb
  obtain ⟨hle, hlt⟩ := (h.mem_flatten_iff ha).1 hb
  obtain ⟨hle', hlt'⟩ := (h.mem_flatten_iff (lt_size_of_mem_flatten hx)).1 hx
  have hwithin := (h.within ha hle hlt).1
  exact (h.mem_flatten_iff ha).2 ⟨by omega, by omega⟩

/-- A tree is listed below exactly the trees on the chain to it that come before it. -/
theorem mem_descendants_iff (h : PreOrder trees roots stop) {x : Nat} (hx : x < trees.size)
    (a : Nat) : x ∈ descendants trees a ↔ a ∈ (pathIds trees x).dropLast := by
  have hpath : a ∈ (pathIds trees x).dropLast ↔ a ∈ pathIds trees x ∧ a ≠ x := by
    rw [h.pathIds_eq hx, List.dropLast_concat, List.mem_append, List.mem_singleton]
    cases hparent : parentOf trees x with
    | none => simp
    | some parent =>
      have hne : a ∈ pathIds trees parent → a ≠ x := by
        intro hmem heq
        have hlt := h.parent_lt hparent
        have hle := ((h.mem_pathIds_iff (by omega : parent < trees.size)).1 hmem).1
        omega
      dsimp only [Option.elim]
      constructor
      · exact fun hmem => ⟨Or.inl hmem, hne hmem⟩
      · rintro ⟨hmem | heq, hneq⟩
        · exact hmem
        · exact absurd heq hneq
  rw [hpath, ← h.mem_flatten_iff_mem_pathIds hx, descendants]
  by_cases ha : a < trees.size
  · have hpos := h.lt_stop a
    have hsucc : stop a - a = (stop a - (a + 1)) + 1 := by omega
    rw [h.flatten_eq ha, hsucc, List.range'_succ, List.tail_cons, List.mem_cons]
    constructor
    · intro hmem
      have hle := (List.mem_range'_1.1 hmem).1
      exact ⟨Or.inr hmem, by omega⟩
    · rintro ⟨heq | hmem, hne⟩
      · exact absurd heq.symm hne
      · exact hmem
  · rw [flatten, if_neg ha]
    simp

/-- A tree with something listed below it has children. -/
theorem childrenOf_ne_nil (h : PreOrder trees roots stop) {a x : Nat}
    (hx : x ∈ descendants trees a) : childrenOf trees a ≠ [] := by
  have ha := lt_size_of_mem_flatten (List.mem_of_mem_tail hx)
  intro hnil
  have hfill : a + 1 = stop a := by
    have hchildren := h.children_fill a (Nat.zero_le a) ha
    rwa [hnil] at hchildren
  rw [descendants, h.flatten_eq ha, ← hfill, Nat.add_sub_cancel_left] at hx
  cases hx

/-- The chain to a tree has one root on it, and starts with it. -/
theorem head?_pathIds_iff (h : PreOrder trees roots stop) {root x : Nat} (hroot : root ∈ roots)
    (hx : x < trees.size) :
    (pathIds trees x).head? = some root ↔ root ∈ pathIds trees x := by
  have hnone := (h.mem_roots_iff.1 hroot).2
  refine ⟨List.mem_of_mem_head?, ?_⟩
  refine h.parent_induction (motive := fun x => root ∈ pathIds trees x →
    (pathIds trees x).head? = some root) ?_ ?_ x hx
  · intro x hx hxnone
    rw [h.pathIds_of_root hx hxnone, List.mem_singleton]
    rintro rfl
    rfl
  · intro x parent hparent ih
    rw [h.pathIds_of_parent hparent, List.mem_append, List.mem_singleton]
    rintro (hmem | rfl)
    · rw [List.head?_append, ih hmem]
      rfl
    · rw [hparent] at hnone
      cases hnone

/-- Going deeper than there are trees lists nothing more. -/
theorem listBelow_eq_flatten (h : PreOrder trees roots stop) {id depth : Nat}
    (hid : id < trees.size) (hdepth : trees.size ≤ depth) :
    listBelow trees depth id = flatten trees id := by
  have hstop := h.stop_le_size hid
  rw [h.flatten_eq hid]
  exact h.listBelow_eq hid (by omega)

/-- Climbing further than there are trees meets nothing more. -/
theorem climb_eq_climb (h : PreOrder trees roots stop) {id steps : Nat} (hid : id < trees.size)
    (hsteps : trees.size ≤ steps) : climb trees steps id = climb trees trees.size id := by
  apply List.map_injective_iff.2 fun _ _ => Option.some.inj
  rw [map_some_climb, map_some_climb, h.climbIds_eq (by omega : id < steps), h.climbIds_eq hid]

end PreOrder

end ClassHints.Model
