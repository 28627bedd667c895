import ClassHints.Proofs.Model.IndexOrder

/-!
# Linking mixins

Linking reads the own trees and the targets of mixins and writes their class trees, so that no
step changes what a later step reads. As no mixin is linked twice, each mixin of the index gets
the own trees of its targets added once, in whatever order the mixins are linked and whatever
circles their includes run in.
-/

namespace ClassHints.Model

/-- The own trees of the mixins that a mixin includes, in the order of the includes. -/
def includedTrees (mixins : Array Mixin) (m : Mixin) : List Nat :=
  m.resolved.flatMap fun target => mixins[target]?.elim [] Mixin.ownTrees

/-- One step adds the included trees to one mixin. -/
theorem getElem?_linkMixin (mixins : Array Mixin) (first id : Nat) :
    (linkMixin mixins first)[id]? = mixins[id]?.map fun m => { m with
      classTrees := if first = id then m.classTrees ++ includedTrees mixins m
        else m.classTrees } := by
  rw [linkMixin, Array.getElem?_modify]
  by_cases hid : first = id
  · simp only [if_pos hid, includedTrees]
  · simp only [if_neg hid]
    exact Option.map_id'.symm

/-- A step changes nothing that linking reads. -/
theorem includedTrees_linkMixin (mixins : Array Mixin) (first : Nat) (m : Mixin) :
    includedTrees (linkMixin mixins first) m = includedTrees mixins m := by
  unfold includedTrees
  refine List.flatMap_congr fun target _ => ?_
  rw [getElem?_linkMixin]
  cases mixins[target]? <;> rfl

/-- Steps for different mixins add the trees that are included at the start. -/
theorem getElem?_foldl_linkMixin {ids : List Nat} (h : ids.Nodup) (mixins : Array Mixin)
    (id : Nat) :
    (ids.foldl linkMixin mixins)[id]? = mixins[id]?.map fun m => { m with
      classTrees := if id ∈ ids then m.classTrees ++ includedTrees mixins m
        else m.classTrees } := by
  induction ids generalizing mixins with
  | nil =>
    simp only [List.foldl_nil, List.not_mem_nil, if_false]
    exact Option.map_id'.symm
  | cons first ids ih =>
    obtain ⟨hfirst, hids⟩ := List.nodup_cons.1 h
    rw [List.foldl_cons, ih hids, getElem?_linkMixin, Option.map_map]
    congr 1
    funext m
    simp only [Function.comp, includedTrees_linkMixin, List.mem_cons]
    by_cases hid : first = id
    · subst hid
      simp [hfirst]
    · simp [hid, Ne.symm hid, includedTrees]

namespace Library

/-- A mixin of the index gets the own trees of the mixins it includes behind its own, and any other
mixin stays as it is. -/
theorem getElem?_link (lib : Library) {index : Index} (h : index.mixins.values.Nodup) (id : Nat) :
    (lib.link index).mixins[id]? = lib.mixins[id]?.map fun m => { m with
      classTrees := if id ∈ index.mixins.values then m.classTrees ++ includedTrees lib.mixins m
        else m.classTrees } :=
  getElem?_foldl_linkMixin h lib.mixins id

/-- The order of the mixins of an index does not matter. -/
theorem link_perm (lib : Library) {index other : Index} (h : index.mixins.values.Nodup)
    (hperm : other.mixins.Perm index.mixins) : lib.link other = lib.link index := by
  have hvalues : other.mixins.values.Perm index.mixins.values := hperm.map Prod.snd
  have hmixins : (lib.link other).mixins = (lib.link index).mixins := by
    apply Array.ext_getElem?
    intro id
    rw [lib.getElem?_link h, lib.getElem?_link (hvalues.nodup_iff.2 h)]
    simp only [hvalues.mem_iff]
  simpa only [link, Library.mk.injEq, true_and, and_true] using hmixins

/-- Linking adds to every mixin of the index the own trees of the mixins it includes, as they
are written, and leaves everything else as it was; it does so in every order of the index. The
index may have been built before the includes were resolved. -/
theorem link_ownTrees (lib built : Library) (root : Nat) :
    (∀ id : Nat, (lib.link (Index.build built root)).mixins[id]? =
      lib.mixins[id]?.map fun m => { m with
        classTrees := if id ∈ (Index.build built root).mixins.values
          then m.classTrees ++ includedTrees lib.mixins m else m.classTrees }) ∧
    (lib.link (Index.build built root)).modules = lib.modules ∧
    (lib.link (Index.build built root)).trees = lib.trees ∧
    ∀ mixins : Table Nat, mixins.Perm (Index.build built root).mixins →
      lib.link { Index.build built root with mixins := mixins } =
        lib.link (Index.build built root) := by
  have hnodup := Index.nodup_values_mixins built root
  exact ⟨lib.getElem?_link hnodup, rfl, rfl, fun mixins hperm => lib.link_perm hnodup hperm⟩

/-- Two mixins that include each other, a third that includes itself and the first, and a fourth
that no name stands for. -/
def includedInCircles : Library :=
  ⟨#[⟨"root".toList, [], [], [3, 0, 1, 2], []⟩],
    #[⟨"a".toList, [0], [0], [], [], [1], true, none⟩,
      ⟨"b".toList, [1], [1], [], [], [0], true, none⟩,
      ⟨"c".toList, [2], [2], [], [], [2, 0], true, none⟩,
      ⟨"c".toList, [3], [3], [], [], [0], false, none⟩],
    #[]⟩

/-- Circles add one level, and the order of linking does not matter. -/
theorem link_ownTrees_includedInCircles :
    (Index.build includedInCircles 0).mixins = [("c".toList, 2), ("a".toList, 0), ("b".toList, 1)] ∧
      (includedInCircles.link (Index.build includedInCircles 0)).mixins.toList.map
        Mixin.classTrees = [[0, 1], [1, 0], [2, 2, 0], [3]] ∧
      includedInCircles.link { Index.build includedInCircles 0 with
        mixins := (Index.build includedInCircles 0).mixins.reverse } =
          includedInCircles.link (Index.build includedInCircles 0) := by
  have hvisit : includedInCircles.depthFirst [] [0] = [0] := by
    simp [depthFirst, includedInCircles]
  have hmixins : (Index.build includedInCircles 0).mixins =
      [("c".toList, 2), ("a".toList, 0), ("b".toList, 1)] := by
    rw [Index.build, reachable, visit_eq, hvisit]
    decide
  obtain ⟨-, -, -, horder⟩ := link_ownTrees includedInCircles includedInCircles 0
  refine ⟨hmixins, ?_, horder _ (List.reverse_perm _)⟩
  rw [link, hmixins]
  decide

end Library

end ClassHints.Model
