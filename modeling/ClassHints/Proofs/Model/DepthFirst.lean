import ClassHints.Proofs.Model.Visit
import Mathlib.Data.List.Nodup

/-!
# Depth-first order

The visit of a library works through a stack, on which modules from several levels of imports
wait, some of them more than once. What it lists is the order of a recursive search: a module,
then all that is found from its imports, then what is found from the next module. From a root,
this lists the modules that imports lead to, each once.
-/

namespace ClassHints.Model.Library

/-- The more modules were visited, the fewer are left. -/
theorem length_unvisited_append (lib : Library) (more visited : List Nat) :
    (lib.unvisited (more ++ visited)).length ≤ (lib.unvisited visited).length := by
  unfold unvisited
  apply List.Sublist.length_le
  apply List.monotone_filter_right
  intro id hid
  simp_all

/-- The modules found from some modules, one after the other. A module that was seen before or
does not exist gives nothing; any other comes first, then what is found from its imports. -/
def depthFirst (lib : Library) (seen : List Nat) : List Nat → List Nat
  | [] => []
  | id :: ids =>
    if _hseen : id ∈ seen then lib.depthFirst seen ids
    else if _hid : id < lib.modules.size then
      let below := lib.depthFirst (id :: seen) lib.modules[id].imports
      id :: below ++ lib.depthFirst (below.reverse ++ id :: seen) ids
    else lib.depthFirst seen ids
termination_by ids => ((lib.unvisited seen).length, ids.length)
decreasing_by
  · exact Prod.Lex.right _ (by simp)
  · exact Prod.Lex.left _ _ (length_unvisited_cons _hid _hseen)
  · apply Prod.Lex.left
    exact Nat.lt_of_le_of_lt (lib.length_unvisited_append _ _) (length_unvisited_cons _hid _hseen)
  · exact Prod.Lex.right _ (by simp)

/-- A number without a module is passed over. -/
theorem visit_missing {lib : Library} {visited : List Nat} {id : Nat} (hnew : id ∉ visited)
    (hid : ¬id < lib.modules.size) (stack : List Nat) :
    lib.visit visited (id :: stack) = lib.visit visited stack := by
  rw [visit, dif_neg hnew, dif_neg hid]

/-- What waits at the bottom of the stack is visited after all that is found from what lies
above it. -/
theorem map_fst_visit_append (lib : Library) (seen ids stack : List Nat) :
    (lib.visit seen (ids ++ stack)).map Prod.fst =
      lib.depthFirst seen ids ++
        (lib.visit ((lib.depthFirst seen ids).reverse ++ seen) stack).map Prod.fst := by
  fun_induction depthFirst lib seen ids generalizing stack with
  | case1 seen => rfl
  | case2 seen id ids hseen ih => rw [List.cons_append, visit_seen hseen, ih]
  | case3 seen id ids hnew hid below hbelow _ hrest =>
    -- the imports are put on top of the rest, so that the rest waits below them
    have hfirst := hbelow (ids ++ stack)
    change _ = below ++ (lib.visit (below.reverse ++ id :: seen) (ids ++ stack)).map Prod.fst
      at hfirst
    rw [List.cons_append, visit_new hnew hid, List.map_cons, hfirst, hrest]
    simp
  | case4 seen id ids hnew hid ih => rw [List.cons_append, visit_missing hnew hid, ih]

/-- A visit lists modules in depth-first order. -/
theorem map_fst_visit (lib : Library) (seen ids : List Nat) :
    (lib.visit seen ids).map Prod.fst = lib.depthFirst seen ids := by
  have happend := lib.map_fst_visit_append seen ids []
  simpa using happend

/-- A visit lists modules by their own numbers. -/
theorem getElem?_of_mem_visit {lib : Library} {seen stack : List Nat} {entry : Nat × Module}
    (h : entry ∈ lib.visit seen stack) : lib.modules[entry.1]? = some entry.2 := by
  fun_induction visit lib seen stack with
  | case1 seen => cases h
  | case2 seen id stack hseen ih => exact ih h
  | case3 seen id stack hnew hid m ih =>
    rcases List.mem_cons.1 h with rfl | h
    · exact Array.getElem?_eq_getElem hid
    · exact ih h
  | case4 seen id stack hnew hid ih => exact ih h

/-- A visit pairs the numbers in depth-first order with their modules. -/
theorem visit_eq (lib : Library) (seen ids : List Nat) :
    lib.visit seen ids =
      (lib.depthFirst seen ids).filterMap fun id => lib.modules[id]?.map (id, ·) := by
  have hentries : ((lib.visit seen ids).map Prod.fst).filterMap
      (fun id => lib.modules[id]?.map (id, ·)) = (lib.visit seen ids).filterMap some := by
    rw [List.filterMap_map]
    refine List.filterMap_congr fun entry hentry => ?_
    rw [Function.comp, getElem?_of_mem_visit hentry, Option.map_some]
  rw [← map_fst_visit, hentries, List.filterMap_some]

/-- What is read off the modules of a visit is read off their numbers. -/
theorem flatMap_visit {α : Type} (lib : Library) (seen ids : List Nat) (f : Module → List α) :
    (lib.visit seen ids).flatMap (fun entry => f entry.2) =
      (lib.depthFirst seen ids).flatMap fun id => lib.modules[id]?.elim [] f := by
  rw [← map_fst_visit, List.flatMap_map]
  refine List.flatMap_congr fun entry hentry => ?_
  rw [getElem?_of_mem_visit hentry, Option.elim_some]

/-! ## The modules that are found -/

/-- Nothing is found twice, and nothing that was seen before is found again. -/
theorem nodup_visit (lib : Library) (seen stack : List Nat) :
    ((lib.visit seen stack).map Prod.fst).Nodup ∧
      ∀ id ∈ (lib.visit seen stack).map Prod.fst, id ∉ seen := by
  fun_induction visit lib seen stack with
  | case1 seen => simp
  | case2 seen id stack hseen ih => exact ih
  | case3 seen id stack hnew hid m ih =>
    obtain ⟨hnodup, hfresh⟩ := ih
    rw [List.map_cons]
    refine ⟨List.nodup_cons.2 ⟨fun hmem => ?_, hnodup⟩, fun id' hid' => ?_⟩
    · exact hfresh id hmem List.mem_cons_self
    · rcases List.mem_cons.1 hid' with rfl | hmem
      · exact hnew
      · exact fun hseen => hfresh id' hmem (List.mem_cons_of_mem id hseen)
  | case4 seen id stack hnew hid ih => exact ih

/-- The modules on the stack are found, and the imports of what is found are found, unless they
were seen before. -/
theorem closed_visit (lib : Library) (seen stack : List Nat) :
    (∀ id ∈ stack, id < lib.modules.size →
      id ∈ seen ∨ id ∈ (lib.visit seen stack).map Prod.fst) ∧
    ∀ id ∈ (lib.visit seen stack).map Prod.fst, ∀ target, lib.Imports id target →
      target < lib.modules.size → target ∈ seen ∨ target ∈ (lib.visit seen stack).map Prod.fst := by
  fun_induction visit lib seen stack with
  | case1 seen => simp
  | case2 seen id stack hseen ih =>
    refine ⟨fun id' hid' hsize => ?_, ih.2⟩
    rcases List.mem_cons.1 hid' with rfl | hid'
    · exact Or.inl hseen
    · exact ih.1 id' hid' hsize
  | case3 seen id stack hnew hid m ih =>
    obtain ⟨hstack, himports⟩ := ih
    have hmove {target : Nat}
        (h : target ∈ id :: seen ∨
          target ∈ (lib.visit (id :: seen) (m.imports ++ stack)).map Prod.fst) :
        target ∈ seen ∨ target ∈
          ((id, m) :: lib.visit (id :: seen) (m.imports ++ stack)).map Prod.fst := by
      simp only [List.mem_cons, List.map_cons] at h ⊢
      tauto
    refine ⟨fun id' hid' hsize => ?_, fun id' hid' target htarget hsize => ?_⟩
    · rcases List.mem_cons.1 hid' with rfl | hid'
      · exact Or.inr (by simp)
      · exact hmove (hstack id' (List.mem_append_right _ hid') hsize)
    · rcases List.mem_cons.1 hid' with rfl | hid'
      · obtain ⟨m', hm', hmem⟩ := htarget
        obtain rfl : m = m' := Option.some.inj ((Array.getElem?_eq_getElem hid).symm.trans hm')
        exact hmove (hstack target (List.mem_append_left _ hmem) hsize)
      · exact hmove (himports id' hid' target htarget hsize)
  | case4 seen id stack hnew hid ih =>
    refine ⟨fun id' hid' hsize => ?_, ih.2⟩
    rcases List.mem_cons.1 hid' with rfl | hid'
    · exact absurd hsize hid
    · exact ih.1 id' hid' hsize

/-- A module that imports another one exists. -/
theorem Imports.lt_size {lib : Library} {id target : Nat} (h : lib.Imports id target) :
    id < lib.modules.size := by
  obtain ⟨m, hm, -⟩ := h
  exact (Array.getElem?_eq_some_iff.1 hm).1

/-- No module is found twice. -/
theorem nodup_depthFirst (lib : Library) (seen ids : List Nat) :
    (lib.depthFirst seen ids).Nodup := by
  rw [← map_fst_visit]
  exact (lib.nodup_visit seen ids).1

/-- From a root, the modules that imports lead to are found. -/
theorem mem_depthFirst_iff (lib : Library) (root id : Nat) :
    id ∈ lib.depthFirst [] [root] ↔
      id < lib.modules.size ∧ Relation.ReflTransGen lib.Imports root id := by
  rw [← map_fst_visit]
  constructor
  · intro hid
    obtain ⟨entry, hentry, rfl⟩ := List.mem_map.1 hid
    obtain ⟨root', hroot', hpath⟩ := exists_reachable_of_mem_visit hentry
    rw [List.mem_singleton.1 hroot'] at hpath
    exact ⟨(Array.getElem?_eq_some_iff.1 (getElem?_of_mem_visit hentry)).1, hpath⟩
  · rintro ⟨hsize, hpath⟩
    obtain ⟨hstack, himports⟩ := lib.closed_visit [] [root]
    induction hpath with
    | refl => simpa using hstack root (by simp) hsize
    | tail _ himport ih =>
      simpa using himports _ (ih himport.lt_size) _ himport hsize

section

variable {lib : Library} {root : Nat} {m : Module} (h : lib.modules[root]? = some m)

include h

/-- What is found from the imports of a module, the module itself left out, is what is found
behind the module. -/
theorem depthFirst_root : lib.depthFirst [] [root] = root :: lib.depthFirst [root] m.imports := by
  obtain ⟨hid, rfl⟩ := Array.getElem?_eq_some_iff.1 h
  rw [← map_fst_visit, visit_new List.not_mem_nil hid, List.map_cons, List.append_nil,
    map_fst_visit]

/-- From the imports of a module, the modules that they lead to are found, without the module
itself. -/
theorem mem_depthFirst_imports_iff (id : Nat) :
    id ∈ lib.depthFirst [root] m.imports ↔ id < lib.modules.size ∧ id ≠ root ∧
      ∃ target ∈ m.imports, Relation.ReflTransGen lib.Imports target id := by
  have hnodup := lib.nodup_depthFirst [] [root]
  have hmem := lib.mem_depthFirst_iff root id
  rw [depthFirst_root h] at hnodup hmem
  have hpath (hne : id ≠ root) : Relation.ReflTransGen lib.Imports root id ↔
      ∃ target ∈ m.imports, Relation.ReflTransGen lib.Imports target id := by
    rw [Relation.ReflTransGen.cases_head_iff]
    constructor
    · rintro (heq | ⟨target, ⟨m', hm', htarget⟩, hrest⟩)
      · exact absurd heq.symm hne
      · obtain rfl : m = m' := Option.some.inj (h.symm.trans hm')
        exact ⟨target, htarget, hrest⟩
    · rintro ⟨target, htarget, hrest⟩
      exact Or.inr ⟨target, ⟨m, h, htarget⟩, hrest⟩
  constructor
  · intro hid
    have hne : id ≠ root := fun heq => (List.nodup_cons.1 hnodup).1 (heq ▸ hid)
    obtain ⟨hsize, hreach⟩ := hmem.1 (List.mem_cons_of_mem root hid)
    exact ⟨hsize, hne, (hpath hne).1 hreach⟩
  · rintro ⟨hsize, hne, hreach⟩
    have hid := hmem.2 ⟨hsize, (hpath hne).2 hreach⟩
    exact (List.mem_cons.1 hid).resolve_left hne

end

end ClassHints.Model.Library
