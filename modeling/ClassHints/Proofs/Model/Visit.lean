import ClassHints.Model.Module
import Mathlib.Logic.Relation

/-!
# Visiting modules

A visit of the modules of a library follows imports and nothing else. The equations say what
it does with the first module on its stack.
-/

namespace ClassHints.Model.Library

/-- A module imports another one. -/
def Imports (lib : Library) (id target : Nat) : Prop :=
  ∃ m, lib.modules[id]? = some m ∧ target ∈ m.imports

/-- The modules of a library with their numbers, in the order of the numbers. -/
def numbered (lib : Library) : List (Nat × Module) := lib.modules.toList.zipIdx.map Prod.swap

/-- Behind the first modules the next number and its module come next. -/
theorem numbered_drop {lib : Library} {n : Nat} (h : n < lib.modules.size) :
    lib.numbered.drop n = (n, lib.modules[n]) :: lib.numbered.drop (n + 1) := by
  have hlength : n < lib.numbered.length := by simpa [numbered] using h
  rw [List.drop_eq_getElem_cons hlength]
  simp [numbered]

/-- A module is listed with its number. -/
theorem mem_numbered {lib : Library} {n : Nat} (h : n < lib.modules.size) :
    (n, lib.modules[n]) ∈ lib.numbered := by
  have hmem : (n, lib.modules[n]) ∈ lib.numbered.drop n := by
    rw [numbered_drop h]
    exact List.mem_cons_self
  exact List.mem_of_mem_drop hmem

/-- Without their numbers the modules are left. -/
theorem map_snd_numbered (lib : Library) : lib.numbered.map Prod.snd = lib.modules.toList := by
  unfold numbered
  rw [List.map_map]
  exact List.zipIdx_map_fst ..

/-- No modules are found from none. -/
@[simp]
theorem visit_nil (lib : Library) (visited : List Nat) : lib.visit visited [] = [] := by
  rw [visit]

/-- A module that was visited is passed over. -/
theorem visit_seen {lib : Library} {visited : List Nat} {id : Nat} (h : id ∈ visited)
    (stack : List Nat) : lib.visit visited (id :: stack) = lib.visit visited stack := by
  rw [visit, dif_pos h]

/-- A module that was not visited is listed, and its imports come next. -/
theorem visit_new {lib : Library} {visited : List Nat} {id : Nat} (hnew : id ∉ visited)
    (hid : id < lib.modules.size) (stack : List Nat) :
    lib.visit visited (id :: stack) =
      (id, lib.modules[id]) ::
        lib.visit (id :: visited) (lib.modules[id].imports ++ stack) := by
  rw [visit, dif_neg hnew, dif_pos hid]

/-- Whatever a visit lists is reached through imports from the stack. -/
theorem exists_reachable_of_mem_visit {lib : Library} {visited stack : List Nat}
    {entry : Nat × Module} (h : entry ∈ lib.visit visited stack) :
    ∃ id ∈ stack, Relation.ReflTransGen lib.Imports id entry.1 := by
  fun_induction visit lib visited stack with
  | case1 visited => cases h
  | case2 visited id stack hseen ih =>
    obtain ⟨id', hid', hreach⟩ := ih h
    exact ⟨id', List.mem_cons_of_mem id hid', hreach⟩
  | case3 visited id stack hseen hid m ih =>
    rcases List.mem_cons.1 h with rfl | h
    · exact ⟨id, List.mem_cons_self, .refl⟩
    · obtain ⟨id', hid', hreach⟩ := ih h
      rcases List.mem_append.1 hid' with himport | hstack
      · refine ⟨id, List.mem_cons_self, .head ⟨m, ?_, himport⟩ hreach⟩
        exact Array.getElem?_eq_getElem hid
      · exact ⟨id', List.mem_cons_of_mem id hstack, hreach⟩
  | case4 visited id stack hseen hid ih =>
    obtain ⟨id', hid', hreach⟩ := ih h
    exact ⟨id', List.mem_cons_of_mem id hid', hreach⟩

end ClassHints.Model.Library
