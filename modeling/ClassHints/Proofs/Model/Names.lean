import ClassHints.Model.Index
import ClassHints.Proofs.Model.Visit
import Mathlib.Data.List.Perm.Basic

/-!
# What the names of an index stand for

A table that is filled from a list keeps the order in which names first appear. Of several
entries with one name, `put` keeps the last and `offer` the first. With this the index of a
library is described by the lists of the variables, mixins and modules it visits. A package that
is loaded visits them in the order of their numbers.
-/

namespace ClassHints.Model

namespace Table

variable {α β : Type}

/-- The names of a table, in its order. -/
def names (t : Table α) : List Text := t.map Prod.fst

/-- A name that is put into a table comes last, unless the table has it already. -/
theorem names_put (t : Table α) (name : Text) (value : α) :
    (t.put name value).names = if name ∈ t.names then t.names else t.names ++ [name] := by
  induction t with
  | nil => rfl
  | cons entry rest ih =>
    obtain ⟨n, v⟩ := entry
    by_cases hn : n = name
    · subst hn
      simp [put, names]
    · by_cases hmem : name ∈ names rest
      · rw [if_pos hmem] at ih
        simp_all [put, names]
      · rw [if_neg hmem] at ih
        simp_all [put, names, Ne.symm hn]

/-- A table has a name exactly if it has a value for it. -/
theorem mem_names_iff (t : Table α) (name : Text) :
    name ∈ t.names ↔ (t.get? name).isSome = true := by
  induction t with
  | nil => simp [names, get?]
  | cons entry rest ih =>
    obtain ⟨n, v⟩ := entry
    by_cases hn : n = name
    · simp [names, get?, hn]
    · simpa [names, get?, hn, Ne.symm hn] using ih

/-- A name that is offered to a table comes last, unless the table has it already. -/
theorem names_offer (t : Table α) (name : Text) (value : α) :
    (t.offer name value).names = if name ∈ t.names then t.names else t.names ++ [name] := by
  unfold offer
  simp only [mem_names_iff]
  split <;> simp [names]

/-- Entries that are entered one after the other add the names that are new. -/
theorem names_foldl {enter : Table α → β → Table α} {key : β → Text}
    (henter : ∀ t e, (enter t e).names =
      if key e ∈ t.names then t.names else t.names ++ [key e]) (entries : List β) (t : Table α) :
    (entries.foldl enter t).names =
      t.names ++ ((entries.map key).filter (· ∉ t.names)).eraseDups := by
  induction entries generalizing t with
  | nil => simp
  | cons e entries ih =>
    rw [List.foldl_cons, ih, henter, List.map_cons, List.filter_cons]
    by_cases hmem : key e ∈ t.names
    · rw [if_pos hmem, if_neg (by simpa using hmem)]
    · rw [if_neg hmem, if_pos (by simpa using hmem), List.eraseDups_cons, List.filter_filter,
        List.append_assoc, List.singleton_append]
      congr 4
      funext name
      by_cases heq : name = key e <;> simp [heq, hmem]

/-- The last entry with a name gives the value. -/
theorem get?_foldl_put (key : β → Text) (value : β → α) (entries : List β) (t : Table α)
    (name : Text) :
    (entries.foldl (fun t e => t.put (key e) (value e)) t).get? name =
      ((entries.filter (key · = name)).getLast?.map value).or (t.get? name) := by
  induction entries generalizing t with
  | nil => rfl
  | cons e entries ih =>
    rw [List.foldl_cons, ih, get?_put, List.filter_cons]
    by_cases heq : key e = name
    · rw [if_pos heq, if_pos (by simpa using heq), List.getLast?_cons]
      cases (entries.filter (key · = name)).getLast? <;> rfl
    · rw [if_neg heq, if_neg (by simpa using heq)]

/-- An entry of a table into which a value was put is the new one or an old one. -/
theorem mem_put {t : Table α} {name : Text} {value : α} {entry : Text × α}
    (h : entry ∈ t.put name value) : entry = (name, value) ∨ entry ∈ t := by
  induction t with
  | nil => exact Or.inl (List.mem_singleton.1 h)
  | cons first rest ih =>
    obtain ⟨n, v⟩ := first
    by_cases hn : n = name
    · rw [put, if_pos hn] at h
      rcases List.mem_cons.1 h with rfl | h
      · exact Or.inl (by rw [hn])
      · exact Or.inr (List.mem_cons_of_mem _ h)
    · rw [put, if_neg hn] at h
      rcases List.mem_cons.1 h with rfl | h
      · exact Or.inr List.mem_cons_self
      · exact (ih h).imp_right (List.mem_cons_of_mem _)

/-- What a table holds has been put into it. -/
theorem exists_of_mem_foldl_put {key : β → Text} {value : β → α} {entries : List β} {t : Table α}
    {entry : Text × α} (h : entry ∈ entries.foldl (fun t e => t.put (key e) (value e)) t) :
    entry ∈ t ∨ ∃ e ∈ entries, entry = (key e, value e) := by
  induction entries generalizing t with
  | nil => exact Or.inl h
  | cons e entries ih =>
    rcases ih h with hmem | ⟨e', he', heq⟩
    · rcases mem_put hmem with heq | hmem
      · exact Or.inr ⟨e, List.mem_cons_self, heq⟩
      · exact Or.inl hmem
    · exact Or.inr ⟨e', List.mem_cons_of_mem e he', heq⟩

/-- Of two tables one after the other, the first one that has a name decides. -/
theorem get?_append (t u : Table α) (name : Text) :
    (t ++ u : Table α).get? name = (t.get? name).or (u.get? name) := by
  induction t with
  | nil => rfl
  | cons entry rest ih =>
    obtain ⟨n, v⟩ := entry
    by_cases hn : n = name
    · simp [get?, hn]
    · simpa [get?, hn] using ih

/-- An offered value counts only if the table has none for its name. -/
theorem get?_offer (t : Table α) (name other : Text) (value : α) :
    (t.offer name value).get? other =
      (t.get? other).or (if name = other then some value else none) := by
  unfold offer
  split
  · next hsome =>
    by_cases heq : name = other
    · subst heq
      obtain ⟨v, hv⟩ := Option.isSome_iff_exists.1 hsome
      simp [hv]
    · simp [heq]
  · rw [get?_append]
    rfl

/-- The first entry with a name gives the value. -/
theorem get?_foldl_offer (key : β → Text) (value : β → α) (entries : List β) (t : Table α)
    (name : Text) :
    (entries.foldl (fun t e => t.offer (key e) (value e)) t).get? name =
      (t.get? name).or ((entries.find? (key · == name)).map value) := by
  induction entries generalizing t with
  | nil => simp
  | cons e entries ih =>
    rw [List.foldl_cons, ih, get?_offer, Option.or_assoc, List.find?_cons]
    by_cases heq : key e = name
    · simp [heq]
    · rw [if_neg heq, beq_eq_false_iff_ne.2 heq, Option.none_or]

end Table

/-- Variables that are offered one after the other add those whose names are new. -/
theorem offerVariables_eq (vs added : List Variable) :
    offerVariables vs added =
      vs ++ (added.filter fun v => !vs.any (·.name == v.name)).eraseDupsBy
        (·.name == ·.name) := by
  unfold offerVariables
  induction added generalizing vs with
  | nil => simp
  | cons v added ih =>
    rw [List.foldl_cons, ih, List.filter_cons]
    by_cases htaken : vs.any (·.name == v.name) = true
    · rw [if_pos htaken, htaken]
      rfl
    · rw [if_neg htaken, if_pos (by simpa using htaken), List.eraseDupsBy_cons,
        List.filter_filter, List.append_assoc, List.singleton_append]
      congr 4
      funext w
      rw [List.any_append]
      by_cases heq : v.name = w.name
      · simp [heq]
      · simp [heq, Ne.symm heq]

/-! ## The index of a library -/

namespace Library

/-- All variables of a library, in the order of the modules. -/
def allVars (lib : Library) : List Variable := lib.modules.toList.flatMap Module.vars

/-- All mixins of the modules of a library with their numbers, in the order of the modules. -/
def allMixins (lib : Library) : List (Nat × Mixin) := lib.modules.toList.flatMap lib.mixinsOf

/-- What is read off the numbered modules is read off the modules. -/
theorem flatMap_numbered {α : Type} (lib : Library) (f : Module → List α) :
    lib.numbered.flatMap (fun entry => f entry.2) = lib.modules.toList.flatMap f := by
  rw [← map_snd_numbered, List.flatMap_map]

/-- The mixins of modules are put into a table one after the other. -/
theorem foldl_putMixins (lib : Library) (modules : List (Nat × Module)) :
    modules.foldl (fun t entry => putMixins lib t entry.2) [] =
      (modules.flatMap (lib.mixinsOf ·.2)).foldl
        (fun t entry => Table.put t entry.2.name entry.1) [] := by
  rw [List.foldl_flatMap]
  rfl

/-- A table that is filled with the mixins of modules gives the last mixin of a name. -/
theorem get?_foldl_putMixins (lib : Library) (modules : List (Nat × Module)) (name : Text) :
    Table.get? (modules.foldl (fun t entry => putMixins lib t entry.2) []) name =
      ((modules.flatMap (lib.mixinsOf ·.2)).filter (·.2.name = name)).getLast?.map Prod.fst := by
  rw [foldl_putMixins, Table.get?_foldl_put (fun e : Nat × Mixin => e.2.name) Prod.fst]
  simp [Table.get?]

end Library

namespace Index

/-- The variables of an index are the first definitions of the variables it visits. -/
theorem vars_reachable (lib : Library) (root : Nat) :
    (build lib root).vars =
      ((lib.reachable root).flatMap (·.2.vars)).eraseDupsBy (·.name == ·.name) := by
  have hfold : (build lib root).vars =
      offerVariables [] ((lib.reachable root).flatMap (·.2.vars)) := by
    unfold offerVariables
    rw [List.foldl_flatMap]
    rfl
  rw [hfold, offerVariables_eq]
  simp

/-- The mixins that an index visits are put into its table one after the other. -/
theorem mixins_reachable (lib : Library) (root : Nat) :
    (build lib root).mixins = ((lib.reachable root).flatMap (lib.mixinsOf ·.2)).foldl
      (fun t entry => Table.put t entry.2.name entry.1) [] :=
  lib.foldl_putMixins (lib.reachable root)

/-- The names of the mixins of an index, in the order of their first definitions. -/
theorem names_mixins_reachable (lib : Library) (root : Nat) :
    (build lib root).mixins.names =
      (((lib.reachable root).flatMap (lib.mixinsOf ·.2)).map (·.2.name)).eraseDups := by
  rw [mixins_reachable, Table.names_foldl fun t (e : Nat × Mixin) => t.names_put e.2.name e.1]
  simp [Table.names]

/-- The last mixin of a name is the one that the name stands for. -/
theorem get?_mixins_reachable (lib : Library) (root : Nat) (name : Text) :
    (build lib root).mixins.get? name =
      (((lib.reachable root).flatMap (lib.mixinsOf ·.2)).filter
        (·.2.name = name)).getLast?.map Prod.fst :=
  lib.get?_foldl_putMixins (lib.reachable root) name

/-- The names of the modules of an index, in the order of their first visits. -/
theorem names_modules_reachable (lib : Library) (root : Nat) :
    (build lib root).modules.names = ((lib.reachable root).map (·.2.name)).eraseDups := by
  have hmodules : (build lib root).modules =
      (lib.reachable root).foldl (fun t entry => Table.offer t entry.2.name entry.1) [] := rfl
  rw [hmodules, Table.names_foldl fun t (e : Nat × Module) => t.names_offer e.2.name e.1]
  simp [Table.names]

/-- The first module of a name is the one that the name stands for. -/
theorem get?_modules_reachable (lib : Library) (root : Nat) (name : Text) :
    (build lib root).modules.get? name =
      ((lib.reachable root).find? (·.2.name == name)).map Prod.fst :=
  Table.get?_foldl_offer (fun e : Nat × Module => e.2.name) Prod.fst (lib.reachable root) [] name

/-! ## Modules visited in the order of their numbers -/

variable {lib : Library} {root : Nat}

/-- The variables of an index are the first definitions of all variables. -/
theorem vars_build (h : lib.reachable root = lib.numbered) :
    (build lib root).vars = lib.allVars.eraseDupsBy (·.name == ·.name) := by
  rw [vars_reachable, h, lib.flatMap_numbered Module.vars]
  rfl

/-- The mixins of an index are put into its table one after the other. -/
theorem mixins_build (h : lib.reachable root = lib.numbered) :
    (build lib root).mixins =
      lib.allMixins.foldl (fun t entry => Table.put t entry.2.name entry.1) [] := by
  rw [mixins_reachable, h, lib.flatMap_numbered lib.mixinsOf]
  rfl

/-- The names of the mixins of an index, in the order of their first definitions. -/
theorem names_mixins_build (h : lib.reachable root = lib.numbered) :
    (build lib root).mixins.names = (lib.allMixins.map (·.2.name)).eraseDups := by
  rw [names_mixins_reachable, h, lib.flatMap_numbered lib.mixinsOf]
  rfl

/-- The last mixin of a name is the one that the name stands for. -/
theorem get?_mixins_build (h : lib.reachable root = lib.numbered) (name : Text) :
    (build lib root).mixins.get? name =
      (lib.allMixins.filter (·.2.name = name)).getLast?.map Prod.fst := by
  rw [get?_mixins_reachable, h, lib.flatMap_numbered lib.mixinsOf]
  rfl

/-- The first module of a name is the one that the name stands for. -/
theorem get?_modules_build (h : lib.reachable root = lib.numbered) (name : Text) :
    (build lib root).modules.get? name = lib.modules.findIdx? (·.name == name) := by
  have hfind : lib.modules.findIdx? (·.name == name) =
      (lib.modules.toList.zipIdx.find? (·.1.name == name)).map Prod.snd :=
    calc lib.modules.findIdx? (·.name == name)
      _ = lib.modules.toList.findIdx? (·.name == name) := by
        rw [← List.findIdx?_toArray, Array.toArray_toList]
      _ = (lib.modules.toList.zipIdx.find? (·.1.name == name)).map Prod.snd :=
        List.findIdx?_eq_fst_find?_zipIdx
  rw [get?_modules_reachable, h, hfind, Library.numbered, List.find?_map, Option.map_map]
  rfl

end Index

end ClassHints.Model
