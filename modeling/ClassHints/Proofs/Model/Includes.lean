import ClassHints.Model.Include
import ClassHints.Proofs.Model.Names

/-!
# Resolving includes

An include is looked up in four places one after the other, and whatever is found has the name
that was looked for. What is written down for a mixin is what its own includes stand for, and a
mixin is marked exactly if one of them stands for it. Linking mixins afterwards leaves all of
this alone.
-/

namespace ClassHints.Model

namespace Library

/-- The name of a mixin by number. -/
def nameOf? (lib : Library) (id : Nat) : Option Text := lib.mixins[id]?.map Mixin.name

/-- Whether some mixin of a library has a name. -/
def hasMixin (lib : Library) (name : Text) : Bool := lib.mixins.any (·.name == name)

/-- The warnings that the includes of all mixins call for: one for each include that no mixin has
the name of. -/
def includeWarnings (lib : Library) : List Warning :=
  lib.mixins.toList.flatMap fun m =>
    (m.includes.filter (!lib.hasMixin ·)).map (.includeNotResolved m.name)

/-- A library has a mixin of a name exactly if some number has the name. -/
theorem hasMixin_iff {lib : Library} {name : Text} :
    lib.hasMixin name = true ↔ ∃ id, lib.nameOf? id = some name := by
  unfold hasMixin nameOf?
  rw [Array.any_eq_true']
  constructor
  · rintro ⟨m, hm, hname⟩
    obtain ⟨id, hid, rfl⟩ := Array.getElem_of_mem hm
    exact ⟨id, by rw [Array.getElem?_eq_getElem hid]; simpa using hname⟩
  · rintro ⟨id, hid⟩
    obtain ⟨m, hm, rfl⟩ := Option.map_eq_some_iff.1 hid
    exact ⟨m, Array.mem_of_getElem? hm, by simp⟩

/-! ## What a name stands for -/

/-- The mixins of a module are those it lists, where there is one of the number. -/
theorem mem_mixinsOf {lib : Library} {m : Module} {id : Nat} {mixin : Mixin} :
    (id, mixin) ∈ lib.mixinsOf m ↔ id ∈ m.mixins ∧ lib.mixins[id]? = some mixin := by
  simp [mixinsOf]

/-- A table that is filled with the mixins of modules gives mixins of the names looked for. -/
theorem nameOf?_of_get?_foldl {lib : Library} {modules : List (Nat × Module)} {name : Text}
    {id : Nat} (h : Table.get? (modules.foldl (fun t entry => putMixins lib t entry.2) []) name =
      some id) : lib.nameOf? id = some name := by
  rw [get?_foldl_putMixins] at h
  obtain ⟨⟨id, mixin⟩, hlast, rfl⟩ := Option.map_eq_some_iff.1 h
  obtain ⟨hmem, hname⟩ := List.mem_filter.1 (List.mem_of_getLast? hlast)
  obtain ⟨entry, -, hentry⟩ := List.mem_flatMap.1 hmem
  rw [nameOf?, (mem_mixinsOf.1 hentry).2]
  simpa using hname

/-- The first mixin of a name has that name. -/
theorem nameOf?_of_firstNamed? {lib : Library} {ids : List Nat} {name : Text} {id : Nat}
    (h : lib.firstNamed? ids name = some id) : lib.nameOf? id = some name := by
  have hname := List.find?_some h
  unfold nameOf?
  cases hid : lib.mixins[id]? with
  | none => simp [hid] at hname
  | some mixin => simpa [hid] using hname

section

variable {lib : Library} {root : Nat}

/-- Whatever an include stands for has its name. -/
theorem nameOf?_of_includeTarget? {owner id : Nat} {m : Module} {earlier later : List Nat}
    {name : Text} (h : lib.includeTarget? (Index.build lib root) (lib.importedMixins owner m)
      earlier later name = some id) : lib.nameOf? id = some name := by
  simp only [includeTarget?, Option.orElse_eq_orElse, Option.orElse_eq_or,
    Option.or_eq_some_iff] at h
  rcases h with himported | ⟨-, hearlier | ⟨-, hlater | ⟨-, hindex⟩⟩⟩
  · exact nameOf?_of_get?_foldl himported
  · exact nameOf?_of_firstNamed? hearlier
  · exact nameOf?_of_firstNamed? hlater
  · exact nameOf?_of_get?_foldl hindex

/-- All modules are visited, and their mixins are all mixins, each once. -/
structure Covers (lib : Library) (root : Nat) : Prop where
  visited : lib.reachable root = lib.numbered
  mixins : lib.allMixins.Perm (lib.mixins.toList.zipIdx.map Prod.swap)

/-- Where the modules cover a library, their mixins are all its mixins. -/
theorem Covers.mem_allMixins (h : lib.Covers root) {id : Nat} {m : Mixin} :
    (id, m) ∈ lib.allMixins ↔ lib.mixins[id]? = some m := by
  rw [h.mixins.mem_iff, List.mem_map]
  constructor
  · rintro ⟨⟨m, id⟩, hmem, heq⟩
    obtain ⟨rfl, rfl⟩ := Prod.mk.inj heq
    simpa using List.mk_mem_zipIdx_iff_getElem?.1 hmem
  · intro hm
    exact ⟨(m, id), List.mk_mem_zipIdx_iff_getElem?.2 (by simpa using hm), rfl⟩

/-- The numbers of the mixins of all modules are all numbers of mixins. -/
theorem Covers.perm_range (h : lib.Covers root) :
    (lib.allMixins.map Prod.fst).Perm (List.range lib.mixins.size) := by
  have hrange : (lib.mixins.toList.zipIdx.map Prod.swap).map Prod.fst =
      List.range lib.mixins.size := by
    rw [List.map_map, List.range_eq_range']
    exact List.zipIdx_map_snd 0 lib.mixins.toList
  rw [← hrange]
  exact h.mixins.map Prod.fst

/-- An include stands for no mixin only if no mixin of the library has its name. -/
theorem Covers.hasMixin_eq_false (h : lib.Covers root) {imported : Table Nat}
    {earlier later : List Nat} {name : Text}
    (hnone : lib.includeTarget? (Index.build lib root) imported earlier later name = none) :
    lib.hasMixin name = false := by
  have hindex : (Index.build lib root).mixins.get? name = none := by
    simp only [includeTarget?, Option.orElse_eq_orElse, Option.orElse_eq_or,
      Option.or_eq_none_iff] at hnone
    exact hnone.2.2.2
  rw [Index.get?_mixins_build h.visited, Option.map_eq_none_iff, List.getLast?_eq_none_iff,
    List.filter_eq_nil_iff] at hindex
  by_contra hhas
  obtain ⟨id, hid⟩ := hasMixin_iff.1 (by simpa using hhas)
  obtain ⟨m, hm, rfl⟩ := Option.map_eq_some_iff.1 hid
  exact hindex (id, m) (h.mem_allMixins.2 hm) (by simp)

end

end Library

/-! ## The includes of one mixin -/

/-- The includes of a mixin of a library with what they stand for: a mixin of their name, or
nothing if no mixin has it. -/
structure Resolution.Of (lib : Library) (r : Resolution) (m : Mixin) : Prop where
  mixin : lib.mixins[r.mixin]? = some m
  name : r.name = m.name
  includes : r.targets.map Prod.fst = m.includes
  found : ∀ name id, (name, some id) ∈ r.targets → lib.nameOf? id = some name
  missing : ∀ name, (name, none) ∈ r.targets → lib.hasMixin name = false

namespace Resolution.Of

variable {lib : Library} {r : Resolution} {m : Mixin}

/-- The mixins that are found have the names of the includes that some mixin has. -/
theorem map_nameOf?_found (h : r.Of lib m) :
    r.found.map lib.nameOf? = (m.includes.filter lib.hasMixin).map some := by
  have hright : (m.includes.filter lib.hasMixin).map some =
      r.targets.filterMap fun e => if lib.hasMixin e.1 then some (some e.1) else none := by
    rw [← h.includes, ← List.filterMap_eq_map, List.filterMap_filter, List.filterMap_map]
    rfl
  rw [hright, Resolution.found, List.map_filterMap]
  refine List.filterMap_congr ?_
  rintro ⟨name, target⟩ hmem
  cases target with
  | none => simp [h.missing name hmem]
  | some id =>
    have hid := h.found name id hmem
    have hname : lib.hasMixin name = true := Library.hasMixin_iff.2 ⟨id, hid⟩
    simp [hid, hname]

/-- There is one warning for each include that no mixin has the name of. -/
theorem warnings_eq (h : r.Of lib m) : r.warnings =
    (m.includes.filter (!lib.hasMixin ·)).map (.includeNotResolved m.name) := by
  rw [← h.includes, ← List.filterMap_eq_map, List.filterMap_filter, List.filterMap_map, warnings,
    h.name]
  refine List.filterMap_congr ?_
  rintro ⟨name, target⟩ hmem
  cases target with
  | none => simp [h.missing name hmem]
  | some id =>
    have hname : lib.hasMixin name = true := Library.hasMixin_iff.2 ⟨id, h.found name id hmem⟩
    simp [hname]

end Resolution.Of

namespace Library

/-- The mixins of a module are resolved one after the other, and none but those that exist. -/
theorem map_mixin_resolveMixins (lib : Library) (index : Index) (imported : Table Nat)
    (earlier ids : List Nat) :
    (lib.resolveMixins index imported earlier ids).map Resolution.mixin =
      (ids.filterMap fun id => lib.mixins[id]?.map (id, ·)).map Prod.fst := by
  induction ids generalizing earlier with
  | nil => rfl
  | cons id later ih =>
    rw [resolveMixins, List.map_append, ih, List.filterMap_cons]
    cases lib.mixins[id]? <;> rfl

/-- The mixins whose includes are resolved are the mixins of all modules. -/
theorem map_mixin_resolutions (lib : Library) (index : Index) :
    (lib.resolutions index).map Resolution.mixin = lib.allMixins.map Prod.fst := by
  have hmodules : lib.modules.toList = lib.modules.toList.zipIdx.map Prod.fst :=
    (List.zipIdx_map_fst ..).symm
  rw [resolutions, allMixins, List.map_flatMap]
  conv_rhs => rw [hmodules]
  rw [List.flatMap_map, List.map_flatMap]
  refine List.flatMap_congr fun entry _ => ?_
  exact map_mixin_resolveMixins lib index _ [] entry.1.mixins

section

variable {lib : Library} {root : Nat}

/-- Each resolution of a module is that of one of the mixins of the library. -/
theorem Covers.exists_of_mem_resolveMixins (h : lib.Covers root) {owner : Nat} {m : Module}
    {earlier ids : List Nat} {r : Resolution}
    (hr : r ∈ lib.resolveMixins (Index.build lib root) (lib.importedMixins owner m) earlier ids) :
    ∃ mixin, r.Of lib mixin := by
  induction ids generalizing earlier with
  | nil => cases hr
  | cons id later ih =>
    rw [resolveMixins] at hr
    rcases List.mem_append.1 hr with hfirst | hrest
    · obtain ⟨mixin, hmixin, rfl⟩ := Option.map_eq_some_iff.1 (Option.mem_toList.1 hfirst)
      refine ⟨mixin, hmixin, rfl, by simp [Function.comp_def], ?_, ?_⟩
      · intro name target hmem
        obtain ⟨name, -, heq⟩ := List.mem_map.1 hmem
        obtain ⟨rfl, htarget⟩ := Prod.mk.inj heq
        exact nameOf?_of_includeTarget? htarget
      · intro name hmem
        obtain ⟨name, -, heq⟩ := List.mem_map.1 hmem
        obtain ⟨rfl, htarget⟩ := Prod.mk.inj heq
        exact h.hasMixin_eq_false htarget
    · exact ih hrest

/-- What is resolved are the includes of a mixin. -/
theorem Covers.exists_of_mem_resolutions (h : lib.Covers root) {r : Resolution}
    (hr : r ∈ lib.resolutions (Index.build lib root)) : ∃ mixin, r.Of lib mixin := by
  obtain ⟨entry, -, hentry⟩ := List.mem_flatMap.1 hr
  exact h.exists_of_mem_resolveMixins hentry

/-- Every mixin of the library is resolved once. -/
theorem Covers.perm_map_mixin (h : lib.Covers root) (index : Index) :
    ((lib.resolutions index).map Resolution.mixin).Perm (List.range lib.mixins.size) := by
  rw [map_mixin_resolutions]
  exact h.perm_range

/-- Every mixin has its includes resolved, -/
theorem Covers.exists_resolution (h : lib.Covers root) {id : Nat} {m : Mixin}
    (hm : lib.mixins[id]? = some m) :
    ∃ r ∈ lib.resolutions (Index.build lib root), r.mixin = id ∧ r.Of lib m := by
  have hid : id ∈ List.range lib.mixins.size :=
    List.mem_range.2 (Array.getElem?_eq_some_iff.1 hm).1
  obtain ⟨r, hr, rfl⟩ := List.mem_map.1
    ((h.perm_map_mixin (Index.build lib root)).mem_iff.2 hid)
  obtain ⟨mixin, hof⟩ := h.exists_of_mem_resolutions hr
  obtain rfl : mixin = m := Option.some.inj (hof.mixin.symm.trans hm)
  exact ⟨r, hr, rfl, hof⟩

/-- and has them resolved once. -/
theorem Covers.pairwise_resolutions (h : lib.Covers root) (index : Index) :
    (lib.resolutions index).Pairwise (·.mixin ≠ ·.mixin) :=
  List.pairwise_map.1 ((h.perm_map_mixin index).nodup_iff.2 List.nodup_range)

/-- The warnings about includes are those that the includes call for. -/
theorem Covers.perm_warnings (h : lib.Covers root) :
    ((lib.resolutions (Index.build lib root)).flatMap Resolution.warnings).Perm
      lib.includeWarnings := by
  let warningsOf (m : Mixin) : List Warning :=
    (m.includes.filter (!lib.hasMixin ·)).map (.includeNotResolved m.name)
  have hnumbers : (lib.resolutions (Index.build lib root)).flatMap Resolution.warnings =
      ((lib.resolutions (Index.build lib root)).map Resolution.mixin).flatMap fun id =>
        lib.mixins[id]?.elim [] warningsOf := by
    rw [List.flatMap_map]
    refine List.flatMap_congr fun r hr => ?_
    obtain ⟨m, hof⟩ := h.exists_of_mem_resolutions hr
    rw [hof.mixin, hof.warnings_eq]
    rfl
  have harena : (List.range lib.mixins.size).flatMap (fun id =>
      lib.mixins[id]?.elim [] warningsOf) = lib.includeWarnings := by
    have hget : (List.range lib.mixins.size).map (lib.mixins[·]?) =
        lib.mixins.toList.map some := by
      apply List.ext_getElem <;> simp
    have hsome := congrArg (List.flatMap fun m? : Option Mixin => m?.elim [] warningsOf) hget
    rwa [List.flatMap_map, List.flatMap_map] at hsome
  rw [hnumbers, ← harena]
  exact (h.perm_map_mixin _).flatMap_right _

end

end Library

/-! ## Writing targets down -/

/-- Marking mixins changes nothing but their marks. -/
theorem getElem?_foldl_mark (ids : List Nat) (mixins : Array Mixin) (id : Nat) :
    (ids.foldl (fun mixins id => mixins.modify id fun m => { m with included := true })
      mixins)[id]? =
        mixins[id]?.map fun m => { m with included := m.included || ids.contains id } := by
  induction ids generalizing mixins with
  | nil =>
    rw [List.foldl_nil]
    cases mixins[id]? <;> simp
  | cons first ids ih =>
    rw [List.foldl_cons, ih, Array.getElem?_modify]
    by_cases hid : first = id
    · subst hid
      cases mixins[first]? <;> simp
    · cases mixins[id]? <;> simp [hid, Ne.symm hid]

/-- A mixin that had nothing written down has the targets of its includes then. -/
theorem Resolution.written_eq_found (r : Resolution) {m : Mixin} (h : m.resolved = []) :
    r.written m = r.found := by
  unfold written
  split
  · next hnone => rw [h, found, List.isEmpty_iff.1 hnone, List.filterMap_nil]
  · rfl

/-- What one mixin gets written down, and which mixins it marks. -/
theorem Resolution.getElem?_apply (r : Resolution) (mixins : Array Mixin) (id : Nat) :
    (r.apply mixins)[id]? = mixins[id]?.map fun m =>
      { m with
        included := m.included || r.found.contains id
        resolved := if r.mixin = id then r.written m else m.resolved } := by
  unfold apply
  rw [Array.getElem?_modify, getElem?_foldl_mark]
  by_cases hid : r.mixin = id
  · cases mixins[id]? <;> simp [hid, written]
  · cases mixins[id]? <;> simp [hid]

/-- A mixin that nothing is written down for keeps its targets, and is marked if it is a
target. -/
theorem getElem?_foldl_apply_of_ne {rs : List Resolution} {id : Nat}
    (h : ∀ r ∈ rs, r.mixin ≠ id) (mixins : Array Mixin) :
    (rs.foldl (fun mixins r => r.apply mixins) mixins)[id]? = mixins[id]?.map fun m =>
      { m with included := m.included || rs.any (·.found.contains id) } := by
  induction rs generalizing mixins with
  | nil =>
    rw [List.foldl_nil]
    cases mixins[id]? <;> simp
  | cons r rs ih =>
    have hne := h r List.mem_cons_self
    rw [List.foldl_cons, ih fun r' hr' => h r' (List.mem_cons_of_mem r hr'), r.getElem?_apply]
    cases mixins[id]? <;> simp [hne, Bool.or_assoc]

/-- A mixin that something is written down for once has it written down, and is marked if it is a
target. -/
theorem getElem?_foldl_apply {rs : List Resolution} (hpairs : rs.Pairwise (·.mixin ≠ ·.mixin))
    {r : Resolution} (hr : r ∈ rs) (mixins : Array Mixin) :
    (rs.foldl (fun mixins r => r.apply mixins) mixins)[r.mixin]? =
      mixins[r.mixin]?.map fun m =>
        { m with
          included := m.included || rs.any (·.found.contains r.mixin)
          resolved := r.written m } := by
  induction rs generalizing mixins with
  | nil => cases hr
  | cons first rs ih =>
    obtain ⟨hfirst, hrest⟩ := List.pairwise_cons.1 hpairs
    rw [List.foldl_cons]
    rcases List.mem_cons.1 hr with rfl | hmem
    · rw [getElem?_foldl_apply_of_ne fun r' hr' => Ne.symm (hfirst r' hr'), r.getElem?_apply]
      cases mixins[r.mixin]? <;> simp [Bool.or_assoc]
    · rw [ih hrest hmem, first.getElem?_apply]
      cases mixins[r.mixin]? <;> simp [hfirst r hmem, Resolution.written, Bool.or_assoc]

/-- Linking changes nothing but the class trees of a mixin. -/
theorem Library.exists_getElem?_link (lib : Library) (index : Index) (id : Nat) :
    ∃ classTrees : Mixin → List Nat, (lib.link index).mixins[id]? =
      lib.mixins[id]?.map fun m => { m with classTrees := classTrees m } := by
  have hall (ids : List Nat) (mixins : Array Mixin) : ∃ classTrees : Mixin → List Nat,
      (ids.foldl linkMixin mixins)[id]? =
        mixins[id]?.map fun m => { m with classTrees := classTrees m } := by
    induction ids generalizing mixins with
    | nil => exact ⟨Mixin.classTrees, by simp⟩
    | cons first ids ih =>
      obtain ⟨classTrees, hrest⟩ := ih (linkMixin mixins first)
      rw [List.foldl_cons, hrest, linkMixin, Array.getElem?_modify]
      by_cases hid : first = id
      · exact ⟨_, by rw [if_pos hid, Option.map_map]; rfl⟩
      · exact ⟨classTrees, by rw [if_neg hid]⟩
  exact hall index.mixins.values lib.mixins

/-- Resolving and linking leave everything else of the mixins as it was. -/
theorem Library.map_link_resolveIncludes {α : Type} {g : Mixin → α}
    (hg : ∀ (m : Mixin) classTrees resolved included, g { m with
      classTrees := classTrees, resolved := resolved, included := included } = g m)
    (lib : Library) (index : Index) :
    ((lib.resolveIncludes index).1.link index).mixins.toList.map g = lib.mixins.toList.map g := by
  have happlied (rs : List Resolution) (mixins : Array Mixin) (id : Nat) :
      (rs.foldl (fun mixins r => r.apply mixins) mixins)[id]?.map g = mixins[id]?.map g := by
    induction rs generalizing mixins with
    | nil => rfl
    | cons r rs ih =>
      rw [List.foldl_cons, ih, r.getElem?_apply, Option.map_map]
      congr 1
      funext m
      exact hg m _ _ _
  apply List.ext_getElem?
  intro id
  obtain ⟨classTrees, hlinked⟩ := (lib.resolveIncludes index).1.exists_getElem?_link index id
  rw [List.getElem?_map, List.getElem?_map, Array.getElem?_toList, Array.getElem?_toList, hlinked,
    ← happlied (lib.resolutions index) lib.mixins id, Option.map_map]
  congr 1
  funext m
  exact hg m _ _ _

end ClassHints.Model
