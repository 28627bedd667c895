import ClassHints.Completion.DocsLink
import ClassHints.Proofs.Text

/-!
# The pages of blocks

A block has a page, and its elements and modifiers link to the same one. The section mark of a
class is looked for among its first three characters while the modifier is still there. Behind a
name of one or two characters without a hyphen the modifier brings a hyphen to one of these places,
so that the name of the block is taken for a section mark.
-/

namespace ClassHints.Completion

open Text

/-- The name of a block: not that of a state, without the mark of an element or a modifier in it
and without a part of one at its end. -/
structure IsBlock (b : Text) : Prop where
  ne_nil : b ≠ []
  noElement : mentions b "__".toList = false
  noModifier : mentions b "--".toList = false
  noState : startsWith b "is-".toList = false
  ne_state : b ≠ "is".toList
  last : ∀ c ∈ b.getLast?, c ≠ '-' ∧ c ≠ '_'

/-! ## Links and pages -/

/-- The name of a section is one part of a path. -/
theorem slash_not_mem_docsSection (name : Text) : '/' ∉ docsSection name := by
  unfold docsSection
  split
  · decide
  · split <;> decide

/-- The page that a class is on. -/
def docsPage (name base : Text) : Text :=
  trimBase base ++ '/' :: docsSection name ++ '/' :: blockName name

/-- A class that is not empty and no state has the link to its page. -/
theorem docsLink?_eq_some {name : Text} (hname : name ≠ [])
    (hstate : startsWith name "is-".toList = false) (base : Text) :
    docsLink? name base =
      some ('[' :: docsPage name base ++ "](https://".toList ++ docsPage name base ++ [')']) := by
  have hempty : name.isEmpty = false := by simpa using hname
  rw [docsLink?, hempty, hstate]
  rfl

/-- Two classes are on one page exactly if they have the same section and the same block. -/
theorem docsPage_eq_iff {name other base : Text} : docsPage name base = docsPage other base ↔
    docsSection name = docsSection other ∧ blockName name = blockName other := by
  unfold docsPage
  constructor
  · intro h
    rw [List.append_assoc, List.append_assoc, List.append_cancel_left_eq, List.cons_append,
      List.cons_append, List.cons.injEq] at h
    have hcut := congrArg (cutAt? '/') h.2
    rw [cutAt?_append (slash_not_mem_docsSection name),
      cutAt?_append (slash_not_mem_docsSection other)] at hcut
    exact Prod.mk.inj (Option.some.inj hcut)
  · rintro ⟨hsection, hblock⟩
    rw [hsection, hblock]

/-- Two classes that have links have the same one exactly if they are on one page. -/
theorem docsLink?_eq_iff {name other : Text} (hname : name ≠ []) (hother : other ≠ [])
    (hstate : startsWith name "is-".toList = false)
    (hstate' : startsWith other "is-".toList = false) (base : Text) :
    docsLink? name base = docsLink? other base ↔ docsPage name base = docsPage other base := by
  rw [docsLink?_eq_some hname hstate, docsLink?_eq_some hother hstate', Option.some.injEq]
  refine ⟨fun h => ?_, fun h => by rw [h]⟩
  -- the page is written twice, so that links of one length have pages of one length
  have hlength := congrArg List.length h
  simp only [List.length_append, List.length_cons, List.length_nil] at hlength
  rw [List.append_assoc, List.append_assoc, List.append_assoc, List.append_assoc] at h
  exact (List.cons.inj (List.append_inj h (by simp only [List.length_cons]; omega)).1).2

/-! ## Members of a block -/

/-- What is behind a block that has its section mark among the first three characters, or does
not get one from what is behind it, stays behind the block. -/
theorem dropSectionMark_append {b v : Text} (h : '-' ∈ b.take 3 ∨ '-' ∉ (b ++ v).take 3) :
    dropSectionMark (b ++ v) = dropSectionMark b ++ v := by
  have htake : b.take 3 <+: (b ++ v).take 3 := by
    rw [List.take_append]
    exact List.prefix_append _ _
  rw [dropSectionMark, dropSectionMark, List.contains_eq_mem, List.contains_eq_mem]
  rcases h with hmark | hmark
  · obtain ⟨first, rest, hsplit, hfirst⟩ :=
      List.eq_append_cons_of_mem (List.mem_of_mem_take hmark)
    have hcut : cutAt? '-' b = some (first, rest) := hsplit ▸ cutAt?_append hfirst rest
    rw [if_pos (by simpa using htake.subset hmark), if_pos (by simpa using hmark), hcut,
      cutAt?_append_right hcut v]
    rfl
  · have hblock : '-' ∉ b.take 3 := fun hmem => hmark (htake.subset hmem)
    rw [if_neg (by simpa using hmark), if_neg (by simpa using hblock)]

/-- A name without its section mark is the end of the name. -/
theorem dropSectionMark_isSuffix (b : Text) : dropSectionMark b <:+ b := by
  rw [dropSectionMark]
  split
  · cases hcut : cutAt? '-' b with
    | none => exact List.suffix_rfl
    | some parts =>
      obtain ⟨first, rest⟩ := parts
      have hsplit := eq_append_of_cut? hcut
      exact ⟨first ++ ['-'], hsplit.symm⟩
  · exact List.suffix_rfl

namespace IsBlock

variable {b : Text} (h : IsBlock b)

include h

/-- Without its section mark a block has neither the mark of an element nor of a modifier in it,
and no part of one at its end. -/
theorem upTo_dropSectionMark (v : Text) :
    upTo "__".toList (dropSectionMark b ++ v) = dropSectionMark b ++ upTo "__".toList v ∧
      upTo "--".toList (dropSectionMark b ++ v) = dropSectionMark b ++ upTo "--".toList v := by
  have helement := h.noElement
  have hmodifier := h.noModifier
  have hlast := h.last
  obtain ⟨lead, hsplit⟩ := dropSectionMark_isSuffix b
  rw [← hsplit] at helement hmodifier hlast
  have hend : ∀ c ∈ (dropSectionMark b).getLast?, c ≠ '-' ∧ c ≠ '_' := by
    intro c hc
    refine hlast c ?_
    rw [List.getLast?_append, Option.mem_def.1 hc]
    rfl
  exact ⟨Text.upTo_append (mentions_of_append helement) (fun c hc => (hend c hc).2) v,
    Text.upTo_append (mentions_of_append hmodifier) (fun c hc => (hend c hc).1) v⟩

/-- The page of a block is named after the block, without its section mark. -/
theorem blockName_eq : blockName b = dropSectionMark b := by
  have helement := (h.upTo_dropSectionMark []).1
  rw [List.append_nil] at helement
  rw [blockName, helement, (h.upTo_dropSectionMark _).2]
  exact List.append_nil _

/-- An element or a modifier behind a block does not change its name, unless the section mark is
found there. -/
theorem blockName_append {v : Text} (hv : ∃ s, v = "__".toList ++ s ∨ v = "--".toList ++ s)
    (hmark : '-' ∈ b.take 3 ∨ '-' ∉ (b ++ v).take 3) : blockName (b ++ v) = blockName b := by
  rw [h.blockName_eq, blockName, dropSectionMark_append hmark, (h.upTo_dropSectionMark v).1,
    (h.upTo_dropSectionMark _).2]
  obtain ⟨s, rfl | rfl⟩ := hv
  · exact List.append_nil _
  · have hkept : upTo "__".toList ("--".toList ++ s) = '-' :: '-' :: upTo "__".toList s := by
      change upTo ['_', '_'] ('-' :: '-' :: s) = _
      rw [upTo_cons (after?_eq_none_of_ne _ _ (by decide)),
        upTo_cons (after?_eq_none_of_ne _ _ (by decide))]
      rfl
    rw [hkept]
    exact List.append_nil _

/-- The elements of a block are on its page. -/
theorem docsPage_element (s base : Text) :
    docsPage (b ++ ("__".toList ++ s)) base = docsPage b base := by
  have hsection : docsSection (b ++ ("__".toList ++ s)) = docsSection b := by
    rw [docsSection, docsSection, startsWith_append (by simp), startsWith_append (by simp)]
  refine docsPage_eq_iff.2 ⟨hsection, h.blockName_append ⟨s, Or.inl rfl⟩ ?_⟩
  by_cases hmark : '-' ∈ b.take 3
  · exact Or.inl hmark
  · refine Or.inr fun hmem => ?_
    -- at most two characters of the mark are among the first three of the class
    have hlength := List.length_pos_iff.2 h.ne_nil
    have htwo : ("__".toList ++ s).take (3 - b.length) <+: ("__".toList ++ s).take 2 :=
      List.take_prefix_take_left (by omega)
    rw [List.take_append] at hmem
    have hrest := htwo.subset ((List.mem_append.1 hmem).resolve_left hmark)
    simp at hrest

/-- Behind a short name without a hyphen the first hyphen of the modifier is taken for the end of
a section mark. -/
theorem blockName_modifier_ne (s : Text) (hshort : b.length < 3) (hmark : '-' ∉ b) :
    blockName (b ++ ("--".toList ++ s)) ≠ blockName b := by
  intro heq
  have hplain : dropSectionMark b = b := by
    rw [dropSectionMark, if_neg]
    simpa using fun hmem => hmark (List.mem_of_mem_take hmem)
  have hdrop : dropSectionMark (b ++ ("--".toList ++ s)) = '-' :: s := by
    have hcut : cutAt? '-' (b ++ ("--".toList ++ s)) = some (b, '-' :: s) := cutAt?_append hmark _
    have hfound : '-' ∈ (b ++ ("--".toList ++ s)).take 3 := by
      obtain ⟨n, hn⟩ : ∃ n, 3 - b.length = n + 1 := ⟨2 - b.length, by omega⟩
      rw [List.take_append, hn]
      simp
    rw [dropSectionMark, if_pos (by simpa using hfound), hcut]
    rfl
  have hprefix : b <+: '-' :: s := by
    rw [h.blockName_eq, hplain, blockName, hdrop] at heq
    rw [← heq]
    exact (upTo_isPrefix _ _).trans (upTo_isPrefix _ _)
  obtain ⟨c, rest, rfl⟩ := List.exists_cons_of_ne_nil h.ne_nil
  exact hmark (by simp [(List.cons_prefix_cons.1 hprefix).1])

/-- The modifiers of a block are on its page exactly if its name is long enough to keep them away
from the section mark or has a section mark itself. -/
theorem docsPage_modifier_iff (s base : Text) :
    docsPage (b ++ ("--".toList ++ s)) base = docsPage b base ↔ 3 ≤ b.length ∨ '-' ∈ b := by
  rw [docsPage_eq_iff]
  constructor
  · rintro ⟨-, hblock⟩
    by_contra hnot
    obtain ⟨hshort, hmark⟩ := not_or.1 hnot
    exact h.blockName_modifier_ne s (Nat.not_le.1 hshort) hmark hblock
  · intro hlong
    have htwo : 2 ≤ b.length := by
      rcases hlong with hlength | hmark
      · omega
      · obtain ⟨c, rest, rfl⟩ := List.exists_cons_of_ne_nil h.ne_nil
        cases rest with
        | nil => exact absurd (List.mem_singleton.1 hmark).symm (h.last c rfl).1
        | cons d rest => simp
    have hstarts {lead : Text} (hlead : lead.length = 2) :
        startsWith (b ++ ("--".toList ++ s)) lead = startsWith b lead := by
      rw [startsWith, after?_append_of_le (by omega), Option.isSome_map, startsWith]
    refine ⟨?_, h.blockName_append ⟨s, Or.inr rfl⟩ ?_⟩
    · rw [docsSection, docsSection, hstarts (by decide), hstarts (by decide)]
    · by_cases hmark : '-' ∈ b.take 3
      · exact Or.inl hmark
      · have hthree : 3 ≤ b.length := by
          by_contra hshort
          rw [List.take_of_length_le (by omega)] at hmark
          exact hmark (hlong.resolve_left hshort)
        rw [List.take_append_of_le_length hthree]
        exact Or.inr hmark

/-- What is behind the name of a block does not turn it into a state. -/
theorem noState_append (s : Text) : startsWith (b ++ ("__".toList ++ s)) "is-".toList = false ∧
    startsWith (b ++ ("--".toList ++ s)) "is-".toList = false := by
  refine ⟨by rw [startsWith_append (by simp), h.noState], ?_⟩
  match b with
  | [] => exact absurd rfl h.ne_nil
  | [c] => simp [startsWith, after?]
  | [c, d] =>
    have hne : 'i' = c → 's' ≠ d := by
      rintro rfl rfl
      exact h.ne_state rfl
    simpa [startsWith, after?] using hne
  | c :: d :: e :: rest =>
    rw [startsWith, after?_append_of_le (by simp), Option.isSome_map]
    exact h.noState

end IsBlock

/-- Every block has a link, and its elements have the same one. Its modifiers have the same link
exactly if its name has three characters or a hyphen. -/
theorem links_of_isBlock {b : Text} (h : IsBlock b) (s base : Text) :
    (docsLink? b base).isSome = true ∧
    docsLink? (b ++ "__".toList ++ s) base = docsLink? b base ∧
    (docsLink? (b ++ "--".toList ++ s) base = docsLink? b base ↔ 3 ≤ b.length ∨ '-' ∈ b) := by
  have hne (v : Text) : b ++ v ≠ [] := by simp [h.ne_nil]
  obtain ⟨helement, hmodifier⟩ := h.noState_append s
  rw [List.append_assoc, List.append_assoc, docsLink?_eq_iff (hne _) h.ne_nil helement h.noState,
    docsLink?_eq_iff (hne _) h.ne_nil hmodifier h.noState]
  refine ⟨?_, h.docsPage_element s base, h.docsPage_modifier_iff s base⟩
  rw [docsLink?_eq_some h.ne_nil h.noState]
  rfl

/-- The element of a heading is on the page of the heading, and its modifier is not. -/
theorem links_of_isBlock_shortName : IsBlock "h1".toList ∧
    docsLink? "h1__icon".toList "docs".toList = docsLink? "h1".toList "docs".toList ∧
    docsLink? "h1--muted".toList "docs".toList ≠ docsLink? "h1".toList "docs".toList := by
  have hlast : ∀ c ∈ "h1".toList.getLast?, c ≠ '-' ∧ c ≠ '_' := by
    intro c hc
    obtain rfl := Option.some.inj hc
    decide
  have hblock : IsBlock "h1".toList :=
    ⟨by decide, by decide, by decide, by decide, by decide, hlast⟩
  obtain ⟨-, helement, -⟩ := links_of_isBlock hblock "icon".toList "docs".toList
  obtain ⟨-, -, hmodifier⟩ := links_of_isBlock hblock "muted".toList "docs".toList
  exact ⟨hblock, helement, fun heq => absurd (hmodifier.1 heq) (by decide)⟩

end ClassHints.Completion
