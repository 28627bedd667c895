import ClassHints.Proofs.Completion.RankedClasses
import ClassHints.Service.Basic

/-!
# Assembling candidates

Each tier has a list of ranked classes, in which names repeat within a tier and across tiers. A
name counts where it comes first: in the first tier that has it, at its first place there. The
candidates are the names that count, in this order, without those that cannot be written as they
are.
-/

namespace ClassHints.TextSet

/-- The set of one name has that name and no other. -/
@[simp]
theorem contains_only (t u : Text) : (only t).contains u = true ↔ u = t := by
  induction t generalizing u with
  | nil => cases u <;> simp [only, contains]
  | cons c t ih =>
    cases u with
    | nil => simp [only, contains]
    | cons d u =>
      by_cases hcd : c = d
      · simp [only, contains, ih, hcd]
      · simp [only, contains, hcd, Ne.symm hcd]

/-- A set gains the text that is put into it, and no other. -/
@[simp]
theorem contains_insert (s : TextSet) (t u : Text) :
    (s.insert t).contains u = true ↔ u = t ∨ s.contains u = true := by
  fun_induction insert s t generalizing u with
  | case1 t => simp [contains]
  | case2 others => cases u <;> simp [contains]
  | case3 others c t ih => cases u <;> simp [contains, ih]
  | case4 c below others ih => cases u <;> simp [contains, ih]
  | case5 below others d t ih =>
    cases u with
    | nil => simp [contains]
    | cons e u =>
      by_cases hde : d = e
      · simp [contains, ih, hde]
      · simp [contains, hde, Ne.symm hde]
  | case6 c below others d t hcd ih =>
    cases u with
    | nil => simp [contains, ih]
    | cons e u =>
      by_cases hce : c = e
      · have hed : e ≠ d := by rwa [← hce]
        simp [contains, hce, hed]
      · simp [contains, hce, ih]

end ClassHints.TextSet

namespace ClassHints.Completion

open Cursor (Position)

/-- The classes of each tier, as they are ranked. -/
def tierItems (p : Package) (s : CompletionSettings) (r : Ranking) : Tier → List Ranked
  | .high => r.high
  | .normal => r.normal
  | .root => if s.rootItems then rootItems p else []

/-- The place of a tier among the tiers. -/
def Tier.level : Tier → Nat
  | .high => 0
  | .normal => 1
  | .root => 2

/-- The item that counts for a name: the first one of its tier, where no tier before it has the
name. -/
structure FirstIn (items : Tier → List Ranked) (name : Text) (tier : Tier) (item : Ranked) :
    Prop where
  found : (items tier).find? (·.name == name) = some item
  unseen : ∀ earlier : Tier, earlier.level < tier.level → ∀ other ∈ items earlier,
    other.name ≠ name

/-! ## The first item of each name -/

/-- The items whose names are new, each name once, with the names seen so far in a list. -/
def firstOfEachName (seen : List Text) : List (Tier × Ranked) → List (Tier × Ranked)
  | [] => []
  | (tier, item) :: rest =>
    if seen.contains item.name then firstOfEachName seen rest
    else (tier, item) :: firstOfEachName (item.name :: seen) rest

/-- It does not matter how the names seen so far are kept. -/
theorem keepFirst_eq {seen : TextSet} {names : List Text}
    (h : ∀ name, seen.contains name = true ↔ name ∈ names) (items : List (Tier × Ranked)) :
    keepFirst seen items = firstOfEachName names items := by
  induction items generalizing seen names with
  | nil => rfl
  | cons first rest ih =>
    obtain ⟨tier, item⟩ := first
    have hinsert (name : Text) :
        (seen.insert item.name).contains name = true ↔ name ∈ item.name :: names := by
      rw [TextSet.contains_insert, List.mem_cons, h]
    simp [keepFirst, firstOfEachName, h, ih h, ih hinsert]

/-- An item is kept exactly if its name is new and it is the first of its name. -/
theorem mem_firstOfEachName {seen : List Text} {items : List (Tier × Ranked)}
    {entry : Tier × Ranked} : entry ∈ firstOfEachName seen items ↔
      entry.2.name ∉ seen ∧ items.find? (·.2.name == entry.2.name) = some entry := by
  induction items generalizing seen with
  | nil => simp [firstOfEachName]
  | cons first rest ih =>
    obtain ⟨tier, item⟩ := first
    rw [firstOfEachName, List.find?_cons]
    by_cases hname : item.name = entry.2.name
    · by_cases hseen : item.name ∈ seen
      · simp [ih, hseen, ← hname]
      · simp [ih, hseen, ← hname, eq_comm]
    · have hbeq : (item.name == entry.2.name) = false := beq_eq_false_iff_ne.2 hname
      by_cases hseen : item.name ∈ seen
      · simp [ih, hseen, hbeq]
      · have hne : entry ≠ (tier, item) := fun heq => hname (by rw [heq])
        simp [ih, hseen, hbeq, hne, Ne.symm hname]

/-- The items that are kept stand in the order in which their names first appear. -/
theorem pairwise_firstOfEachName (seen : List Text) (items : List (Tier × Ranked)) :
    (firstOfEachName seen items).Pairwise fun a b =>
      items.findIdx (·.2.name == a.2.name) < items.findIdx (·.2.name == b.2.name) := by
  induction items generalizing seen with
  | nil => exact .nil
  | cons first rest ih =>
    obtain ⟨tier, item⟩ := first
    -- a name other than the first one comes one place later than in the rest
    have hlater {seen : List Text} (hseen : item.name ∈ seen) :
        (firstOfEachName seen rest).Pairwise fun a b =>
          ((tier, item) :: rest).findIdx (·.2.name == a.2.name) <
            ((tier, item) :: rest).findIdx (·.2.name == b.2.name) := by
      refine (ih seen).imp_of_mem fun {a b} ha hb hlt => ?_
      have hne {c : Tier × Ranked} (hc : c ∈ firstOfEachName seen rest) :
          (item.name == c.2.name) = false := by
        refine beq_eq_false_iff_ne.2 fun heq => ?_
        rw [heq] at hseen
        exact (mem_firstOfEachName.1 hc).1 hseen
      rw [List.findIdx_cons, List.findIdx_cons, hne ha, hne hb]
      exact Nat.succ_lt_succ hlt
    rw [firstOfEachName]
    by_cases hseen : item.name ∈ seen
    · rw [if_pos (by simpa using hseen)]
      exact hlater hseen
    · rw [if_neg (by simpa using hseen)]
      refine List.Pairwise.cons ?_ (hlater List.mem_cons_self)
      intro b hb
      have hnew := (mem_firstOfEachName.1 hb).1
      have hne : (item.name == b.2.name) = false :=
        beq_eq_false_iff_ne.2 fun heq => hnew (by simp [heq])
      simp [List.findIdx_cons, hne]

/-- Items may be dropped by their names before or after the first of each name is taken, and
only names that are not dropped have to be noted. -/
theorem firstOfEachName_filter (q : Text → Bool) {seen seen' : List Text}
    (h : ∀ name, q name = true → (name ∈ seen ↔ name ∈ seen')) (items : List (Tier × Ranked)) :
    firstOfEachName seen' (items.filter (q ·.2.name)) =
      (firstOfEachName seen items).filter (q ·.2.name) := by
  induction items generalizing seen seen' with
  | nil => rfl
  | cons first rest ih =>
    obtain ⟨tier, item⟩ := first
    rw [firstOfEachName, List.filter_cons]
    by_cases hq : q item.name = true
    · have hcons (name : Text) (hname : q name = true) :
          name ∈ item.name :: seen ↔ name ∈ item.name :: seen' := by
        rw [List.mem_cons, List.mem_cons, h name hname]
      by_cases hseen : item.name ∈ seen
      · have hseen' := (h item.name hq).1 hseen
        simp [firstOfEachName, hq, hseen, hseen', ih h]
      · have hseen' : item.name ∉ seen' := fun hmem => hseen ((h item.name hq).2 hmem)
        simp [firstOfEachName, hq, hseen, hseen', ih hcons]
    · have hcons (name : Text) (hname : q name = true) :
          name ∈ item.name :: seen ↔ name ∈ seen' := by
        have hne : name ≠ item.name := fun heq => hq (heq ▸ hname)
        rw [List.mem_cons, h name hname]
        simp [hne]
      by_cases hseen : item.name ∈ seen
      · simp [hq, hseen, ih h]
      · simp [hq, hseen, ih hcons]

/-! ## The tiers one behind the other -/

/-- The items of all tiers, each with its tier. -/
def tagged (items : Tier → List Ranked) : List (Tier × Ranked) :=
  (items .high).map (.high, ·) ++ (items .normal).map (.normal, ·) ++ (items .root).map (.root, ·)

/-- Number of items of the tiers before a tier. -/
def itemsBefore (items : Tier → List Ranked) : Tier → Nat
  | .high => 0
  | .normal => (items .high).length
  | .root => (items .high).length + (items .normal).length

section

variable {items : Tier → List Ranked} {name : Text} {tier : Tier} {item : Ranked}

/-- The item that counts for a name stands in the list of its tier. -/
theorem FirstIn.findIdx_lt (h : FirstIn items name tier item) :
    (items tier).findIdx (·.name == name) < (items tier).length := by
  refine List.findIdx_lt_length_of_exists ⟨item, List.mem_of_find?_eq_some h.found, ?_⟩
  have hname := List.find?_some h.found
  exact hname

/-- The first item of a name among all tiers is the one that counts. -/
theorem find?_tagged_eq_some_iff :
    (tagged items).find? (·.2.name == name) = some (tier, item) ↔ FirstIn items name tier item := by
  have hmap (t : Tier) : ((items t).map (t, ·)).find? (·.2.name == name) =
      ((items t).find? (·.name == name)).map (t, ·) := by
    rw [List.find?_map]
    rfl
  rw [tagged, List.find?_append, List.find?_append, hmap, hmap, hmap]
  constructor
  · intro h
    cases hhigh : (items .high).find? (·.name == name) with
    | some first =>
      obtain ⟨rfl, rfl⟩ : Tier.high = tier ∧ first = item := by simpa [hhigh] using h
      exact ⟨hhigh, fun earlier hlt => absurd hlt (by simp [Tier.level])⟩
    | none =>
      have hnone : ∀ other ∈ items .high, other.name ≠ name := by simpa using hhigh
      cases hnormal : (items .normal).find? (·.name == name) with
      | some first =>
        obtain ⟨rfl, rfl⟩ : Tier.normal = tier ∧ first = item := by
          simpa [hhigh, hnormal] using h
        refine ⟨hnormal, fun earlier hlt => ?_⟩
        cases earlier with
        | high => exact hnone
        | normal => simp [Tier.level] at hlt
        | root => simp [Tier.level] at hlt
      | none =>
        obtain ⟨first, hroot, heq⟩ : ∃ first, (items .root).find? (·.name == name) = some first ∧
            (Tier.root, first) = (tier, item) := by
          simpa [hhigh, hnormal] using h
        obtain ⟨rfl, rfl⟩ := Prod.mk.inj heq
        refine ⟨hroot, fun earlier hlt => ?_⟩
        cases earlier with
        | high => exact hnone
        | normal => simpa using hnormal
        | root => simp [Tier.level] at hlt
  · rintro ⟨hfound, hunseen⟩
    have hpassed (earlier : Tier) (hlt : earlier.level < tier.level) :
        (items earlier).find? (·.name == name) = none := by
      simpa using hunseen earlier hlt
    cases tier with
    | high => simp [hfound]
    | normal => simp [hpassed .high (by decide), hfound]
    | root => simp [hpassed .high (by decide), hpassed .normal (by decide), hfound]

/-- Where the first item of a name stands among all tiers. -/
theorem FirstIn.findIdx_tagged (h : FirstIn items name tier item) :
    (tagged items).findIdx (·.2.name == name) =
      itemsBefore items tier + (items tier).findIdx (·.name == name) := by
  have hmap (t : Tier) : ((items t).map (t, ·)).findIdx (·.2.name == name) =
      (items t).findIdx (·.name == name) := by
    rw [List.findIdx_map]
    rfl
  have hpassed (earlier : Tier) (hlt : earlier.level < tier.level) :
      (items earlier).findIdx (·.name == name) = (items earlier).length := by
    refine List.findIdx_eq_length_of_false fun other hother => ?_
    simpa using h.unseen earlier hlt other hother
  have hlt := h.findIdx_lt
  rw [tagged, List.findIdx_append, List.findIdx_append, hmap, hmap, hmap]
  simp only [List.length_append, List.length_map]
  cases tier with
  | high =>
    rw [if_pos hlt, if_pos (by omega)]
    simp [itemsBefore]
  | normal =>
    have hhigh := hpassed .high (by decide)
    rw [hhigh, if_neg (Nat.lt_irrefl _), if_pos (by omega)]
    simp only [itemsBefore]
    omega
  | root =>
    have hhigh := hpassed .high (by decide)
    have hnormal := hpassed .normal (by decide)
    rw [hhigh, hnormal, if_neg (Nat.lt_irrefl _), if_neg (by omega)]
    simp only [itemsBefore]
    omega

/-- A name that first appears before another one counts in no later tier, and in the same tier
at an earlier place. -/
theorem FirstIn.level_le {name' : Text} {tier' : Tier} {item' : Ranked}
    (h : FirstIn items name tier item) (h' : FirstIn items name' tier' item')
    (hlt : (tagged items).findIdx (·.2.name == name) <
      (tagged items).findIdx (·.2.name == name')) :
    tier.level ≤ tier'.level ∧ (tier = tier' →
      (items tier).findIdx (·.name == name) < (items tier).findIdx (·.name == name')) := by
  rw [h.findIdx_tagged, h'.findIdx_tagged] at hlt
  have hbound := h.findIdx_lt
  have hbound' := h'.findIdx_lt
  constructor
  · cases tier <;> cases tier' <;> simp only [itemsBefore, Tier.level] at hlt ⊢ <;> omega
  · rintro rfl
    omega

end

/-! ## The candidates -/

/-- The candidate of an item with its tier, at an index. -/
def candidateOf (p : Package) (s : CompletionSettings) (tier : Tier) (item : Ranked)
    (index : Nat) : Candidate :=
  ⟨item.name, .styleClass, sortText tier index, none, classDocumentation? p s.docsBase item⟩

/-- The items that candidates are made of: the first of each name, if the name can be written as
it is. -/
def keptItems (items : Tier → List Ranked) : List (Tier × Ranked) :=
  (firstOfEachName [] (tagged items)).filter (isValidName ·.2.name)

/-- The candidates are made of the items that are kept, each at its index among them. -/
theorem assemble_eq (p : Package) (s : CompletionSettings) (r : Ranking) :
    assemble p s r = (keptItems (tierItems p s r)).zipIdx.map fun (entry, index) =>
      candidateOf p s entry.1 entry.2 index := by
  have hvalid (tier : Tier) (l : List Ranked) : (validItems l).map (tier, ·) =
      (l.map (tier, ·)).filter (isValidName ·.2.name) := by
    rw [List.filter_map]
    rfl
  have hall : (validItems r.high).map (.high, ·) ++ (validItems r.normal).map (.normal, ·) ++
      (validItems (tierItems p s r .root)).map (.root, ·) =
        (tagged (tierItems p s r)).filter (isValidName ·.2.name) := by
    rw [hvalid, hvalid, hvalid, tagged, List.filter_append, List.filter_append]
    rfl
  have hkept : keepFirst .none ((tagged (tierItems p s r)).filter (isValidName ·.2.name)) =
      keptItems (tierItems p s r) := by
    have hnone (name : Text) : TextSet.none.contains name = true ↔ name ∈ [] := by
      simp [TextSet.contains]
    rw [keepFirst_eq hnone]
    exact firstOfEachName_filter isValidName (fun _ _ => Iff.rfl) (tagged (tierItems p s r))
  rw [← hkept, ← hall]
  rfl

/-- An item is kept exactly if it is the one that counts for its name and the name is valid. -/
theorem mem_keptItems {items : Tier → List Ranked} {tier : Tier} {item : Ranked} :
    (tier, item) ∈ keptItems items ↔
      FirstIn items item.name tier item ∧ isValidName item.name = true := by
  rw [keptItems, List.mem_filter, mem_firstOfEachName, find?_tagged_eq_some_iff]
  simp

/-- A number with zeros in front still reads as that number. -/
theorem ofDigitChars_padded (width n : Nat) : Nat.ofDigitChars 10 (padded width n) 0 = n := by
  have hzeros (k : Nat) (ds : List Char) :
      Nat.ofDigitChars 10 (List.replicate k '0' ++ ds) 0 = Nat.ofDigitChars 10 ds 0 := by
    induction k with
    | zero => rfl
    | succ k ih =>
      rw [List.replicate_succ, List.cons_append, Nat.ofDigitChars_cons]
      exact ih
  rw [padded, hzeros]
  exact Nat.ofDigitChars_toDigits (by decide) (by decide)

/-- Candidates as they are assembled from the lists of the tiers. -/
structure Assembled (p : Package) (s : CompletionSettings) (r : Ranking)
    (candidates : List Candidate) : Prop where
  /-- No name is repeated, -/
  nodup : (candidates.map Candidate.label).Nodup
  /-- and none is lost or made up. -/
  mem_labels : ∀ name, name ∈ candidates.map Candidate.label ↔
    isValidName name = true ∧ ∃ tier, ∃ item ∈ tierItems p s r tier, item.name = name
  /-- A candidate shows the item that counts for its name: it is in the tier of that item and has
  its documentation. The number it is sorted by is its place. -/
  shows : ∀ index c, candidates[index]? = some c → ∃ tier item,
    FirstIn (tierItems p s r) c.label tier item ∧
      c = candidateOf p s tier item index ∧ c.sortText.head? = some tier.digit ∧
      Nat.ofDigitChars 10 (c.sortText.drop 2) 0 = index
  /-- The tiers come one after the other, and in a tier the names in the order of its list. -/
  ordered : (candidates.map Candidate.label).Pairwise fun a b =>
    ∀ tier item tier' item', FirstIn (tierItems p s r) a tier item →
      FirstIn (tierItems p s r) b tier' item' → tier.level ≤ tier'.level ∧ (tier = tier' →
        (tierItems p s r tier).findIdx (·.name == a) < (tierItems p s r tier).findIdx (·.name == b))

/-- Candidates are assembled as `Assembled` says, whatever the tiers are. -/
theorem assembled_assemble (p : Package) (s : CompletionSettings) (r : Ranking) :
    Assembled p s r (assemble p s r) := by
  have hlabels : (assemble p s r).map Candidate.label =
      (keptItems (tierItems p s r)).map (·.2.name) := by
    rw [assemble_eq, List.map_map]
    exact (List.map_map (f := Prod.fst) (g := fun entry : Tier × Ranked => entry.2.name)).symm.trans
      (by rw [List.zipIdx_map_fst])
  have hpairwise : ((assemble p s r).map Candidate.label).Pairwise fun a b =>
      (tagged (tierItems p s r)).findIdx (·.2.name == a) <
        (tagged (tierItems p s r)).findIdx (·.2.name == b) := by
    rw [hlabels, List.pairwise_map]
    exact (pairwise_firstOfEachName [] (tagged (tierItems p s r))).filter _
  constructor
  case nodup =>
    refine hpairwise.imp fun {a b} hlt heq => ?_
    rw [heq] at hlt
    exact Nat.lt_irrefl _ hlt
  case mem_labels =>
    intro name
    rw [hlabels, List.mem_map]
    constructor
    · rintro ⟨⟨tier, item⟩, hmem, rfl⟩
      obtain ⟨hfirst, hvalid⟩ := mem_keptItems.1 hmem
      exact ⟨hvalid, tier, item, List.mem_of_find?_eq_some hfirst.found, rfl⟩
    · rintro ⟨hvalid, tier, item, hitem, rfl⟩
      have hsome : ((tagged (tierItems p s r)).find? (·.2.name == item.name)).isSome = true := by
        refine List.find?_isSome.2 ⟨(tier, item), ?_, by simp⟩
        cases tier <;> simp [tagged, hitem]
      obtain ⟨⟨tier', item'⟩, hfound⟩ := Option.isSome_iff_exists.1 hsome
      have hname : item'.name = item.name := by simpa using List.find?_some hfound
      refine ⟨(tier', item'), mem_keptItems.2 ⟨?_, by rw [hname]; exact hvalid⟩, hname⟩
      rw [hname]
      exact find?_tagged_eq_some_iff.1 hfound
  case shows =>
    intro index c hc
    rw [assemble_eq, List.getElem?_map, List.getElem?_zipIdx] at hc
    obtain ⟨⟨⟨tier, item⟩, place⟩, hplace, rfl⟩ := Option.map_eq_some_iff.1 hc
    obtain ⟨entry, hentry, heq⟩ := Option.map_eq_some_iff.1 hplace
    obtain ⟨rfl, rfl⟩ := Prod.mk.inj heq
    have hfirst := (mem_keptItems.1 (List.mem_of_getElem? hentry)).1
    rw [Nat.zero_add]
    exact ⟨tier, item, hfirst, rfl, rfl, ofDigitChars_padded 5 index⟩
  case ordered =>
    refine hpairwise.imp fun {a b} hlt tier item tier' item' hfirst hfirst' => ?_
    exact hfirst.level_le hfirst' hlt

/-! ## Requests -/

/-- A request for classes that is answered, and the ranking it is answered from: the cursor is in
an open class attribute of an element or, in a script, of no element yet. -/
inductive RankedAt (p : Package) (s : CompletionSettings) (t : Text) (position : Position) :
    Language → Ranking → Prop where
  | element {language : Language} {offset : Nat} {found : Cursor.Location}
    (asksClasses : language ≠ .stylesheet) (place : Cursor.offsetAt t position = some offset)
    (located : Cursor.locate (Markup.Document.scan t) offset = some found)
    (opened : Cursor.classAttributeOpen t offset found.range.start s.lookback = true) :
    RankedAt p s t position language (rank p found.ancestors)
  | script {offset : Nat} (place : Cursor.offsetAt t position = some offset)
    (located : Cursor.locate (Markup.Document.scan t) offset = none)
    (opened : Cursor.classAttributeOpen t offset 0 s.lookback = true) :
    RankedAt p s t position .componentScript ⟨[], []⟩

section

variable {p : Package} {s : CompletionSettings} {t : Text} {position : Position}
  {language : Language}

/-- Outside stylesheets the answer is that of the offset that the position leads to, and nothing
behind the end of the text. -/
theorem complete_eq_candidatesAt (hlanguage : language ≠ .stylesheet) :
    complete p s language t position =
      (Cursor.offsetAt t position).elim [] (classCandidatesAt p s language t) := by
  unfold complete
  cases language with
  | stylesheet => exact absurd rfl hlanguage
  | markup => cases Cursor.offsetAt t position <;> rfl
  | componentScript => cases Cursor.offsetAt t position <;> rfl

/-- Where the cursor is in an open class attribute, the answer is assembled from its ranking. -/
theorem RankedAt.complete_eq {r : Ranking} (h : RankedAt p s t position language r) :
    complete p s language t position = assemble p s r := by
  cases h with
  | element hlanguage hplace hlocated hopened =>
    rw [complete_eq_candidatesAt hlanguage, hplace]
    simp [classCandidatesAt, hlocated, hopened]
  | script hplace hlocated hopened =>
    rw [complete_eq_candidatesAt (by decide), hplace]
    simp [classCandidatesAt, hlocated, hopened]

/-- A request for classes that is not answered from a ranking has no candidates. -/
theorem complete_eq_nil (hlanguage : language ≠ .stylesheet)
    (h : ∀ r, ¬RankedAt p s t position language r) : complete p s language t position = [] := by
  rw [complete_eq_candidatesAt hlanguage]
  cases hplace : Cursor.offsetAt t position with
  | none => rfl
  | some offset =>
    rw [Option.elim_some, classCandidatesAt]
    cases hlocated : Cursor.locate (Markup.Document.scan t) offset with
    | some found =>
      refine if_neg fun hopened => ?_
      exact h _ (.element hlanguage hplace hlocated hopened)
    | none =>
      refine if_neg fun hboth => ?_
      simp only [Bool.and_eq_true, decide_eq_true_eq] at hboth
      obtain ⟨rfl, hopened⟩ := hboth
      exact h _ (.script hplace hlocated hopened)

end

/-- The candidates that the service answers with are assembled from the tiers of the ranking at
the cursor, and a request without a ranking has no candidates. -/
theorem complete_assembled {service : Service} {snapshot : Service.Snapshot}
    (hpublished : service.published = some snapshot) {language : Language}
    (hlanguage : language ≠ .stylesheet) (t : Text) (position : Position) :
    (∀ r, RankedAt snapshot.package service.settings.completion t position language r →
      Assembled snapshot.package service.settings.completion r
        (service.complete language t position)) ∧
    ((∀ r, ¬RankedAt snapshot.package service.settings.completion t position language r) →
      service.complete language t position = []) := by
  have hcomplete : service.complete language t position =
      complete snapshot.package service.settings.completion language t position := by
    rw [Service.complete, hpublished]
  rw [hcomplete]
  constructor
  · intro r hr
    rw [hr.complete_eq]
    exact assembled_assemble snapshot.package service.settings.completion r
  · exact complete_eq_nil hlanguage

/-- An element whose classes are being written, inside an element with a class. -/
def openInCard : Text := "<div class=\"a\"><i class=\"".toList

/-- Inside an element with the outer class its child is suggested, in front of all others. -/
theorem complete_assembled_cardTree :
    ∃ p r, Package.load cardTree "/a.scss".toList ⟨"scss".toList, none⟩ = .ok p ∧
      RankedAt p {} openInCard ⟨0, 25⟩ .markup r ∧ r.high = [⟨"b".toList, 1⟩] ∧
      Assembled p {} r (Service.complete ⟨{}, some ⟨"/a.scss".toList, p⟩, 1⟩ .markup openInCard
        ⟨0, 25⟩) := by
  obtain ⟨p, hp, htrees, hindex⟩ := exists_load_cardTree
  have hfound : Cursor.locate (Markup.Document.scan openInCard) 25 =
      some ⟨⟨2, "i".toList, [⟨"class".toList, some [], false⟩]⟩, ⟨15, 25⟩, [card]⟩ := by
    decide +kernel
  have hplace : Cursor.offsetAt openInCard ⟨0, 25⟩ = some 25 := by decide +kernel
  have hopened : Cursor.classAttributeOpen openInCard 25 15 500 = true := by decide +kernel
  have hranked : RankedAt p {} openInCard ⟨0, 25⟩ .markup (rank p [card]) :=
    .element (by decide) hplace hfound hopened
  have hlisted : p.trees = [0, 1].filterMap fun id => cardTrees[id]?.map (id, ·) := by
    rw [Package.trees, hindex, htrees]
  have hhigh : (rank p [card]).high = [⟨"b".toList, 1⟩] := by
    unfold rank continuations matching pick
    rw [hlisted, htrees]
    decide +kernel
  have hpublished : Service.published ⟨{}, some ⟨"/a.scss".toList, p⟩, 1⟩ =
      some ⟨"/a.scss".toList, p⟩ := rfl
  have hlanguage : Language.markup ≠ .stylesheet := by decide
  obtain ⟨hassembled, -⟩ := complete_assembled hpublished hlanguage openInCard ⟨0, 25⟩
  exact ⟨p, _, hp, hranked, hhigh, hassembled _ hranked⟩

end ClassHints.Completion
