import ClassHints.Model.TopLevel
import ClassHints.Proofs.Sheet.CommaLists

/-!
# Reading import lists

An import list is written as quoted paths and addresses with commas between them. Paths of style
files, addresses of other hosts and `url(...)` are left to the browser. Reading a written list
gives its other paths, in order, whatever quotes and blanks it is written with.
-/

namespace ClassHints.Model

open Text
open Sheet (Part writeList)

/-! ## Written import lists -/

/-- The two kinds of quotes. -/
inductive Quote where
  | single
  | double

/-- The character of a quote. -/
def Quote.char : Quote → Char
  | .single => '\''
  | .double => '"'

/-- A text between two quotes of a kind. -/
def Quote.around (q : Quote) (t : Text) : Text := q.char :: (t ++ [q.char])

/-- A path that is left to the browser: a style file or an address of another host. -/
def Foreign (path : Text) : Prop :=
  ".css".toList <:+ path ∨ "http://".toList <+: path ∨ "https://".toList <+: path ∨
    "//".toList <+: path

/-- Whether a path is foreign is what the reader of import lists asks. -/
theorem isForeign_iff {path : Text} : isForeign path = true ↔ Foreign path := by
  simp only [isForeign, Foreign, Bool.or_eq_true, startsWith_iff, endsWith_iff, or_assoc]

instance (path : Text) : Decidable (Foreign path) := decidable_of_iff _ isForeign_iff

/-- A path that an import list names. -/
structure IsPath (path : Text) : Prop where
  nonempty : path ≠ []
  trimmed : trim path = path
  unquoted : '"' ∉ path ∧ '\'' ∉ path
  notForeign : ¬Foreign path

/-- An item of an import list. -/
inductive ImportItem where
  | named (quote : Quote) (path : Text) (isPath : IsPath path)
  | foreign (quote : Quote) (path : Text) (closed : quote.char ∉ path) (isForeign : Foreign path)
  | address (inside : Text) (plain : ∀ c ∈ inside, c ≠ '"' ∧ c ≠ '\'' ∧ c ≠ '(' ∧ c ≠ ')')

namespace ImportItem

/-- An item as it is written. -/
def text : ImportItem → Text
  | .named quote path _ => quote.around path
  | .foreign quote path _ _ => quote.around path
  | .address inside _ => "url(".toList ++ (inside ++ [')'])

/-- The path that an item names. -/
def path? : ImportItem → Option Text
  | .named _ path _ => some path
  | .foreign .. | .address .. => none

end ImportItem

/-- An item with blanks around it. -/
structure SpacedItem where
  before : Text
  item : ImportItem
  after : Text
  blankBefore : AllBlank before
  blankAfter : AllBlank after

/-- An item as a part of a list. -/
def SpacedItem.part (i : SpacedItem) : Part := ⟨i.before, i.item.text, i.after⟩

/-- An import list as it is written. -/
def writeImports (items : List SpacedItem) : Text := writeList (items.map SpacedItem.part)

/-! ## Cutting the list -/

/-- Import lists are grouped by neither commas nor blanks. -/
theorem importGrouping_usual : importGrouping.Usual := by
  refine ⟨by decide, fun c hc => ?_⟩
  have hround : c ≠ '(' ∧ c ≠ ')' :=
    ⟨Sheet.ne_of_isBlank hc (by decide), Sheet.ne_of_isBlank hc (by decide)⟩
  simp [importGrouping, hround]

open Sheet.Nesting in
/-- Behind an item nothing is open. -/
theorem ImportItem.behind_text (i : ImportItem) :
    outside.behind importGrouping i.text = some outside := by
  have hquote (q : Quote) : q.char = '"' ∨ q.char = '\'' := by
    cases q with
    | single => exact Or.inr rfl
    | double => exact Or.inl rfl
  cases i with
  | named quote path h =>
    refine behind_quoted (hquote quote) ?_ 0 []
    cases quote with
    | single => exact h.unquoted.2
    | double => exact h.unquoted.1
  | foreign quote path hclosed _ => exact behind_quoted (hquote quote) hclosed 0 []
  | address inside hplain =>
    have hopen : outside.behind importGrouping "url(".toList = some ⟨none, 1⟩ := by decide
    have hinside : behind importGrouping ⟨none, 1⟩ inside = some ⟨none, 1⟩ := by
      induction inside with
      | nil => rfl
      | cons c inside ih =>
        obtain ⟨hdouble, hsingle, hround, hround'⟩ := hplain c List.mem_cons_self
        have hafter : after importGrouping ⟨none, 1⟩ c = some ⟨none, 1⟩ := by
          simp [after, importGrouping, hdouble, hsingle, hround, hround']
        rw [behind, hafter, Option.bind_some]
        exact ih fun d hd => hplain d (List.mem_cons_of_mem c hd)
    rw [ImportItem.text, behind_append_of_eq hopen, behind_append_of_eq hinside]
    rfl

/-! ## Reading an item -/

/-- Whether a character is a quote. -/
def isQuote (c : Char) : Bool := c == '"' || c == '\''

/-- Both kinds of quotes are quotes. -/
theorem Quote.isQuote_char (q : Quote) : isQuote q.char = true := by
  cases q <;> rfl

/-- A path is foreign also without the quotes and blanks at its ends. -/
theorem Foreign.trimWhere {path : Text} (h : Foreign path) {p : Char → Bool}
    (hp : ".csshttps://".toList.any p = false) : Foreign (trimWhere p path) := by
  have hpiece (piece : Text) (hsubset : piece ⊆ ".csshttps://".toList) (c : Char) (hc : c ∈ piece) :
      p c = false := by
    rw [← Bool.not_eq_true]
    exact List.any_eq_false.1 hp c (hsubset hc)
  rcases h with h | h | h | h
  · exact Or.inl (suffix_trimWhere (hpiece _ (by decide)) h)
  · exact Or.inr (Or.inl (prefix_trimWhere (hpiece _ (by decide)) h))
  · exact Or.inr (Or.inr (Or.inl (prefix_trimWhere (hpiece _ (by decide)) h)))
  · exact Or.inr (Or.inr (Or.inr (prefix_trimWhere (hpiece _ (by decide)) h)))

/-- A quoted item is read without its quotes. -/
theorem importPath?_around (q : Quote) (path : Text) :
    importPath? (q.around path) =
      if (trim (trimWhere isQuote path)).isEmpty || isForeign (trim (trimWhere isQuote path)) then
        none
      else some (trim (trimWhere isQuote path)) := by
  have hurl : startsWith (q.around path) "url(".toList = false := by
    cases q <;> rfl
  have htrim : Text.trimWhere (fun c => c == '"' || c == '\'') (q.around path) =
      Text.trimWhere isQuote path := trimWhere_around q.isQuote_char q.isQuote_char path
  rw [importPath?, hurl, htrim]
  rfl

/-- An item is read as the path that it names. -/
theorem ImportItem.importPath?_text (i : ImportItem) : importPath? i.text = i.path? := by
  cases i with
  | named quote path h =>
    have hquote : ∀ c ∈ path, isQuote c = false := by
      intro c hc
      rw [← Bool.not_eq_true]
      intro hquote
      rw [isQuote, Bool.or_eq_true, beq_iff_eq, beq_iff_eq] at hquote
      rcases hquote with rfl | rfl
      · exact h.unquoted.1 hc
      · exact h.unquoted.2 hc
    have hself : Text.trimWhere isQuote path = path := trimWhere_eq_self hquote
    have hforeign : isForeign path = false := by
      rw [← Bool.not_eq_true, isForeign_iff]
      exact h.notForeign
    rw [ImportItem.text, importPath?_around, hself, h.trimmed, hforeign]
    simp [h.nonempty, ImportItem.path?]
  | foreign quote path _ h =>
    have hforeign : isForeign (trim (Text.trimWhere isQuote path)) = true :=
      isForeign_iff.2 ((h.trimWhere (by decide)).trimWhere (by decide))
    rw [ImportItem.text, importPath?_around, hforeign]
    simp [ImportItem.path?]
  | address inside _ =>
    have hurl : startsWith ("url(".toList ++ (inside ++ [')'])) "url(".toList = true :=
      startsWith_iff.2 (List.prefix_append _ _)
    rw [ImportItem.text, importPath?, if_pos hurl, ImportItem.path?]

/-- An item starts and ends with its quotes or its address, and so with no blank. -/
theorem ImportItem.trim_text (i : ImportItem) : trim i.text = i.text := by
  have haround (q : Quote) (t : Text) : trim (q.around t) = q.around t :=
    trimWhere_between (by cases q <;> decide) (by cases q <;> decide) t
  cases i with
  | named quote path _ => exact haround quote path
  | foreign quote path _ _ => exact haround quote path
  | address inside _ =>
    exact @trimWhere_between isBlank 'u' ')' (by decide) (by decide) ("rl(".toList ++ inside)

/-! ## Reading the list -/

/-- Reading an import list gives the paths that it names, in order. Items that are left to the
browser make no difference, wherever they stand. -/
theorem importPaths_writeImports (items : List SpacedItem) :
    importPaths (writeImports items) = items.filterMap (·.item.path?) ∧
      importPaths (writeImports items) =
        importPaths (writeImports (items.filter (·.item.path?.isSome))) := by
  have hread (items : List SpacedItem) :
      importPaths (writeImports items) = items.filterMap (·.item.path?) := by
    by_cases hne : items = []
    · subst hne
      rfl
    · have hparts := @Sheet.commaParts_writeList _ importGrouping_usual (items.map SpacedItem.part)
        (by simpa using hne) (by simpa using fun i _ => ⟨i.blankBefore, i.blankAfter⟩)
        (by simpa using fun i _ => i.item.behind_text)
      rw [importPaths, writeImports, hparts]
      simp [List.filterMap_map, Function.comp_def, SpacedItem.part, ImportItem.trim_text,
        ImportItem.importPath?_text]
  refine ⟨hread items, ?_⟩
  rw [hread, hread, List.filterMap_filter]
  refine List.filterMap_congr fun i _ => ?_
  cases i.item.path? <;> rfl

/-- A list with an item of every kind, in both quotes and with blanks on both sides. -/
def mixedImports : List SpacedItem :=
  have one : IsPath "a".toList := ⟨by decide, by decide, by decide, by decide⟩
  have other : IsPath "b (1), c".toList := ⟨by decide, by decide, by decide, by decide⟩
  [⟨[], .named .single "a".toList one, [], by decide, by decide⟩,
    ⟨" ".toList, .address "x,y".toList (by simp), [], by decide, by decide⟩,
    ⟨"\t".toList, .named .double "b (1), c".toList other, " ".toList, by decide, by decide⟩,
    ⟨" ".toList, .foreign .single "d.css".toList (by decide) (by decide), [], by decide, by decide⟩]

/-- The list is read as the two paths that are named, with the other items or without them. -/
theorem importPaths_writeImports_mixedImports :
    writeImports mixedImports = "'a', url(x,y),\t\"b (1), c\" , 'd.css'".toList ∧
    importPaths (writeImports mixedImports) = ["a".toList, "b (1), c".toList] ∧
    importPaths "'a',\t\"b (1), c\" ".toList = ["a".toList, "b (1), c".toList] := by
  obtain ⟨hread, hnamed⟩ := importPaths_writeImports mixedImports
  exact ⟨by decide, hread, hnamed.symm.trans hread⟩

end ClassHints.Model
