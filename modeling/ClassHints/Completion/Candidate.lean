import ClassHints.Completion.DocsLink
import ClassHints.Completion.Ranking
import ClassHints.Cursor.ClassAttribute
import ClassHints.Cursor.Position
import ClassHints.Markup.Scanner
import ClassHints.Settings.Basic
import ClassHints.Text.TextSet

/-!
# Candidates

A candidate is a suggestion ready for the editor. Class candidates come in three tiers, each
name once; variable candidates list the variables of the package.
-/

namespace ClassHints.Completion

open Text
open Cursor (Position)

/-- The kinds of documents that candidates are asked for. -/
inductive Language where
  /-- Markup and templates of markup. -/
  | markup
  /-- Stylesheets, which use variables. -/
  | stylesheet
  /-- Scripts with markup in them. -/
  | componentScript
  deriving DecidableEq, Repr

/-- The kind of document that an editor has a name for. -/
def Language.ofId? (id : String) : Option Language :=
  if ["html", "vue", "svelte", "astro", "django-html", "erb", "php"].contains id then some .markup
  else if id = "scss" then some .stylesheet
  else if ["javascriptreact", "typescriptreact"].contains id then some .componentScript
  else none

/-- What a candidate stands for. -/
inductive Kind where
  | styleClass
  | variable
  | color
  deriving DecidableEq, Repr

/-- A suggestion ready for the editor. -/
structure Candidate where
  label : Text
  kind : Kind
  /-- The text that candidates are sorted by. -/
  sortText : Text
  detail : Option Text
  documentation : Option Text
  deriving DecidableEq, Repr

/-- The tiers of class candidates, in the order they are presented. -/
inductive Tier where
  | high
  | normal
  | root
  deriving DecidableEq, Repr

/-- The digit of a tier. -/
def Tier.digit : Tier → Char
  | .high => '0'
  | .normal => '1'
  | .root => '2'

/-- A number with zeros in front, at least `width` digits long. -/
def padded (width n : Nat) : Text :=
  let ds := Nat.toDigits 10 n
  List.replicate (width - ds.length) '0' ++ ds

/-- The text that the candidate with an index in a tier is sorted by. -/
def sortText (tier : Tier) (index : Nat) : Text := tier.digit :: '_' :: padded 5 index

/-- The documentation of a class: the description of its tree, the selectors that lead to it,
and a link to its page. -/
def classDocumentation? (p : Package) (docsBase : Text) (item : Ranked) : Option Text :=
  let path := p.path item.tree
  let description := path.getLast?.bind (·.description)
  let selectors :=
    if path.isEmpty then none
    else some ('\x60' :: join [' '] (path.map (·.selector)) ++ ['\x60'])
  let link := (docsLink? item.name docsBase).map ("docs: ".toList ++ ·)
  let sections := [description, selectors, link].filterMap id
  if sections.isEmpty then none else some (join ['\n', '\n'] sections)

/-- The items that are kept, with their tiers: a name counts where it comes first. -/
def keepFirst (seen : TextSet) : List (Tier × Ranked) → List (Tier × Ranked)
  | [] => []
  | (tier, item) :: rest =>
    if seen.contains item.name then keepFirst seen rest
    else (tier, item) :: keepFirst (seen.insert item.name) rest

/-- Put the class candidates of the three tiers together. -/
def assemble (p : Package) (s : CompletionSettings) (r : Ranking) : List Candidate :=
  let root := if s.rootItems then rootItems p else []
  let items :=
    (validItems r.high).map (.high, ·) ++ (validItems r.normal).map (.normal, ·) ++
      (validItems root).map (.root, ·)
  (keepFirst .none items).zipIdx.map fun ((tier, item), index) =>
    { label := item.name
      kind := .styleClass
      sortText := sortText tier index
      detail := none
      documentation := classDocumentation? p s.docsBase item }

/-- The class candidates at an offset of a document. -/
def classCandidatesAt (p : Package) (s : CompletionSettings) (language : Language) (t : Text)
    (offset : Nat) : List Candidate :=
  match Cursor.locate (Markup.Document.scan t) offset with
  | some found =>
    if Cursor.classAttributeOpen t offset found.range.start s.lookback then
      assemble p s (rank p found.ancestors)
    else []
  | none =>
    if language = .componentScript && Cursor.classAttributeOpen t offset 0 s.lookback then
      assemble p s ⟨[], []⟩
    else []

/-- The documentation of a variable. -/
def variableDocumentation (v : Model.Variable) : Text :=
  let sentence := '\x60' :: v.name ++ "\x60 variable with default value of \x60".toList ++ v.value ++
    ['\x60']
  match v.comment with
  | some comment => comment ++ '\n' :: '\n' :: sentence
  | none => sentence

/-- The variables of a package as candidates. -/
def variableCandidates (p : Package) : List Candidate :=
  p.index.vars.zipIdx.map fun (v, index) =>
    { label := v.name
      kind := if mentions v.name "color".toList then .color else .variable
      sortText := sortText .high index
      detail := some v.value
      documentation := some (variableDocumentation v) }

/-- The candidates at a position of a document. -/
def complete (p : Package) (s : CompletionSettings) (language : Language) (t : Text)
    (position : Position) : List Candidate :=
  match language with
  | .stylesheet => variableCandidates p
  | .markup | .componentScript =>
    match Cursor.offsetAt t position with
    | some offset => classCandidatesAt p s language t offset
    | none => []

end ClassHints.Completion
