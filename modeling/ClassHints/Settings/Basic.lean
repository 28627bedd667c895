import ClassHints.Files.Path
import ClassHints.Settings.Toml.Reader

/-!
# Settings

Settings say where the package is installed and how candidates are presented. Each of them has
a default, so that an empty document is a complete one. Keys that mean nothing are passed over,
and a value of the wrong kind refuses the whole document.
-/

namespace ClassHints

open Files (Path)

/-- Where the package is installed and how its stylesheets are named. -/
structure PackageSettings where
  /-- Folder of the package among installed packages. -/
  name : Text := "vanilla-framework".toList
  /-- Folder of the stylesheets inside the package. -/
  stylesheetDir : Text := "scss".toList
  /-- Entry stylesheet inside that folder. -/
  entryFile : Text := "_vanilla.scss".toList
  /-- Extension of stylesheets, without the dot. -/
  extension : Text := "scss".toList
  /-- Folders to search when the workspace has no installed copy. -/
  fallbackRoots : List Path := []
  deriving DecidableEq, Repr

/-- How candidates are found and presented. -/
structure CompletionSettings where
  /-- Number of characters before the cursor that are searched for a class attribute. -/
  lookback : Nat := 500
  /-- Whether top-level classes follow the ranked ones. -/
  rootItems : Bool := true
  /-- Host and path of the documentation. -/
  docsBase : Text := "vanillaframework.io/docs".toList
  deriving DecidableEq, Repr

/-- All settings. -/
structure Settings where
  package : PackageSettings := {}
  completion : CompletionSettings := {}
  deriving DecidableEq, Repr

/-- The path of the entry stylesheet from the folder that packages are installed below. -/
def PackageSettings.entryPath (s : PackageSettings) : Path :=
  [s.name, s.stylesheetDir, s.entryFile].foldl Path.append "node_modules".toList

namespace Settings

/-- A value that must be a text. -/
def text? : Toml → Option Text
  | .text t => some t
  | _ => none

/-- A value that must be true or false. -/
def boolean? : Toml → Option Bool
  | .boolean b => some b
  | _ => none

/-- A value that must be an integer from zero on. -/
def count? : Toml → Option Nat
  | .integer n => if 0 ≤ n then some n.toNat else none
  | _ => none

/-- A value that must be a list of texts. -/
def texts? : Toml → Option (List Text)
  | .array items => items.mapM text?
  | _ => none

/-- The values of a group of settings by key. They may be listed in the order of the keys
instead, and a moment gives no values at all. -/
def group? (keys : List Text) : Toml → Option Toml.Entries
  | .table _ entries => some entries
  | .array items => some (keys.zip items)
  | .tables items => some (keys.zip (items.map (.table .header)))
  | .moment => some []
  | _ => none

/-- The value of a key as `read` understands it, or a default if the key is missing. -/
def field? {α : Type} (entries : Toml.Entries) (key : String) (read : Toml → Option α)
    (default : α) : Option α :=
  match entries.lookup key.toList with
  | some value => read value
  | none => some default

/-- Keys of the settings of a package, in order. -/
def packageKeys : List Text :=
  ["name", "stylesheet_dir", "entry_file", "extension", "fallback_roots"].map String.toList

/-- Keys of the settings of completion, in order. -/
def completionKeys : List Text := ["lookback", "root_items", "docs_base"].map String.toList

/-- Read the settings of a package. -/
def readPackage? (value : Toml) : Option PackageSettings := do
  let entries ← group? packageKeys value
  let d : PackageSettings := {}
  return {
    name := ← field? entries "name" text? d.name
    stylesheetDir := ← field? entries "stylesheet_dir" text? d.stylesheetDir
    entryFile := ← field? entries "entry_file" text? d.entryFile
    extension := ← field? entries "extension" text? d.extension
    fallbackRoots := ← field? entries "fallback_roots" texts? d.fallbackRoots }

/-- Read the settings of completion. -/
def readCompletion? (value : Toml) : Option CompletionSettings := do
  let entries ← group? completionKeys value
  let d : CompletionSettings := {}
  return {
    lookback := ← field? entries "lookback" count? d.lookback
    rootItems := ← field? entries "root_items" boolean? d.rootItems
    docsBase := ← field? entries "docs_base" text? d.docsBase }

/-- Read settings from a TOML document. -/
def ofToml? (document : Text) : Option Settings := do
  let entries ← Toml.read? document
  return {
    package := ← field? entries "package" readPackage? {}
    completion := ← field? entries "completion" readCompletion? {} }

end Settings

end ClassHints
