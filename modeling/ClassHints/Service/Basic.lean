import ClassHints.Completion.Candidate
import ClassHints.Package.Loader
import ClassHints.Package.Location
import ClassHints.Service.Watch

/-!
# The completion service

The service publishes a loaded package together with the entry it was loaded from, and answers
requests from what is published. A package is published only when it was loaded completely, so
that a failed load changes nothing.
-/

namespace ClassHints

open Files (Path Tree)
open Completion (Candidate Language)

namespace Service

/-- Why the service cannot do something. -/
inductive Fault where
  | package (fault : Package.Fault)
  /-- Settings that cannot be read, with the name of their document. -/
  | settings (document : Path)
  | notLoaded
  deriving DecidableEq, Repr

/-- The sentence shown for a fault. -/
def Fault.message : Fault → String
  | package fault => fault.message
  | settings document => "Invalid configuration '" ++ .ofList document ++ "'"
  | notLoaded => "No stylesheet package is loaded"

/-- A loaded package and the entry it was loaded from. -/
structure Snapshot where
  entry : Path
  package : Package

/-- A stylesheet that changed. -/
inductive Change where
  | modified (path : Path)
  | removed (path : Path)
  deriving DecidableEq, Repr

end Service

open Service (Fault Snapshot Change Watched)

/-- The service: its settings, what is published, and how often something was published. -/
structure Service where
  settings : Settings
  published : Option Snapshot
  revision : Nat

namespace Service

/-- A service that has published nothing. -/
def start (settings : Settings) : Service := ⟨settings, none, 0⟩

/-- How the service loads packages. -/
def options (s : Service) : Package.Options := ⟨s.settings.package.extension, none⟩

/-- Publish a package. -/
def publish (s : Service) (entry : Path) (p : Package) : Service :=
  { s with published := some ⟨entry, p⟩, revision := s.revision + 1 }

/-- Load the package with an entry stylesheet and publish it. -/
def loadEntry (s : Service) (tree : Tree) (entry : Path) : Except Fault Package × Service :=
  match Package.load tree entry s.options with
  | .ok p => (.ok p, s.publish entry p)
  | .error fault => (.error (.package fault), s)

/-- The entry of the package that is found from a workspace or from the fallbacks. -/
def locate? (s : Service) (tree : Tree) (workspace : Option Path) : Option Path :=
  Package.locate? tree s.settings.package.entryPath
    (workspace.toList ++ s.settings.package.fallbackRoots)

/-- Find the package from a workspace, load it and publish it. -/
def load (s : Service) (tree : Tree) (workspace : Option Path) : Except Fault Package × Service :=
  match s.locate? tree workspace with
  | some entry => s.loadEntry tree entry
  | none => (.error (.package (.packageNotFound (workspace.getD []))), s)

/-- Load the published package again. -/
def reload (s : Service) (tree : Tree) : Except Fault Package × Service :=
  match s.published with
  | some snapshot => s.loadEntry tree snapshot.entry
  | none => (.error .notLoaded, s)

/-- Load the published package again if stylesheets changed, and say whether that was done. -/
def applyChanges (s : Service) (tree : Tree) (changes : List Change) :
    Except Fault Bool × Service :=
  if changes.isEmpty then (.ok false, s)
  else
    let (result, s) := s.reload tree
    (result.map fun _ => true, s)

/-- The folders to watch for changes of the published package. -/
def watch (s : Service) (tree : Tree) : Except Fault Watched :=
  match s.published.bind fun snapshot => Path.parent? snapshot.entry with
  | some folder => (Watched.empty.watch tree folder).mapError .package
  | none => .error .notLoaded

/-- The candidates at a position of a document; none before anything is published. -/
def complete (s : Service) (language : Language) (t : Text) (position : Cursor.Position) :
    List Candidate :=
  match s.published with
  | some snapshot =>
    Completion.complete snapshot.package s.settings.completion language t position
  | none => []

end Service

/-- Read the settings in a TOML document. -/
def Settings.ofText (document : Text) : Except Service.Fault Settings :=
  match Settings.ofToml? document with
  | some settings => .ok settings
  | none => .error (.settings "<inline>".toList)

/-- Read the settings in a file. -/
def Settings.ofFile (tree : Tree) (path : Path) : Except Service.Fault Settings :=
  match (tree.readPath path).toOption.bind Settings.ofToml? with
  | some settings => .ok settings
  | none => .error (.settings path)

end ClassHints
