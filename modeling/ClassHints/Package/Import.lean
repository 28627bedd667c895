import ClassHints.Package.Fault

/-!
# Finding imported files

An import names a file without its extension, and a partial also without the underscore that
its file name starts with. An import that has the extension already is taken as it is.
-/

namespace ClassHints.Package

open Text
open Files (Path Place Tree)

/-- The path of the file with the very name of an import. -/
def directPath (name : Text) (base : Path) (ending : Text) : Path :=
  Path.append base (name ++ ending)

/-- The path of the partial that an import may name: an underscore stands before the last
segment. -/
def partialPath? (name : Text) (base : Path) (ending : Text) : Option Path :=
  (Path.fileName? name).map fun file =>
    Path.append (Path.append base ((Path.parent? name).getD [])) ('_' :: file ++ ending)

/-- The path of the file that an import means. -/
def resolveImport (tree : Tree) (path : Text) (base : Path) (extension : Text) :
    Except Fault Path :=
  let ending := '.' :: extension
  let name := (before? ending path).getD path
  let candidates := directPath name base ending :: (partialPath? name base ending).toList
  match candidates.find? tree.isFile with
  | some found => .ok found
  | none => .error (.importNotResolved path base)

/-- The place of the file that an import means. -/
def importPlace? (tree : Tree) (path : Text) (base : Path) (extension : Text) : Option Place :=
  match resolveImport tree path base extension with
  | .ok found => (tree.resolve found).toOption
  | .error _ => none

end ClassHints.Package
