import ClassHints.Files.Tree

/-!
# Finding an installed package

The entry stylesheet of a package is looked for below a folder and below each folder above it.
The workspace is searched first, then each fallback.
-/

namespace ClassHints.Package

open Files (Path Tree)

/-- The first file that `relative` names below a folder or below one of its parents. -/
def findUpwards? (tree : Tree) (relative start : Path) : Option Path :=
  ((Path.ancestors start).map (Path.append · relative)).find? tree.isFile

/-- The first file that `relative` names below or above some folders, taken in order. -/
def locate? (tree : Tree) (relative : Path) (roots : List Path) : Option Path :=
  roots.findSome? (findUpwards? tree relative)

end ClassHints.Package
