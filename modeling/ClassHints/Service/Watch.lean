import ClassHints.Package.Fault

/-!
# Watched folders

The folders that are watched for changes are known by place, each once, in the order of their
names. A watched folder is observed together with all folders below it, and observing it ends
for all of them at once. So a folder can be watched without being observed, if it lies below
another one that is not watched any more.
-/

namespace ClassHints.Service

open Files (Path Place Tree)

/-- The watched folders and what is observed for them. -/
structure Watched where
  /-- Folders that are watched, in the order of their names. -/
  folders : List Place
  /-- Places whose changes are observed. -/
  observed : List Place
  deriving DecidableEq, Repr

/-- Add a place in order, unless it is there already. -/
def insertPlace (p : Place) : List Place → List Place
  | [] => [p]
  | q :: rest =>
    if p = q then q :: rest
    else if p < q then p :: q :: rest
    else q :: insertPlace p rest

namespace Watched

/-- No folder is watched. -/
def empty : Watched := ⟨[], []⟩

/-- Watch a place and observe it with the folders below it. -/
def add (w : Watched) (tree : Tree) (place : Place) : Watched :=
  if w.folders.contains place then w
  else ⟨insertPlace place w.folders, place :: tree.foldersBelow place ++ w.observed⟩

/-- Watch the folder that a path leads to. -/
def watch (w : Watched) (tree : Tree) (path : Path) : Except Package.Fault Watched :=
  match tree.resolve path with
  | .ok place => .ok (w.add tree place)
  | .error reason => .error (.io path reason)

/-- Watch a place no more, and observe nothing at it or below it. A place that is watched but
not observed is at fault, and is watched no more either. -/
def drop (w : Watched) (place : Place) : Except Package.Fault Unit × Watched :=
  let folders := w.folders.filter (· ≠ place)
  if !w.folders.contains place then (.ok (), w)
  else if w.observed.contains place then
    (.ok (), ⟨folders, w.observed.filter (!place.isPrefixOf ·)⟩)
  else (.error (.notObserved place.path), ⟨folders, w.observed⟩)

/-- Stop watching the folder that a path leads to, if it leads anywhere. -/
def unwatch (w : Watched) (tree : Tree) (path : Path) : Except Package.Fault Unit × Watched :=
  match tree.resolve path with
  | .ok place => w.drop place
  | .error _ => (.ok (), w)

end Watched

end ClassHints.Service
