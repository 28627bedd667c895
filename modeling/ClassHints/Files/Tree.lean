import ClassHints.Files.Path

/-!
# File trees

A file tree is the part of the world that stylesheets are read from: folders and files at
places, where a place is the list of names that lead there from the root. Paths are resolved
segment by segment, and every segment but the last one must be a folder.
-/

namespace ClassHints.Files

open Text

/-- A place in a file tree: the names that lead there from the root. -/
abbrev Place := List Text

/-- The path of a place. -/
def Place.path (p : Place) : Path := '/' :: join ['/'] p

/-- What a file holds. -/
inductive Content where
  | text (t : Text)
  /-- Bytes that may not be text. -/
  | bytes (b : ByteArray)

/-- What stands at a place. -/
inductive Entry where
  | folder
  | file (content : Content)

/-- Why a path cannot be resolved or a file not be read. -/
inductive Failure where
  | missing
  /-- Something on the way is a file. -/
  | notFolder
  /-- A folder cannot be read as a file. -/
  | isFolder
  /-- The bytes of a file are not UTF-8. -/
  | notText
  /-- A path cannot hold the character NUL. -/
  | badName
  /-- A segment of a path has more bytes than a name can have. -/
  | longName
  deriving DecidableEq, Repr

/-- The reason shown for a failure. -/
def Failure.message : Failure → String
  | .missing => "No such file or directory (os error 2)"
  | .notFolder => "Not a directory (os error 20)"
  | .isFolder => "Is a directory (os error 21)"
  | .notText => "stream did not contain valid UTF-8"
  | .badName => "file name contained an unexpected NUL byte"
  | .longName => "File name too long (os error 36)"

/-- The text of a file, if its content is text. -/
def Content.decode? : Content → Option Text
  | .text t => some t
  | .bytes b => (String.fromUTF8? b).map String.toList

/-- Folders and files by place. The root is a folder without being listed. -/
structure Tree where
  entries : List (Place × Entry)

/-- Number of bytes that a name can have. -/
def maxNameLength : Nat := 255

/-- Number of bytes that a path can have when it is looked up as a whole. -/
def maxPathLength : Nat := 4095

namespace Tree

/-- A tree with nothing but its root. -/
def empty : Tree := ⟨[]⟩

/-- What stands at a place. -/
def entry? (t : Tree) (p : Place) : Option Entry :=
  if p.isEmpty then some .folder else t.entries.lookup p

/-- Follow the segments of a path from a place. A segment is followed only from a folder,
even an empty one or a single dot. -/
def follow (t : Tree) (here : Place) : List Text → Except Failure Place
  | [] => .ok here
  | segment :: rest =>
    match t.entry? here with
    | some .folder =>
      if Path.isIdle segment then t.follow here rest
      else if segment = ['.', '.'] then t.follow here.dropLast rest
      else if maxNameLength < byteLength segment then .error .longName
      else if (t.entry? (here ++ [segment])).isSome then t.follow (here ++ [segment]) rest
      else .error .missing
    | some (.file _) => .error .notFolder
    | none => .error .missing

/-- The place that a path leads to. Only paths that start at the root lead anywhere. -/
def resolve (t : Tree) (p : Path) : Except Failure Place :=
  if p.contains '\x00' then .error .badName
  else if Path.isAbsolute p then t.follow [] (splitWhere (· == '/') (p.drop 1))
  else .error .missing

/-- The place that a path leads to when it is looked up as a whole. -/
def lookUp (t : Tree) (p : Path) : Except Failure Place :=
  if maxPathLength < byteLength p then .error .longName else t.resolve p

/-- Whether a path leads to a file. -/
def isFile (t : Tree) (p : Path) : Bool :=
  match t.lookUp p with
  | .ok place =>
    match t.entry? place with
    | some (.file _) => true
    | _ => false
  | .error _ => false

/-- The text of the file at a place. -/
def read (t : Tree) (p : Place) : Except Failure Text :=
  match t.entry? p with
  | some (.file content) =>
    match content.decode? with
    | some text => .ok text
    | none => .error .notText
  | some .folder => .error .isFolder
  | none => .error .missing

/-- The text of the file that a path leads to. -/
def readPath (t : Tree) (p : Path) : Except Failure Text := do
  t.read (← t.lookUp p)

/-- The folders below a place. -/
def foldersBelow (t : Tree) (p : Place) : List Place :=
  t.entries.filterMap fun
    | (q, .folder) => if p.isPrefixOf q && p != q then some q else none
    | (_, .file _) => none

/-- Put an entry at a place, instead of the one there. -/
def put (t : Tree) (p : Place) (e : Entry) : Tree :=
  ⟨(p, e) :: t.entries.filter (·.1 != p)⟩

/-- Make folders of a place and of all places on the way to it, where nothing stands yet. -/
def makeFolders (t : Tree) (p : Place) : Tree :=
  (List.range (p.length + 1)).foldl
    (fun t n => if (t.entry? (p.take n)).isSome then t else t.put (p.take n) .folder) t

/-- Put an entry at a place and make the folders on the way to it. -/
def write (t : Tree) (p : Place) (e : Entry) : Tree := (t.makeFolders p.dropLast).put p e

/-- Remove what stands at a place and everything below it. -/
def remove (t : Tree) (p : Place) : Tree := ⟨t.entries.filter (!p.isPrefixOf ·.1)⟩

/-- Whatever can be read at a place is listed there. -/
theorem mem_of_read_eq_ok {t : Tree} {p : Place} {text : Text} (h : t.read p = .ok text) :
    p ∈ t.entries.map Prod.fst := by
  unfold read entry? at h
  by_cases hp : p = []
  · simp [hp] at h
  · simp only [List.isEmpty_iff, hp, if_false] at h
    cases hl : t.entries.lookup p with
    | none => simp [hl] at h
    | some e =>
      obtain ⟨l₁, l₂, heq, _⟩ := List.lookup_eq_some_iff.1 hl
      simp [heq]

end Tree

end ClassHints.Files
