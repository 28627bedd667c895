import ClassHints.Files.Tree
import ClassHints.Sheet.Fault
import ClassHints.Text.Quoted

/-!
# Why a package is refused
-/

namespace ClassHints.Package

open Files (Path Failure)

/-- Why a package cannot be used. -/
inductive Fault where
  /-- No installed copy was found from a folder. -/
  | packageNotFound (start : Path)
  /-- An import that no file answers to. -/
  | importNotResolved (path : Text) (base : Path)
  /-- A stylesheet that cannot be parsed. -/
  | parse (file : Path) (fault : Sheet.Fault)
  /-- A file that cannot be read. -/
  | io (file : Path) (reason : Failure)
  /-- A folder whose changes are not observed. -/
  | notObserved (folder : Path)
  deriving DecidableEq, Repr

/-- The sentence shown for a fault. -/
def Fault.message : Fault → String
  | packageNotFound start =>
    "Failed to locate the stylesheet package from '" ++ .ofList start ++ "'"
  | importNotResolved path base =>
    "Failed to resolve the import '" ++ .ofList path ++ "' from '" ++ .ofList base ++ "'"
  | parse file fault =>
    "Stylesheet parse error in '" ++ .ofList file ++ "' at line " ++ toString fault.line ++
      ", column " ++ toString fault.column ++ ": " ++ fault.cause.message
  | io file reason =>
    "Failed to read stylesheet '" ++ .ofList file ++ "': " ++ reason.message
  | notObserved folder =>
    "Hot-reload error: No watch was found. about [" ++ .ofList (Text.quoted folder) ++ "]"

/-- Whether an import with this fault may be passed over. -/
def Fault.isRecoverable : Fault → Bool
  | importNotResolved .. | io .. => true
  | packageNotFound _ | parse .. | notObserved _ => false

end ClassHints.Package
