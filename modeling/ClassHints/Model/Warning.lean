import ClassHints.Files.Tree

/-!
# Warnings

A warning is a problem of a package that does not keep it from being used.
-/

namespace ClassHints.Model

/-- A problem that was passed over. -/
inductive Warning where
  /-- An import that no file answers to. -/
  | importNotResolved (path : Text) (fromFile : Files.Place)
  /-- An imported file that cannot be read. -/
  | unreadableImport (file : Files.Place) (reason : Files.Failure)
  /-- An include that no mixin answers to. -/
  | includeNotResolved (mixin name : Text)
  deriving DecidableEq, Repr

/-- The sentence shown for a warning. -/
def Warning.message : Warning → String
  | importNotResolved path fromFile =>
    "couldn't find the imported file " ++ .ofList path ++ " while loading " ++
      .ofList fromFile.path
  | unreadableImport file reason =>
    "couldn't read the imported file " ++ .ofList file.path ++ ": " ++ reason.message
  | includeNotResolved mixin name =>
    "failed to resolve the included mixin " ++ .ofList name ++ " in " ++ .ofList mixin

end ClassHints.Model
