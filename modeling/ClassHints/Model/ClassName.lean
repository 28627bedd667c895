import ClassHints.Text.Blank
import ClassHints.Text.Letters

/-!
# Class names in selectors

A selector that starts with a class, or with a child combinator and a class, names that class.
A nested selector that continues its parent, such as an ampersand with a suffix, names every
class of the parent with the suffix appended.
-/

namespace ClassHints.Model

open Text

/-- A class that a selector names. -/
structure ClassName where
  /-- The class without its dot. -/
  name : Text
  /-- Whether the selector reaches it through the child combinator. -/
  directChild : Bool
  deriving DecidableEq, Repr

/-- A class with a name, unless the name is empty. -/
def ClassName.make? (name : Text) (directChild : Bool) : Option ClassName :=
  if name.isEmpty then none else some ⟨name, directChild⟩

/-- The class that a selector names. After a dot the name ends with the first blank; after a
child combinator it is all the rest of the selector. -/
def ClassName.ofSelector? : Text → Option ClassName
  | '.' :: rest => make? (firstWord rest) false
  | '>' :: rest =>
    match trimStart rest with
    | '.' :: name => make? name true
    | _ => none
  | _ => none

/-- The classes that the selectors of a rule name. -/
def subClasses (selectors : List Text) : List ClassName :=
  selectors.filterMap ClassName.ofSelector?

/-- Whether a suffix can be attached to a class name by starting with `c`. -/
def startsSuffix (c : Char) : Bool := c == '-' || c == '_' || isAlphanumeric c

/-- The suffix that a selector attaches to its parent. -/
def parentSuffix? : Text → Option Text
  | '&' :: rest =>
    let suffix := firstWord rest
    if suffix.head?.any startsSuffix then some suffix else none
  | _ => none

/-- The classes of a parent continued by the suffixes of nested selectors, each suffix with
every class in turn. -/
def extendedClasses (selectors : List Text) (parents : List ClassName) : List ClassName :=
  (selectors.filterMap parentSuffix?).flatMap fun suffix =>
    parents.map fun c => { c with name := c.name ++ suffix }

end ClassHints.Model
