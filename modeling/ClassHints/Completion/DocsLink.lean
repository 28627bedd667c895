import ClassHints.Text.Basic

/-!
# Links to the documentation

Every class belongs to a block, and every block has a page in one of three sections. The page
is named for the block without its section mark, element and modifier.
-/

namespace ClassHints.Completion

open Text

/-- The section of the documentation that a class belongs to. -/
def docsSection (name : Text) : Text :=
  if startsWith name "l-".toList then "layouts".toList
  else if startsWith name "u-".toList then "utilities".toList
  else "patterns".toList

/-- The part of a class name after its first hyphen, if that is among its first three
characters. -/
def dropSectionMark (name : Text) : Text :=
  if (name.take 3).contains '-' then ((cutAt? '-' name).map Prod.snd).getD name else name

/-- The block that a class belongs to, without its section mark. -/
def blockName (name : Text) : Text :=
  upTo "--".toList (upTo "__".toList (dropSectionMark name))

/-- A base address without the slashes at its end. -/
def trimBase (base : Text) : Text := (base.reverse.dropWhile (· == '/')).reverse

/-- The link to the page of a class below a base address. Names of states have no page. -/
def docsLink? (name base : Text) : Option Text :=
  if name.isEmpty || startsWith name "is-".toList then none
  else
    let page := trimBase base ++ '/' :: docsSection name ++ '/' :: blockName name
    some ('[' :: page ++ "](https://".toList ++ page ++ [')'])

end ClassHints.Completion
