import ClassHints.Model.Mixin

/-!
# What a stylesheet offers at its top level

Variables, imports and mixins count; rules, other at-rules and other declarations do not.
-/

namespace ClassHints.Model

open Text
open Sheet (Node Comment Grouping commaParts isVariable)

/-- A statement at the top level of a stylesheet. -/
inductive Item where
  | variable (v : Variable)
  /-- The paths of one import. -/
  | imports (paths : List Text)
  /-- A mixin with the text after its name, its body and the comment before it. -/
  | mixin (params : Text) (body : List Node) (description : Option Text)

/-- In import lists only parentheses group. -/
def importGrouping : Grouping where
  opens c := c == '('
  closes c := c == ')'

/-- Whether a path is left to the browser: a style file or an address of another host. -/
def isForeign (path : Text) : Bool :=
  endsWith path ".css".toList || startsWith path "http://".toList ||
    startsWith path "https://".toList || startsWith path "//".toList

/-- The path that one part of an import list names, without its quotes. -/
def importPath? (part : Text) : Option Text :=
  if startsWith part "url(".toList then none
  else
    let path := trim (trimWhere (fun c => c == '"' || c == '\'') part)
    if path.isEmpty || isForeign path then none else some path

/-- The paths that an import names, in order. -/
def importPaths (params : Text) : List Text :=
  (commaParts importGrouping params).filterMap importPath?

/-- The item that an at-rule makes. -/
def Item.ofAtRule? (name params : Text) (body : List Node) (description : Option Text) :
    Option Item :=
  if name = "import".toList then some (.imports (importPaths params))
  else if name = "mixin".toList then some (.mixin params body description)
  else none

/-- The item that a node makes, given the comment right before it. -/
def Item.ofNode? (comment : Option Text) : Node → Option Item
  | .declaration property value _ =>
    if isVariable property then some (.variable (Variable.make property value comment)) else none
  | .statement name params _ => ofAtRule? name params [] comment
  | .block name params body _ => ofAtRule? name params body comment
  | .rule .. | .comment _ => none

/-- The items among nodes; `pending` is the comment before the first node. -/
def itemsFrom (pending : Option Text) : List Node → List Item
  | [] => []
  | .comment c :: nodes => itemsFrom (some (Comment.prose c.text)) nodes
  | node :: nodes => (Item.ofNode? pending node).toList ++ itemsFrom none nodes

/-- The items of a stylesheet. -/
def classify (nodes : List Node) : List Item := itemsFrom none nodes

end ClassHints.Model
