import ClassHints.Model.ClassTree
import ClassHints.Model.Variable

/-!
# Mixins

A mixin is a named block of rules that other mixins include. Its body gives class trees,
variables and the names of the mixins it includes; blocks of other at-rules are not entered.
-/

namespace ClassHints.Model

open Text
open Sheet (Node Comment isVariable)

/-- A mixin. -/
structure Mixin where
  /-- The name without its parameters. -/
  name : Text
  /-- Trees of the rules in the body. -/
  ownTrees : List Nat
  /-- Own trees, then, once linked, the own trees of the mixins it includes. -/
  classTrees : List Nat
  /-- Variables declared in the body. -/
  vars : List Variable
  /-- Names of the mixins the body includes, in order. -/
  includes : List Text
  /-- The mixins that these names stand for, once resolved. -/
  resolved : List Nat
  /-- Whether some mixin includes this one. -/
  included : Bool
  /-- The words of the comment written before the mixin. -/
  description : Option Text
  deriving DecidableEq, Repr

/-- The name in the parameters of a mixin or an include, without arguments. -/
def mixinName (params : Text) : Text := trim (upTo ['('] (trim params))

/-- A mixin while its body is read. -/
structure MixinDraft where
  ownTrees : List Nat
  vars : List Variable
  includes : List Text
  /-- The comment that the next node may take as its own. -/
  pending : Option Text
  trees : Trees

namespace MixinDraft

/-- Take over an at-rule of the body: only an include matters. -/
def addAtRule (d : MixinDraft) (name params : Text) : MixinDraft :=
  if name = "include".toList then { d with includes := d.includes ++ [mixinName params] } else d

/-- Take over a node of the body. Every node but a comment uses up the comment before it. -/
def add (d : MixinDraft) (node : Node) : MixinDraft :=
  match node with
  | .comment c => { d with pending := some (Comment.prose c.text) }
  | .statement name params _ | .block name params _ _ =>
    addAtRule { d with pending := none } name params
  | .declaration property value _ =>
    if isVariable property then
      { d with
        vars := d.vars ++ [Variable.make property value d.pending]
        pending := none }
    else { d with pending := none }
  | .rule .. =>
    let (id?, grown) := growTree none d.pending node d.trees
    { d with ownTrees := d.ownTrees ++ id?.toList, trees := grown, pending := none }

end MixinDraft

/-- Read the body of a mixin: the mixin, and the trees of the package with its own added. -/
def readMixin (params : Text) (body : List Node) (description : Option Text) (trees : Trees) :
    Mixin × Trees :=
  let d := body.foldl MixinDraft.add ⟨[], [], [], none, trees⟩
  (⟨mixinName params, d.ownTrees, d.ownTrees, d.vars, d.includes, [], false, description⟩,
    d.trees)

end ClassHints.Model
