import ClassHints.Markup.Tag
import ClassHints.Proofs.Markup.Forest
import ClassHints.Proofs.Text

/-!
# Printed markup

Outlines are forests of texts and elements without places. This file says how an outline is
written, which outlines can be told apart again from what is written, and which nodes stand for
an outline that is written at an offset.
-/

namespace ClassHints.Markup

open Text

/-- An attribute with the blank before it. A value is written between double quotes. -/
structure AttributeText where
  blank : Char
  name : Text
  value : Option Text

namespace AttributeText

/-- An attribute as it is written behind the blank. -/
def body (a : AttributeText) : Text :=
  a.name ++ a.value.elim [] fun value => '=' :: '"' :: value ++ ['"']

/-- An attribute as it is written. -/
def print (a : AttributeText) : Text := a.blank :: a.body

/-- A character that can stand anywhere in the name of an attribute. -/
def isNamePart (c : Char) : Bool :=
  !isSpacing c && c != '=' && c != '>' && c != '/' && c != '"' && c != '\''

/-- Whether an attribute can be written and read again. -/
def isPrintable (a : AttributeText) : Bool :=
  isSpacing a.blank && !a.name.isEmpty && a.name.all isNamePart && a.value.all (!·.contains '"')

/-- The attribute that is meant. -/
def toAttribute (a : AttributeText) : Attribute := ⟨a.name, a.value, false⟩

end AttributeText

/-- Attributes as they are written. -/
def printAttributes (attributes : List AttributeText) : Text :=
  attributes.flatMap AttributeText.print

/-- A text or an element with what is in it. -/
inductive Outline where
  | text (t : Text)
  /-- An element that only has a start tag. A slash closes it unless its tag has no content
  anyway. -/
  | leaf (slash : Bool) (tag : Text) (attributes : List AttributeText)
  | element (tag : Text) (attributes : List AttributeText) (children : List Outline)

/-- The name of a tag: an ASCII letter and name characters. -/
def isTag : Text → Bool
  | [] => false
  | c :: name => c.isAlpha && name.all isTagPart

/-- The end of a start tag. -/
def tagEnd (slash : Bool) : Text := if slash then ['/', '>'] else ['>']

/-- A start tag as it is written. -/
def printTag (slash : Bool) (tag : Text) (attributes : List AttributeText) : Text :=
  '<' :: tag ++ (printAttributes attributes ++ tagEnd slash)

/-- A closing tag as it is written. -/
def printClosing (tag : Text) : Text := '<' :: '/' :: tag ++ ['>']

/-- The element of a start tag. -/
def elementOf (number : Nat) (tag : Text) (attributes : List AttributeText) : Element :=
  ⟨number, tag, attributes.map AttributeText.toAttribute⟩

/-- The classes that attributes list, each at its first place. -/
def classNames (attributes : List AttributeText) : List Text :=
  ((attributes.filter fun a => a.name == "class".toList || a.name == "className".toList).flatMap
    fun a => words (a.value.getD [])).eraseDups

namespace Outline

/-- Whether an outline is a text. -/
def isText : Outline → Bool
  | text _ => true
  | leaf .. | element .. => false

mutual

/-- An outline as it is written. -/
def print : Outline → Text
  | text t => t
  | leaf slash tag attributes => printTag slash tag attributes
  | element tag attributes children =>
    printTag false tag attributes ++ printAll children ++ printClosing tag

/-- A forest as it is written. -/
def printAll : List Outline → Text
  | [] => []
  | item :: items => item.print ++ printAll items

end

mutual

/-- Whether an outline can be written and read again. -/
def isPrintable : Outline → Bool
  | text t => !t.isEmpty && !t.contains '<'
  | leaf slash tag attributes =>
    isTag tag && (slash || isVoid tag) && attributes.all AttributeText.isPrintable
  | element tag attributes children =>
    isTag tag && !isVoid tag && !isRaw tag && attributes.all AttributeText.isPrintable &&
      allPrintable children

/-- Whether a forest can be written and read again: no text follows another one directly. -/
def allPrintable : List Outline → Bool
  | [] => true
  | item :: items =>
    item.isPrintable && !(item.isText && items.head?.any isText) && allPrintable items

end

mutual

/-- Number of nodes of an outline. -/
def size : Outline → Nat
  | text _ | leaf .. => 1
  | element _ _ children => 1 + sizes children

/-- Number of nodes of a forest. -/
def sizes : List Outline → Nat
  | [] => 0
  | item :: items => item.size + sizes items

end

mutual

/-- The node of an outline that is written at an offset. -/
def node (offset number : Nat) : Outline → Node
  | text t => .text number ⟨offset, offset + byteLength t⟩
  | leaf slash tag attributes =>
    .element (elementOf number tag attributes)
      ⟨offset, offset + byteLength (printTag slash tag attributes)⟩ []
  | element tag attributes children =>
    .element (elementOf number tag attributes)
      ⟨offset, offset + byteLength (element tag attributes children).print⟩
      (nodesFrom (offset + byteLength (printTag false tag attributes)) (number + 1) children)

/-- The nodes of a forest that is written from an offset on, numbered in pre-order. -/
def nodesFrom (offset number : Nat) : List Outline → List Node
  | [] => []
  | item :: items =>
    item.node offset number ::
      nodesFrom (offset + byteLength item.print) (number + item.size) items

end

/-- A node of a text that says what an outline says, covers what is written for it and has the
same outlines inside. -/
inductive Shows (t : Text) : Outline → Node → Prop where
  | text {u : Text} {number : Nat} {range : Range}
    (written : t.slice range.start range.stop = u) : Shows t (.text u) (.text number range)
  | leaf {slash : Bool} {tag : Text} {attributes : List AttributeText} {e : Element}
    {range : Range} (written : t.slice range.start range.stop = printTag slash tag attributes)
    (name : e.tag = tag) (stated : e.attributes = attributes.map AttributeText.toAttribute)
    (classes : e.classList = classNames attributes) :
    Shows t (.leaf slash tag attributes) (.element e range [])
  | element {tag : Text} {attributes : List AttributeText} {children : List Outline}
    {e : Element} {range : Range} {nodes : List Node}
    (written : t.slice range.start range.stop = (element tag attributes children).print)
    (name : e.tag = tag) (stated : e.attributes = attributes.map AttributeText.toAttribute)
    (classes : e.classList = classNames attributes)
    (inside : List.Forall₂ (Shows t) children nodes) :
    Shows t (.element tag attributes children) (.element e range nodes)

/-- Induction over forests: an element brings the forest inside it. -/
@[elab_as_elim]
theorem forest_induction {motive : List Outline → Prop} (nil : motive [])
    (text : ∀ t items, motive items → motive (.text t :: items))
    (leaf : ∀ slash tag attributes items, motive items →
      motive (.leaf slash tag attributes :: items))
    (element : ∀ tag attributes children items, motive children → motive items →
      motive (.element tag attributes children :: items)) : ∀ items, motive items
  | [] => nil
  | .text t :: items => text t items (forest_induction nil text leaf element items)
  | .leaf slash tag attributes :: items =>
    leaf slash tag attributes items (forest_induction nil text leaf element items)
  | .element tag attributes children :: items =>
    element tag attributes children items (forest_induction nil text leaf element children)
      (forest_induction nil text leaf element items)

end Outline

end ClassHints.Markup
