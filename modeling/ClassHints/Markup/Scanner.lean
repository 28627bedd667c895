import ClassHints.Markup.Node
import ClassHints.Markup.Tag

/-!
# Scanning markup

Scanning never fails, since a document that is being edited is rarely well formed. Elements
that are open form a stack, each with the nodes written before it. A closing tag closes the
innermost open element of its name and all elements inside that one, and what is open at the
end of the text closes there.
-/

namespace ClassHints.Markup

open Text

/-- An element that is open, and the nodes before it in the element around it, latest first. -/
structure Frame where
  element : Element
  start : Nat
  before : List Node

/-- The state of a scan. -/
structure Scan where
  /-- Bytes scanned so far. -/
  offset : Nat
  /-- The number of the next node. -/
  next : Nat
  /-- Elements that are open, innermost first. -/
  frames : List Frame
  /-- Nodes of the innermost open element so far, latest first. -/
  nodes : List Node

/-- The node of an element that closes with some nodes in it, latest first. -/
def Frame.close (f : Frame) (nodes : List Node) (stop : Nat) : Node :=
  .element f.element ⟨f.start, stop⟩ nodes.reverse

/-- Number of characters up to and with a piece of text, or to the end of the text. -/
def lengthPast (piece t : Text) : Nat :=
  match cut? piece t with
  | some (before, _) => before.length + piece.length
  | none => t.length

/-- Number of characters before the closing tag of a name, or to the end of the text. -/
def rawLength (tag t : Text) : Nat :=
  ((cut? ('<' :: '/' :: lower tag) (lower t)).map fun (before, _) => before.length).getD t.length

namespace Scan

/-- The scan before the first character. -/
def start : Scan := ⟨0, 1, [], []⟩

/-- Move on by a text. -/
def move (s : Scan) (t : Text) : Scan := { s with offset := s.offset + byteLength t }

/-- Add a node that is numbered already. -/
def push (s : Scan) (node : Node) : Scan := { s with nodes := node :: s.nodes }

/-- Add a text node and move on behind it. -/
def addText (s : Scan) (t : Text) : Scan :=
  let stop := s.offset + byteLength t
  { s.push (.text s.next ⟨s.offset, stop⟩) with offset := stop, next := s.next + 1 }

/-- Close open elements up to and with the innermost one of a name, if there is one. -/
def closeTag (stop : Nat) (tag : Text) : List Frame → List Node → Option (List Frame × List Node)
  | [], _ => none
  | f :: outer, nodes =>
    let nodes := f.close nodes stop :: f.before
    if sameLetters f.element.tag tag then some (outer, nodes) else closeTag stop tag outer nodes

/-- Move on by a closing tag of a name. One that closes nothing is passed over. -/
def close (s : Scan) (tag : Text) (t : Text) : Scan :=
  let s := s.move t
  match closeTag s.offset tag s.frames s.nodes with
  | some (frames, nodes) => { s with frames := frames, nodes := nodes }
  | none => s

/-- Add an element without content and move on by the text of its tag. -/
def addLeaf (s : Scan) (e : Element) (t : Text) : Scan :=
  let stop := s.offset + byteLength t
  { s.push (.element e ⟨s.offset, stop⟩ []) with offset := stop, next := s.next + 1 }

/-- Open an element and move on by the text of its tag. -/
def addOpen (s : Scan) (e : Element) (t : Text) : Scan :=
  { offset := s.offset + byteLength t
    next := s.next + 1
    frames := ⟨e, s.offset, s.nodes⟩ :: s.frames
    nodes := [] }

/-- Add an element whose content is text: its start tag, content and closing tag. -/
def addRaw (s : Scan) (e : Element) (tag content closing : Text) : Scan :=
  let inside := s.offset + byteLength tag
  let stop := inside + byteLength content
  let last := stop + byteLength closing
  let children := if content.isEmpty then [] else [Node.text (s.next + 1) ⟨inside, stop⟩]
  { s.push (.element e ⟨s.offset, last⟩ children) with
    offset := last
    next := s.next + 1 + children.length }

/-- Scan the start tag at the front of a text: the state after it, and the number of
characters it covers. -/
def openTag (s : Scan) (t : Text) : Scan × Nat :=
  let tag := tagName (t.drop 1)
  let body := tagBodyFrom 0 (t.drop (1 + tag.length))
  let n := 1 + tag.length + body.length
  let e : Element := ⟨s.next, tag, body.attributes⟩
  match body.ending with
  | .unfinished => (s.addLeaf e t, t.length)
  | .selfClosed => (s.addLeaf e (t.take n), n)
  | .opened =>
    if isVoid tag then (s.addLeaf e (t.take n), n)
    else if isRaw tag then
      let rest := t.drop n
      let m := rawLength tag rest
      let k := lengthPast ['>'] (rest.drop m)
      (s.addRaw e (t.take n) (rest.take m) ((rest.drop m).take k), n + m + k)
    else (s.addOpen e (t.take n), n)

/-- Scan the text up to the next angle bracket. -/
def textRun (s : Scan) (c : Char) (rest : Text) : Scan × Nat :=
  let run := c :: rest.takeWhile (· != '<')
  (s.addText run, run.length)

/-- Scan what starts with `c`: the state after it, and the number of characters it covers. -/
def step (s : Scan) (c : Char) (rest : Text) : Scan × Nat :=
  let t := c :: rest
  match c, rest with
  | '<', '!' :: '-' :: '-' :: _ =>
    let n := lengthPast "-->".toList t
    (s.move (t.take n), n)
  | '<', '!' :: _ | '<', '?' :: _ =>
    let n := lengthPast ['>'] t
    (s.move (t.take n), n)
  | '<', '/' :: body =>
    let tag := tagName body
    let n := 2 + tag.length + lengthPast ['>'] (body.drop tag.length)
    (s.close tag (t.take n), n)
  | '<', d :: _ => if d.isAlpha then s.openTag t else s.textRun c rest
  | _, _ => s.textRun c rest

/-- Scan a text from a state on; `skip` characters at its front are scanned already. -/
def scanFrom (s : Scan) : Nat → Text → Scan
  | _, [] => s
  | skip + 1, _ :: rest => s.scanFrom skip rest
  | 0, c :: rest =>
    let (s, n) := s.step c rest
    s.scanFrom (n - 1) rest

/-- The nodes of the document, in order, once all open elements are closed at the end. -/
def closeAll (stop : Nat) : List Frame → List Node → List Node
  | [], nodes => nodes.reverse
  | f :: outer, nodes => closeAll stop outer (f.close nodes stop :: f.before)

end Scan

/-- Scan a text into a document. -/
def Document.scan (t : Text) : Document :=
  let s := Scan.start.scanFrom 0 t
  ⟨byteLength t, Scan.closeAll s.offset s.frames s.nodes⟩

end ClassHints.Markup
