import ClassHints.Sheet.Lexeme
import ClassHints.Sheet.Masked
import ClassHints.Sheet.Selector

/-!
# Reading a stylesheet

Nodes are put together while lexemes pass by, one at a time. Between nodes the reader waits;
inside the prelude of a node it collects text up to a semicolon, an opening brace or the end
of the block. The blocks that are open form a stack, each with the nodes written before it.
-/

namespace ClassHints.Sheet

open Text

/-- How a prelude starts: with an at word, or with anything else. -/
inductive Head where
  | atWord (name : Text)
  | other
  deriving DecidableEq, Repr

/-- A prelude that is being collected. A bracket group is passed over as a whole, and its text
counts only once another token is taken after it. -/
structure Prelude where
  head : Head
  /-- Where the first token starts. -/
  start : Mark
  /-- Texts of the tokens taken so far and of the groups between them, latest first. -/
  taken : List Text
  /-- Texts of the group passed over since, latest first. -/
  passed : List Text
  /-- Brackets of that group that are still open, innermost first. -/
  pending : List Bracket
  /-- Whether the last token was a lone number sign, so that a brace interpolates. -/
  afterSharp : Bool
  deriving Repr

/-- A block that is open: its prelude, and the nodes before it in the block around it, latest
first. -/
structure Frame where
  head : Head
  start : Mark
  prelude : Text
  before : List Node

/-- The state of the reader between two lexemes. -/
structure Reader where
  /-- Where the next lexeme starts. -/
  spot : Spot
  /-- Blocks that are open, innermost first. -/
  frames : List Frame
  /-- Nodes of the innermost open block so far, latest first. -/
  nodes : List Node
  /-- Line comments that have not found their place yet. -/
  waiting : List Comment
  /-- The prelude that is being collected, if any. -/
  prelude : Option Prelude

/-- The text of a prelude up to the last token taken. -/
def Prelude.text (p : Prelude) : Text := p.taken.reverse.flatten

/-- The bracket that a token opens. -/
def Token.opened? : Token → Option Bracket
  | .opening b => some b
  | _ => none

/-- The prelude that a token starts. -/
def Prelude.begin (start : Mark) (lexeme : Lexeme) : Prelude where
  head := .other
  start := start
  taken := [lexeme.text]
  passed := []
  pending := lexeme.token.opened?.toList
  afterSharp := lexeme.token == .sharp

/-- Take a token into a prelude, together with the group passed over before it. -/
def Prelude.take (p : Prelude) (lexeme : Lexeme) : Prelude :=
  { p with
    taken := lexeme.text :: (p.passed ++ p.taken)
    passed := []
    pending := lexeme.token.opened?.toList
    afterSharp := lexeme.token == .sharp }

/-- Pass over a token of a bracket group: a closing bracket counts only if it fits. -/
def Prelude.pass (p : Prelude) (lexeme : Lexeme) : Prelude :=
  let pending :=
    match lexeme.token, p.pending with
    | .opening b, group => b :: group
    | .closing b, innermost :: outer => if b = innermost then outer else p.pending
    | _, group => group
  { p with passed := lexeme.text :: p.passed, pending := pending }

/-- The node that a prelude without a block makes. Text that is no declaration makes none. -/
def Prelude.statement? (p : Prelude) (stop : Mark) : Option Node :=
  match p.head with
  | .atWord name => some (.statement name (trim (stripComments p.text)) (p.start.to stop))
  | .other =>
    match cutAt? ':' p.text with
    | none => none
    | some (property, value) =>
      if (trim property).isEmpty then none
      else some (.declaration (trim property) (trim value) (p.start.to stop))

/-- The node that a block makes once it is closed, from the nodes in it, latest first. -/
def Frame.node (f : Frame) (nodes : List Node) (stop : Mark) : Node :=
  match f.head with
  | .atWord name => .block name f.prelude nodes.reverse (f.start.to stop)
  | .other => .rule f.prelude nodes.reverse (f.start.to stop)

namespace Reader

/-- The reader before the first lexeme. -/
def start (comments : List Comment) : Reader := ⟨.start, [], [], comments, none⟩

/-- Place the line comments that start before an offset. -/
def flush (r : Reader) (offset : Nat) : Reader :=
  let due := r.waiting.takeWhile (·.span.start < offset)
  { r with
    nodes := (due.map .comment).reverse ++ r.nodes
    waiting := r.waiting.drop due.length }

/-- Add a node to the innermost open block. -/
def push (r : Reader) (node : Node) : Reader := { r with nodes := node :: r.nodes }

/-- End the prelude that is being collected, as a statement. -/
def endStatement (r : Reader) (p : Prelude) (stop : Mark) : Reader :=
  { r with nodes := (p.statement? stop).toList ++ r.nodes, prelude := none }

/-- Open a block with the prelude collected before it. -/
def openBlock (r : Reader) (p : Prelude) : Reader :=
  { r with
    frames := ⟨p.head, p.start, trim (stripComments p.text), r.nodes⟩ :: r.frames
    nodes := []
    prelude := none }

/-- Close a block: `here` is where its closing brace starts and `stop` where it ends. -/
def closeBlock (r : Reader) (f : Frame) (outer : List Frame) (here stop : Mark) : Reader :=
  let r := r.flush here.offset
  { r with frames := outer, nodes := f.node r.nodes stop :: f.before }

/-- Read a lexeme between nodes; `stop` is where it ends. -/
def stepIdle (r : Reader) (lexeme : Lexeme) (stop : Mark) : Except Fault Reader :=
  let here := r.spot.mark
  match lexeme.token with
  | .blank | .semicolon => .ok r
  | .comment text => .ok ((r.flush here.offset).push (.comment ⟨.block, text, here.to stop⟩))
  | .atWord name =>
    .ok { r.flush here.offset with prelude := some ⟨.atWord name, here, [], [], [], false⟩ }
  | .opening .curly => .error (Fault.at stop .bareBlock)
  | .closing .curly =>
    match r.frames with
    | [] => .error (Fault.at stop .strayBrace)
    | f :: outer => .ok (r.closeBlock f outer here stop)
  | .brokenString => .error (Fault.at stop .openString)
  | .opening _ | .closing _ | .sharp | .plain =>
    .ok { r.flush here.offset with prelude := some (Prelude.begin here lexeme) }

/-- Read a lexeme inside a prelude; `stop` is where it ends. -/
def stepPrelude (r : Reader) (p : Prelude) (lexeme : Lexeme) (stop : Mark) :
    Except Fault Reader :=
  let here := r.spot.mark
  if !p.pending.isEmpty then .ok { r with prelude := some (p.pass lexeme) }
  else
    match lexeme.token with
    | .semicolon => .ok (r.endStatement p stop)
    | .opening .curly =>
      if p.afterSharp then .ok { r with prelude := some (p.take lexeme) }
      else .ok (r.openBlock p)
    | .closing .curly =>
      match r.frames with
      | [] => .error (Fault.at stop .strayBrace)
      | f :: outer => .ok ((r.endStatement p here).closeBlock f outer here stop)
    | .brokenString => .error (Fault.at stop .openString)
    | _ => .ok { r with prelude := some (p.take lexeme) }

/-- Read one lexeme. -/
def step (r : Reader) (lexeme : Lexeme) : Except Fault Reader := do
  let next := r.spot.advance lexeme.text
  let r ←
    match r.prelude with
    | none => r.stepIdle lexeme next.mark
    | some p => r.stepPrelude p lexeme next.mark
  return { r with spot := next }

/-- Close the blocks that are still open at the end of the text, innermost first. -/
def closeAll (r : Reader) : List Frame → List Node
  | [] => (r.flush r.spot.mark.offset).nodes.reverse
  | f :: outer =>
    let r := r.closeBlock f outer r.spot.mark r.spot.mark
    r.closeAll outer

/-- The nodes of the whole stylesheet, once the last lexeme was read. -/
def finish (r : Reader) : List Node :=
  match r.prelude with
  | none => r.closeAll r.frames
  | some p => (r.endStatement p r.spot.mark).closeAll r.frames

end Reader

/-- Read a stylesheet into its nodes, or say why it is refused. -/
def parse (source : Text) : Except Fault (List Node) := do
  let masked ← Masked.ofSource source
  let reader ← (lexemes masked.text).foldlM Reader.step (Reader.start masked.comments)
  return reader.finish

end ClassHints.Sheet
