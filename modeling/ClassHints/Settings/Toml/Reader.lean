import ClassHints.Settings.Toml.Number

/-!
# Reading TOML

A document is read line by line: values with their keys, headers, comments and empty lines.
Strings, arrays and inline tables are read from the front of the remaining text. Reading ends
because every step takes something from the text, and its length bounds the recursion.
-/

namespace ClassHints.Settings.Toml

open Text

/-- A reader takes what it reads from the front of a text, or fails. -/
abbrev Read := StateT Text Option

/-- Read a given text. -/
def expect (t : Text) : Read Unit := do
  match after? t (← get) with
  | some rest => set rest
  | none => failure

/-- Whether a given text is next. -/
def isNext (t : Text) : Read Bool := return startsWith (← get) t

/-- Read the longest run of characters that satisfy `p`. -/
def readWhile (p : Char → Bool) : Read Text := do
  let t ← get
  let taken := t.takeWhile p
  set (t.drop taken.length)
  return taken

/-- A blank inside a line. -/
def isLineBlank (c : Char) : Bool := c == ' ' || c == '\t'

/-- A character that may stand in a comment or a literal string. -/
def isVisible (c : Char) : Bool := c == '\t' || (0x20 ≤ c.toNat && c.toNat != 0x7F)

/-- Pass over blanks inside a line. -/
def skipBlanks : Read Unit := discard (readWhile isLineBlank)

/-- Pass over a comment, if there is one. -/
def skipComment : Read Unit := do
  if ← isNext ['#'] then discard (readWhile isVisible)

/-- Number of characters of the line break at the front of a text. -/
def breakLength : Text → Nat
  | '\n' :: _ => 1
  | '\r' :: '\n' :: _ => 2
  | _ => 0

/-- Pass over a line break, and say whether there was one. -/
def skipBreak : Read Bool := do
  let t ← get
  set (t.drop (breakLength t))
  return breakLength t != 0

/-- Pass over blanks, comments and line breaks, as many as the fuel allows. -/
def skipLines : Nat → Read Unit
  | 0 => return
  | fuel + 1 => do
    skipBlanks
    skipComment
    if ← skipBreak then skipLines fuel

/-- Read the end of a line after a value or a header. -/
def endLine : Read Unit := do
  skipBlanks
  skipComment
  let atEnd := (← get).isEmpty
  if !(← skipBreak) && !atEnd then failure

/-! ## Strings -/

/-- The character that an escape with a number of hexadecimal digits stands for. -/
def readCode (count : Nat) : Read Char := do
  let t ← get
  let ds := (t.take count).takeWhile isHexDigit
  let code := numeral 16 ds
  if ds.length = count && (code < 0xD800 || (0xDFFF < code && code < 0x110000)) then
    set (t.drop count)
    return Char.ofNat code
  else failure

/-- The character that an escape stands for, after its backslash. -/
def readEscape : Read Char := do
  match ← get with
  | c :: rest =>
    set rest
    match c with
    | 'b' => return '\x08'
    | 't' => return '\t'
    | 'n' => return '\n'
    | 'f' => return '\x0c'
    | 'r' => return '\r'
    | '"' => return '"'
    | '\\' => return '\\'
    | 'u' => readCode 4
    | 'U' => readCode 8
    | _ => failure
  | [] => failure

/-- The rest of a string in one line, after its opening quote. -/
def readBasic : Nat → Read Text
  | 0 => failure
  | fuel + 1 => do
    match ← get with
    | '"' :: rest => set rest; return []
    | '\\' :: rest => set rest; return (← readEscape) :: (← readBasic fuel)
    | c :: rest => if isVisible c then set rest; return c :: (← readBasic fuel) else failure
    | [] => failure

/-- The rest of a literal string in one line, after its opening quote. -/
def readLiteral : Read Text := do
  let t ← readWhile fun c => isVisible c && c != '\''
  expect ['\'']
  return t

/-- What a run of quotes means in a string of several lines: quotes of the string, and whether
they end it. Three quotes end it, and up to two may stand before them. -/
def quoteRun (n : Nat) : Nat × Bool := if n < 3 then (n, false) else (min n 5 - 3, true)

/-- The rest of a string of several lines after its opening quotes. In a literal one a
backslash is like any other character; in any other one it escapes, and before a line break
it takes all blanks and breaks with it. -/
def readLines (quote : Char) (literal : Bool) : Nat → Read Text
  | 0 => failure
  | fuel + 1 => do
    let t ← get
    match t with
    | [] => failure
    | c :: rest =>
      if c = quote then
        let run := (t.takeWhile (· == quote)).length
        let (kept, last) := quoteRun run
        set (t.drop (if last then kept + 3 else kept))
        let more ← if last then pure [] else readLines quote literal fuel
        return List.replicate kept quote ++ more
      else if c = '\\' && !literal then
        let blanks := (rest.takeWhile isLineBlank).length
        if breakLength (rest.drop blanks) != 0 then
          set (rest.drop blanks)
          let _ ← readWhileBreaks fuel
          readLines quote literal fuel
        else
          set rest
          return (← readEscape) :: (← readLines quote literal fuel)
      else if breakLength t != 0 then
        set (t.drop (breakLength t))
        return '\n' :: (← readLines quote literal fuel)
      else if isVisible c then
        set rest
        return c :: (← readLines quote literal fuel)
      else failure
where
  /-- Pass over blanks and line breaks, as many as the fuel allows. -/
  readWhileBreaks : Nat → Read Unit
    | 0 => return
    | fuel + 1 => do
      skipBlanks
      if ← skipBreak then readWhileBreaks fuel

/-- Read a string that starts with a quote. -/
def readString (quote : Char) : Read Text := do
  let fuel := (← get).length + 1
  if ← isNext [quote, quote, quote] then
    expect [quote, quote, quote]
    let _ ← skipBreak
    readLines quote (quote = '\'') fuel
  else
    expect [quote]
    if quote = '\'' then readLiteral else readBasic fuel

/-! ## Keys and values -/

/-- A character of a key without quotes. -/
def isKeyPart (c : Char) : Bool := c.isAlphanum || c == '-' || c == '_'

/-- Read one part of a key. -/
def readKeyPart : Read Text := do
  match (← get).head? with
  | some '"' =>
    expect ['"']
    readBasic ((← get).length + 1)
  | some '\'' =>
    expect ['\'']
    readLiteral
  | _ =>
    let key ← readWhile isKeyPart
    if key.isEmpty then failure else return key

/-- Read a key of at most a number of parts: those before the last dot, and the last one. -/
def readKeyParts : Nat → Read (List Text × Text)
  | 0 => failure
  | parts + 1 => do
    skipBlanks
    let part ← readKeyPart
    skipBlanks
    if ← isNext ['.'] then
      expect ['.']
      let (path, key) ← readKeyParts parts
      return (part :: path, key)
    else return ([], part)

/-- How deep arrays and inline tables may nest, and how many parts a key may have. -/
def maxDepth : Nat := 79

/-- Read a key: the parts before the last dot, and the last part. -/
def readKey : Read (List Text × Text) := readKeyParts maxDepth

/-- A character of a number, a date or a time. -/
def isWordChar (c : Char) : Bool :=
  c.isAlphanum || c == '+' || c == '-' || c == '_' || c == '.' || c == ':'

/-- Read a word. A blank after a date belongs to it if a time follows. -/
def readWord : Read Toml := do
  let first ← readWhile isWordChar
  let rest ← get
  if rest.head? = some ' ' && date? first = some [] && (hourMinute? (rest.drop 1)).isSome then
    expect [' ']
    let second ← readWhile isWordChar
    liftM (word? (first ++ ' ' :: second))
  else liftM (word? first)

mutual

/-- Read a value that nests at most `depth` levels. -/
def readValue : Nat → (depth : Nat) → Read Toml
  | 0, _ => failure
  | fuel + 1, depth => do
    match (← get).head?, depth with
    | some '"', _ => return .text (← readString '"')
    | some '\'', _ => return .text (← readString '\'')
    | some '[', depth + 1 =>
      expect ['[']
      return .array (← readItems fuel depth)
    | some '{', depth + 1 =>
      expect ['{']
      skipBlanks
      if ← isNext ['}'] then
        expect ['}']
        return .table .inline []
      else return .table .inline (← readEntries fuel depth [])
    | _, _ => readWord

/-- Read the items of an array up to its closing bracket. -/
def readItems : Nat → (depth : Nat) → Read (List Toml)
  | 0, _ => failure
  | fuel + 1, depth => do
    skipLines fuel
    if ← isNext [']'] then
      expect [']']
      return []
    else
      let item ← readValue fuel depth
      skipLines fuel
      if ← isNext [','] then
        expect [',']
        return item :: (← readItems fuel depth)
      else
        expect [']']
        return [item]

/-- Read the entries of an inline table up to its closing brace. -/
def readEntries : Nat → (depth : Nat) → Entries → Read Entries
  | 0, _, _ => failure
  | fuel + 1, depth, entries => do
    let (path, key) ← readKey
    expect ['=']
    skipBlanks
    let value ← readValue fuel depth
    skipBlanks
    let entries ← liftM (insert path key value .header entries)
    if ← isNext [','] then
      expect [',']
      readEntries fuel depth entries
    else
      expect ['}']
      return entries

end

/-! ## Documents -/

/-- A document while it is read: its entries, and the path of the last header. -/
structure Draft where
  entries : Entries
  current : List Text

/-- Read a header and start its table. -/
def readHeader (d : Draft) : Read Draft := do
  expect ['[']
  let double ← isNext ['[']
  if double then expect ['[']
  let (path, key) ← readKey
  expect (if double then [']', ']'] else [']'])
  endLine
  let entries ← liftM (if double then openTables path key d.entries else openTable path key d.entries)
  return ⟨entries, path ++ [key]⟩

/-- Read a value with its key into the table of the last header. -/
def readPair (d : Draft) (fuel : Nat) : Read Draft := do
  let (path, key) ← readKey
  expect ['=']
  skipBlanks
  let value ← readValue fuel maxDepth
  endLine
  let entries ← liftM (descend false (insert path key value) d.current .header d.entries)
  return { d with entries := entries }

/-- Read the lines of a document, as many as the fuel allows. -/
def readDocument : Nat → Draft → Read Entries
  | 0, _ => failure
  | fuel + 1, d => do
    skipBlanks
    match (← get).head? with
    | none => return d.entries
    | some '#' | some '\n' | some '\r' =>
      endLine
      readDocument fuel d
    | some '[' => readDocument fuel (← readHeader d)
    | some _ => readDocument fuel (← readPair d fuel)

/-- Read a document. A byte order mark may stand before it. -/
def read? (t : Text) : Option Entries :=
  let t := (after? ['\uFEFF'] t).getD t
  ((readDocument (t.length + 1) ⟨[], []⟩).run t).map Prod.fst

end ClassHints.Settings.Toml
