import ClassHints.Sheet.Mark
import ClassHints.Text.Ascii

/-!
# The tokens of a stylesheet

A lexeme is a token with the text it was read from. Reading never fails: whatever starts no
other token is a token of one character. Only the distinctions that the shape of a stylesheet
depends on are kept, and all other tokens are plain.
-/

namespace ClassHints.Sheet

open Text

/-- The three kinds of brackets. -/
inductive Bracket where
  | round
  | square
  | curly
  deriving DecidableEq, Repr

/-- A token of a stylesheet. -/
inductive Token where
  /-- A run of blanks. -/
  | blank
  | semicolon
  /-- A block comment without its delimiters. -/
  | comment (text : Text)
  /-- An at sign with the name after it, escapes decoded. -/
  | atWord (name : Text)
  /-- An opening bracket; a name directly before a round one belongs to it. -/
  | opening (bracket : Bracket)
  | closing (bracket : Bracket)
  /-- A string that a line break cuts off. -/
  | brokenString
  /-- A number sign that starts no name. -/
  | sharp
  /-- Anything else. -/
  | plain
  deriving DecidableEq, Repr

/-- A token together with the text it covers. -/
structure Lexeme where
  token : Token
  text : Text
  deriving DecidableEq, Repr

/-! ## Names and escapes -/

/-- The character that stands for what cannot be decoded. -/
def replacement : Char := '\uFFFD'

/-- A line break of the token grammar. -/
def isBreak (c : Char) : Bool := c == '\n' || c == '\r' || c == formFeed

/-- Whether a text starts with a line break. -/
def startsBreak (t : Text) : Bool := t.head?.any isBreak

/-- A character that a name can start with: a letter, an underscore, NUL or any character
beyond ASCII. -/
def startsName (c : Char) : Bool := c.isAlpha || c == '_' || c == '\x00' || 0x80 ≤ c.toNat

/-- A character inside a name. -/
def continuesName (c : Char) : Bool := startsName c || c.isDigit || c == '-'

/-- Whether an identifier starts a text. A hyphen needs another name character or a backslash
after it, and a backslash must not end its line. -/
def startsIdentifier : Text → Bool
  | '-' :: c :: _ => startsName c || c == '-' || c == '\\'
  | '\\' :: rest => !startsBreak rest
  | c :: _ => startsName c
  | [] => false

/-- Number of characters of the blank that may end a hexadecimal escape. -/
def escapeBlank : Text → Nat
  | '\r' :: '\n' :: _ => 2
  | c :: _ => if isSpacing c then 1 else 0
  | [] => 0

/-- The character with a given code; code zero, surrogates and codes out of range have none. -/
def decoded (code : Nat) : Char :=
  if code != 0 && (code < 0xD800 || (0xDFFF < code && code < 0x110000)) then Char.ofNat code
  else replacement

/-- The character that an escape stands for and how many characters follow its backslash:
up to six hexadecimal digits and a blank, or any one character. -/
def escape : Text → Char × Nat
  | [] => (replacement, 0)
  | c :: rest =>
    let digits := ((c :: rest).take 6).takeWhile isHexDigit
    if digits.isEmpty then (if c = '\x00' then replacement else c, 1)
    else (decoded (numeral 16 digits),
      digits.length + escapeBlank ((c :: rest).drop digits.length))

/-- The decoded name at the front of a text and the number of characters it covers; `skip`
characters belong to the escape before. -/
def nameFrom : Nat → Text → Text × Nat
  | _, [] => ([], 0)
  | skip + 1, _ :: rest =>
    let (name, n) := nameFrom skip rest
    (name, n + 1)
  | 0, c :: rest =>
    if continuesName c then
      let (name, n) := nameFrom 0 rest
      ((if c = '\x00' then replacement else c) :: name, n + 1)
    else if c = '\\' && !startsBreak rest then
      let (value, more) := escape rest
      let (name, n) := nameFrom more rest
      (value :: name, n + 1)
    else ([], 0)

/-! ## Numbers, strings and addresses -/

/-- Number of digits at the front of a text. -/
def digitCount (t : Text) : Nat := (t.takeWhile Char.isDigit).length

/-- Number of characters of the fraction at the front of a text: a point and digits. -/
def fractionLength : Text → Nat
  | '.' :: rest => if digitCount rest = 0 then 0 else digitCount rest + 1
  | _ => 0

/-- Number of characters of the exponent at the front of a text. -/
def exponentLength : Text → Nat
  | e :: rest =>
    if e = 'e' || e = 'E' then
      match rest with
      | sign :: digits =>
        if sign = '+' || sign = '-' then
          if digitCount digits = 0 then 0 else digitCount digits + 2
        else if digitCount rest = 0 then 0 else digitCount rest + 1
      | [] => 0
    else 0
  | [] => 0

/-- Number of characters of the percent sign or unit at the front of a text. -/
def unitNameLength (t : Text) : Nat :=
  if t.head? = some '%' then 1
  else if startsIdentifier t then (nameFrom 0 t).2
  else 0

/-- Number of characters of the number at the front of a text, after its sign. -/
def numberLength (t : Text) : Nat :=
  let n := digitCount t
  let n := n + fractionLength (t.drop n)
  let n := n + exponentLength (t.drop n)
  n + unitNameLength (t.drop n)

/-- Whether a number without sign starts a text. -/
def startsNumber (t : Text) : Bool := digitCount t != 0 || fractionLength t != 0

/-- The end of a string after its opening quote: whether it is whole, and the number of
characters it covers with its closing quote. The end of the text closes a string, a line
break does not; `skip` characters belong to the escape before. -/
def stringFrom (quote : Char) : Nat → Text → Bool × Nat
  | _, [] => (true, 0)
  | skip + 1, _ :: rest =>
    let (whole, n) := stringFrom quote skip rest
    (whole, n + 1)
  | 0, c :: rest =>
    if c = quote then (true, 1)
    else if isBreak c then (false, 0)
    else if c = '\\' then
      let more := if startsBreak rest then escapeBlank rest else (escape rest).2
      let (whole, n) := stringFrom quote more rest
      (whole, n + 1)
    else
      let (whole, n) := stringFrom quote 0 rest
      (whole, n + 1)

/-- Number of characters of a broken address up to its closing parenthesis, which a backslash
may escape. -/
def brokenAddressLength : Text → Nat
  | [] => 0
  | ')' :: _ => 1
  | '\\' :: ')' :: rest | '\\' :: '\\' :: rest => brokenAddressLength rest + 2
  | _ :: rest => brokenAddressLength rest + 1

/-- Number of characters after the body of an address: blanks and the closing parenthesis.
Anything else breaks the address. -/
def addressTailLength : Text → Nat
  | [] => 0
  | c :: rest =>
    if c = ')' then 1
    else if isSpacing c then addressTailLength rest + 1
    else brokenAddressLength rest + 1

/-- A character that breaks an address: a quote, an opening parenthesis or a control
character that cannot be printed. -/
def breaksAddress (c : Char) : Bool :=
  c == '"' || c == '\'' || c == '(' || (0x01 ≤ c.toNat && c.toNat ≤ 0x08) || c.toNat == 0x0B ||
    (0x0E ≤ c.toNat && c.toNat ≤ 0x1F) || c.toNat == 0x7F

/-- Number of characters of an address up to its closing parenthesis or the end of the text;
`skip` characters belong to the escape before. -/
def addressFrom : Nat → Text → Nat
  | _, [] => 0
  | skip + 1, _ :: rest => addressFrom skip rest + 1
  | 0, c :: rest =>
    if c = ')' then 1
    else if isSpacing c then addressTailLength rest + 1
    else if breaksAddress c then brokenAddressLength rest + 1
    else if c = '\\' then
      if startsBreak rest then brokenAddressLength rest + 1
      else addressFrom (escape rest).2 rest + 1
    else addressFrom 0 rest + 1

/-- Number of characters of an unquoted address after its opening parenthesis. A quoted one
is a string between parentheses and not an address. -/
def addressLength? (t : Text) : Option Nat :=
  let blanks := (t.takeWhile isSpacing).length
  match t.drop blanks with
  | '"' :: _ | '\'' :: _ => none
  | rest => some (blanks + addressFrom 0 rest)

/-! ## Lexemes -/

/-- The token at an identifier and the number of characters it covers: the name alone, the
name with an opening parenthesis, or a whole address. -/
def identifierToken (t : Text) : Token × Nat :=
  let (name, n) := nameFrom 0 t
  match t.drop n with
  | '(' :: body =>
    if lower name = "url".toList then
      match addressLength? body with
      | some m => (.plain, n + 1 + m)
      | none => (.opening .round, n + 1)
    else (.opening .round, n + 1)
  | _ => (.plain, n)

/-- The token at the front of a text that starts with `c`, and the number of characters it
covers, `c` included. -/
def Token.front (c : Char) (rest : Text) : Token × Nat :=
  let t := c :: rest
  match c, rest with
  | '#', _ =>
    if startsIdentifier rest || rest.head?.any (fun d => d.isDigit || d == '-') then
      (.plain, (nameFrom 0 rest).2 + 1)
    else (.sharp, 1)
  | '"', _ | '\'', _ =>
    let (whole, n) := stringFrom c 0 rest
    (if whole then .plain else .brokenString, n + 1)
  | '(', _ => (.opening .round, 1)
  | '[', _ => (.opening .square, 1)
  | '{', _ => (.opening .curly, 1)
  | ')', _ => (.closing .round, 1)
  | ']', _ => (.closing .square, 1)
  | '}', _ => (.closing .curly, 1)
  | ';', _ => (.semicolon, 1)
  | '@', _ =>
    if startsIdentifier rest then
      let (name, n) := nameFrom 0 rest
      (.atWord name, n + 1)
    else (.plain, 1)
  | '/', '*' :: body =>
    match cut? "*/".toList body with
    | some (text, _) => (.comment text, text.length + 4)
    | none => (.comment body, body.length + 2)
  | '<', '!' :: '-' :: '-' :: _ => (.plain, 4)
  | '+', _ => (.plain, if startsNumber rest then numberLength rest + 1 else 1)
  | '-', _ =>
    if startsNumber rest then (.plain, numberLength rest + 1)
    else if rest.take 2 = ['-', '>'] then (.plain, 3)
    else if startsIdentifier t then identifierToken t
    else (.plain, 1)
  | _, _ =>
    if isSpacing c then (.blank, (t.takeWhile isSpacing).length)
    else if startsNumber t then (.plain, numberLength t)
    else if startsIdentifier t then identifierToken t
    else (.plain, 1)

/-- The lexemes of a text; `skip` characters at its front belong to the lexeme before. -/
def lexemesFrom : Nat → Text → List Lexeme
  | _, [] => []
  | skip + 1, _ :: rest => lexemesFrom skip rest
  | 0, c :: rest =>
    let (token, n) := Token.front c rest
    ⟨token, c :: rest.take (n - 1)⟩ :: lexemesFrom (n - 1) rest

/-- The lexemes of a text. -/
def lexemes (t : Text) : List Lexeme := lexemesFrom 0 t

/-- The lexemes from a place on make up the text from there on. -/
theorem flatMap_lexemesFrom (skip : Nat) (t : Text) :
    (lexemesFrom skip t).flatMap Lexeme.text = t.drop skip := by
  induction t generalizing skip with
  | nil => simp [lexemesFrom]
  | cons c rest ih =>
    cases skip with
    | zero => simp [lexemesFrom, ih]
    | succ skip => simp [lexemesFrom, ih]

/-- The lexemes of a text make up the text. -/
@[simp]
theorem flatMap_lexemes (t : Text) : (lexemes t).flatMap Lexeme.text = t := by
  simp [lexemes, flatMap_lexemesFrom]

end ClassHints.Sheet
