import ClassHints.Settings.Toml.Value
import ClassHints.Text.Ascii

/-!
# Numbers and moments of TOML

Numbers, dates and times are words without blanks, except that a blank may stand between a date
and a time. Integers have 64 bits.
-/

namespace ClassHints.Settings.Toml

open Text

/-- Digits with single underscores between them, without the underscores. -/
def digits? (p : Char → Bool) (t : Text) : Option Text :=
  let groups := splitWhere (· == '_') t
  if groups.all fun g => !g.isEmpty && g.all p then some groups.flatten else none

/-- The digits of a decimal number, which has no zero in front. -/
def decimal? (t : Text) : Option Text := do
  let ds ← digits? Char.isDigit t
  if ds.head? = some '0' && ds.length ≠ 1 then none else return ds

/-- The sign of a number, true for minus, and what follows it. -/
def signed : Text → Bool × Text
  | '-' :: rest => (true, rest)
  | '+' :: rest => (false, rest)
  | t => (false, t)

/-- An integer that fits into 64 bits. -/
def bounded? (n : Int) : Option Int :=
  if -0x8000000000000000 ≤ n ∧ n < 0x8000000000000000 then some n else none

/-- An integer with the digits of a base. -/
def based? (base : Nat) (t : Text) : Option Int := do
  let ds ← digits? (fun c => (hexValue? c).any (· < base)) t
  bounded? (numeral base ds)

/-- An integer: decimal with a sign, or hexadecimal, octal or binary without. -/
def integer? : Text → Option Int
  | '0' :: 'x' :: t => based? 16 t
  | '0' :: 'o' :: t => based? 8 t
  | '0' :: 'b' :: t => based? 2 t
  | t => do
    let (negative, t) := signed t
    let n : Int := numeral 10 (← decimal? t)
    bounded? (if negative then -n else n)

/-- Whether a positive decimal number is beyond what a double can hold: digits `ds` with the
point moved by `shift` places. -/
def overflows (ds : Text) (shift : Int) : Bool :=
  let ds := ds.dropWhile (· == '0')
  let places : Int := ds.length + shift
  let limit := Nat.pow 2 1024 - Nat.pow 2 970
  if ds.isEmpty || places < 300 then false
  else if 400 < places then true
  else if 0 ≤ shift then limit ≤ numeral 10 ds * Nat.pow 10 shift.toNat
  else limit * Nat.pow 10 (-shift).toNat ≤ numeral 10 ds

/-- The exponent of a number. -/
def exponent? (t : Text) : Option Int := do
  let (negative, t) := signed t
  let n : Int := numeral 10 (← digits? Char.isDigit t)
  return if negative then -n else n

/-- Whether a word is a number with a fraction or an exponent, or one of the two words for
numbers that have no digits. A positive number must not overflow. -/
def isFloat (t : Text) : Bool :=
  let (negative, t) := signed t
  if t = "inf".toList || t = "nan".toList then true
  else
    let mantissa := t.takeWhile fun c => c != 'e' && c != 'E'
    let whole := mantissa.takeWhile (· != '.')
    let parts : Option (Text × Text × Int) := do
      let ds ← decimal? whole
      let fraction ← if whole = mantissa then some []
        else digits? Char.isDigit (mantissa.drop (whole.length + 1))
      let exponent ← if mantissa = t then some 0 else exponent? (t.drop (mantissa.length + 1))
      return (ds, fraction, exponent)
    match parts with
    | none => false
    | some (ds, fraction, exponent) =>
      whole != t && (negative || !overflows (ds ++ fraction) (exponent - fraction.length))

/-- The number that a fixed count of decimal digits makes, and what follows. -/
def fixed? (count : Nat) (t : Text) : Option (Nat × Text) :=
  let ds := (t.take count).takeWhile Char.isDigit
  if ds.length = count then some (numeral 10 ds, t.drop count) else none

/-- Number of days of a month. -/
def daysIn (year month : Nat) : Nat :=
  if month = 2 then
    if year % 4 = 0 && (year % 100 ≠ 0 || year % 400 = 0) then 29 else 28
  else if month = 4 || month = 6 || month = 9 || month = 11 then 30 else 31

/-- What follows a date. -/
def date? (t : Text) : Option Text := do
  let (year, t) ← fixed? 4 t
  let (month, t) ← fixed? 2 (← after? ['-'] t)
  let (day, t) ← fixed? 2 (← after? ['-'] t)
  if 1 ≤ month ∧ month ≤ 12 ∧ 1 ≤ day ∧ day ≤ daysIn year month then some t else none

/-- What follows an hour and a minute. -/
def hourMinute? (t : Text) : Option Text := do
  let (hour, t) ← fixed? 2 t
  let (minute, t) ← fixed? 2 (← after? [':'] t)
  if hour ≤ 23 ∧ minute ≤ 59 then some t else none

/-- What follows a time of day, with or without a fraction of its seconds. -/
def time? (t : Text) : Option Text := do
  let t ← hourMinute? t
  let (second, t) ← fixed? 2 (← after? [':'] t)
  if 60 < second then none
  else
    match t with
    | '.' :: rest =>
      let ds := rest.takeWhile Char.isDigit
      if ds.isEmpty then none else some (rest.drop ds.length)
    | t => some t

/-- Whether a text is nothing or the distance of a clock from universal time. -/
def isOffset : Text → Bool
  | [] | ['Z'] | ['z'] => true
  | '+' :: t | '-' :: t => hourMinute? t == some []
  | _ => false

/-- Whether a word is a date, a time, or a date and a time. -/
def isMoment (t : Text) : Bool :=
  match date? t with
  | some [] => true
  | some (c :: rest) => (c == 'T' || c == 't' || c == ' ') && (time? rest).any isOffset
  | none => time? t == some []

/-- The value that a word stands for. -/
def word? (t : Text) : Option Toml :=
  if t = "true".toList then some (.boolean true)
  else if t = "false".toList then some (.boolean false)
  else if isMoment t then some .moment
  else if isFloat t then some .float
  else (integer? t).map .integer

end ClassHints.Settings.Toml
