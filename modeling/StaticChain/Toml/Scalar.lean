import StaticChain.Json.Reader
import StaticChain.Toml.Basic

/-!
# Scalars of TOML without quotes

A number, a truth value or a moment is a lexeme: the characters up to a blank, a line end, a comma
or a bracket. `scalar?` says what a lexeme denotes. Digits may be grouped by single underscores, and
a decimal number does not start with a needless zero.
-/

namespace StaticChain.Toml

/-! ## Numbers -/

/-- Digits with single underscores between them, without the underscores. -/
def digits? (isDigit : Char → Bool) : List Char → Option (List Char)
  | [] => none
  | [c] => if isDigit c then some [c] else none
  | c :: '_' :: rest => if isDigit c then (digits? isDigit rest).map (c :: ·) else none
  | c :: rest => if isDigit c then (digits? isDigit rest).map (c :: ·) else none

/-- The number that digits denote in a base. -/
def baseValue (base : Nat) (digits : List Char) : Nat :=
  digits.foldl (fun n c => base * n + (Json.hexDigit? c).getD 0) 0

/-- Whether a character is a digit in a base up to sixteen. -/
def isDigitIn (base : Nat) (c : Char) : Bool := (Json.hexDigit? c).any (· < base)

/-- The digits of a decimal number: zero alone, or digits that do not start with zero. -/
def whole? (text : List Char) : Option (List Char) :=
  (digits? Char.isDigit text).filter fun digits => digits.head? != some '0' || digits.length == 1

/-- The sign at the front, and the rest. -/
def takeSign : List Char → Option Bool × List Char
  | '+' :: rest => (some false, rest)
  | '-' :: rest => (some true, rest)
  | text => (none, text)

/-- A natural number in base 16, 8 or 2. -/
def based? : List Char → Option Nat
  | '0' :: 'x' :: rest => (digits? (isDigitIn 16) rest).map (baseValue 16)
  | '0' :: 'o' :: rest => (digits? (isDigitIn 8) rest).map (baseValue 8)
  | '0' :: 'b' :: rest => (digits? (isDigitIn 2) rest).map (baseValue 2)
  | _ => none

/-- An integer. Only a decimal one can have a sign. -/
def int? (text : List Char) : Option Int :=
  let (sign, digits) := takeSign text
  match (whole? digits).map (baseValue 10) with
  | some n => some (if sign == some true then -(n : Int) else n)
  | none => (based? text).map Int.ofNat

/-- The exponent after its mark. -/
def exponent? (text : List Char) : Option Int :=
  let (sign, digits) := takeSign text
  (digits? Char.isDigit digits).map fun digits =>
    if sign == some true then -(baseValue 10 digits : Int) else baseValue 10 digits

def isExponentMark (c : Char) : Bool := c == 'e' || c == 'E'

/-- A decimal number with a fraction, an exponent or both, after its sign. -/
def decimal? (negative : Bool) (text : List Char) : Option Decimal := do
  let (mantissa, power) := text.span fun c => !isExponentMark c
  let (before, after) := mantissa.span (· != '.')
  let whole ← whole? before
  let fraction ← match after with
    | [] => some []
    | _ :: digits => digits? Char.isDigit digits
  let exponent ← match power with
    | [] => if after.isEmpty then none else some 0
    | _ :: digits => exponent? digits
  some (.finite negative (baseValue 10 (whole ++ fraction)) (exponent - fraction.length))

/-- A floating-point number. -/
def real? (text : List Char) : Option Decimal :=
  let (sign, body) := takeSign text
  let negative := sign == some true
  if body == ['i', 'n', 'f'] then some (.infinity negative)
  else if body == ['n', 'a', 'n'] then some (.nan negative)
  else decimal? negative body

/-! ## Dates and times -/

/-- The number of two digits at the front, if it lies within bounds, and the rest. -/
def readTwo (least greatest : Nat) : List Char → Option (Nat × List Char)
  | a :: b :: rest =>
    if a.isDigit && b.isDigit then
      let n := baseValue 10 [a, b]
      if least ≤ n ∧ n ≤ greatest then some (n, rest) else none
    else none
  | _ => none

/-- The rest after a character. -/
def expect (mark : Char) : List Char → Option (List Char)
  | c :: rest => if c == mark then some rest else none
  | [] => none

def isLeap (year : Nat) : Bool := year % 4 == 0 && (year % 100 != 0 || year % 400 == 0)

def daysIn (year month : Nat) : Nat :=
  if month = 2 then (if isLeap year then 29 else 28)
  else if month = 4 ∨ month = 6 ∨ month = 9 ∨ month = 11 then 30
  else 31

/-- The text after a date of the calendar. -/
def afterDate? (text : List Char) : Option (List Char) := do
  let (century, text) ← readTwo 0 99 text
  let (year, text) ← readTwo 0 99 text
  let (month, text) ← readTwo 1 12 (← expect '-' text)
  let (_, text) ← readTwo 1 (daysIn (100 * century + year) month) (← expect '-' text)
  some text

/-- The text after the fraction of a second, if there is one. -/
def afterFraction? : List Char → Option (List Char)
  | '.' :: rest =>
    if rest.head?.any Char.isDigit then some (rest.dropWhile Char.isDigit) else none
  | text => some text

/-- The text after a time of day. Seconds may be left out, and there is room for a leap second. -/
def afterTime? (text : List Char) : Option (List Char) := do
  let (_, text) ← readTwo 0 23 text
  let (_, text) ← readTwo 0 59 (← expect ':' text)
  match text with
  | ':' :: text =>
    let (_, text) ← readTwo 0 60 text
    afterFraction? text
  | _ => some text

/-- Whether the text is empty or an offset from universal time, of less than a day. -/
def isOffset : List Char → Bool
  | [] | ['Z'] | ['z'] => true
  | c :: text =>
    (c == '+' || c == '-') && (do
      let (_, text) ← readTwo 0 23 text
      let (_, text) ← readTwo 0 59 (← expect ':' text)
      some text) == some []

/-- Whether the lexeme is a date, a time of day, or a date with a time and perhaps an offset. -/
def isMoment (text : List Char) : Bool :=
  match afterDate? text with
  | some [] => true
  | some (c :: rest) => (c == 'T' || c == 't' || c == ' ') && (afterTime? rest).any isOffset
  | none => afterTime? text == some []

/-! ## Lexemes -/

/-- Characters that end a lexeme. -/
def endsLexeme (c : Char) : Bool :=
  c == ' ' || c == '\t' || c == '\r' || c == '\n' || c == '#' || c == ',' || c == '=' ||
    c == '[' || c == ']' || c == '{' || c == '}'

/-- The lexeme at the front, and the rest. A date and a time with one space between them are one
lexeme. -/
def takeLexeme (text : List Char) : List Char × List Char :=
  let (lexeme, rest) := text.span fun c => !endsLexeme c
  match afterDate? lexeme, rest with
  | some [], ' ' :: c :: after =>
    if c.isDigit then
      let (time, rest) := (c :: after).span fun c => !endsLexeme c
      (lexeme ++ ' ' :: time, rest)
    else (lexeme, rest)
  | _, _ => (lexeme, rest)

/-- The value that a lexeme denotes. -/
def scalar? (lexeme : List Char) : Option Toml :=
  if lexeme == ['t', 'r', 'u', 'e'] then some (.bool true)
  else if lexeme == ['f', 'a', 'l', 's', 'e'] then some (.bool false)
  else if isMoment lexeme then some (.moment (String.ofList lexeme))
  else (int? lexeme).map .int <|> (real? lexeme).map .real

end StaticChain.Toml
