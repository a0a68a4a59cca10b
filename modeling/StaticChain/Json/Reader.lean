import StaticChain.Json.Basic

/-!
# Reading JSON text

`Json.parse?` reads strict JSON: no byte order mark, no comment, no trailing comma and nothing but
blanks after the value. Nesting is not limited here; a reader of a particular format counts the
levels it opens itself.

Every reading function takes the rest of the text and returns the value with the rest after it.
`readValue`, `readItems` and `readMembers` go down one unit of fuel per call. A call either
consumes a character or is the only such call before one that does, so twice the length of the
text is enough (`Json.parse?`).
-/

namespace StaticChain.Json

/-- The four blanks of JSON. -/
def isBlank (c : Char) : Bool :=
  c == ' ' || c == '\t' || c == '\n' || c == '\r'

/-- The text from its first character that is not blank. -/
def skipBlanks (text : List Char) : List Char :=
  text.dropWhile isBlank

/-! ## Numbers -/

/-- The digits at the front, and the rest. -/
def takeDigits (text : List Char) : List Char × List Char :=
  (text.takeWhile Char.isDigit, text.dropWhile Char.isDigit)

/-- The natural number that decimal digits denote. -/
def digitsValue (digits : List Char) : Nat :=
  digits.foldl (fun n c => 10 * n + (c.toNat - '0'.toNat)) 0

/-- The whole part of a number: zero alone, or digits that do not start with zero. -/
def readWhole (text : List Char) : Option (List Char × List Char) :=
  match takeDigits text with
  | ([], _) => none
  | (['0'], rest) => some (['0'], rest)
  | ('0' :: _, _) => none
  | found => some found

/-- The part after the point, with the point, or nothing. -/
def readFraction : List Char → Option (List Char × List Char)
  | '.' :: text =>
    match takeDigits text with
    | ([], _) => none
    | (digits, rest) => some ('.' :: digits, rest)
  | text => some ([], text)

/-- The sign of an exponent, or nothing. -/
def takeSign : List Char → List Char × List Char
  | '+' :: rest => (['+'], rest)
  | '-' :: rest => (['-'], rest)
  | text => ([], text)

/-- The exponent with its mark, or nothing. -/
def readExponent : List Char → Option (List Char × List Char)
  | mark :: text =>
    if mark == 'e' || mark == 'E' then
      let (sign, text) := takeSign text
      match takeDigits text with
      | ([], _) => none
      | (digits, rest) => some (mark :: sign ++ digits, rest)
    else some ([], mark :: text)
  | [] => some ([], [])

/-- A number. Without point and exponent it is an integer, except that `-0` is not. -/
def readNumber (text : List Char) : Option (Json × List Char) := do
  let (sign, text) := match text with
    | '-' :: rest => (['-'], rest)
    | _ => ([], text)
  let (whole, text) ← readWhole text
  let (fraction, text) ← readFraction text
  let (exponent, text) ← readExponent text
  match sign, fraction, exponent with
  | [], [], [] => some (.int (digitsValue whole), text)
  | _ :: _, [], [] =>
    if digitsValue whole = 0 then some (.real "-0", text)
    else some (.int (-(digitsValue whole : Int)), text)
  | _, _, _ => some (.real (String.ofList (sign ++ whole ++ fraction ++ exponent)), text)

/-! ## Strings -/

/-- What one character or escape of a string literal stands for. -/
inductive Piece where
  | char (c : Char)
  /-- Half of a surrogate pair. -/
  | half (unit : Nat)

/-- The value of a hexadecimal digit. -/
def hexDigit? (c : Char) : Option Nat :=
  if c.isDigit then some (c.toNat - '0'.toNat)
  else if 'a' ≤ c ∧ c ≤ 'f' then some (c.toNat - 'a'.toNat + 10)
  else if 'A' ≤ c ∧ c ≤ 'F' then some (c.toNat - 'A'.toNat + 10)
  else none

/-- The code unit that four hexadecimal digits denote. -/
def hexUnit? (a b c d : Char) : Option Nat := do
  let a ← hexDigit? a
  let b ← hexDigit? b
  let c ← hexDigit? c
  let d ← hexDigit? d
  some (((a * 16 + b) * 16 + c) * 16 + d)

/-- A code unit outside the surrogate range is a character. -/
def Piece.ofUnit (unit : Nat) : Piece :=
  if 0xD800 ≤ unit ∧ unit < 0xE000 then .half unit else .char (Char.ofNat unit)

/-- The character that a one-letter escape stands for. -/
def escaped? : Char → Option Char
  | '"' => some '"'
  | '\\' => some '\\'
  | '/' => some '/'
  | 'b' => some '\x08'
  | 'f' => some '\x0c'
  | 'n' => some '\n'
  | 'r' => some '\r'
  | 't' => some '\t'
  | _ => none

/-- The pieces of a string literal after its opening quote, up to the closing one. -/
def readPieces : List Char → Option (List Piece × List Char)
  | [] => none
  | '"' :: rest => some ([], rest)
  | '\\' :: 'u' :: a :: b :: c :: d :: rest => do
    let unit ← hexUnit? a b c d
    let (pieces, rest) ← readPieces rest
    some (Piece.ofUnit unit :: pieces, rest)
  | '\\' :: e :: rest => do
    let c ← escaped? e
    let (pieces, rest) ← readPieces rest
    some (.char c :: pieces, rest)
  | c :: rest => do
    if c.toNat < 0x20 || c == '\\' then none
    let (pieces, rest) ← readPieces rest
    some (.char c :: pieces, rest)

/-- The text of the pieces. A high half joins the low half right after it; any other half stands
alone, and then there is no text. -/
def joinPieces : List Piece → Option (List Char)
  | [] => some []
  | .char c :: rest => (joinPieces rest).map (c :: ·)
  | .half high :: .half low :: rest =>
    if high < 0xDC00 ∧ 0xDC00 ≤ low then
      (joinPieces rest).map (Char.ofNat (0x10000 + (high - 0xD800) * 0x400 + (low - 0xDC00)) :: ·)
    else none
  | .half _ :: _ => none

/-- A string literal after its opening quote: its text, or `none` if a half stands alone. -/
def readString (text : List Char) : Option (Option String × List Char) := do
  let (pieces, rest) ← readPieces text
  some ((joinPieces pieces).map String.ofList, rest)

/-! ## Values -/

mutual

/-- A value. -/
def readValue : Nat → List Char → Option (Json × List Char)
  | 0, _ => none
  | fuel + 1, text =>
    match skipBlanks text with
    | '{' :: rest =>
      match skipBlanks rest with
      | '}' :: rest => some (.obj [], rest)
      | rest => do
        let (members, rest) ← readMembers fuel rest
        some (.obj members, rest)
    | '[' :: rest =>
      match skipBlanks rest with
      | ']' :: rest => some (.arr [], rest)
      | rest => do
        let (items, rest) ← readItems fuel rest
        some (.arr items, rest)
    | '"' :: rest => do
      let (content, rest) ← readString rest
      some (content.elim .unpaired .str, rest)
    | 'n' :: 'u' :: 'l' :: 'l' :: rest => some (.null, rest)
    | 't' :: 'r' :: 'u' :: 'e' :: rest => some (.bool true, rest)
    | 'f' :: 'a' :: 'l' :: 's' :: 'e' :: rest => some (.bool false, rest)
    | rest => readNumber rest

/-- The elements of an array after its bracket, up to the closing one. -/
def readItems : Nat → List Char → Option (List Json × List Char)
  | 0, _ => none
  | fuel + 1, text => do
    let (item, rest) ← readValue fuel text
    match skipBlanks rest with
    | ',' :: rest =>
      let (items, rest) ← readItems fuel rest
      some (item :: items, rest)
    | ']' :: rest => some ([item], rest)
    | _ => none

/-- The members of an object after its brace, up to the closing one. -/
def readMembers : Nat → List Char → Option (List (Option String × Json) × List Char)
  | 0, _ => none
  | fuel + 1, text =>
    match skipBlanks text with
    | '"' :: rest => do
      let (name, rest) ← readString rest
      match skipBlanks rest with
      | ':' :: rest =>
        let (value, rest) ← readValue fuel rest
        match skipBlanks rest with
        | ',' :: rest =>
          let (members, rest) ← readMembers fuel rest
          some ((name, value) :: members, rest)
        | '}' :: rest => some ([(name, value)], rest)
        | _ => none
      | _ => none
    | _ => none

end

/-- The value of a JSON text. -/
def parse? (text : String) : Option Json :=
  let chars := text.toList
  match readValue (2 * chars.length + 2) chars with
  | some (value, rest) => if skipBlanks rest == [] then some value else none
  | none => none

end StaticChain.Json
