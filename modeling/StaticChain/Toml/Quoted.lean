import StaticChain.Json.Reader

/-!
# Quoted strings of TOML

There are four kinds: with or without escapes, on one line or on several. `readQuoted` reads any of
them. In a string on several lines the line end right after the opening is dropped, a backslash at
the end of a line joins it with the next text, and up to two quotes may stand before the closing.
-/

namespace StaticChain.Toml

def isBlank (c : Char) : Bool := c == ' ' || c == '\t'

/-- Characters that may stand for themselves on a line of a string or comment: no control characters
but the tab. -/
def isPlain (c : Char) : Bool := c == '\t' || (0x20 ≤ c.toNat && c.toNat != 0x7f)

/-- The text after the line end at its front. -/
def afterLineEnd? : List Char → Option (List Char)
  | '\n' :: rest => some rest
  | '\r' :: '\n' :: rest => some rest
  | _ => none

/-- The text after all blanks and line ends at its front. -/
def skipSpace : List Char → List Char
  | '\r' :: '\n' :: rest => skipSpace rest
  | c :: rest => if isBlank c || c == '\n' then skipSpace rest else c :: rest
  | [] => []

/-- A kind of quoted string. -/
structure Quote where
  mark : Char
  escapes : Bool
  /-- Three marks on either side, and line ends between them. -/
  long : Bool
deriving DecidableEq, Inhabited, Repr

namespace Quote

/-- The kind of the string that starts here, and its text after the opening. -/
def open? : List Char → Option (Quote × List Char)
  | '"' :: '"' :: '"' :: rest => some (⟨'"', true, true⟩, (afterLineEnd? rest).getD rest)
  | '"' :: rest => some (⟨'"', true, false⟩, rest)
  | '\x27' :: '\x27' :: '\x27' :: rest =>
    some (⟨'\x27', false, true⟩, (afterLineEnd? rest).getD rest)
  | '\x27' :: rest => some (⟨'\x27', false, false⟩, rest)
  | _ => none

/-- The marks that still belong to the string, and the text after the closing, if the string closes
here. -/
def close? (q : Quote) (text : List Char) : Option (List Char × List Char) :=
  let count := min (text.takeWhile (· == q.mark)).length (if q.long then 5 else 1)
  let needed := if q.long then 3 else 1
  if count < needed then none
  else some (List.replicate (count - needed) q.mark, text.drop count)

end Quote

/-- The character whose code the first `width` hexadecimal digits give. -/
def readCode (width : Nat) (text : List Char) : Option (Char × List Char) := do
  let digits ← (text.take width).mapM Json.hexDigit?
  let code := digits.foldl (fun n d => 16 * n + d) 0
  if digits.length = width ∧ code.isValidChar then some (Char.ofNat code, text.drop width) else none

/-- The character that an escape stands for, after its backslash. -/
def readEscape : List Char → Option (Char × List Char)
  | 'x' :: rest => readCode 2 rest
  | 'u' :: rest => readCode 4 rest
  | 'U' :: rest => readCode 8 rest
  | 'e' :: rest => some ('\x1b', rest)
  | '/' :: _ => none
  | c :: rest => (Json.escaped? c).map (·, rest)
  | [] => none

/-- The text after a backslash that ends its line: it goes on at the next character that is not
space. -/
def joinLines? (q : Quote) (text : List Char) : Option (List Char) :=
  if q.long then (afterLineEnd? (text.dropWhile isBlank)).map skipSpace else none

/-- The content of a string after its opening, and the text after its closing. Every call consumes a
character, so the length of the text is fuel enough. -/
def readContent (q : Quote) : Nat → List Char → Option (List Char × List Char)
  | 0, _ => none
  | fuel + 1, text =>
    match q.close? text, text with
    | some found, _ => some found
    | none, [] => none
    | none, c :: rest =>
      if q.escapes && c == '\\' then
        match joinLines? q rest with
        | some rest => readContent q fuel rest
        | none => do
          let (c, rest) ← readEscape rest
          let (content, rest) ← readContent q fuel rest
          some (c :: content, rest)
      else if isPlain c || (q.long && (afterLineEnd? text).isSome) then do
        let (content, rest) ← readContent q fuel rest
        some (c :: content, rest)
      else none

/-- A quoted string on one line, or on several where that is allowed. -/
def readQuoted (allowLong : Bool) (text : List Char) : Option (String × List Char) := do
  let (q, text) ← Quote.open? text
  if q.long && !allowLong then none
  let (content, rest) ← readContent q (text.length + 1) text
  some (String.ofList content, rest)

end StaticChain.Toml
