import StaticChain.Json.Printer

/-!
# Writing TOML strings

`Toml.quoted` chooses the first of these forms that holds a text:

1. `"…"`, without a backslash, quote, line end or control character to escape;
2. `'…'`, without an apostrophe, line end or control character;
3. three quotes, without a backslash, control character or three quotes in a row;
4. three apostrophes, without a control character or three apostrophes in a row;
5. with escapes, on several lines if there is a line end and on one line otherwise.

The tab is no control character for the choice, but where there are escapes it is written as one.
-/

namespace StaticChain.Toml

/-- The most times in a row that a character occurs. -/
def longestRun (mark : Char) (text : List Char) : Nat :=
  (text.foldl (fun (most, now) c => if c == mark then (max most (now + 1), now + 1) else (most, 0))
    (0, 0)).1

/-- Control characters other than tab and line feed. -/
def isControl (c : Char) : Bool :=
  (c.toNat < 0x20 && c != '\t' && c != '\n') || c.toNat == 0x7f

/-- Four hexadecimal digits, in capitals. -/
def hexCode (n : Nat) : String :=
  let digits := (Nat.toDigits 16 n).map Char.toUpper
  String.ofList (List.replicate (4 - digits.length) '0' ++ digits)

/-- A character as written where there are escapes. Line feeds stand for themselves on several
lines, and so do quotes there up to the second in a row; `run` counts the quotes right before. -/
def escapedChar (long : Bool) (run : Nat) (c : Char) : String :=
  match c with
  | '\x08' => "\\b"
  | '\t' => "\\t"
  | '\n' => if long then "\n" else "\\n"
  | '\x0c' => "\\f"
  | '\r' => "\\r"
  | '\\' => "\\\\"
  | '"' => if long && run < 2 then "\"" else "\\\""
  | _ => if isControl c then "\\u" ++ hexCode c.toNat else c.toString

/-- A text with its escapes. -/
def escapedText (long : Bool) : (run : Nat) → List Char → String
  | _, [] => ""
  | run, c :: rest =>
    let written := escapedChar long run c
    written ++ escapedText long (if written == "\"" then run + 1 else 0) rest

/-- A text as a TOML string. -/
def quoted (text : String) : String :=
  let chars := text.toList
  let newline := chars.contains '\n'
  let lead := if newline then "\n" else ""
  let quotes := longestRun '"' chars
  let apostrophes := longestRun '\x27' chars
  let backslash := chars.contains '\\'
  let control := chars.any isControl
  let short := "\"" ++ escapedText false 0 chars ++ "\""
  let long := "\"\"\"" ++ lead ++ escapedText true 0 chars ++ "\"\"\""
  if !control && !backslash && quotes == 0 && !newline then short
  else if !control && apostrophes == 0 && !newline then "'" ++ text ++ "'"
  else if !control && !backslash && quotes ≤ 2 then long
  else if !control && apostrophes ≤ 2 then "'''" ++ lead ++ text ++ "'''"
  else if newline then long
  else short

end StaticChain.Toml
