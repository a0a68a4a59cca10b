import StaticChain.Json.Basic

/-!
# Writing JSON text

`Json.compact` writes a value without blanks, `Json.pretty` with one element or member a line,
indented by two blanks a level. Empty containers are `[]` and `{}` in both. Characters outside
ASCII are written as they are; control characters are escaped (`escape`).
-/

namespace StaticChain.Json

/-- A lower-case hexadecimal digit. -/
def hexChar (n : Nat) : Char :=
  if n < 10 then Char.ofNat ('0'.toNat + n) else Char.ofNat ('a'.toNat + (n - 10))

/-- A character inside a string literal: quotes and backslashes have a backslash before them,
control characters have their short escape or `\u00xx`. -/
def escape (c : Char) : String :=
  match c with
  | '"' => "\\\""
  | '\\' => "\\\\"
  | '\x08' => "\\b"
  | '\t' => "\\t"
  | '\n' => "\\n"
  | '\x0c' => "\\f"
  | '\r' => "\\r"
  | c =>
    if c.toNat < 0x20 then
      String.ofList ['\\', 'u', '0', '0', hexChar (c.toNat / 16), hexChar (c.toNat % 16)]
    else c.toString

/-- A string literal. -/
def quote (text : String) : String :=
  "\"" ++ String.join (text.toList.map escape) ++ "\""

/-- A string literal that denotes no text. -/
def quoteUnpaired : String := "\"\\ud800\""

/-- The name of a member. -/
def quoteName : Option String → String
  | some name => quote name
  | none => quoteUnpaired

/-- A value that holds no other. -/
def scalar : Json → String
  | .null => "null"
  | .bool true => "true"
  | .bool false => "false"
  | .int value => toString value
  | .real lexeme => lexeme
  | .str text => quote text
  | .unpaired => quoteUnpaired
  | .arr _ => "[]"
  | .obj _ => "\x7b\x7d"

mutual

/-- The value on one line, without blanks. -/
def compact : Json → String
  | .arr (item :: items) => "[" ++ compact item ++ compactItems items ++ "]"
  | .obj (member :: members) =>
    "\x7b" ++ quoteName member.1 ++ ":" ++ compact member.2 ++ compactMembers members ++ "\x7d"
  | value => scalar value

/-- Further elements, each after a comma. -/
def compactItems : List Json → String
  | [] => ""
  | item :: items => "," ++ compact item ++ compactItems items

/-- Further members, each after a comma. -/
def compactMembers : List (Option String × Json) → String
  | [] => ""
  | member :: members =>
    "," ++ quoteName member.1 ++ ":" ++ compact member.2 ++ compactMembers members

end

/-- A new line at a level of nesting. -/
def newLine (level : Nat) : String :=
  "\n" ++ String.ofList (List.replicate (2 * level) ' ')

mutual

/-- The value at a level of nesting, one element or member a line. -/
def prettyAt (level : Nat) : Json → String
  | .arr (item :: items) =>
    "[" ++ newLine (level + 1) ++ prettyAt (level + 1) item ++ prettyItems (level + 1) items ++
      newLine level ++ "]"
  | .obj (member :: members) =>
    "\x7b" ++ newLine (level + 1) ++ quoteName member.1 ++ ": " ++ prettyAt (level + 1) member.2 ++
      prettyMembers (level + 1) members ++ newLine level ++ "\x7d"
  | value => scalar value

/-- Further elements, each on a line of its own. -/
def prettyItems (level : Nat) : List Json → String
  | [] => ""
  | item :: items => "," ++ newLine level ++ prettyAt level item ++ prettyItems level items

/-- Further members, each on a line of its own. -/
def prettyMembers (level : Nat) : List (Option String × Json) → String
  | [] => ""
  | member :: members =>
    "," ++ newLine level ++ quoteName member.1 ++ ": " ++ prettyAt level member.2 ++
      prettyMembers level members

end

/-- The value with one element or member a line. -/
def pretty (value : Json) : String := prettyAt 0 value

end StaticChain.Json
