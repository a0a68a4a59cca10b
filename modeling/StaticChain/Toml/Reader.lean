import StaticChain.Toml.Quoted
import StaticChain.Toml.Scalar
import StaticChain.Toml.Tree

/-!
# Reading TOML text

`Toml.parse?` reads a document: a byte order mark if there is one, and lines that are blank, open a
table or give a pair. Arrays and inline tables go over line ends and may end with a comma. They can
be nested eighty deep, and a key has at most eighty names (`maxNesting`); this bound is what
`readValue` and `readNames` recurse on.
-/

namespace StaticChain.Toml

/-! ## Space and comments -/

/-- The text after blanks, line ends and comments. `none` for a control character in a comment. -/
def skipFill : (inComment : Bool) → List Char → Option (List Char)
  | _, [] => some []
  | _, '\n' :: rest => skipFill false rest
  | _, '\r' :: '\n' :: rest => skipFill false rest
  | true, c :: rest => if isPlain c then skipFill true rest else none
  | false, '#' :: rest => skipFill true rest
  | false, c :: rest => if isBlank c then skipFill false rest else some (c :: rest)

/-- The text after the end of a line, which may hold blanks and a comment. -/
def endLine (text : List Char) : Option (List Char) :=
  let text := text.dropWhile isBlank
  let text := if text.head? == some '#' then text.dropWhile isPlain else text
  if text.isEmpty then some [] else afterLineEnd? text

/-! ## Keys -/

/-- The characters of a name without quotes. -/
def isBare (c : Char) : Bool := c.isAlphanum || c == '_' || c == '-'

/-- One name of a key. -/
def readName (text : List Char) : Option (String × List Char) :=
  match text.span isBare with
  | ([], _) => readQuoted false text
  | (name, rest) => some (String.ofList name, rest)

/-- How deep arrays and inline tables can be nested, and how many names a key can have. -/
def maxNesting : Nat := 80

/-- At most `count` names with dots between them and blanks around them. -/
def readNames : (count : Nat) → List Char → Option (Key × List Char)
  | 0, _ => none
  | count + 1, text => do
    let (name, rest) ← readName (text.dropWhile isBlank)
    match rest.dropWhile isBlank with
    | '.' :: rest => do
      let (key, rest) ← readNames count rest
      some ({ key with parents := name :: key.parents }, rest)
    | rest => some (⟨[], name⟩, rest)

/-- A key, and the text after the blanks that follow it. -/
def readKey (text : List Char) : Option (Key × List Char) := readNames maxNesting text

/-! ## Values -/

abbrev Pair := Key × Toml

/-- A key and its value. -/
def readPair (readValue : List Char → Option (Toml × List Char)) (text : List Char) :
    Option (Pair × List Char) := do
  let (key, text) ← readKey text
  let (value, text) ← readValue ((← expect '=' text).dropWhile isBlank)
  some ((key, value), text)

/-- The members of an array or inline table after its opening, up to the closing. -/
def readMembers (readMember : List Char → Option (α × List Char)) (close : Char) :
    Nat → List Char → Option (List α × List Char)
  | 0, _ => none
  | fuel + 1, text => do
    let text ← skipFill false text
    if text.head? == some close then
      some ([], text.tail)
    else
      let (member, text) ← readMember text
      match ← skipFill false text with
      | ',' :: text =>
        let (members, text) ← readMembers readMember close fuel text
        some (member :: members, text)
      | c :: text => if c == close then some ([member], text) else none
      | [] => none

/-- The table that pairs make. -/
def ofPairs (pairs : List Pair) (node : Node) : Option Node :=
  pairs.foldlM (fun node (key, value) => node.insert key value) node

/-- A value that is neither array nor inline table. -/
def readScalar (text : List Char) : Option (Toml × List Char) :=
  if (Quote.open? text).isSome then do
    let (content, rest) ← readQuoted true text
    some (.str content, rest)
  else do
    let (lexeme, rest) := takeLexeme text
    some (← scalar? lexeme, rest)

/-- A value with at most `depth` arrays and inline tables inside each other. -/
def readValue : (depth : Nat) → List Char → Option (Toml × List Char)
  | depth + 1, '[' :: rest => do
    let (items, rest) ← readMembers (readValue depth) ']' (rest.length + 1) rest
    some (.array items, rest)
  | depth + 1, '{' :: rest => do
    let (pairs, rest) ← readMembers (readPair (readValue depth)) '}' (rest.length + 1) rest
    some ((← ofPairs pairs .fresh).toToml, rest)
  | _, text => readScalar text

/-! ## Documents -/

/-- A line that is not blank. -/
inductive Line where
  | header (key : Key) (element : Bool)
  | pair (pair : Pair)
deriving Inhabited

/-- A line, without its end. -/
def readLine : List Char → Option (Line × List Char)
  | '[' :: '[' :: rest => do
    let (key, rest) ← readKey rest
    some (.header key true, ← expect ']' (← expect ']' rest))
  | '[' :: rest => do
    let (key, rest) ← readKey rest
    some (.header key false, ← expect ']' rest)
  | text => do
    let (pair, rest) ← readPair (readValue maxNesting) text
    some (.pair pair, rest)

/-- The lines of a document, as many as there is fuel for. -/
def readLines : Nat → List Char → Option (List Line)
  | 0, _ => none
  | fuel + 1, text => do
    match ← skipFill false text with
    | [] => some []
    | text =>
      let (line, rest) ← readLine text
      let lines ← readLines fuel (← endLine rest)
      some (line :: lines)

/-- A header and the pairs below it. -/
structure Section where
  key : Key
  element : Bool
  pairs : List Pair

/-- The pairs before the first header, and the sections. -/
def sections (lines : List Line) : List Pair × List Section :=
  lines.foldr (fun line (pairs, sections) =>
    match line with
    | .pair pair => (pair :: pairs, sections)
    | .header key element => ([], ⟨key, element, pairs⟩ :: sections)) ([], [])

/-- The table that lines make. -/
def ofLines (lines : List Line) : Option Toml := do
  let (pairs, sections) := sections lines
  let root ← ofPairs pairs .fresh
  let root ← sections.foldlM (fun root s => root.openTable s.key s.element (ofPairs s.pairs)) root
  some root.toToml

/-- The table that a document denotes. -/
def parse? (text : String) : Option Toml := do
  let chars := match text.toList with
    | '\uFEFF' :: rest => rest
    | chars => chars
  ofLines (← readLines (chars.length + 1) chars)

end StaticChain.Toml
