/-!
# Paths

A path is a text of pieces between slashes. An empty piece names nothing, and neither does a single
dot, except as the first piece of a relative path. So `a//b/./c/` has the parts `a`, `b` and `c`;
its last part is `c` and its parent is `a//b`.

Texts that a user gives for paths are cleaned first (`Path.ofText`): white space around them is
dropped and a backslash counts as a slash.
-/

namespace StaticChain.Path

/-! ## Texts from the user -/

/-- Unicode's white space. -/
def isWhiteSpace (c : Char) : Bool :=
  let code := c.toNat
  (0x09 ≤ code && code ≤ 0x0d) || code == 0x20 || code == 0x85 || code == 0xa0 ||
    code == 0x1680 || (0x2000 ≤ code && code ≤ 0x200a) || code == 0x2028 || code == 0x2029 ||
    code == 0x202f || code == 0x205f || code == 0x3000

/-- The text without white space at its ends. -/
def trim (text : List Char) : List Char :=
  ((text.dropWhile isWhiteSpace).reverse.dropWhile isWhiteSpace).reverse

/-- Why a text is no path. -/
inductive Error where
  | emptyOption
  | emptyInput
deriving DecidableEq, Inhabited, Repr

def Error.message : Error → String
  | .emptyOption => "Path option was given an empty value"
  | .emptyInput => "Input file names can't be empty"

/-- The path that a text stands for. -/
def ofText (text : String) : Except Error String :=
  match trim text.toList with
  | [] => .error .emptyOption
  | chars => .ok (String.ofList (chars.map fun c => if c == '\\' then '/' else c))

/-- The path of an input file. -/
def ofInput (text : String) : Except Error String :=
  (ofText text).mapError fun _ => .emptyInput

/-! ## Parts -/

/-- The pieces between slashes. -/
def pieces (path : String) : List String :=
  (path.toList.foldr (fun c pieces =>
    match pieces with
    | [] => [[c]]
    | piece :: rest => if c == '/' then [] :: piece :: rest else (c :: piece) :: rest)
    [[]]).map String.ofList

/-- Whether the path starts at the root. -/
def isRooted (path : String) : Bool := path.toList.head? == some '/'

/-- Drops the pieces at the end of a path that are no parts. Pieces are given backwards. -/
def dropUnnamed : List String → List String
  | [] => []
  | piece :: before =>
    if piece == "" || (piece == "." && !before.isEmpty) then dropUnnamed before
    else piece :: before

/-- The pieces of a path up to its last part, backwards. -/
def backwards (path : String) : List String := dropUnnamed (pieces path).reverse

/-- The path without its last part. The root has no parent, and neither has the empty path. -/
def parent? (path : String) : Option String :=
  match backwards path with
  | [] => none
  | _ :: before =>
    match dropUnnamed before with
    | [] => some (if isRooted path then "/" else "")
    | kept => some (String.intercalate "/" kept.reverse)

/-- The last part, if it is a name. -/
def fileName? (path : String) : Option String :=
  (backwards path).head?.filter fun piece => piece != "." && piece != ".."

/-- A file name up to its last dot. A dot that only leads does not count. -/
def stem (name : String) : String :=
  match name.toList.reverse.dropWhile (· != '.') with
  | _ :: c :: before => String.ofList (c :: before).reverse
  | _ => name

/-- A path below a directory. A path that starts at the root stays as it is. -/
def join (directory path : String) : String :=
  if isRooted path then path
  else if directory == "" || directory.toList.getLast? == some '/' then directory ++ path
  else directory ++ "/" ++ path

/-- The path, its parent, and so on, as many as there is fuel for. -/
def ancestorsUpTo : Nat → String → List String
  | 0, _ => []
  | fuel + 1, path => path :: (parent? path).elim [] (ancestorsUpTo fuel)

/-- The path, its parent, and so on. There are no more of them than pieces, and one. -/
def ancestors (path : String) : List String := ancestorsUpTo ((pieces path).length + 1) path

end StaticChain.Path
