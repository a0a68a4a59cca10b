import StaticChain.Project.Host

/-!
# File trees

A `FileTree` holds files and directories by their place below the root. A path is walked piece by
piece: every piece but the last has to lead to a directory, `..` goes back to the one before, and
empty pieces and dots stay where they are.

A `Workspace` is a host in memory: a file tree, the directory that paths start from, and what was
printed.
-/

namespace StaticChain

/-- The names that lead from the root to a file or directory. -/
abbrev FileTree.Place := List String

inductive FileEntry where
  | file (content : Wasm.Bytes)
  | directory
deriving DecidableEq, Inhabited, Repr

/-- Files and directories by place; the root itself is not listed. -/
structure FileTree where
  entries : List (FileTree.Place × FileEntry) := []
deriving DecidableEq, Inhabited, Repr

namespace FileTree

/-- What is at a place. -/
def get? (t : FileTree) : Place → Option FileEntry
  | [] => some .directory
  | place => (t.entries.find? fun e => e.1 == place).map Prod.snd

/-- The tree with another entry at a place. -/
def put (t : FileTree) (place : Place) (entry : FileEntry) : FileTree where
  entries := (place, entry) :: t.entries.filter fun e => e.1 != place

/-! ## Walking -/

/-- The longest name of a file, in bytes. -/
def maxName : Nat := 255

/-- The longest path, in bytes. -/
def maxPath : Nat := 4095

/-- The place that a piece leads to from a directory. -/
def step (place : Place) (piece : String) : Place :=
  if piece == "" || piece == "." then place
  else if piece == ".." then place.dropLast
  else place ++ [piece]

/-- The place that the pieces of a path lead to. There need not be anything. -/
def walk (t : FileTree) (place : Place) : List String → Except FileError Place
  | [] => .ok place
  | piece :: rest =>
    match t.get? place with
    | none => .error .missing
    | some (.file _) => .error .notDirectory
    | some .directory =>
      if maxName < piece.utf8ByteSize then .error .nameTooLong
      else t.walk (step place piece) rest

/-- The place that a path leads to from a directory. -/
def resolve (t : FileTree) (directory : Place) (path : String) : Except FileError Place :=
  if path.toList.contains '\x00' then .error .zeroInName
  else if path == "" then .error .missing
  else if maxPath < path.utf8ByteSize then .error .nameTooLong
  else t.walk (if Path.isRooted path then [] else directory) (Path.pieces path)

/-! ## Operations -/

/-- What a path leads to. -/
def entryAt? (t : FileTree) (directory : Place) (path : String) : Option FileEntry :=
  match t.resolve directory path with
  | .ok place => t.get? place
  | .error _ => none

/-- The content of a file. -/
def read (t : FileTree) (directory : Place) (path : String) : Except FileError Wasm.Bytes := do
  match t.get? (← t.resolve directory path) with
  | none => .error .missing
  | some .directory => .error .isDirectory
  | some (.file content) => .ok content

/-- Makes a file or replaces its content. -/
def write (t : FileTree) (directory : Place) (path : String) (content : Wasm.Bytes) :
    Except FileError FileTree := do
  let place ← t.resolve directory path
  match t.get? place with
  | some .directory => .error .isDirectory
  | _ => .ok (t.put place (.file content))

/-- Makes a directory in a directory that is there. -/
def makeDirectory (t : FileTree) (directory : Place) (path : String) :
    Except FileError FileTree := do
  let place ← t.resolve directory path
  match t.get? place with
  | some _ => .error .alreadyThere
  | none => .ok (t.put place .directory)

end FileTree

/-- A host in memory. -/
structure Workspace where
  /-- Where relative paths start. -/
  directory : FileTree.Place := []
  files : FileTree := {}
  printed : String := ""
deriving Inhabited

namespace Workspace

/-- The content of a text file. -/
def readText (w : Workspace) (path : String) : Except FileError String := do
  let content ← w.files.read w.directory path
  match String.fromUTF8? ⟨content.toArray⟩ with
  | some text => .ok text
  | none => .error .notText

/-- The workspace after an operation on its files. One that fails changes nothing. -/
def change (w : Workspace) : Except FileError FileTree → Except FileError Unit × Workspace
  | .ok files => (.ok (), { w with files })
  | .error e => (.error e, w)

instance : Host (StateM Workspace) where
  readText path := return (← get).readText path
  isFile path := do
    let w ← get
    return (w.files.entryAt? w.directory path).any fun entry => entry != .directory
  isDirectory path := do
    let w ← get
    return w.files.entryAt? w.directory path == some .directory
  makeDirectory path := modifyGet fun w => w.change (w.files.makeDirectory w.directory path)
  write path content := modifyGet fun w => w.change (w.files.write w.directory path content)
  say line := modify fun w => { w with printed := w.printed ++ line ++ "\n" }
  clock := return 0
  workingDirectory := return "/" ++ String.intercalate "/" (← get).directory

end Workspace

end StaticChain
