import StaticChain.Project.Path
import StaticChain.Wasm.Leb128

/-!
# The host of a build

`Host` is what a build needs of the machine it runs on: files, a terminal and a clock. Everything
above it is written for any host, so that it can run against the real one as well as against a file
tree in memory.
-/

namespace StaticChain

/-- Why an operation on files fails. -/
inductive FileError where
  | missing
  | alreadyThere
  | notDirectory
  | isDirectory
  | nameTooLong
  | zeroInName
  /-- The content is not UTF-8. -/
  | notText
  | other (message : String)
deriving DecidableEq, Inhabited, Repr

def FileError.message : FileError → String
  | .missing => "No such file or directory (os error 2)"
  | .alreadyThere => "File exists (os error 17)"
  | .notDirectory => "Not a directory (os error 20)"
  | .isDirectory => "Is a directory (os error 21)"
  | .nameTooLong => "File name too long (os error 36)"
  | .zeroInName => "file name contained an unexpected NUL byte"
  | .notText => "stream did not contain valid UTF-8"
  | .other message => message

/-- The content of a file that holds a text. -/
def textBytes (text : String) : Wasm.Bytes := text.toUTF8.data.toList

/-- Files, a terminal and a clock. -/
class Host (m : Type → Type) where
  /-- The content of a text file. -/
  readText : (path : String) → m (Except FileError String)
  isFile : (path : String) → m Bool
  isDirectory : (path : String) → m Bool
  /-- Makes a directory in one that is there. -/
  makeDirectory : (path : String) → m (Except FileError Unit)
  /-- Makes a file or replaces its content. -/
  write : (path : String) → Wasm.Bytes → m (Except FileError Unit)
  /-- Prints a line. -/
  say : String → m Unit
  /-- The time since some moment in the past, in nanoseconds. -/
  clock : m Nat
  /-- The directory that relative paths start from. -/
  workingDirectory : m String

namespace Host

variable {m : Type → Type} [Monad m] [Host m]

/-- Makes the first of some directories, where each is the parent of the one before. One that is
there already will do, and where the parent is missing it is made first. -/
def makeFirst : List String → m (Except FileError Unit)
  | [] => return .ok ()
  | path :: above => do
    if path == "" then return .ok ()
    match ← makeDirectory path with
    | .error .missing =>
      match ← makeFirst above with
      | .ok () => orThere path (← makeDirectory path)
      | failed => return failed
    | result => orThere path result
where
  orThere (path : String) : Except FileError Unit → m (Except FileError Unit)
    | .ok () => return .ok ()
    | .error e => do if ← isDirectory path then return .ok () else return .error e

/-- Makes a directory and all that is missing above it. -/
def makeDirectories (path : String) : m (Except FileError Unit) := makeFirst (Path.ancestors path)

end Host

end StaticChain
