import StaticChain.Project.CommandLine

/-!
# The executable

The real machine as a host, and the entry point.
-/

namespace StaticChain

/-- The code and text that the system gives for an error. -/
def systemError : IO.Error → UInt32 × String
  | .alreadyExists _ code text | .otherError code text | .resourceBusy code text
  | .resourceVanished code text | .unsupportedOperation code text
  | .hardwareFault code text | .unsatisfiedConstraints code text | .illegalOperation code text
  | .protocolError code text | .timeExpired code text | .interrupted _ code text
  | .noFileOrDirectory _ code text | .invalidArgument _ code text | .permissionDenied _ code text
  | .resourceExhausted _ code text | .inappropriateType _ code text | .noSuchThing _ code text =>
    (code, text)
  | .unexpectedEof => (0, "unexpected end of file")
  | .userError text => (0, text)

/-- Why an operation on files failed. The system may give its codes with either sign. -/
def FileError.ofSystem (e : IO.Error) : FileError :=
  let (code, text) := systemError e
  let number := code.toInt32.toInt.natAbs
  match number with
  | 2 => .missing
  | 17 => .alreadyThere
  | 20 => .notDirectory
  | 21 => .isDirectory
  | 36 => .nameTooLong
  | _ => .other s!"{text.capitalize} (os error {number})"

/-- An operation with its failure as a value. -/
def attempt (action : IO α) : IO (Except FileError α) := do
  try return .ok (← action)
  catch e => return .error (.ofSystem e)

instance : Host IO where
  readText path := do
    match ← attempt (IO.FS.readBinFile path) with
    | .error e => return .error e
    | .ok bytes => return (String.fromUTF8? bytes).elim (.error .notText) .ok
  isFile path := do
    match ← attempt (IO.FS.readBinFile path) with
    | .error .missing | .error .notDirectory | .error .isDirectory => return false
    | _ => return true
  isDirectory path := do
    match ← attempt (IO.FS.readBinFile path) with
    | .error .isDirectory => return true
    | _ => return false
  makeDirectory path := attempt (IO.FS.createDir path)
  write path content := attempt (IO.FS.writeBinFile path ⟨content.toArray⟩)
  say := IO.println
  clock := IO.monoNanosNow
  workingDirectory := return (← IO.currentDir).toString

end StaticChain

def main (args : List String) : IO UInt32 :=
  StaticChain.commandLine args
