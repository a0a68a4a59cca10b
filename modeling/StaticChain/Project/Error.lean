import StaticChain.Program.Error
import StaticChain.Project.Host
import StaticChain.Project.Settings.Text

/-!
# Errors of a build

Why a command of the tool fails, apart from what the compiler itself finds wrong with a program.
-/

namespace StaticChain

inductive ProjectError where
  | noInputs
  | readProgram (path : String) (error : FileError)
  | readSettings (path : String) (error : FileError)
  | makeDirectory (path : String) (error : FileError)
  | writeOutput (path : String) (error : FileError)
  | settings (path : String) (error : SettingsError)
  | program (path : String) (error : ProgramError)
  | run (fault : Machine.Fault)
  /-- The program goes round a loop without instructions. Lowered loops have some. -/
  | neverEnds (function : String)
deriving DecidableEq, Inhabited, Repr

namespace ProjectError

/-- A failed operation on a file, as shown to a user. -/
def ofFile (path what : String) (error : FileError) : Diagnostic where
  kind := .file
  message := what ++ ": " ++ error.message
  file := some path

/-- The error as shown to a user. -/
def toDiagnostic : ProjectError → Diagnostic
  | .noInputs => { kind := .config, message := "No input files were given to build" }
  | .readProgram path error => ofFile path "Could not read file" error
  | .readSettings path error => ofFile path "Could not read config" error
  | .makeDirectory path error => ofFile path "Could not create output directory" error
  | .writeOutput path error => ofFile path "Error writing file" error
  | .settings path error => error.toDiagnostic.withFile path
  | .program path error => error.toDiagnostic.withFile path
  | .run fault => fault.toDiagnostic
  | .neverEnds function =>
    { kind := .runtime, message := "'" ++ function ++ "' runs forever without a step" }

end ProjectError

end StaticChain
