import StaticChain.Program.Text
import StaticChain.Project.Compilation
import StaticChain.Project.Error

/-!
# Building

`buildFiles` compiles every input by itself, so that one bad program hides no error of another, and
then writes the outputs that the settings ask for. Nothing is written unless every input compiles;
an output that cannot be written does not keep the others from being written.

Outputs are named for the input: `a.json` gives `a.lir`, `a.wasm` and so on, in the output directory
if there is one and beside the input otherwise.
-/

namespace StaticChain

variable {m : Type → Type} [Monad m] [Host m]

/-! ## Loading -/

/-- The program in a file. -/
def loadProgram (path : String) : m (Except Diagnostic Program) := do
  match ← Host.readText path with
  | .error e => return .error (ProjectError.readProgram path e).toDiagnostic
  | .ok source =>
    return (Program.parse source).mapError fun e => (ProjectError.program path e).toDiagnostic

namespace Settings

/-- The settings in a file. -/
def load (path : String) : m (Except Diagnostic Settings) := do
  match ← Host.readText path with
  | .error e => return .error (ProjectError.readSettings path e).toDiagnostic
  | .ok source =>
    return (parse source).mapError fun e => (ProjectError.settings path e).toDiagnostic

/-- The settings of a directory, which are the defaults if it has no file for them. -/
def findIn (directory : String) : m (Except Diagnostic Settings) := do
  let path := Path.join directory fileName
  if ← Host.isFile path then load path else return .ok {}

/-- The settings of the directory that a file is in. -/
def findBeside (path : String) : m (Except Diagnostic Settings) :=
  findIn ((Path.parent? path).getD "")

end Settings

/-! ## Outputs -/

/-- A file to be written. -/
structure Output where
  path : String
  content : Wasm.Bytes
deriving DecidableEq, Inhabited, Repr

namespace Settings

/-- The directory for the outputs of an input. -/
def outputDirFor (s : Settings) (input : String) : String :=
  s.outputDir.getD ((Path.parent? input).getD "")

/-- The outputs of a compiled input. -/
def outputs (s : Settings) (input : String) (unit : CompiledUnit) : List Output :=
  let stem := (Path.fileName? input).elim "unit" Path.stem
  let named (ending : String) (content : Wasm.Bytes) : Output :=
    ⟨Path.join (s.outputDirFor input) (stem ++ ending), content⟩
  [(".analysis.txt", unit.analysis.map textBytes), (".layouts.txt", unit.layouts.map textBytes),
    (".lir", unit.lirText.map textBytes), (".wasm", unit.wasm)].filterMap
    fun (ending, content) => content.map (named ending)

end Settings

/-- The outputs of one input. -/
def buildUnit (s : Settings) (input : String) : m (Except (List Diagnostic) (List Output)) := do
  match ← loadProgram input with
  | .error e => return .error [e]
  | .ok p =>
    match s.compile p with
    | .error es => return .error (es.map (·.withFile input))
    | .ok unit => return .ok (s.outputs input unit)

/-- Writes an output and makes its directory if need be. -/
def Output.write (o : Output) : m (Except Diagnostic Unit) := do
  match Path.parent? o.path with
  | none | some "" => put
  | some directory =>
    match ← Host.makeDirectories directory with
    | .error e => return .error (ProjectError.makeDirectory directory e).toDiagnostic
    | .ok () => put
where
  put : m (Except Diagnostic Unit) := do
    return (← Host.write o.path o.content).mapError fun e =>
      (ProjectError.writeOutput o.path e).toDiagnostic

/-! ## Builds -/

/-- How a build behaves, apart from what it makes. -/
structure BuildMode where
  /-- Say which files are written. -/
  verbose : Bool := false
  hideTimers : Bool := false
  /-- Compile and write nothing. -/
  check : Bool := false
deriving DecidableEq, Inhabited, Repr

/-- A span of time in the largest unit that leaves a whole part, to the nanosecond. -/
def durationText (nanos : Nat) : String :=
  if 1000000000 ≤ nanos then scaled 9 "s"
  else if 1000000 ≤ nanos then scaled 6 "ms"
  else if 1000 ≤ nanos then scaled 3 "µs"
  else scaled 0 "ns"
where
  scaled (places : Nat) (unit : String) : String :=
    let digits := Nat.toDigits 10 (nanos % Nat.pow 10 places)
    let padded := List.replicate (places - digits.length) '0' ++ digits
    let kept := (padded.reverse.dropWhile (· == '0')).reverse
    let fraction := if kept.isEmpty then "" else "." ++ String.ofList kept
    toString (nanos / Nat.pow 10 places) ++ fraction ++ unit

/-- Writes outputs one after another, and gives the errors. -/
def writeOutputs (mode : BuildMode) : List Output → m (List Diagnostic)
  | [] => return []
  | o :: outputs => do
    match ← o.write with
    | .ok () =>
      if mode.verbose then Host.say ("  wrote " ++ o.path)
      writeOutputs mode outputs
    | .error e => return e :: (← writeOutputs mode outputs)

/-- The results of the inputs, put together: all errors, or else all outputs. -/
def collect : List (Except (List Diagnostic) (List Output)) → Except (List Diagnostic) (List Output)
  | [] => .ok []
  | result :: results =>
    match result, collect results with
    | .ok os, .ok rest => .ok (os ++ rest)
    | .ok _, .error rest => .error rest
    | .error es, .ok _ => .error es
    | .error es, .error rest => .error (es ++ rest)

/-- Compiles the inputs and writes their outputs. The answer is empty if all went well. -/
def buildFiles (s : Settings) (mode : BuildMode) (inputs : List String) : m (List Diagnostic) := do
  let start ← Host.clock
  if inputs.isEmpty then return [ProjectError.noInputs.toDiagnostic]
  match collect (← inputs.mapM (buildUnit s)) with
  | .error errors => return errors
  | .ok outputs =>
    if !mode.hideTimers then
      let elapsed := durationText ((← Host.clock) - start)
      Host.say ("\nBuilt " ++ toString inputs.length ++ " units in: " ++ elapsed)
    if mode.check then return [] else writeOutputs mode outputs

end StaticChain
