import StaticChain.Project.Build
import StaticChain.Project.Command

/-!
# The command line

`commandLine` carries out what the arguments of the tool ask for, prints the result and gives the
exit code: one for any failure. Bad arguments are answered with what is wrong and the help on
commands.
-/

namespace StaticChain

/-! ## Help -/

/-- What the tool is. -/
def helpTitle : List String :=
  ["------------------------------------",
    "thicket - static chain lowering for nested functions and aggregates",
    "Usage: <command> <args>"]

/-- The commands and flags. -/
def helpCommands : List String :=
  ["\nCommands:",
    "  build <files...>                 - Compiles declaration trees",
    "  run <file> <function> [ints...]  - Interprets a top-level function",
    "  layouts <file>                   - Prints captures and frame layouts",
    "  help                             - Shows this message",
    "\nBuild flags:",
    "  --heap-frames      Allocate every frame on the heap",
    "  --wasm             Emit a .wasm module per unit",
    "  --out <dir>        Output directory",
    "  --config <file>    Config file (default: thicket.toml next to the first input)",
    "  --show-analysis",
    "  --show-layouts",
    "  --show-lir",
    "  --show-all",
    "  --check            Compile without writing anything",
    "  --verbose",
    "  --hide-timers"]

variable {m : Type → Type} [Monad m] [Host m]

/-! ## Settings -/

/-- What the command line says goes before what the settings say; reports are those of either. -/
def BuildOptions.override (o : BuildOptions) (s : Settings) : Settings :=
  { s with
    frames := if o.heapFrames then .alwaysHeap else s.frames
    emitWasm := o.emitWasm || s.emitWasm
    outputDir := o.outputDir <|> s.outputDir
    dumps := s.dumps.or o.dumps }

/-- The settings of a build: from the file that is named, or beside the first input, and then what
the command line says. -/
def BuildOptions.settings (o : BuildOptions) : m (Except Diagnostic Settings) := do
  let found ← match o.settingsPath with
    | some path => Settings.load path
    | none => Settings.findBeside (o.inputs.headD "")
  return found.map o.override

/-! ## Commands -/

/-- What a function of a program returns, as text. -/
def runFunction (path function : String) (args : List Int64) (heapFrames : Bool) :
    m (Except Diagnostic String) := do
  match ← loadProgram path with
  | .error e => return .error e
  | .ok p =>
    match ← Settings.findBeside path with
    | .error e => return .error e
    | .ok s => return result p { s with
        frames := if heapFrames then .alwaysHeap else s.frames
        emitWasm := false
        dumps := {} }
where
  result (p : Program) (s : Settings) : Except Diagnostic String := do
    let unit ← (s.compile p).mapError (·.headD default)
    match ((Machine.boot unit.lir s.maxSteps).callByName function args).1 with
    | .returned value => return value.elim "nothing" Machine.Value.text
    | .failed fault => throw (ProjectError.run fault).toDiagnostic
    | .diverged => throw (ProjectError.neverEnds function).toDiagnostic

/-- The captures and layouts of a program, as text. -/
def layoutReport (path : String) : m (Except Diagnostic String) := do
  match ← loadProgram path with
  | .error e => return .error e
  | .ok p =>
    match ← Settings.findBeside path with
    | .error e => return .error e
    | .ok s => return (Nesting.of p s.frames).map text |>.mapError (·.toDiagnostic p)
where
  text (n : Nesting) : String :=
    let captures := n.captures.report n.program
    (if captures == "" then "Nothing is captured\n" else captures) ++ "\n" ++ n.layouts.text

/-! ## The tool -/

def sayAll (lines : List String) : m Unit := lines.forM Host.say

/-- Prints diagnostics and gives the exit code. -/
def sayDiagnostics (ds : List Diagnostic) : m UInt32 := do
  let directory ← Host.workingDirectory
  sayAll (ds.flatMap (Diagnostic.reportLines directory))
  return if ds.isEmpty then 0 else 1

/-- Prints a text or the diagnostic in its place, and gives the exit code. -/
def sayResult : Except Diagnostic String → m UInt32
  | .ok text => do
    Host.say text
    return 0
  | .error d => sayDiagnostics [d]

/-- How a build behaves, from all the arguments. -/
def BuildMode.ofArgs (args : List String) : BuildMode where
  verbose := args.contains "--verbose"
  hideTimers := args.contains "--hide-timers"
  check := args.contains "--check"

/-- Carries out a command. -/
def Command.execute (mode : BuildMode) : Command → m UInt32
  | .help => do
    sayAll (helpTitle ++ helpCommands)
    return 0
  | .build options => do
    match ← options.settings with
    | .error d => sayDiagnostics [d]
    | .ok s => sayDiagnostics (← buildFiles s mode options.inputs)
  | .run path function args heapFrames => do
    sayResult ((← runFunction path function args heapFrames).map (function ++ " returned " ++ ·))
  | .layouts path => do sayResult (← layoutReport path)

/-- The tool, from its arguments to its exit code. -/
def commandLine (args : List String) : m UInt32 := do
  match Command.ofArgs args with
  | .error e =>
    sayAll (e.message :: helpCommands)
    return 1
  | .ok command => command.execute (.ofArgs args)

end StaticChain
