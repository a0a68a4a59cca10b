import StaticChain.Project.Path
import StaticChain.Project.Settings

/-!
# Commands

`Command.ofArgs` reads the arguments of the tool. Whatever starts with two dashes is a flag, so a
negative number is an argument.
-/

namespace StaticChain

/-- What to build, and what the command line says about how. -/
structure BuildOptions where
  inputs : List String := []
  settingsPath : Option String := none
  outputDir : Option String := none
  heapFrames : Bool := false
  emitWasm : Bool := false
  dumps : Dumps := {}
deriving DecidableEq, Inhabited, Repr

inductive Command where
  | build (options : BuildOptions)
  /-- Runs a function of a program with integers. -/
  | run (path function : String) (args : List Int64) (heapFrames : Bool)
  /-- Shows the captures and layouts of a program. -/
  | layouts (path : String)
  | help
deriving DecidableEq, Inhabited, Repr

/-- What is wrong with the arguments. -/
inductive UsageError where
  | unknownCommand (name : String)
  | valueMissing (flag : String)
  | optionPath (flag : String) (error : Path.Error)
  | unknownBuildFlag (flag : String)
  | noInputs
  | unknownRunFlag (flag : String)
  | runUsage
  | noFunction
  | notInteger (text : String)
  | noLayoutsFile
  | path (error : Path.Error)
deriving DecidableEq, Inhabited, Repr

def UsageError.message : UsageError → String
  | .unknownCommand name => "Invalid command: '" ++ name ++ "'"
  | .valueMissing flag => "Missing value for " ++ flag
  | .optionPath flag error => flag ++ ": " ++ error.message
  | .unknownBuildFlag flag => "Unknown build flag: '" ++ flag ++ "'"
  | .noInputs => "The build command needs at least one program file"
  | .unknownRunFlag flag => "Unknown run flag: '" ++ flag ++ "'"
  | .runUsage => "Usage: run <file> <function> [integer arguments]"
  | .noFunction => "The run command needs a function name"
  | .notInteger text => "Invalid argument '" ++ text ++ "'. Entry points only take integers."
  | .noLayoutsFile => "The layouts command needs a program file"
  | .path error => error.message

namespace Command

def isFlag (arg : String) : Bool := arg.toList.take 2 == ['-', '-']

/-! ## `build` -/

/-- What a flag without a value changes, if it is one. -/
def buildFlag? (o : BuildOptions) : String → Option BuildOptions
  | "--heap-frames" => some { o with heapFrames := true }
  | "--wasm" => some { o with emitWasm := true }
  | "--show-analysis" => some { o with dumps := { o.dumps with analysis := true } }
  | "--show-layouts" => some { o with dumps := { o.dumps with layouts := true } }
  | "--show-lir" => some { o with dumps := { o.dumps with lir := true } }
  | "--show-all" => some { o with dumps := .all true }
  | "--verbose" | "--hide-timers" | "--check" => some o
  | _ => none

/-- What a flag with a path changes, if it is one. -/
def pathFlag? (o : BuildOptions) : String → Option (String → BuildOptions)
  | "--out" => some fun path => { o with outputDir := some path }
  | "--config" => some fun path => { o with settingsPath := some path }
  | _ => none

/-- The options of a build, from the arguments after the command. -/
def buildOptions (o : BuildOptions) : List String → Except UsageError BuildOptions
  | [] => if o.inputs.isEmpty then .error .noInputs else .ok o
  | arg :: rest =>
    match pathFlag? o arg, rest with
    | some _, [] => .error (.valueMissing arg)
    | some change, value :: rest =>
      if isFlag value then .error (.valueMissing arg)
      else
        match Path.ofText value with
        | .error e => .error (.optionPath arg e)
        | .ok path => buildOptions (change path) rest
    | none, rest =>
      match buildFlag? o arg with
      | some o => buildOptions o rest
      | none =>
        if isFlag arg then .error (.unknownBuildFlag arg)
        else
          match Path.ofInput arg with
          | .error e => .error (.path e)
          | .ok input => buildOptions { o with inputs := o.inputs ++ [input] } rest

/-! ## `run` -/

/-- A 64-bit integer with its sign: decimal digits after at most one sign. -/
def int64? (text : String) : Option Int64 :=
  let (negative, digits) := match text.toList with
    | '-' :: digits => (true, digits)
    | '+' :: digits => (false, digits)
    | digits => (false, digits)
  if digits.isEmpty || !digits.all Char.isDigit then none
  else
    let magnitude : Int := digits.foldl (fun n c => 10 * n + (c.toNat - '0'.toNat)) 0
    let value := if negative then -magnitude else magnitude
    if Int64.minValue.toInt ≤ value ∧ value ≤ Int64.maxValue.toInt then some (Int64.ofInt value)
    else none

/-- The flags of `run`. -/
def runFlags : List String := ["--heap-frames", "--verbose", "--hide-timers"]

def integers (texts : List String) : Except UsageError (List Int64) :=
  texts.mapM fun text => (int64? text).elim (.error (.notInteger text)) .ok

/-- The `run` command, from the arguments after its name. -/
def runCommand (args : List String) : Except UsageError Command := do
  let (flags, positional) := args.partition isFlag
  match flags.find? fun flag => !runFlags.contains flag with
  | some flag => throw (.unknownRunFlag flag)
  | none =>
    match positional with
    | path :: function :: texts =>
      let path ← (Path.ofText path).mapError .path
      if function == "" then throw .noFunction
      return .run path function (← integers texts) (flags.contains "--heap-frames")
    | _ => throw .runUsage

/-! ## All commands -/

/-- The `layouts` command, from the arguments after its name. -/
def layoutsCommand : List String → Except UsageError Command
  | [] => .error .noLayoutsFile
  | arg :: _ =>
    if isFlag arg then .error .noLayoutsFile else ((Path.ofText arg).mapError .path).map .layouts

/-- The command that the arguments give. Without arguments it is `help`. -/
def ofArgs : List String → Except UsageError Command
  | [] | "help" :: _ | "--help" :: _ => .ok .help
  | "build" :: args => (buildOptions {} args).map .build
  | "run" :: args => runCommand args
  | "layouts" :: args => layoutsCommand args
  | name :: _ => .error (.unknownCommand name)

end Command

end StaticChain
