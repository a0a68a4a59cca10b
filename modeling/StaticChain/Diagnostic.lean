import StaticChain.Program.Basic

/-!
# Diagnostics

A `Diagnostic` is what a user sees of a failure: its kind, a message, where it arose and named
details. There is no source text to point at, so a location is the file a program came from and the
declaration that was being compiled. The passes of the compiler fail with causes of their own, each
with one function that turns it into a diagnostic.

`Diagnostic.report` is the text printed for one.
-/

namespace StaticChain

namespace Diagnostic

/-- Who is to blame. -/
inductive Kind where
  /-- A broken promise between passes of the compiler. -/
  | compiler
  /-- A malformed program. -/
  | program
  | config
  | file
  | lirTransformation
  | wasmGeneration
  /-- A fault of the running program. -/
  | runtime
deriving DecidableEq, Inhabited, Repr

def Kind.title : Kind → String
  | .compiler => "Compiler Bug"
  | .program => "Malformed Declaration Tree"
  | .config => "Malformed Config"
  | .file => "File Error"
  | .lirTransformation => "LIR Transformation"
  | .wasmGeneration => "WASM Generation"
  | .runtime => "Runtime Fault"

/-- The names under which details are kept. -/
inductive Key where
  | compilationStage | declaration | useSite | variable | invariant | primarySuggestion
deriving DecidableEq, Inhabited, Repr

def Key.name : Key → String
  | .compilationStage => "CompilationStage"
  | .declaration => "Declaration"
  | .useSite => "UseSite"
  | .variable => "Variable"
  | .invariant => "Invariant"
  | .primarySuggestion => "PrimarySuggestion"

/-- All names, in the order in which details are printed. -/
def Key.all : List Key :=
  [.compilationStage, .declaration, .useSite, .variable, .invariant, .primarySuggestion]

end Diagnostic

structure Diagnostic where
  kind : Diagnostic.Kind
  message : String
  file : Option String := none
  declaration : Option DeclId := none
  /-- The path of the declaration. -/
  declarationPath : Option String := none
  details : List (Diagnostic.Key × String) := []
deriving DecidableEq, Inhabited, Repr

namespace Diagnostic

def withFile (d : Diagnostic) (path : String) : Diagnostic := { d with file := some path }

/-- Sets a detail, in place of an earlier one of that name. -/
def withDetail (d : Diagnostic) (key : Key) (text : String) : Diagnostic :=
  { d with details := d.details.filter (·.1 != key) ++ [(key, text)] }

def detail? (d : Diagnostic) (key : Key) : Option String :=
  (d.details.find? (·.1 == key)).map Prod.snd

def isInternal (d : Diagnostic) : Bool := d.kind == .compiler

/-- The diagnostic on one line. -/
def summary (d : Diagnostic) : String := d.kind.title ++ ": " ++ d.message

/-! ## The report -/

/-- The path as shown to a user: without the mark of a verbatim path, and relative to the working
directory where it lies below it. -/
def shownPath (directory path : String) : String :=
  let verbatim := "\\\\?\\"
  let plain := if path.startsWith verbatim then (path.drop verbatim.length).toString else path
  let below := directory ++ "/"
  if directory != "" && plain.startsWith below then (plain.drop below.length).toString else plain

/-- A banner around a path; no path has none. -/
def banner (before path after : String) : List String :=
  if path.isEmpty then [] else ["\n" ++ before ++ path ++ after]

/-- The lines that introduce a diagnostic of a kind. -/
def Kind.heading (kind : Kind) (path : String) : List String :=
  match kind with
  | .compiler =>
    banner "ヽ༼☉ ‿ ⚆༽ﾉ  🔥🔥🔥🔥 " path " 🔥🔥🔥🔥  ╰(° _ o╰) " ++
      ["COMPILER BUG - ", "backend developer skill issue (not your fault)"]
  | .program => banner "(ಠ_ಠ) " path "" ++ ["Malformed declaration tree"]
  | .config =>
    banner " (-_-)  🔥🔥🔥🔥 " path " 🔥🔥🔥🔥  <(^~^)/ " ++
      ["CONFIG ISSUE - ", "an option or config value doesn't make sense"]
  | .file => ["🏚 Can't find/read/write file or directory: " ++ path]
  | .lirTransformation =>
    banner "ヽ༼☉ ‿ ⚆༽ﾉ  🔥🔥🔥 " path " 🔥🔥🔥  ╰(° _ o╰) " ++
      ["LIR TRANSFORMATION BUG - ", "backend developer skill issue (not your fault)"]
  | .wasmGeneration =>
    banner "ヽ༼☉ ‿ ⚆༽ﾉ  🔥🔥🔥🔥 " path " 🔥🔥🔥🔥  ╰(° O °)╯ " ++
      ["WASM GENERATION BUG - backend developer skill issue (not your fault)"]
  | .runtime => banner "(╯°Д°)╯  🔥🔥 " path " 🔥🔥  ╰(°□°╰) " ++ ["Runtime fault"]

/-- The line that names the declaration: its path, or else its position. -/
def placeLines (d : Diagnostic) : List String :=
  match d.declarationPath, d.declaration with
  | some path, _ => ["In " ++ path]
  | none, some id => ["In " ++ toString id]
  | none, none => []

/-- The line of a detail. -/
def detailLine (d : Diagnostic) (key : Key) : Option String :=
  (d.detail? key).map fun text =>
    if key == .primarySuggestion then "Suggestion: " ++ text else "  " ++ key.name ++ ": " ++ text

/-- The lines printed for a diagnostic. A file error is its path and its message alone. -/
def reportLines (directory : String) (d : Diagnostic) : List String :=
  let heading := d.kind.heading (d.file.elim "" (shownPath directory))
  if d.kind == .file then heading ++ [d.message]
  else heading ++ d.placeLines ++ [d.message] ++ Key.all.filterMap d.detailLine

/-- The text printed for a diagnostic by a program that runs in `directory`. -/
def report (directory : String) (d : Diagnostic) : String :=
  String.join ((d.reportLines directory).map (· ++ "\n"))

end Diagnostic

end StaticChain
