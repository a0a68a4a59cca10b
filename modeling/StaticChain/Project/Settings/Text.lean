import StaticChain.Diagnostic
import StaticChain.Project.Path
import StaticChain.Project.Settings
import StaticChain.Toml.Printer
import StaticChain.Toml.Reader

/-!
# Settings as text

Settings are kept in a TOML file. `Settings.parse` reads one: whatever is left out keeps its
default, names that mean nothing are passed over, and a value of the wrong kind makes the whole file
invalid. `Settings.text` writes one.
-/

namespace StaticChain

/-- The name of the file that holds the settings of a directory. -/
def Settings.fileName : String := "thicket.toml"

/-- Why a text gives no settings. -/
inductive SettingsError where
  /-- It is not TOML, or has a value of the wrong kind. -/
  | malformed
  | outputDir (error : Path.Error)
  | noSteps
deriving DecidableEq, Inhabited, Repr

namespace SettingsError

def message : SettingsError → String
  | .malformed => "Invalid " ++ Settings.fileName
  | .outputDir error => error.message
  | .noSteps => "max_interpreter_steps must be greater than zero"

def toDiagnostic (e : SettingsError) : Diagnostic where
  kind := .config
  message := e.message

end SettingsError

/-! ## Names -/

def FramePolicy.name : FramePolicy → String
  | .alwaysHeap => "always_heap"
  | .escapeAnalysis => "escape_analysis"

def FramePolicy.ofName? (name : String) : Option FramePolicy :=
  [alwaysHeap, escapeAnalysis].find? fun policy => policy.name == name

/-! ## Reading -/

namespace Toml

def bool? : Toml → Option Bool
  | .bool value => some value
  | _ => none

def str? : Toml → Option String
  | .str text => some text
  | _ => none

/-- The number, if it fits in 64 bits without a sign. -/
def nat64? : Toml → Option Nat
  | .int (.ofNat n) => if n < UInt64.size then some n else none
  | _ => none

/-- A policy is its name, or a table of its name over nothing. -/
def framePolicy? : Toml → Option FramePolicy
  | .str name => FramePolicy.ofName? name
  | .table [(name, .table [])] => FramePolicy.ofName? name
  | .table [(name, .array [])] => FramePolicy.ofName? name
  | _ => none

/-- The value under a name, read as `read` says, or the default if the name is missing. -/
def field? (name : String) (read : Toml → Option α) (default : α) (value : Toml) : Option α :=
  (value.get? name).elim (some default) read

/-- The element at a position, read as `read` says, or the default if there are fewer. -/
def element? (index : Nat) (read : Toml → Option α) (default : α) (items : List Toml) : Option α :=
  items[index]?.elim (some default) read

/-- Whether the numbers under all names but these fit. -/
def othersFit (names : List String) : Toml → Bool
  | .table entries => entriesFit (entries.filter fun e => !names.contains e.1)
  | _ => true

/-- Which reports to write: by name, or as an array in the order of the fields. A moment has no
field that means anything here. -/
def dumps? : Toml → Option Dumps
  | .table entries => do
    if !othersFit ["analysis", "layouts", "lir"] (.table entries) then none
    return {
      analysis := ← field? "analysis" bool? false (.table entries)
      layouts := ← field? "layouts" bool? false (.table entries)
      lir := ← field? "lir" bool? false (.table entries) }
  | .array items => return {
      analysis := ← element? 0 bool? false items
      layouts := ← element? 1 bool? false items
      lir := ← element? 2 bool? false items }
  | .moment _ => some {}
  | _ => none

/-- The settings that a document gives, as they stand there. -/
def settings? (document : Toml) : Option Settings := do
  let names := ["frame_allocation", "emit_wasm", "output_dir", "max_interpreter_steps", "dumps"]
  if !othersFit names document then none
  return {
    frames := ← document.field? "frame_allocation" framePolicy? .escapeAnalysis
    emitWasm := ← document.field? "emit_wasm" bool? false
    outputDir := ← document.field? "output_dir" (fun value => value.str?.map some) none
    maxSteps := ← document.field? "max_interpreter_steps" nat64? Machine.defaultMaxSteps
    dumps := ← document.field? "dumps" dumps? {} }

end Toml

namespace Settings

/-- The settings in a text. -/
def parse (text : String) : Except SettingsError Settings := do
  match (Toml.parse? text).bind Toml.settings? with
  | none => throw .malformed
  | some s =>
    let outputDir ← s.outputDir.mapM fun dir => (Path.ofText dir).mapError .outputDir
    if s.maxSteps = 0 then throw .noSteps
    return { s with outputDir }

/-! ## Writing -/

/-- A line of a TOML file. -/
def textLine (name value : String) : String := name ++ " = " ++ value ++ "\n"

def boolText (value : Bool) : String := if value then "true" else "false"

/-- The text of a settings file. -/
def text (s : Settings) : String :=
  textLine "frame_allocation" (Toml.quoted s.frames.name) ++
  textLine "emit_wasm" (boolText s.emitWasm) ++
  s.outputDir.elim "" (fun dir => textLine "output_dir" (Toml.quoted dir)) ++
  textLine "max_interpreter_steps" (toString s.maxSteps) ++
  "\n[dumps]\n" ++
  textLine "analysis" (boolText s.dumps.analysis) ++
  textLine "layouts" (boolText s.dumps.layouts) ++
  textLine "lir" (boolText s.dumps.lir)

end Settings

end StaticChain
