import StaticChain.Lir.Display
import StaticChain.Lowering.Module
import StaticChain.Project.Settings
import StaticChain.Wasm.Generation

/-!
# Compiling one unit

`Settings.compile` takes a program through the analyses and lowering, and on to WebAssembly if that
is asked for.
-/

namespace StaticChain

/-- What comes of a unit: its low-level module, its binary and its reports, as far as asked for. -/
structure CompiledUnit where
  lir : Lir.Module
  wasm : Option Wasm.Bytes
  analysis : Option String
  layouts : Option String
  lirText : Option String
deriving Inhabited

namespace Settings

/-- The binary of a module, if it is asked for. -/
def binary (s : Settings) (lir : Lir.Module) : Except Wasm.Error (Option Wasm.Bytes) := do
  if s.emitWasm then return some (← Wasm.generate lir).bytes else return none

/-- Compiles a program. -/
def compile (s : Settings) (p : Program) : Except (List Diagnostic) CompiledUnit := do
  let n ← (Nesting.of p s.frames).mapError fun defect => [defect.toDiagnostic p]
  let lir ← n.lower.mapError fun defects => defects.map fun defect => defect.toDiagnostic p
  let wasm ← (s.binary lir).mapError fun e => [e.toDiagnostic]
  return {
    lir, wasm
    analysis := if s.dumps.analysis then some (n.captures.report p) else none
    layouts := if s.dumps.layouts then some n.layouts.text else none
    lirText := if s.dumps.lir then some lir.text else none }

end Settings

end StaticChain
