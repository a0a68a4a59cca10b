import StaticChain.Diagnostic
import StaticChain.Lir.Basic

/-!
# Errors of module generation

Why a module cannot be built or read. All but the last two can only arise in code that does not keep
the rules of the low-level representation, or in a module that was put together by hand.
-/

namespace StaticChain.Wasm

/-- What is wrong with a function of the low-level representation. -/
inductive FunctionFlaw where
  | fewerLocalsThanParams
  | structUnknown (id : Lir.StructId)
  | functionUnknown (id : Lir.FunctionId)
deriving DecidableEq, Inhabited, Repr

def FunctionFlaw.message : FunctionFlaw → String
  | .fewerLocalsThanParams => "has fewer locals than parameters"
  | .structUnknown id => s!"allocates unknown struct {id}"
  | .functionUnknown id => s!"calls unknown function {id}"

inductive Error where
  | exportTwice (name : String)
  | bodyUndeclared
  | bodiesMissing (count : Nat)
  | function (name : String) (decl : DeclId) (flaw : FunctionFlaw)
  | invalid
  /-- The bytes are not a sequence of sections. -/
  | unreadable
  | exportUnreadable
deriving DecidableEq, Inhabited, Repr

namespace Error

def message : Error → String
  | .exportTwice name => s!"Export '{name}' is defined twice"
  | .bodyUndeclared => "Function body added without a matching declaration"
  | .bodiesMissing count => s!"{count} declared functions have no body"
  | .function name _ flaw => s!"'{name}' {flaw.message}"
  | .invalid => "Generated module failed validation"
  | .unreadable => "Could not parse module"
  | .exportUnreadable => "Could not read export"

/-- The error as shown to a user. -/
def toDiagnostic (e : Error) : Diagnostic :=
  let plain : Diagnostic := { kind := .wasmGeneration, message := e.message }
  match e with
  | .function name decl _ => { plain with declaration := some decl, declarationPath := some name }
  | .invalid => plain.withDetail .compilationStage "Wasm validation"
  | _ => plain

end Error

end StaticChain.Wasm
