import StaticChain.Wasm.Error
import StaticChain.Wasm.Module

/-!
# Putting modules together

Parts are numbered as they are added to a module. A function is declared before its body is added,
so that code can call what comes later; bodies come in the order of the declarations.
-/

namespace StaticChain.Wasm

namespace Module

variable (m : Module)

/-- The number of a function type; equal types have one number. -/
def addType (type : FuncType) : Nat × Module :=
  match m.types.findIdx? (· == .func type) with
  | some index => (index, m)
  | none => (m.types.length, { m with types := m.types ++ [.func type] })

/-- The number of functions declared so far. -/
def functionCount : Nat := m.functions.length

/-- The number of declared functions that have no body yet. -/
def pending : Nat := m.functions.length - m.code.length

def declare (type : Nat) : Nat × Module :=
  (m.functionCount, { m with functions := m.functions ++ [type] })

/-- Gives a body to the first function without one. -/
def addBody (code : Code) : Except Error Module :=
  if m.pending = 0 then .error .bodyUndeclared
  else .ok { m with code := m.code ++ [code] }

def addMemory (limits : Limits) : Nat × Module :=
  (m.memories.length, { m with memories := m.memories ++ [{ limits }] })

/-- Adds a global that holds a 32-bit integer. -/
def addGlobal (initial : Int32) (mutable : Bool) : Nat × Module :=
  (m.globals.length, { m with globals := m.globals ++ [⟨⟨.i32, mutable⟩, [.const32 initial]⟩] })

/-- Exports something under a name that is not taken. -/
def addExport (e : Export) : Except Error Module :=
  if m.exports.any (·.name == e.name) then .error (.exportTwice e.name)
  else .ok { m with exports := m.exports ++ [e] }

/-- The module itself, if every function has a body. -/
def finish : Except Error Module :=
  if m.pending = 0 then .ok m else .error (.bodiesMissing m.pending)

end Module

end StaticChain.Wasm
