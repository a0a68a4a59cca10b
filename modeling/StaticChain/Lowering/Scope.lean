import StaticChain.Chain.Emission

/-!
# Scopes

A `Scope` is what lowering knows while it writes the body of a function: the tables of the program,
the low-level functions of all declared functions, the locals of the variables that are not
captured, and the activation's view of the static chain. The last two belong to one function and
are reset before the next.
-/

namespace StaticChain

open Lir (Emit ValueId LocalId FunctionId FunctionBuilder)

structure Scope where
  nesting : Nesting
  /-- The functions registered so far, in order; each has its position as its number. -/
  functions : List DeclId
  /-- The locals of variables. -/
  locals : List (VarId × LocalId)
  /-- The function whose body is being written. -/
  current : Option Vantage
deriving Inhabited

namespace Scope

/-- The scope in which nothing is registered. -/
def of (nesting : Nesting) : Scope := ⟨nesting, [], [], none⟩

/-- Forgets what belongs to one function. -/
def reset (s : Scope) : Scope := { s with locals := [], current := none }

/-! ## Functions -/

def function? (s : Scope) (id : DeclId) : Option FunctionId :=
  (s.functions.findIdx? (· == id)).map FunctionId.mk

/-- Numbers a function, unless it has a number. -/
def register (s : Scope) (id : DeclId) : FunctionId × Scope :=
  match s.function? id with
  | some function => (function, s)
  | none => (⟨s.functions.length⟩, { s with functions := s.functions ++ [id] })

def getFunction (s : Scope) (id : DeclId) : Except Defect FunctionId :=
  match s.function? id with
  | some function => .ok function
  | none => .error (.functionUnregistered id)

/-! ## The current function -/

def getCurrent (s : Scope) : Except Defect Vantage :=
  match s.current with
  | some v => .ok v
  | none => .error .outsideFunction

def getLocal (s : Scope) (id : VarId) : Except Defect LocalId :=
  match s.locals.lookup id with
  | some found => .ok found
  | none => .error (.localMissing id)

/-- Gives a variable a local, in place of an earlier one. -/
def bind (s : Scope) (id : VarId) (found : LocalId) : Scope :=
  { s with locals := (id, found) :: s.locals }

/-! ## Variables and fields -/

def readVariable (s : Scope) (id : VarId) : Emit ValueId := do
  let v ← Emit.of s.getCurrent
  match ← s.nesting.emitVariableAddress v id with
  | .local id => FunctionBuilder.localGet (← Emit.of (s.getLocal id))
  | .slot addr ty => FunctionBuilder.load addr ty

def writeVariable (s : Scope) (id : VarId) (value : ValueId) : Emit Unit := do
  let v ← Emit.of s.getCurrent
  match ← s.nesting.emitVariableAddress v id with
  | .local id => FunctionBuilder.localSet (← Emit.of (s.getLocal id)) value
  | .slot addr ty => FunctionBuilder.store addr value ty

/-- The struct, the slot and the type of a field. -/
def fieldSlot (s : Scope) (field : VarId) : Except Defect (Lir.StructId × Nat × Lir.Ty) := do
  let var ← s.nesting.program.getVar field
  let layout ← s.nesting.layouts.getLayout var.owner
  match layout.slotOf? field with
  | none => throw (.fieldSlotMissing (s.current.map Vantage.decl) var.name layout.name)
  | some slot => return (layout.struct, slot, (layout.slotType? slot).getD .ptr)

/-- The address of a field of an instance. -/
def fieldAddress (s : Scope) (base : ValueId) (field : VarId) : Emit (ValueId × Lir.Ty) := do
  let (struct, slot, ty) ← Emit.of (s.fieldSlot field)
  return (← FunctionBuilder.fieldAddr base struct slot, ty)

/-- A result that must be there. -/
def value (s : Scope) : Option ValueId → Except Defect ValueId
  | some value => .ok value
  | none => .error (.unitAsValue (s.current.map Vantage.decl))

end Scope

end StaticChain
