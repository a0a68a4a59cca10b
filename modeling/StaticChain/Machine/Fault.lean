import StaticChain.Diagnostic
import StaticChain.Machine.Value

/-!
# Faults

A `Fault` is why a run stops without a result. Some are faults of the running program, such as a
division by zero, some are limits of the machine, and the rest can only arise in code that does not
keep the rules of the representation.
-/

namespace StaticChain.Machine

open Lir (ValueId LocalId FunctionId StructId)

/-- How many activations there can be at a time. -/
def maxDepth : Nat := 10000

inductive Fault where
  -- Entry points
  | entryUnknown (name : String)
  | entryNested (name : String)
  | entryParams (name : String) (count : Nat)
  -- Limits
  | budgetExhausted (maxSteps : Nat) (function : String)
  | depthExceeded (function : String)
  -- Values
  | valueUndefined (id : ValueId)
  | notAnInteger (value : Value)
  | notASlot (value : Value)
  | notAClosure
  | contextNotPointer (value : Value)
  | divisionByZero
  -- Locals
  | localUnset (id : LocalId) (function : String)
  | localUndeclared (id : LocalId) (function : String)
  -- Objects
  | structUnknown (id : StructId)
  | nullContext (function : String)
  | notAnObject (value : Value) (function : String)
  | structMismatch (object : ObjectId) (actual expected : StructId)
  | dangling (object : ObjectId) (struct : StructId)
  | unallocated (object : ObjectId)
  | slotUnset (slot : Nat) (object : ObjectId) (struct : StructId)
  | slotOutOfRange (slot : Nat) (object : ObjectId)
  -- Calls
  | functionUnknown (id : FunctionId)
  | argumentCount (function : String) (expected given : Nat)
  | resultMissing (function : String)
  | bodyEnded (function : String)
deriving DecidableEq, Inhabited, Repr

namespace Fault

def message : Fault → String
  | .entryUnknown name => s!"No function named '{name}' in the module"
  | .entryNested name =>
    s!"'{name}' is nested and needs a context, only top-level functions can be entry points"
  | .entryParams name count =>
    s!"'{name}' takes {count} parameters, entry points can only be given integers"
  | .budgetExhausted maxSteps function =>
    s!"Step budget of {maxSteps} exhausted in '{function}'"
  | .depthExceeded function => s!"Call depth exceeded {maxDepth} in '{function}'"
  | .valueUndefined id => s!"Use of undefined value {id}"
  | .notAnInteger value => s!"Expected an integer, found {value.text}"
  | .notASlot value => s!"Expected a slot address, found {value.text}"
  | .notAClosure => "Called a value that is not a closure"
  | .contextNotPointer value => s!"Closure context must be a pointer, found {value.text}"
  | .divisionByZero => "Division by zero"
  | .localUnset id function => s!"Read of unset local {id} in '{function}'"
  | .localUndeclared id function => s!"Write to undeclared local {id} in '{function}'"
  | .structUnknown id => s!"Allocation of unknown struct {id}"
  | .nullContext function => s!"Null context dereferenced in '{function}'"
  | .notAnObject value function => s!"Field address of non-object {value.text} in '{function}'"
  | .structMismatch object actual expected =>
    s!"{object} is a {actual} but was addressed as a {expected}"
  | .dangling object struct =>
    s!"Dangling frame: {object} ({struct}) was used after its activation returned"
  | .unallocated object => s!"{object} was never allocated"
  | .slotUnset slot object struct => s!"Read of unset slot {slot} of {object} ({struct})"
  | .slotOutOfRange slot object => s!"Slot {slot} is out of range for {object}"
  | .functionUnknown id => s!"Call of unknown function {id}"
  | .argumentCount function expected given =>
    s!"'{function}' expects {expected} arguments but got {given}"
  | .resultMissing function =>
    s!"'{function}' reached the end of its body without returning a value"
  | .bodyEnded function => s!"'{function}' ran off the end of its body"

/-- The fault as shown to a user. -/
def toDiagnostic (fault : Fault) : Diagnostic where
  kind := .runtime
  message := fault.message

end Fault

/-- The integer that a value is. -/
def Value.int? : Value → Except Fault Int64
  | .int value => .ok value
  | other => .error (.notAnInteger other)

end StaticChain.Machine
