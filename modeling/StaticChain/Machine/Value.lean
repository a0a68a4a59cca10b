import StaticChain.Lir.Display

/-!
# Values of running programs

A running function computes with integers, pointers to objects, addresses of slots and closures. A
closure holds the function and the object that is its context.
-/

namespace StaticChain.Machine

/-- An object of the store. -/
structure ObjectId where
  index : Nat
deriving DecidableEq, Inhabited, Repr

instance : ToString ObjectId := ⟨fun id => "object#" ++ toString id.index⟩

inductive Value where
  | int (value : Int64)
  | null
  | object (id : ObjectId)
  /-- The address of a slot. -/
  | slot (object : ObjectId) (index : Nat)
  | closure (function : Lir.FunctionId) (context : Option ObjectId)
deriving DecidableEq, Inhabited, Repr

namespace Value

/-- A pointer that may be null. -/
def ofContext : Option ObjectId → Value
  | some id => .object id
  | none => .null

/-- A truth value. -/
def ofBool (b : Bool) : Value := .int (if b then 1 else 0)

def text : Value → String
  | .int value => toString value.toInt
  | .null => "null"
  | .object id => toString id
  | .slot owner index => s!"{owner}.{index}"
  | .closure function (some context) => s!"closure({function}, {context})"
  | .closure function none => s!"closure({function}, null)"

end Value

end StaticChain.Machine
