import StaticChain.Wasm.Instr
import StaticChain.Wasm.Subtyping

/-!
# Points of the code

Code is typed against a stack of operands. After an instruction that never goes on, such as a
branch, the stack holds whatever the code that follows asks for; of a value taken from such a stack
nothing is known (`Operand.unknown`). A local whose type has no default must be set before it is
read, so a `Point` keeps which are still unset.

`Context` is what the code of a function can refer to. Its types are those of a `TypeSpace`, so that
equal types are written alike.
-/

namespace StaticChain.Wasm

/-- What is known of an operand. -/
inductive Operand where
  | unknown
  /-- A reference that is as little null as is asked for, and perhaps of a known kind. -/
  | someRef (kind : Option HeapKind)
  | known (ty : ValType)
deriving DecidableEq, Inhabited, Repr

namespace Operand

/-- Whether the operand can be used as one of a type. -/
def fits (types : TypeSpace) : Operand → ValType → Bool
  | .unknown, _ => true
  | .someRef none, ty => ty.isRef
  | .someRef (some kind), ty => types.isBelow (.ref ⟨false, .kind kind⟩) ty
  | .known found, ty => types.isBelow found ty

/-- The operand as a reference, if it can be one. -/
def asRef? : Operand → Option Operand
  | .unknown => some (.someRef none)
  | .someRef kind => some (.someRef kind)
  | .known (.ref type) => some (.known (.ref type))
  | .known _ => none

/-- A reference, once it is found not to be null. -/
def nonNull : Operand → Operand
  | .known (.ref type) => .known (.ref { type with nullable := false })
  | operand => operand

/-- A reference that was turned into one to another kind of objects. -/
def converted (kind : HeapKind) : Operand → Operand
  | .known (.ref type) => .known (.ref { type with heap := .kind kind })
  | _ => .someRef (some kind)

end Operand

/-- What is known at a point of the code. -/
structure Point where
  /-- The operands that are known, top first. -/
  operands : List Operand := []
  /-- Whether more operands can be taken than are known. -/
  unbounded : Bool := false
  /-- The locals that have no value yet. -/
  unset : List Nat := []
deriving DecidableEq, Inhabited, Repr

namespace Point

variable (p : Point)

/-- The point after an instruction that never goes on. -/
def dead : Point := { p with operands := [], unbounded := true }

def pushOperand (operand : Operand) : Point := { p with operands := operand :: p.operands }

def push (ty : ValType) : Point := p.pushOperand (.known ty)

/-- Pushes the first type first. -/
def pushAll (types : List ValType) : Point := types.foldl push p

/-- The start of a block that takes some operands. -/
def enter (params : List ValType) : Point := pushAll { unset := p.unset } params

/-- Takes an operand of any type. -/
def popAny : Option (Operand × Point) :=
  match p.operands with
  | operand :: rest => some (operand, { p with operands := rest })
  | [] => if p.unbounded then some (.unknown, p) else none

/-- Takes a reference. -/
def popRef : Option (Operand × Point) := do
  let (operand, p) ← p.popAny
  return (← operand.asRef?, p)

end Point

/-- What code can refer to. -/
structure Context where
  types : TypeSpace := {}
  /-- The types of the functions. -/
  functions : Array Nat := #[]
  tables : Array TableType := #[]
  memories : Array MemoryType := #[]
  globals : Array GlobalType := #[]
  /-- What the exceptions of each tag carry. -/
  tags : Array FuncType := #[]
  /-- The types of the element segments. -/
  elements : Array RefType := #[]
  /-- The number of data segments, if it was announced. -/
  dataCount : Option Nat := none
  /-- The functions to which code can make references. -/
  declared : List Nat := []
  locals : Array ValType := #[]
  results : List ValType := []
deriving Inhabited

namespace Context

variable (c : Context)

/-- The type of a function. -/
def function? (index : Nat) : Option FuncType :=
  match (c.functions[index]?.bind (c.types.types[·]?)).map SubType.body with
  | some (.func type) => some type
  | _ => none

/-- What a block takes and leaves. -/
def blockType? : BlockType → Option FuncType
  | .empty => some ⟨[], []⟩
  | .result ty => (c.types.val? ty).map (⟨[], [·]⟩)
  | .func index => c.types.func? index

/-- Takes an operand of a type. -/
def pop (ty : ValType) (p : Point) : Option Point := do
  let (operand, p) ← p.popAny
  guard (operand.fits c.types ty)
  return p

/-- Takes operands, the last type first. -/
def popAll (types : List ValType) (p : Point) : Option Point :=
  types.foldrM c.pop p

/-- Takes `n` operands of one type. -/
def popMany (n : Nat) (ty : ValType) (p : Point) : Option Point := do
  let taken := p.operands.take n
  guard (taken.all (·.fits c.types ty) && (p.unbounded || taken.length = n))
  return { p with operands := p.operands.drop n }

/-- Takes a reference to an object of a kind. -/
def popKind (kind : HeapKind) (p : Point) : Option (Operand × Point) := do
  let (operand, p) ← p.popAny
  guard (operand.fits c.types (.ref ⟨true, .kind kind⟩))
  return (operand, p)

/-- Takes operands and pushes results. -/
def apply (params results : List ValType) (p : Point) : Option Point := do
  return (← c.popAll params p).pushAll results

/-- Whether the operands are of these types and no more. -/
def leaves (types : List ValType) (p : Point) : Bool :=
  (c.popAll types p).any (·.operands.isEmpty)

end Context

end StaticChain.Wasm
