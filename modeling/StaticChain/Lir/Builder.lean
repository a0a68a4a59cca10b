import StaticChain.Defect

/-!
# Writing a function

A `FunctionBuilder` holds a function under construction and the blocks that are open in it. Each
operation appends to the innermost open block and numbers the value it produces. `Emit` is the
monad of code that writes a function and may fail: what was written before a failure stays written.
-/

namespace StaticChain.Lir

/-- A function under construction. Its body stays empty until it is finished. -/
structure FunctionBuilder where
  function : Function
  /-- The innermost open block. -/
  block : Array Inst
  /-- The open blocks around it, innermost first; the last of all is the body. -/
  around : List (Array Inst)
deriving Inhabited

/-- Code that writes a function and may fail. -/
abbrev Emit := ExceptT Defect (StateM FunctionBuilder)

/-- A result found without writing anything. -/
def Emit.of (result : Except Defect α) : Emit α := ExceptT.mk (pure result)

namespace FunctionBuilder

/-- A function with nothing in its body. -/
def start (id : FunctionId) (name : String) (decl : DeclId) (hasContext : Bool) (params : List Ty)
    (ret : Option Ty) : FunctionBuilder where
  function := {
    id, name, decl, hasContext, params, ret
    locals := ((if hasContext then [Ty.ptr] else []) ++ params).toArray
    valueTypes := #[]
    body := [] }
  block := #[]
  around := []

/-- Numbers a new value. -/
def fresh (ty : Ty) : StateM FunctionBuilder ValueId := fun b =>
  (⟨b.function.valueTypes.size⟩,
    { b with function.valueTypes := b.function.valueTypes.push ty })

/-- Appends an instruction. -/
def push (inst : Inst) : StateM FunctionBuilder Unit := fun b =>
  ((), { b with block := b.block.push inst })

/-- Appends an instruction that writes a new value. -/
def produce (ty : Ty) (inst : ValueId → Inst) : StateM FunctionBuilder ValueId := do
  let dest ← fresh ty
  push (inst dest)
  return dest

/-- Appends an instruction that writes a new value if it has a result. -/
def produceIf (ty : Option Ty) (inst : Option ValueId → Inst) :
    StateM FunctionBuilder (Option ValueId) := do
  match ty with
  | some ty =>
    let dest ← fresh ty
    push (inst (some dest))
    return some dest
  | none =>
    push (inst none)
    return none

/-! ## Values and memory -/

def const (value : Int64) : StateM FunctionBuilder ValueId :=
  produce .i64 fun dest => .const dest value

/-- The context that is passed where there is no carrier. -/
def null : StateM FunctionBuilder ValueId :=
  produce .ptr .null

def binary (op : BinOp) (lhs rhs : ValueId) : StateM FunctionBuilder ValueId :=
  produce .i64 fun dest => .binary dest op lhs rhs

def unary (op : UnaryOp) (operand : ValueId) : StateM FunctionBuilder ValueId :=
  produce .i64 fun dest => .unary dest op operand

def alloc (struct : StructId) (kind : AllocKind) : StateM FunctionBuilder ValueId :=
  produce .ptr fun dest => .alloc dest struct kind

def fieldAddr (base : ValueId) (struct : StructId) (slot : Nat) : StateM FunctionBuilder ValueId :=
  produce .ptr fun dest => .fieldAddr dest base struct slot

def load (addr : ValueId) (ty : Ty) : StateM FunctionBuilder ValueId :=
  produce ty fun dest => .load dest addr ty

def store (addr value : ValueId) (ty : Ty) : StateM FunctionBuilder Unit :=
  push (.store addr value ty)

/-! ## Locals -/

def addLocal (ty : Ty) : StateM FunctionBuilder LocalId := fun b =>
  (⟨b.function.locals.size⟩, { b with function.locals := b.function.locals.push ty })

def localGet (source : LocalId) : Emit ValueId := do
  match (← get).function.locals[source.index]? with
  | some ty => produce ty fun dest => .localGet dest source
  | none => throw (.localUndeclared source)

def localSet (target : LocalId) (value : ValueId) : StateM FunctionBuilder Unit :=
  push (.localSet target value)

/-! ## Calls -/

def call (function : FunctionId) (args : List ValueId) (ret : Option Ty) :
    StateM FunctionBuilder (Option ValueId) :=
  produceIf ret fun dest => .call dest function args

def makeClosure (function : FunctionId) (context : ValueId) : StateM FunctionBuilder ValueId :=
  produce .closure fun dest => .makeClosure dest function context

def callClosure (closure : ValueId) (args : List ValueId) (signature : Signature) :
    StateM FunctionBuilder (Option ValueId) :=
  produceIf signature.ret fun dest => .callClosure dest closure args signature

/-! ## Blocks -/

/-- Opens a block inside the innermost one. -/
def beginBlock : StateM FunctionBuilder Unit := fun b =>
  ((), { b with block := #[], around := b.block :: b.around })

/-- Closes the innermost block and returns its instructions. The body cannot be closed. -/
def endBlock : Emit (List Inst) := do
  let b ← get
  match b.around with
  | [] => throw (.blockUnbalanced b.function.name)
  | outer :: around =>
    set { b with block := outer, around }
    return b.block.toList

/-- The instructions that an action writes, as a block of their own. -/
def inBlock (action : Emit α) : Emit (α × List Inst) := do
  beginBlock
  let result ← action
  let body ← endBlock
  return (result, body)

/-- The finished function, if no block is open. -/
def finish (b : FunctionBuilder) : Except Defect Function :=
  match b.around with
  | [] => .ok { b.function with body := b.block.toList }
  | around => .error (.blocksOpen b.function.name around.length)

end FunctionBuilder

end StaticChain.Lir
