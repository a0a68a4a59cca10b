import StaticChain.Program.Basic

/-!
# The low-level representation

A `Lir.Module` is a list of struct types and a list of functions. Code is structured: a body is a
list of instructions, and `Inst.branch` and `Inst.loop` hold bodies of their own. An instruction
that produces something writes a value (`ValueId`) that belongs to its function; what changes over
time lives in locals (`LocalId`) or in the slots of objects.

Every struct type describes a context carrier, which is the frame of a function or the instance of
an aggregate.
-/

namespace StaticChain

namespace Lir

/-- A value of a function. -/
structure ValueId where
  index : Nat
deriving DecidableEq, Inhabited, Repr

/-- A local of a function. -/
structure LocalId where
  index : Nat
deriving DecidableEq, Inhabited, Repr

/-- The position of a function in its module. -/
structure FunctionId where
  index : Nat
deriving DecidableEq, Inhabited, Repr

/-- The position of a struct type in its module. -/
structure StructId where
  index : Nat
deriving DecidableEq, Inhabited, Repr

instance : ToString ValueId := ⟨fun id => "%" ++ toString id.index⟩

instance : ToString LocalId := ⟨fun id => "$" ++ toString id.index⟩

instance : ToString FunctionId := ⟨fun id => "fn" ++ toString id.index⟩

instance : ToString StructId := ⟨fun id => "T" ++ toString id.index⟩

/-- The storage type of a value, a local or a slot. -/
inductive Ty where
  /-- Integers and truth values. -/
  | i64
  /-- Pointers to carriers and addresses of slots. -/
  | ptr
  /-- Functions with their context. -/
  | closure
deriving DecidableEq, Inhabited, Repr

def Ty.text : Ty → String
  | .i64 => "i64"
  | .ptr => "ptr"
  | .closure => "closure"

instance : ToString Ty := ⟨Ty.text⟩

/-- Where an object is allocated. A stack object is released when the activation that allocated it
returns. -/
inductive AllocKind where
  | stack
  | heap
deriving DecidableEq, Inhabited, Repr

/-- The operators with two operands, both evaluated. -/
inductive BinOp where
  | add | sub | mul | div | rem
  | eq | ne | lt | le | gt | ge
deriving DecidableEq, Inhabited, Repr

/-- The operators with one operand. `eqz` is one for zero and zero for everything else. -/
inductive UnaryOp where
  | neg | eqz
deriving DecidableEq, Inhabited, Repr

/-- The parameters and the result of a function value, without its context. -/
structure Signature where
  params : List Ty
  ret : Option Ty
deriving DecidableEq, Inhabited, Repr

/-- An instruction. -/
inductive Inst where
  | const (dest : ValueId) (value : Int64)
  | null (dest : ValueId)
  | binary (dest : ValueId) (op : BinOp) (lhs rhs : ValueId)
  | unary (dest : ValueId) (op : UnaryOp) (operand : ValueId)
  | localGet (dest : ValueId) (source : LocalId)
  | localSet (target : LocalId) (value : ValueId)
  | alloc (dest : ValueId) (struct : StructId) (kind : AllocKind)
  | fieldAddr (dest base : ValueId) (struct : StructId) (slot : Nat)
  | load (dest addr : ValueId) (ty : Ty)
  | store (addr value : ValueId) (ty : Ty)
  /-- A call. The context of a callee that takes one is its first argument. -/
  | call (dest : Option ValueId) (function : FunctionId) (args : List ValueId)
  | makeClosure (dest : ValueId) (function : FunctionId) (context : ValueId)
  | callClosure (dest : Option ValueId) (closure : ValueId) (args : List ValueId)
      (signature : Signature)
  | branch (condition : ValueId) (thenBody elseBody : List Inst)
  /-- Runs the header, leaves when the condition is zero, otherwise runs the body and repeats. -/
  | loop (header : List Inst) (condition : ValueId) (body : List Inst)
  | ret (value : Option ValueId)
  | unreachable
deriving Inhabited, Repr

mutual

/-- An instruction and all instructions inside it. -/
def Inst.withNested : Inst → List Inst
  | .branch condition thenBody elseBody =>
    .branch condition thenBody elseBody :: (allInsts thenBody ++ allInsts elseBody)
  | .loop header condition body =>
    .loop header condition body :: (allInsts header ++ allInsts body)
  | inst => [inst]

/-- The instructions of a body, those of inner bodies included. -/
def allInsts : List Inst → List Inst
  | [] => []
  | inst :: rest => Inst.withNested inst ++ allInsts rest

end

/-- The layout of a carrier. -/
structure StructType where
  id : StructId
  name : String
  owner : DeclId
  slots : List Ty
deriving DecidableEq, Inhabited, Repr

structure Function where
  id : FunctionId
  /-- The path of the declaration. -/
  name : String
  decl : DeclId
  /-- Whether local zero is a context. -/
  hasContext : Bool
  params : List Ty
  ret : Option Ty
  /-- The context, then the parameters, then what the body adds. -/
  locals : Array Ty
  valueTypes : Array Ty
  body : List Inst
deriving Inhabited, Repr

namespace Function

def contextLocal? (f : Function) : Option LocalId :=
  if f.hasContext then some ⟨0⟩ else none

/-- The local of a parameter: parameters come after the context. -/
def paramLocal (f : Function) (index : Nat) : LocalId :=
  ⟨index + f.hasContext.toNat⟩

/-- The parameters that a caller passes, the context first. -/
def callParams (f : Function) : List Ty :=
  (if f.hasContext then [Ty.ptr] else []) ++ f.params

def valueType? (f : Function) (value : ValueId) : Option Ty :=
  f.valueTypes[value.index]?

end Function

structure Module where
  structs : Array StructType
  functions : Array Function
deriving Inhabited, Repr

namespace Module

def function? (m : Module) (id : FunctionId) : Option Function :=
  m.functions[id.index]?

def struct? (m : Module) (id : StructId) : Option StructType :=
  m.structs[id.index]?

/-- The first function of that name. -/
def findFunction? (m : Module) (name : String) : Option Function :=
  m.functions.find? (·.name == name)

end Module

end Lir

end StaticChain
