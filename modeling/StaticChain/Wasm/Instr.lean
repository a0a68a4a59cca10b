import StaticChain.Wasm.Leb128
import StaticChain.Wasm.Types

/-!
# WebAssembly code

Code has two forms. `Instr` is structured: a block holds its body. `Token` is the flat form of the
binary, in which the end of a block is an instruction of its own; `Instr.tokens` flattens, and
`Instr.ofTokens?` is the way back. Both are made of `Op`, the instructions that hold no others.
-/

namespace StaticChain.Wasm

/-! ## Families -/

/-- The comparisons of two integers, in the order of their opcodes. -/
inductive IntRel where
  | eq | ne | ltS | ltU | gtS | gtU | leS | leU | geS | geU
deriving DecidableEq, Inhabited, Repr

/-- The operations on two integers, in the order of their opcodes. -/
inductive IntBin where
  | add | sub | mul | divS | divU | remS | remU | and | or | xor | shl | shrS | shrU | rotl | rotr
deriving DecidableEq, Inhabited, Repr

/-- Where an access to memory goes: the exponent of its alignment, the offset that is added to the
address, and the memory. -/
structure MemArg where
  align : Nat
  offset : Nat
  memory : Nat := 0
deriving DecidableEq, Inhabited, Repr

/-- Whether a narrow integer is read with a sign. -/
inductive Sign where
  | signed | unsigned
deriving DecidableEq, Inhabited, Repr

/-- Instructions on references. -/
inductive RefOp where
  | null (heap : HeapType)
  | isNull
  | func (function : Nat)
  | eq
  | asNonNull
  | test (type : RefType)
  | cast (type : RefType)
  /-- The reference that holds 31 bits of an integer. -/
  | i31
  | i31Get (sign : Sign)
  /-- Turns a reference of the host into one of the module. -/
  | internalize
  /-- Turns a reference of the module into one of the host. -/
  | externalize
deriving DecidableEq, Inhabited, Repr

/-- Instructions on structures and arrays. The first number is the type. -/
inductive ObjectOp where
  | structNew (type : Nat)
  | structDefault (type : Nat)
  /-- Packed fields are read with a sign or without one. -/
  | structGet (sign : Option Sign) (type field : Nat)
  | structSet (type field : Nat)
  | arrayNew (type : Nat)
  | arrayDefault (type : Nat)
  | arrayFixed (type count : Nat)
  | arrayOfData (type data : Nat)
  | arrayOfElements (type element : Nat)
  | arrayGet (sign : Option Sign) (type : Nat)
  | arraySet (type : Nat)
  | arrayLength
  | arrayFill (type : Nat)
  | arrayCopy (target source : Nat)
  | arrayInitData (type data : Nat)
  | arrayInitElements (type element : Nat)
deriving DecidableEq, Inhabited, Repr

/-- Instructions on tables. -/
inductive TableOp where
  | get (table : Nat)
  | set (table : Nat)
  | init (element table : Nat)
  | dropElements (element : Nat)
  | copy (target source : Nat)
  | grow (table : Nat)
  | size (table : Nat)
  | fill (table : Nat)
deriving DecidableEq, Inhabited, Repr

/-- Instructions on ranges of memory. -/
inductive RangeOp where
  | init (data memory : Nat)
  | dropData (data : Nat)
  | copy (target source : Nat)
  | fill (memory : Nat)
deriving DecidableEq, Inhabited, Repr

/-- Instructions on vectors. Families are kept by their opcodes. -/
inductive VectorOp where
  /-- A vector of sixteen bytes. -/
  | const (bits : Bytes)
  /-- Takes sixteen lanes out of the thirty-two of two vectors. -/
  | shuffle (lanes : Bytes)
  | numeric (opcode : Nat)
  | lane (opcode : Nat) (lane : UInt8)
  | access (opcode : Nat) (arg : MemArg)
  | laneAccess (opcode : Nat) (arg : MemArg) (lane : UInt8)
deriving DecidableEq, Inhabited, Repr

/-! ## Instructions -/

/-- What a block takes and leaves: nothing, one result, or what a function type says. -/
inductive BlockType where
  | empty
  | result (ty : ValType)
  | func (index : Nat)
deriving DecidableEq, Inhabited, Repr

/-- Where an exception goes: those with one tag or all, with a reference to it or without. -/
structure Catch where
  tag : Option Nat
  withRef : Bool
  label : Nat
deriving DecidableEq, Inhabited, Repr

/-- The instructions that hold no others. -/
inductive Op where
  | unreachable
  | nop
  | br (label : Nat)
  | brIf (label : Nat)
  | brTable (labels : List Nat) (default : Nat)
  | brOnNull (label : Nat)
  | brOnNonNull (label : Nat)
  /-- Branches where a reference is of the target type, or where it is not. -/
  | brOnCast (onFail : Bool) (label : Nat) (source target : RefType)
  | ret
  | call (function : Nat)
  | callIndirect (type table : Nat)
  | callRef (type : Nat)
  | tailCall (function : Nat)
  | tailCallIndirect (type table : Nat)
  | tailCallRef (type : Nat)
  | throw (tag : Nat)
  | throwRef
  | drop
  | select
  | selectTyped (types : List ValType)
  | localGet (index : Nat)
  | localSet (index : Nat)
  | localTee (index : Nat)
  | globalGet (index : Nat)
  | globalSet (index : Nat)
  | load (width : Width) (arg : MemArg)
  | store (width : Width) (arg : MemArg)
  /-- A load or store of floats or of part of an integer, by its opcode. -/
  | access (opcode : Nat) (arg : MemArg)
  | memorySize (memory : Nat)
  | memoryGrow (memory : Nat)
  | const32 (value : Int32)
  | const64 (value : Int64)
  /-- A float of four or eight bytes. -/
  | constFloat (width : Width) (bits : Bytes)
  | eqz (width : Width)
  | rel (width : Width) (op : IntRel)
  | bin (width : Width) (op : IntBin)
  /-- The 64-bit integer with the value of a 32-bit one without a sign. -/
  | extend
  /-- An operation on floats or a conversion, by its opcode. -/
  | numeric (opcode : Nat)
  /-- A conversion that never traps, by its opcode. -/
  | saturate (opcode : Nat)
  | ref (op : RefOp)
  | object (op : ObjectOp)
  | table (op : TableOp)
  | range (op : RangeOp)
  | vector (op : VectorOp)
  /-- An access that no other can interrupt, by its opcode. -/
  | atomic (opcode : Nat) (arg : MemArg)
  | fence
deriving DecidableEq, Inhabited, Repr

/-- An instruction of the flat form. -/
inductive Token where
  | plain (op : Op)
  | block (ty : BlockType)
  | loop (ty : BlockType)
  | cond (ty : BlockType)
  | tryTable (ty : BlockType) (catches : List Catch)
  | orElse
  | finish
deriving DecidableEq, Inhabited, Repr

/-- An instruction of the structured form. -/
inductive Instr where
  | plain (op : Op)
  | block (ty : BlockType) (body : List Instr)
  | loop (ty : BlockType) (body : List Instr)
  | cond (ty : BlockType) (thenBody elseBody : List Instr)
  | tryTable (ty : BlockType) (catches : List Catch) (body : List Instr)
deriving Inhabited, Repr

/-! ## The flat form -/

mutual

/-- The flat form of an instruction. An empty alternative is not written. -/
def Instr.tokens : Instr → List Token
  | .plain op => [.plain op]
  | .block ty body => .block ty :: (tokensList body ++ [.finish])
  | .loop ty body => .loop ty :: (tokensList body ++ [.finish])
  | .cond ty thenBody elseBody =>
    .cond ty :: (tokensList thenBody ++
      (if elseBody.isEmpty then [] else .orElse :: tokensList elseBody) ++ [.finish])
  | .tryTable ty catches body => .tryTable ty catches :: (tokensList body ++ [.finish])

/-- The flat form of a sequence. -/
def tokensList : List Instr → List Token
  | [] => []
  | instr :: rest => Instr.tokens instr ++ tokensList rest

end

/-- A block whose end was not reached yet, with what stands before it, last first. -/
inductive OpenBlock where
  | block (ty : BlockType) (before : List Instr)
  | loop (ty : BlockType) (before : List Instr)
  | cond (ty : BlockType) (before : List Instr)
  /-- The alternative of a condition, with the other branch. -/
  | orElse (ty : BlockType) (thenBody before : List Instr)
  | tryTable (ty : BlockType) (catches : List Catch) (before : List Instr)
deriving Inhabited

/-- What stands up to the end of a block, last first. -/
def OpenBlock.close (body : List Instr) : OpenBlock → List Instr
  | .block ty before => .block ty body :: before
  | .loop ty before => .loop ty body :: before
  | .cond ty before => .cond ty body [] :: before
  | .orElse ty thenBody before => .cond ty thenBody body :: before
  | .tryTable ty catches before => .tryTable ty catches body :: before

/-- Reads the flat form, with what was read of the innermost open block, last first, and the open
blocks around it. -/
def Instr.nest : List Token → (done : List Instr) → List OpenBlock → Option (List Instr)
  | [], _, _ => none
  | .plain op :: rest, done, around => nest rest (.plain op :: done) around
  | .block ty :: rest, done, around => nest rest [] (.block ty done :: around)
  | .loop ty :: rest, done, around => nest rest [] (.loop ty done :: around)
  | .cond ty :: rest, done, around => nest rest [] (.cond ty done :: around)
  | .tryTable ty catches :: rest, done, around => nest rest [] (.tryTable ty catches done :: around)
  | .orElse :: rest, done, .cond ty before :: around =>
    nest rest [] (.orElse ty done.reverse before :: around)
  | .orElse :: _, _, _ => none
  | .finish :: rest, done, [] => if rest.isEmpty then some done.reverse else none
  | .finish :: rest, done, inner :: around => nest rest (inner.close done.reverse) around

/-- The structured form of code that ends with its one unmatched end. -/
def Instr.ofTokens? (tokens : List Token) : Option (List Instr) :=
  nest tokens [] []

end StaticChain.Wasm
