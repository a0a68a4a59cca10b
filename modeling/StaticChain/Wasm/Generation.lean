import StaticChain.Wasm.Memory
import StaticChain.Wasm.Validity

/-!
# Generating WebAssembly

`Wasm.generate` is the WebAssembly module of a low-level module. The allocator is function zero and
every function follows with its number plus one. Locals keep their numbers, so a context is local
zero, and every value has a local of its own after them. A function with stack objects keeps the
stack pointer of its start in one more local.

A closure is a pair in the heap. A call through a closure compares its function number with every
function of which a closure is made somewhere and whose signature fits.
-/

namespace StaticChain.Wasm

open Lir (ValueId FunctionId Inst)

def ofTy : Lir.Ty → ValType
  | .i64 => .i64
  | .ptr => .i32
  | .closure => .i32

/-- Numbers of functions and locals have 32 bits. -/
def index32 (n : Nat) : Nat := n % UInt32.size

/-- The number of a function after the allocator. -/
def functionIndex (id : FunctionId) : Nat := index32 (id.index + 1)

def signature (f : Lir.Function) : FuncType :=
  ⟨f.callParams.map ofTy, f.ret.toList.map ofTy⟩

/-- The functions of which a closure is made. -/
def closureTargets (m : Lir.Module) : List Lir.Function :=
  let made := (m.functions.toList.flatMap fun f => Lir.allInsts f.body).filterMap fun
    | .makeClosure _ function _ => some function
    | _ => none
  (m.functions.toList.zipIdx.filter fun (_, i) => made.contains ⟨i⟩).map Prod.fst

def allocatesOnStack (f : Lir.Function) : Bool :=
  (Lir.allInsts f.body).any (· matches .alloc _ _ .stack)

/-- What the code of a function depends on. -/
structure Site where
  module : Lir.Module
  function : Lir.Function
  memory : Memory
  targets : List Lir.Function
deriving Inhabited

namespace Site

variable (s : Site)

/-- The local that keeps the stack pointer. -/
def saved? : Option Nat :=
  if allocatesOnStack s.function then
    some (index32 (s.function.locals.size + s.function.valueTypes.size))
  else none

def fail (flaw : FunctionFlaw) : Except Error α :=
  .error (.function s.function.name s.function.decl flaw)

/-- The local of a value. -/
def value (id : ValueId) : Nat := index32 (s.function.locals.size + id.index)

def get (id : ValueId) : Instr := .plain (.localGet (s.value id))

def set (id : ValueId) : Instr := .plain (.localSet (s.value id))

/-- The instructions of an operator; comparisons give a 32-bit integer. -/
def binary : Lir.BinOp → List Instr
  | .add => [.plain (.bin .w64 .add)]
  | .sub => [.plain (.bin .w64 .sub)]
  | .mul => [.plain (.bin .w64 .mul)]
  | .div => [.plain (.bin .w64 .divS)]
  | .rem => [.plain (.bin .w64 .remS)]
  | .eq => [.plain (.rel .w64 .eq), .plain .extend]
  | .ne => [.plain (.rel .w64 .ne), .plain .extend]
  | .lt => [.plain (.rel .w64 .ltS), .plain .extend]
  | .le => [.plain (.rel .w64 .leS), .plain .extend]
  | .gt => [.plain (.rel .w64 .gtS), .plain .extend]
  | .ge => [.plain (.rel .w64 .geS), .plain .extend]

def unary (operand : ValueId) : Lir.UnaryOp → List Instr
  | .neg => [.plain (.const64 0), s.get operand, .plain (.bin .w64 .sub)]
  | .eqz => [s.get operand, .plain (.eqz .w64), .plain .extend]

/-- The width in which a value is loaded and stored. -/
def width : Lir.Ty → Width
  | .i64 => .w64
  | .ptr => .w32
  | .closure => .w32

/-- Puts the result of a call where it belongs. -/
def finishCall (dest : Option ValueId) (returns : Bool) : List Instr :=
  match dest, returns with
  | some dest, true => [s.set dest]
  | none, true => [.plain .drop]
  | _, false => []

/-- Calls one target of a closure, if it is the closure's function. -/
def callTarget (dest : Option ValueId) (closure : ValueId) (args : List ValueId)
    (target : Lir.Function) : List Instr :=
  [s.get closure, .plain (.load .w32 Memory.closureFunction),
    .plain (.const32 (Int32.ofNat target.id.index)), .plain (.rel .w32 .eq),
    .cond .empty
      ((if target.hasContext
          then [s.get closure, .plain (.load .w32 Memory.closureContext)] else []) ++
        args.map s.get ++ [.plain (.call (functionIndex target.id))] ++
        s.finishCall dest target.ret.isSome ++ [.plain (.br 1)]) []]

/-- Tries the targets one after the other; a closure of none of them traps. -/
def callClosure (dest : Option ValueId) (closure : ValueId) (args : List ValueId)
    (sig : Lir.Signature) : List Instr :=
  let fitting := s.targets.filter fun target => target.params == sig.params && target.ret == sig.ret
  [.block .empty (fitting.flatMap (s.callTarget dest closure args) ++ [.plain .unreachable])]

/-- Sets the stack back, puts the result on the operand stack and leaves the function. -/
def leave (value : Option ValueId) : List Instr :=
  s.saved?.elim [] s.memory.restoreStack ++ value.toList.map s.get ++ [.plain .ret]

mutual

/-- The code of an instruction. -/
def inst (s : Site) : Inst → Except Error (List Instr)
  | .const dest value => .ok [.plain (.const64 value), s.set dest]
  | .null dest => .ok [.plain (.const32 0), s.set dest]
  | .binary dest op lhs rhs => .ok ([s.get lhs, s.get rhs] ++ binary op ++ [s.set dest])
  | .unary dest op operand => .ok (s.unary operand op ++ [s.set dest])
  | .localGet dest source => .ok [.plain (.localGet source.index), s.set dest]
  | .localSet target value => .ok [s.get value, .plain (.localSet target.index)]
  | .alloc dest struct kind =>
    match s.module.struct? struct with
    | none => s.fail (.structUnknown struct)
    | some layout =>
      let size := Memory.slotOffset layout.slots.length
      .ok ((match kind with
        | .heap => s.memory.heapAlloc size
        | .stack => s.memory.stackAlloc size) ++ [s.set dest])
  | .fieldAddr dest base _ slot =>
    .ok [s.get base, .plain (.const32 (Memory.slotOffset slot).toInt32), .plain (.bin .w32 .add),
      s.set dest]
  | .load dest addr ty =>
    .ok [s.get addr, .plain (.load (width ty) (Memory.arg (width ty))), s.set dest]
  | .store addr value ty =>
    .ok [s.get addr, s.get value, .plain (.store (width ty) (Memory.arg (width ty)))]
  | .call dest function args =>
    match s.module.function? function with
    | none => s.fail (.functionUnknown function)
    | some callee =>
      .ok (args.map s.get ++ [.plain (.call (functionIndex function))] ++
        s.finishCall dest callee.ret.isSome)
  | .makeClosure dest function context =>
    .ok (s.memory.heapAlloc Memory.closureSize ++
      [s.set dest, s.get dest, .plain (.const32 (Int32.ofNat function.index)),
        .plain (.store .w32 Memory.closureFunction),
        s.get dest, s.get context, .plain (.store .w32 Memory.closureContext)])
  | .callClosure dest closure args sig => .ok (s.callClosure dest closure args sig)
  | .branch condition thenBody elseBody => do
    let thenCode ← insts s thenBody
    let elseCode ← insts s elseBody
    return [s.get condition, .plain (.const64 0), .plain (.rel .w64 .ne),
      .cond .empty thenCode elseCode]
  | .loop header condition body => do
    let headerCode ← insts s header
    let bodyCode ← insts s body
    return [.block .empty [.loop .empty
      (headerCode ++ [s.get condition, .plain (.eqz .w64), .plain (.brIf 1)] ++ bodyCode ++
        [.plain (.br 0)])]]
  | .ret value => .ok (s.leave value)
  | .unreachable => .ok [.plain .unreachable]

/-- The code of a sequence. -/
def insts (s : Site) : List Inst → Except Error (List Instr)
  | [] => .ok []
  | first :: rest => do
    let firstCode ← inst s first
    let restCode ← insts s rest
    return firstCode ++ restCode

end

/-- The locals after the parameters. -/
def locals : List ValType :=
  (s.function.locals.toList.drop s.function.callParams.length ++ s.function.valueTypes.toList).map
    ofTy ++ s.saved?.toList.map fun _ => .i32

/-- The body of the function. -/
def body : Except Error (List Instr) := do
  if s.function.locals.size < s.function.callParams.length then
    s.fail .fewerLocalsThanParams
  else
    return s.saved?.elim [] s.memory.saveStack ++ (← s.insts s.function.body)

def code : Except Error Code := do
  return ⟨s.locals, Memory.bodyTokens (← s.body)⟩

end Site

/-- Declares the functions of a module. -/
def declareAll (functions : List Lir.Function) (m : Module) : Module :=
  functions.foldl (fun m f =>
    let (type, m) := m.addType (signature f)
    (m.declare type).2) m

/-- Adds a body, and an export for a function that a host can call. -/
def define (lir : Lir.Module) (memory : Memory) (m : Module) (f : Lir.Function) :
    Except Error Module := do
  let code ← Site.code ⟨lir, f, memory, closureTargets lir⟩
  let m ← m.addBody code
  if f.hasContext then return m else m.addExport ⟨f.name, .func, functionIndex f.id⟩

/-- The module, not yet found valid. -/
def assemble (lir : Lir.Module) : Except Error Module := do
  let (memory, m) := Memory.setup {} {}
  let m := declareAll lir.functions.toList m
  let m ← lir.functions.toList.foldlM (define lir (← memory)) m
  m.finish

/-- The WebAssembly module of a low-level module. -/
def generate (lir : Lir.Module) : Except Error Module := do
  let m ← assemble lir
  if m.isValid then return m else throw .invalid

end StaticChain.Wasm
