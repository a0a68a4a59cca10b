import StaticChain.Wasm.Memory
import StaticChain.Wasm.Validity

/-!
# Running WebAssembly

The meaning of the instructions that generated code is made of, as the standard gives it. A running
call is a stack of frames; a frame has locals, operands, the code that is left in its innermost
block and a label for each block around it (`Frame`). Beside the frames stands what all calls share:
the globals and the memory (`Instance`). `State.step` executes one instruction, and
`Module.fresh?` and `Module.invoke?` start from a module that imports nothing.

One thing is left open by the standard: a memory that may grow can still be refused more pages. The
host decides, request by request, so every statement about runs is one about all hosts. What the
semantics does not cover, and code that is not well typed, is stuck.
-/

namespace StaticChain.Wasm

/-! ## Values -/

inductive Val where
  | i32 (bits : BitVec 32)
  | i64 (bits : BitVec 64)
deriving DecidableEq, Inhabited, Repr

def Val.type : Val → ValType
  | .i32 _ => .i32
  | .i64 _ => .i64

/-- What a local holds before it is set. -/
def ValType.zero? : ValType → Option Val
  | .i32 => some (.i32 0)
  | .i64 => some (.i64 0)
  | _ => none

/-- Why code cannot go on. -/
inductive Trap where
  | unreachable
  | outOfBounds
  | divisionByZero
  | overflow
deriving DecidableEq, Inhabited, Repr

def truth (b : Bool) : Val := .i32 (if b then 1 else 0)

section

variable {n : Nat}

/-- Operations wrap around. The quotient of the least integer and minus one cannot be represented;
shifts take their distance modulo the width. -/
def IntBin.eval (op : IntBin) (x y : BitVec n) : Except Trap (BitVec n) :=
  match op with
  | .add => .ok (x + y)
  | .sub => .ok (x - y)
  | .mul => .ok (x * y)
  | .divS =>
    if y = 0 then .error .divisionByZero
    else if x = BitVec.intMin n ∧ y = -1 then .error .overflow
    else .ok (x.sdiv y)
  | .divU => if y = 0 then .error .divisionByZero else .ok (x / y)
  | .remS => if y = 0 then .error .divisionByZero else .ok (x.srem y)
  | .remU => if y = 0 then .error .divisionByZero else .ok (x % y)
  | .and => .ok (x &&& y)
  | .or => .ok (x ||| y)
  | .xor => .ok (x ^^^ y)
  | .shl => .ok (x <<< (y.toNat % n))
  | .shrS => .ok (x.sshiftRight (y.toNat % n))
  | .shrU => .ok (x >>> (y.toNat % n))
  | .rotl => .ok (x.rotateLeft y.toNat)
  | .rotr => .ok (x.rotateRight y.toNat)

def IntRel.eval (op : IntRel) (x y : BitVec n) : Bool :=
  match op with
  | .eq => x == y
  | .ne => x != y
  | .ltS => x.slt y
  | .ltU => x.ult y
  | .gtS => y.slt x
  | .gtU => y.ult x
  | .leS => x.sle y
  | .leU => x.ule y
  | .geS => y.sle x
  | .geU => y.ule x

end

/-! ## Memory -/

/-- The bytes of a memory; those beyond its size are not there yet. -/
structure LinearMemory where
  bytes : Nat → BitVec 8
  pages : Nat
  limit : Option Nat

namespace LinearMemory

variable (mem : LinearMemory)

def size : Nat := mem.pages * 65536

/-- Some bytes from an address on, the lowest first. -/
def read : (count address : Nat) → BitVec (8 * count)
  | 0, _ => 0
  | count + 1, address => read count (address + 1) ++ mem.bytes address

/-- Puts some bytes at an address, the lowest first. -/
def write (count address : Nat) (bits : BitVec (8 * count)) : LinearMemory :=
  { mem with bytes := fun i =>
      if address ≤ i ∧ i < address + count then bits.extractLsb' (8 * (i - address)) 8
      else mem.bytes i }

/-- Adds pages, if that many fit. -/
def grow? (delta : Nat) : Option LinearMemory :=
  let pages := mem.pages + delta
  if pages ≤ 65536 ∧ mem.limit.all (pages ≤ ·) = true then some { mem with pages } else none

end LinearMemory

/-- What the calls of a module share. -/
structure Instance where
  globals : List Val
  memory : LinearMemory
  /-- How often the memory was asked to grow. -/
  requests : Nat

/-- Which requests for more memory a host grants, by their number. -/
abbrev Host := Nat → Bool

/-- Asks for more pages; the answer is the number of pages before, or minus one. -/
def Instance.grow (host : Host) (inst : Instance) (delta : BitVec 32) : Val × Instance :=
  let refused := (.i32 (-1), { inst with requests := inst.requests + 1 })
  if host inst.requests then
    match inst.memory.grow? delta.toNat with
    | some memory =>
      (.i32 (BitVec.ofNat 32 inst.memory.pages), { inst with memory, requests := inst.requests + 1 })
    | none => refused
  else refused

/-! ## Instructions without control -/

/-- The operands and the rest of what an instruction without control works on. -/
structure Data where
  locals : List Val
  stack : List Val
  inst : Instance

/-- What an instruction without control does. -/
inductive Done where
  | done (data : Data)
  | trap (trap : Trap)
  | stuck

namespace Data

variable (d : Data)

def push (v : Val) : Done := .done { d with stack := v :: d.stack }

def pushSome : Option Val → Done
  | some v => d.push v
  | none => .stuck

def bin (op : IntBin) : Width → List Val → Done
  | .w32, .i32 y :: .i32 x :: stack =>
    match op.eval x y with
    | .ok z => .done { d with stack := .i32 z :: stack }
    | .error trap => .trap trap
  | .w64, .i64 y :: .i64 x :: stack =>
    match op.eval x y with
    | .ok z => .done { d with stack := .i64 z :: stack }
    | .error trap => .trap trap
  | _, _ => .stuck

def rel (op : IntRel) : Width → List Val → Done
  | .w32, .i32 y :: .i32 x :: stack => .done { d with stack := truth (op.eval x y) :: stack }
  | .w64, .i64 y :: .i64 x :: stack => .done { d with stack := truth (op.eval x y) :: stack }
  | _, _ => .stuck

def eqz : Width → List Val → Done
  | .w32, .i32 x :: stack => .done { d with stack := truth (x == 0) :: stack }
  | .w64, .i64 x :: stack => .done { d with stack := truth (x == 0) :: stack }
  | _, _ => .stuck

def load (offset : Nat) : Width → List Val → Done
  | .w32, .i32 x :: stack =>
    if x.toNat + offset + 4 ≤ d.inst.memory.size then
      .done { d with stack := .i32 (d.inst.memory.read 4 (x.toNat + offset)) :: stack }
    else .trap .outOfBounds
  | .w64, .i32 x :: stack =>
    if x.toNat + offset + 8 ≤ d.inst.memory.size then
      .done { d with stack := .i64 (d.inst.memory.read 8 (x.toNat + offset)) :: stack }
    else .trap .outOfBounds
  | _, _ => .stuck

def store (offset : Nat) : Width → List Val → Done
  | .w32, .i32 y :: .i32 x :: stack =>
    if x.toNat + offset + 4 ≤ d.inst.memory.size then
      .done { d with
        stack, inst := { d.inst with memory := d.inst.memory.write 4 (x.toNat + offset) y } }
    else .trap .outOfBounds
  | .w64, .i64 y :: .i32 x :: stack =>
    if x.toNat + offset + 8 ≤ d.inst.memory.size then
      .done { d with
        stack, inst := { d.inst with memory := d.inst.memory.write 8 (x.toNat + offset) y } }
    else .trap .outOfBounds
  | _, _ => .stuck

def localSet (index : Nat) : List Val → Done
  | v :: stack =>
    if index < d.locals.length then .done { d with locals := d.locals.set index v, stack }
    else .stuck
  | [] => .stuck

def globalSet (index : Nat) : List Val → Done
  | v :: stack =>
    if index < d.inst.globals.length then
      .done { d with stack, inst := { d.inst with globals := d.inst.globals.set index v } }
    else .stuck
  | [] => .stuck

def grow (host : Host) : List Val → Done
  | .i32 delta :: stack =>
    let (answer, inst) := d.inst.grow host delta
    .done { d with stack := answer :: stack, inst }
  | _ => .stuck

def extend : List Val → Done
  | .i32 x :: stack => .done { d with stack := .i64 (x.setWidth 64) :: stack }
  | _ => .stuck

def drop : List Val → Done
  | _ :: stack => .done { d with stack }
  | [] => .stuck

/-- Executes an instruction without control. -/
def exec (host : Host) : Op → Done
  | .nop => .done d
  | .drop => d.drop d.stack
  | .localGet index => d.pushSome d.locals[index]?
  | .localSet index => d.localSet index d.stack
  | .globalGet index => d.pushSome d.inst.globals[index]?
  | .globalSet index => d.globalSet index d.stack
  | .load width arg => d.load arg.offset width d.stack
  | .store width arg => d.store arg.offset width d.stack
  | .memorySize 0 => d.push (.i32 (BitVec.ofNat 32 d.inst.memory.pages))
  | .memoryGrow 0 => d.grow host d.stack
  | .const32 value => d.push (.i32 value.toBitVec)
  | .const64 value => d.push (.i64 value.toBitVec)
  | .eqz width => d.eqz width d.stack
  | .rel width op => d.rel op width d.stack
  | .bin width op => d.bin op width d.stack
  | .extend => d.extend d.stack
  | _ => .stuck

end Data

/-! ## Control -/

/-- A block that is open: how many operands a branch to it takes along, the code with which the
branch goes on, the code after the block and the operands below it. -/
structure Label where
  arity : Nat
  target : List Instr
  after : List Instr
  below : List Val

structure Frame where
  locals : List Val
  /-- The operands of the innermost block, top first. -/
  stack : List Val
  /-- The code that is left in the innermost block. -/
  code : List Instr
  /-- The blocks that are open, innermost first. -/
  labels : List Label
  /-- The number of results. -/
  arity : Nat

structure State where
  frame : Frame
  /-- The frames that wait, innermost first. -/
  callers : List Frame
  inst : Instance

/-- What follows an instruction. -/
inductive Next where
  | running (s : State)
  | returned (results : List Val) (inst : Instance)
  | trapped (trap : Trap) (s : State)
  | stuck

/-- What was returned, if the call is over and has returned. -/
def Next.results? : Next → Option (List Val)
  | .returned results _ => some results
  | _ => none

theorem Next.exists_of_results? {ended : Next} {results : List Val} (h : ended.results? = some results) :
    ∃ inst, ended = .returned results inst := by
  cases ended with
  | returned results' inst =>
    cases h
    exact ⟨inst, rfl⟩
  | _ => cases h

namespace Module

variable (m : Module)

def funcType? (type : Nat) : Option FuncType :=
  match (m.types.flatMap TypeGroup.members)[type]? with
  | some { body := .func type, .. } => some type
  | _ => none

/-- The number of parameters and results of a block. -/
def blockArity? : BlockType → Option (Nat × Nat)
  | .empty => some (0, 0)
  | .result _ => some (0, 1)
  | .func type => (m.funcType? type).map fun type => (type.params.length, type.results.length)

/-- A function that can be called. -/
structure Callee where
  type : FuncType
  /-- What the locals after the parameters start with. -/
  locals : List Val
  body : List Instr

/-- A defined function; imported ones are the first numbers. -/
def callee? (index : Nat) : Option Callee := do
  let type ← m.funcType? (← m.allFunctions[index]?)
  guard (m.allFunctions.length ≤ index + m.functions.length)
  let code ← m.code[index + m.functions.length - m.allFunctions.length]?
  let locals ← code.locals.mapM ValType.zero?
  let body ← Instr.ofTokens? code.body
  return { type, locals, body }

/-- The frame of a call, with the arguments in order. -/
def Callee.frame (callee : Callee) (args : List Val) : Frame where
  locals := args ++ callee.locals
  stack := []
  code := callee.body
  labels := []
  arity := callee.type.results.length

end Module

namespace State

variable (s : State)

/-- Goes on with some code and operands in the active frame. -/
def goOn (code : List Instr) (stack : List Val) (labels : List Label) : Next :=
  .running { s with frame := { s.frame with code, stack, labels } }

/-- Gives results back to the caller, or ends the run. -/
def leave (stack : List Val) : Next :=
  if s.frame.arity ≤ stack.length then
    let results := stack.take s.frame.arity
    match s.callers with
    | [] => .returned results.reverse s.inst
    | caller :: callers =>
      .running { s with frame := { caller with stack := results ++ caller.stack }, callers }
  else .stuck

/-- Branches to a label; the label after the last one is the function itself. -/
def branch (label : Nat) (stack : List Val) : Next :=
  match s.frame.labels.drop label with
  | found :: labels =>
    if found.arity ≤ stack.length then
      s.goOn (found.target ++ found.after) (stack.take found.arity ++ found.below) labels
    else .stuck
  | [] => if label = s.frame.labels.length then s.leave stack else .stuck

/-- Opens a block that takes some operands. -/
def openBlock (params arity : Nat) (target body rest : List Instr) (stack : List Val) : Next :=
  if params ≤ stack.length then
    s.goOn body (stack.take params)
      (⟨arity, target, rest, stack.drop params⟩ :: s.frame.labels)
  else .stuck

/-- Calls a function, which takes its arguments from the stack, and goes on after it with some
code. -/
def call (callee : Module.Callee) (rest : List Instr) (stack : List Val) : Next :=
  let count := callee.type.params.length
  if count ≤ stack.length then
    .running { s with
      frame := callee.frame (stack.take count).reverse
      callers := { s.frame with code := rest, stack := stack.drop count } :: s.callers }
  else .stuck

/-- Goes on after an instruction without control. -/
def after (rest : List Instr) : Done → Next
  | .done d => .running { s with
      frame := { s.frame with locals := d.locals, stack := d.stack, code := rest }, inst := d.inst }
  | .trap trap => .trapped trap s
  | .stuck => .stuck

/-- Executes an instruction that holds no others. -/
def plain (host : Host) (m : Module) (rest : List Instr) : Op → Next
  | .unreachable => .trapped .unreachable s
  | .br label => s.branch label s.frame.stack
  | .brIf label =>
    match s.frame.stack with
    | .i32 x :: stack => if x = 0 then s.goOn rest stack s.frame.labels else s.branch label stack
    | _ => .stuck
  | .ret => s.leave s.frame.stack
  | .call index =>
    match m.callee? index with
    | some callee => s.call callee rest s.frame.stack
    | none => .stuck
  | op => s.after rest (Data.exec ⟨s.frame.locals, s.frame.stack, s.inst⟩ host op)

/-- Opens a block whose end a branch goes to. -/
def enterBlock (m : Module) (ty : BlockType) (body rest : List Instr) (stack : List Val) : Next :=
  match m.blockArity? ty with
  | some (params, results) => s.openBlock params results [] body rest stack
  | none => .stuck

/-- Opens a block whose start a branch goes to. -/
def enterLoop (m : Module) (ty : BlockType) (body rest : List Instr) (stack : List Val) : Next :=
  match m.blockArity? ty with
  | some (params, _) => s.openBlock params params [.loop ty body] body rest stack
  | none => .stuck

/-- Executes one instruction, or closes a block at its end. -/
def step (host : Host) (m : Module) : Next :=
  match s.frame.code with
  | [] =>
    match s.frame.labels with
    | [] => s.leave s.frame.stack
    | label :: labels => s.goOn label.after (s.frame.stack ++ label.below) labels
  | .plain op :: rest => s.plain host m rest op
  | .block ty body :: rest => s.enterBlock m ty body rest s.frame.stack
  | .loop ty body :: rest => s.enterLoop m ty body rest s.frame.stack
  | .cond ty thenBody elseBody :: rest =>
    match s.frame.stack with
    | .i32 x :: stack => s.enterBlock m ty (if x = 0 then elseBody else thenBody) rest stack
    | _ => .stuck
  | .tryTable _ _ _ :: _ => .stuck

/-- Executes at most so many instructions; a run that is not over after them is still running. -/
def run (host : Host) (m : Module) : (steps : Nat) → State → Next
  | 0, s => .running s
  | steps + 1, s =>
    match s.step host m with
    | .running s => run host m steps s
    | ended => ended

end State

/-! ## Modules -/

/-- The value of an expression that is one constant. -/
def constant? : ConstExpr → Option Val
  | [.const32 value] => some (.i32 value.toBitVec)
  | [.const64 value] => some (.i64 value.toBitVec)
  | _ => none

namespace Module

variable (m : Module)

/-- A new instance of a module that imports nothing, has one memory without content and runs no code
at the start. -/
def fresh? : Option Instance := do
  guard (m.imports.isEmpty && m.data.isEmpty && m.start.isNone)
  let [type] := m.memories | none
  return {
    globals := ← m.globals.mapM fun global => constant? global.init
    memory := ⟨fun _ => 0, type.limits.min, type.limits.max⟩
    requests := 0 }

/-- The function that is exported under a name. -/
def exported? (name : String) : Option Nat :=
  (m.exports.find? fun e => e.name == name && e.kind == .func).map Export.index

/-- The start of a call of an exported function in a new instance, with arguments of its types. -/
def invoke? (name : String) (args : List Val) : Option State := do
  let inst ← m.fresh?
  let callee ← m.callee? (← m.exported? name)
  guard (args.map Val.type == callee.type.params)
  return ⟨callee.frame args, [], inst⟩

end Module

/-! ## Memory that is used up -/

/-- The stack of a generated module has no room left, or its heap reaches beyond the memory. -/
def Instance.Exhausted (inst : Instance) : Prop :=
  ∃ heap stack : BitVec 32, inst.globals = [.i32 heap, .i32 stack] ∧
    (stack.ult Memory.stackLimit.toBitVec = true ∨ inst.memory.size < heap.toNat)

end StaticChain.Wasm
