import StaticChain.Machine.Store

/-!
# Activations

An `Activation` is one call of a function while it runs: its values, its locals, the objects that
end with it and the blocks that are open in it, innermost first. `Activation.settle` closes the
blocks that are at their end and finds the next instruction. `Activation.effect` computes what that
instruction does and is the only place where it can fault: it changes nothing, and
`Activation.apply` carries out an effect that was found.
-/

namespace StaticChain.Machine

open Lir (ValueId LocalId FunctionId StructId AllocKind Inst)

/-- The code of a loop. -/
structure LoopCode where
  header : List Inst
  condition : ValueId
  body : List Inst
deriving Inhabited, Repr

/-- What an open block is part of. -/
inductive BlockKind where
  | straight
  | header (loop : LoopCode)
  | body (loop : LoopCode)
deriving Inhabited, Repr

/-- An open block: the instructions that are left in it. -/
structure Block where
  rest : List Inst
  kind : BlockKind
deriving Inhabited, Repr

/-- Where control is after the blocks at their end are closed. -/
inductive Position where
  /-- At an instruction, with the blocks that are open after it is taken. -/
  | next (inst : Inst) (blocks : List Block)
  | fault (fault : Fault)
  /-- In a loop without any instruction whose condition holds. -/
  | stuck
deriving Inhabited

/-- The first instruction of the next round of a loop, which starts with its body. -/
def LoopCode.round (loop : LoopCode) (outer : List Block) : Position :=
  match loop.body, loop.header with
  | inst :: rest, _ => .next inst (⟨rest, .body loop⟩ :: outer)
  | [], inst :: rest => .next inst (⟨rest, .header loop⟩ :: outer)
  | [], [] => .stuck

structure Activation where
  function : Lir.Function
  values : Array (Option Value)
  locals : Array (Option Value)
  /-- The objects that are released when the function returns. -/
  owned : List ObjectId
  /-- The open blocks, innermost first. -/
  blocks : List Block
  /-- Where the caller keeps the result. -/
  dest : Option ValueId
deriving Inhabited, Repr

namespace Activation

/-- The start of a call. -/
def enter (function : Lir.Function) (args : List Value) (dest : Option ValueId) :
    Except Fault Activation :=
  let expected := function.callParams.length
  if args.length = expected then
    .ok {
      function
      values := Array.replicate function.valueTypes.size none
      locals := args.zipIdx.foldl (fun locals (arg, index) => locals.setIfInBounds index (some arg))
        (Array.replicate function.locals.size none)
      owned := []
      blocks := [⟨function.body, .straight⟩]
      dest }
  else .error (.argumentCount function.name expected args.length)

variable (a : Activation)

/-! ## Values and locals -/

def value (id : ValueId) : Except Fault Value :=
  match a.values[id.index]? with
  | some (some value) => .ok value
  | _ => .error (.valueUndefined id)

def int (id : ValueId) : Except Fault Int64 := do
  (← a.value id).int?

/-- Gives a value to a destination; an unknown one is ignored. -/
def define (id : ValueId) (value : Value) : Activation :=
  { a with values := a.values.setIfInBounds id.index (some value) }

def «local» (id : LocalId) : Except Fault Value :=
  match a.locals[id.index]? with
  | some (some value) => .ok value
  | _ => .error (.localUnset id a.function.name)

def assign (id : LocalId) (value : Value) : Activation :=
  { a with locals := a.locals.setIfInBounds id.index (some value) }

/-! ## Blocks -/

def openBlock (block : Block) : Activation := { a with blocks := block :: a.blocks }

/-- Closes the blocks at their end. The end of a loop's header tests the condition; the end of its
body goes back to the header. -/
def settle : List Block → Position
  | [] => .fault (.bodyEnded a.function.name)
  | ⟨inst :: rest, kind⟩ :: outer => .next inst (⟨rest, kind⟩ :: outer)
  | ⟨[], .straight⟩ :: outer => settle outer
  | ⟨[], .header loop⟩ :: outer =>
    match a.int loop.condition with
    | .error fault => .fault fault
    | .ok condition => if condition = 0 then settle outer else LoopCode.round loop outer
  | ⟨[], .body loop⟩ :: outer =>
    match loop.header with
    | inst :: rest => .next inst (⟨rest, .header loop⟩ :: outer)
    | [] =>
      match a.int loop.condition with
      | .error fault => .fault fault
      | .ok condition => if condition = 0 then settle outer else LoopCode.round loop outer

/-! ## Instructions -/

end Activation

/-- What an instruction does. -/
inductive Effect where
  | define (dest : ValueId) (value : Value)
  | assign (target : LocalId) (value : Value)
  | allocate (dest : ValueId) (struct : StructId) (kind : AllocKind) (slots : Nat)
  | write (object : ObjectId) (slot : Nat) (value : Value)
  | enter (block : Block)
  | call (dest : Option ValueId) (function : FunctionId) (args : List Value)
  | ret (value : Option Value)
deriving Inhabited, Repr

/-- The value of an operator. Sums, differences and products wrap around; quotients are rounded
towards zero and remainders have the sign of the dividend. -/
def binary (op : Lir.BinOp) (lhs rhs : Int64) : Except Fault Value :=
  match op with
  | .add => .ok (.int (lhs + rhs))
  | .sub => .ok (.int (lhs - rhs))
  | .mul => .ok (.int (lhs * rhs))
  | .div => if rhs = 0 then .error .divisionByZero else .ok (.int (lhs / rhs))
  | .rem => if rhs = 0 then .error .divisionByZero else .ok (.int (lhs % rhs))
  | .eq => .ok (.ofBool (lhs == rhs))
  | .ne => .ok (.ofBool (lhs != rhs))
  | .lt => .ok (.ofBool (lhs < rhs))
  | .le => .ok (.ofBool (lhs ≤ rhs))
  | .gt => .ok (.ofBool (rhs < lhs))
  | .ge => .ok (.ofBool (rhs ≤ lhs))

def unary (op : Lir.UnaryOp) (operand : Int64) : Value :=
  match op with
  | .neg => .int (-operand)
  | .eqz => .ofBool (operand == 0)

/-- The object and the slot that an address names. -/
def Value.slot? : Value → Except Fault (ObjectId × Nat)
  | .slot owner index => .ok (owner, index)
  | other => .error (.notASlot other)

/-- The context of a new closure. -/
def Value.context? : Value → Except Fault (Option ObjectId)
  | .null => .ok none
  | .object id => .ok (some id)
  | other => .error (.contextNotPointer other)

namespace Activation

variable (a : Activation)

/-- The object of which a slot is addressed. -/
def base (id : ValueId) : Except Fault ObjectId := do
  match ← a.value id with
  | .object id => return id
  | .null => throw (.nullContext a.function.name)
  | other => throw (.notAnObject other a.function.name)

/-- What an instruction does. -/
def effect (m : Lir.Module) (s : Store) : Inst → Except Fault Effect
  | .const dest value => return .define dest (.int value)
  | .null dest => return .define dest .null
  | .binary dest op lhs rhs => do
    let lhs ← a.int lhs
    let rhs ← a.int rhs
    return .define dest (← Machine.binary op lhs rhs)
  | .unary dest op operand => return .define dest (Machine.unary op (← a.int operand))
  | .localGet dest source => return .define dest (← a.local source)
  | .localSet target value => do
    let value ← a.value value
    if target.index < a.locals.size then return .assign target value
    else throw (.localUndeclared target a.function.name)
  | .alloc dest struct kind =>
    match m.struct? struct with
    | some layout => return .allocate dest struct kind layout.slots.length
    | none => throw (.structUnknown struct)
  | .fieldAddr dest base struct slot => do
    let base ← a.base base
    let actual := (← s.object base).struct
    if actual = struct then return .define dest (.slot base slot)
    else throw (.structMismatch base actual struct)
  | .load dest addr _ => do
    let (object, slot) ← (← a.value addr).slot?
    return .define dest (← s.read object slot)
  | .store addr value _ => do
    let (object, slot) ← (← a.value addr).slot?
    let value ← a.value value
    s.checkSlot object slot
    return .write object slot value
  | .call dest function args => return .call dest function (← args.mapM a.value)
  | .makeClosure dest function context =>
    return .define dest (.closure function (← (← a.value context).context?))
  | .callClosure dest closure args _ => do
    match ← a.value closure with
    | .closure function context =>
      let hidden := if (m.function? function).any Lir.Function.hasContext
        then [Value.ofContext context] else []
      return .call dest function (hidden ++ (← args.mapM a.value))
    | _ => throw .notAClosure
  | .branch condition thenBody elseBody => do
    let condition ← a.int condition
    return .enter ⟨if condition = 0 then elseBody else thenBody, .straight⟩
  | .loop header condition body => return .enter ⟨header, .header ⟨header, condition, body⟩⟩
  | .ret none => return .ret none
  | .ret (some value) => return .ret (some (← a.value value))
  | .unreachable => throw (.resultMissing a.function.name)

end Activation

end StaticChain.Machine
