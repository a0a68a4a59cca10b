import StaticChain.Wasm.Typing.Storage

/-!
# Typing of code

`Instr.check` is what an instruction makes of a point of the code, or nothing where it does not fit;
`Context.checkBody` is whether a body leaves just the results of its function. Constant expressions
are checked as bodies, of which `Op.isConst` says what can stand in them.
-/

namespace StaticChain.Wasm

namespace Context

variable (c : Context)

/-! ## Calls -/

/-- The function type of a call through a table, and the type of positions in the table. -/
def indirect? (type table : Nat) : Option (FuncType × ValType) := do
  let found ← c.tables[table]?
  guard (c.types.refIsBelow found.element ⟨true, .kind .func⟩)
  return (← c.types.func? type, found.index.ty)

/-- A call in place of a return. -/
def checkTail (type : FuncType) (p : Point) : Option Point := do
  let p ← c.popAll type.params p
  guard (c.types.areBelow type.results c.results)
  return p.dead

/-! ## Branches -/

/-- A branch to one of several labels, all of which take as much. -/
def checkSwitch (labels : List (List ValType)) (targets : List Nat) (default : Nat) (p : Point) :
    Option Point := do
  let p ← c.pop .i32 p
  let types ← labels[default]?
  guard (targets.all fun target => labels[target]?.any fun others =>
    others.length = types.length && (c.popAll others p).isSome)
  let p ← c.popAll types p
  return p.dead

/-- A branch with a reference that is not null. -/
def checkNonNull (types : List ValType) (p : Point) : Option Point := do
  let .ref type ← types.getLast? | none
  let p ← c.pop (.ref { type with nullable := true }) p
  c.apply types.dropLast types.dropLast p

/-- A branch with a reference of the type `sent`, after which one of the type `kept` is left. -/
def checkCast (types : List ValType) (source sent kept : RefType) (p : Point) : Option Point := do
  guard (c.types.isBelow (.ref sent) (← types.getLast?))
  let p ← c.pop (.ref source) p
  let p ← c.apply types.dropLast types.dropLast p
  return p.push (.ref kept)

/-- Whether a label takes what the exceptions that are caught carry. -/
def checkCatch (labels : List (List ValType)) (clause : Catch) : Bool :=
  let carried := match clause.tag with
    | none => some []
    | some tag => c.tags[tag]?.map FuncType.params
  let withRef := if clause.withRef then [.ref ⟨false, .kind .exn⟩] else []
  carried.any fun carried => labels[clause.label]?.any (c.types.areBelow (carried ++ withRef))

/-! ## Instructions -/

/-- Chooses between two operands of one type that is no reference. -/
def checkSelect (p : Point) : Option Point := do
  let p ← c.pop .i32 p
  let (first, p) ← p.popAny
  let (second, p) ← p.popAny
  match first, second with
  | .known first, .known second => guard (first = second && !first.isRef); return p.push first
  | .known first, .unknown => guard (!first.isRef); return p.push first
  | .unknown, .known second => guard (!second.isRef); return p.push second
  | .unknown, .unknown => return p.pushOperand .unknown
  | _, _ => none

/-- What an instruction makes of a point. -/
def checkOp (labels : List (List ValType)) (op : Op) (p : Point) : Option Point := do
  match op with
  | .unreachable => return p.dead
  | .nop => return p
  | .br label =>
    let p ← c.popAll (← labels[label]?) p
    return p.dead
  | .brIf label =>
    let types ← labels[label]?
    c.apply types types (← c.pop .i32 p)
  | .brTable targets default => c.checkSwitch labels targets default p
  | .brOnNull label =>
    let (operand, p) ← p.popRef
    let types ← labels[label]?
    return (← c.apply types types p).pushOperand operand.nonNull
  | .brOnNonNull label => c.checkNonNull (← labels[label]?) p
  | .brOnCast onFail label source target =>
    let source ← c.types.ref? source
    let target ← c.types.ref? target
    guard (c.types.refIsBelow target source)
    let other := source.without target
    if onFail then c.checkCast (← labels[label]?) source other target p
    else c.checkCast (← labels[label]?) source target other p
  | .ret =>
    let p ← c.popAll c.results p
    return p.dead
  | .call function =>
    let type ← c.function? function
    c.apply type.params type.results p
  | .callIndirect type table =>
    let (type, index) ← c.indirect? type table
    c.apply (type.params ++ [index]) type.results p
  | .callRef type =>
    let callee ← c.objectRef? true type
    let type ← c.types.func? type
    c.apply (type.params ++ [callee]) type.results p
  | .tailCall function => c.checkTail (← c.function? function) p
  | .tailCallIndirect type table =>
    let (type, index) ← c.indirect? type table
    c.checkTail type (← c.pop index p)
  | .tailCallRef type =>
    let callee ← c.objectRef? true type
    c.checkTail (← c.types.func? type) (← c.pop callee p)
  | .throw tag =>
    let p ← c.popAll (← c.tags[tag]?).params p
    return p.dead
  | .throwRef =>
    let p ← c.pop (.ref ⟨true, .kind .exn⟩) p
    return p.dead
  | .drop => return (← p.popAny).2
  | .select => c.checkSelect p
  | .selectTyped types =>
    let [ty] ← types.mapM c.types.val? | none
    c.apply [ty, ty, .i32] [ty] p
  | .localGet index =>
    guard (!p.unset.contains index)
    return p.push (← c.locals[index]?)
  | .localSet index =>
    let p ← c.pop (← c.locals[index]?) p
    return { p with unset := p.unset.erase index }
  | .localTee index =>
    let ty ← c.locals[index]?
    let p ← c.apply [ty] [ty] p
    return { p with unset := p.unset.erase index }
  | .globalGet index => return p.push (← c.globals[index]?).ty
  | .globalSet index =>
    let type ← c.globals[index]?
    guard type.mutable
    c.pop type.ty p
  | .load .w32 arg => c.checkAccess arg (.load .i32 2) p
  | .load .w64 arg => c.checkAccess arg (.load .i64 3) p
  | .store .w32 arg => c.checkAccess arg (.store .i32 2) p
  | .store .w64 arg => c.checkAccess arg (.store .i64 3) p
  | .access opcode arg => c.checkAccess arg (← rowOf accesses opcode) p
  | .memorySize memory => return p.push (← c.address? memory).ty
  | .memoryGrow memory =>
    let address ← c.address? memory
    c.apply [address.ty] [address.ty] p
  | .const32 _ => return p.push .i32
  | .const64 _ => return p.push .i64
  | .constFloat .w32 _ => return p.push .f32
  | .constFloat .w64 _ => return p.push .f64
  | .eqz width => c.apply [width.ty] [.i32] p
  | .rel width _ => c.apply [width.ty, width.ty] [.i32] p
  | .bin width _ => c.apply [width.ty, width.ty] [width.ty] p
  | .extend => c.apply [.i32] [.i64] p
  | .numeric opcode =>
    let type ← rowOf numericTypes opcode
    c.apply type.params type.results p
  | .saturate opcode =>
    let type ← rowOf saturatingTypes opcode
    c.apply type.params type.results p
  | .ref op => c.checkRef op p
  | .object op => c.checkObject op p
  | .table op => c.checkTable op p
  | .range op => c.checkRange op p
  | .vector op => c.checkVector op p
  | .atomic opcode arg => c.checkAtomic arg (← atomic? opcode) p
  | .fence => return p

end Context

/-! ## Blocks -/

/-- The most clauses of a block that catches exceptions. -/
def maxCatches : Nat := 10000

mutual

/-- What an instruction makes of a point. Label zero is the innermost block. -/
def Instr.check (c : Context) (labels : List (List ValType)) : Instr → Point → Option Point
  | .plain op, p => c.checkOp labels op p
  | .block ty body, p => do
    let type ← c.blockType? ty
    let p ← c.popAll type.params p
    let inner ← checkList c (type.results :: labels) body (p.enter type.params)
    guard (c.leaves type.results inner)
    return p.pushAll type.results
  | .loop ty body, p => do
    let type ← c.blockType? ty
    let p ← c.popAll type.params p
    let inner ← checkList c (type.params :: labels) body (p.enter type.params)
    guard (c.leaves type.results inner)
    return p.pushAll type.results
  | .cond ty thenBody elseBody, p => do
    let type ← c.blockType? ty
    let p ← c.popAll (type.params ++ [.i32]) p
    let inner ← checkList c (type.results :: labels) thenBody (p.enter type.params)
    guard (c.leaves type.results inner)
    let inner ← checkList c (type.results :: labels) elseBody (p.enter type.params)
    guard (c.leaves type.results inner)
    return p.pushAll type.results
  | .tryTable ty catches body, p => do
    let type ← c.blockType? ty
    let p ← c.popAll type.params p
    guard (catches.length ≤ maxCatches && catches.all (c.checkCatch labels))
    let inner ← checkList c (type.results :: labels) body (p.enter type.params)
    guard (c.leaves type.results inner)
    return p.pushAll type.results

/-- What a sequence makes of a point. -/
def checkList (c : Context) (labels : List (List ValType)) : List Instr → Point → Option Point
  | [], p => some p
  | instr :: rest, p => do
    let p ← Instr.check c labels instr p
    checkList c labels rest p

end

namespace Context

variable (c : Context)

/-- The locals that have no value when a function starts: those after its parameters whose types
have no default. -/
def unsetLocals (params : Nat) : List Nat :=
  (List.range c.locals.size).filter fun i => params ≤ i && c.locals[i]?.any (!·.hasDefault)

/-- Whether a body leaves just the results of its function. -/
def checkBody (params : Nat) (body : List Instr) : Bool :=
  (checkList c [c.results] body { unset := c.unsetLocals params }).any (c.leaves c.results)

end Context

/-! ## Constant expressions -/

def RefOp.isConst : RefOp → Bool
  | .null _ | .func _ | .i31 | .internalize | .externalize => true
  | _ => false

def ObjectOp.isConst : ObjectOp → Bool
  | .structNew _ | .structDefault _ | .arrayNew _ | .arrayDefault _ | .arrayFixed .. => true
  | _ => false

def VectorOp.isConst : VectorOp → Bool
  | .const _ => true
  | _ => false

/-- Whether an instruction may stand in a constant expression, given the globals there are. -/
def Op.isConst (globals : Array GlobalType) : Op → Bool
  | .const32 _ => true
  | .const64 _ => true
  | .constFloat .. => true
  | .globalGet index => globals[index]?.any (!·.mutable)
  | .bin _ op => op == .add || op == .sub || op == .mul
  | .ref op => op.isConst
  | .object op => op.isConst
  | .vector op => op.isConst
  | _ => false

/-- The function to which an instruction makes a reference. -/
def Op.referred? : Op → Option Nat
  | .ref (.func function) => some function
  | _ => none

/-- Whether an expression is constant and gives a value of a type. It may refer to any function. -/
def Context.checkConst (c : Context) (expr : List Op) (ty : ValType) : Bool :=
  let c := { c with results := [ty], locals := #[], declared := expr.filterMap Op.referred? }
  expr.all (Op.isConst c.globals) && c.checkBody 0 (expr.map .plain)

end StaticChain.Wasm
