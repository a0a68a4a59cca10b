import StaticChain.Lowering.Scope
import StaticChain.Program.Typing

/-!
# Lowering bodies

`Scope.lowerExpr` writes the code of an expression and returns the value that holds its result;
calls of functions without a result have none. Operands are evaluated from left to right, and the
right operand of `and` and `or` only where the left one does not decide: the result then goes
through a local (`Scope.shortCircuit`). `Scope.lowerStmt` writes the code of a statement.
-/

namespace StaticChain

open Lir (Emit ValueId FunctionBuilder)

/-- How a binary operator is lowered. -/
inductive OpShape where
  /-- Both operands are evaluated. -/
  | strict (op : Lir.BinOp)
  /-- The right operand is evaluated if the left one is true. -/
  | conjunction
  /-- The right operand is evaluated if the left one is false. -/
  | disjunction
deriving DecidableEq, Inhabited, Repr

def BinOp.shape : BinOp → OpShape
  | .add => .strict .add
  | .sub => .strict .sub
  | .mul => .strict .mul
  | .div => .strict .div
  | .rem => .strict .rem
  | .eq => .strict .eq
  | .ne => .strict .ne
  | .lt => .strict .lt
  | .le => .strict .le
  | .gt => .strict .gt
  | .ge => .strict .ge
  | .and => .conjunction
  | .or => .disjunction

def UnaryOp.lower : UnaryOp → Lir.UnaryOp
  | .neg => .neg
  | .not => .eqz

namespace Scope

variable (s : Scope)

/-! ## Expressions -/

/-- The result of an action that must have one. -/
def valued (action : Emit (Option ValueId)) : Emit ValueId := do
  let result ← action
  Emit.of (s.value result)

/-- Calls a function with its arguments, the context included. -/
def emitCall (function : DeclId) (args : List ValueId) : Emit (Option ValueId) := do
  let target ← Emit.of (s.getFunction function)
  let decl ← Emit.of (s.nesting.program.getFunction function)
  FunctionBuilder.call target args decl.returnType.storage?

/-- A block that sets a local to the value of an action. -/
def settingBlock (result : Lir.LocalId) (action : Emit ValueId) : Emit (List Lir.Inst) := do
  let (_, body) ← FunctionBuilder.inBlock do
    let value ← action
    FunctionBuilder.localSet result value
  return body

/-- Evaluates the right operand only where the left one does not decide. -/
def shortCircuit (conjunction : Bool) (lhs rhs : Emit ValueId) : Emit ValueId := do
  let result ← FunctionBuilder.addLocal .i64
  let condition ← lhs
  let thenBody ← settingBlock result (if conjunction then rhs else FunctionBuilder.const 1)
  let elseBody ← settingBlock result (if conjunction then FunctionBuilder.const 0 else rhs)
  FunctionBuilder.push (.branch condition thenBody elseBody)
  FunctionBuilder.localGet result

mutual

/-- Writes the code of an expression. -/
def lowerExpr : Expr → Emit (Option ValueId)
  | .int value => some <$> FunctionBuilder.const value
  | .bool value => some <$> FunctionBuilder.const (if value then 1 else 0)
  | .var id => some <$> s.readVariable id
  | .binary op lhs rhs => do
    match op.shape with
    | .conjunction =>
      some <$> shortCircuit true (s.valued (lowerExpr lhs)) (s.valued (lowerExpr rhs))
    | .disjunction =>
      some <$> shortCircuit false (s.valued (lowerExpr lhs)) (s.valued (lowerExpr rhs))
    | .strict op =>
      let lhs ← s.valued (lowerExpr lhs)
      let rhs ← s.valued (lowerExpr rhs)
      some <$> FunctionBuilder.binary op lhs rhs
  | .unary op operand => do
    let operand ← s.valued (lowerExpr operand)
    some <$> FunctionBuilder.unary op.lower operand
  | .call function args => do
    let v ← Emit.of s.getCurrent
    let context ← s.nesting.emitCallContext v function
    let args ← lowerValues args
    s.emitCall function (context.toList ++ args)
  | .methodCall receiver method args => do
    let receiver ← s.valued (lowerExpr receiver)
    let args ← lowerValues args
    s.emitCall method (receiver :: args)
  | .new aggregate args => do
    let fields ← lowerValues args
    let v ← Emit.of s.getCurrent
    let outer ← s.nesting.emitConstructionContext v aggregate
    some <$> s.nesting.emitInstance aggregate outer fields
  | .fieldGet base field => do
    let base ← s.valued (lowerExpr base)
    let (addr, ty) ← s.fieldAddress base field
    some <$> FunctionBuilder.load addr ty
  | .this aggregate => do
    let v ← Emit.of s.getCurrent
    some <$> s.nesting.emitContextPointer v aggregate
  | .functionRef function => do
    let v ← Emit.of s.getCurrent
    let context ← s.nesting.emitClosureContext v function
    let target ← Emit.of (s.getFunction function)
    some <$> FunctionBuilder.makeClosure target context
  | .callValue callee args => do
    let signature ← Emit.of (s.nesting.program.exprType callee >>= ValueType.signature)
    let closure ← s.valued (lowerExpr callee)
    let args ← lowerValues args
    FunctionBuilder.callClosure closure args signature

/-- Writes the code of expressions from left to right. -/
def lowerValues : List Expr → Emit (List ValueId)
  | [] => return []
  | expr :: rest => do
    let value ← s.valued (lowerExpr expr)
    let values ← lowerValues rest
    return value :: values

end

/-- Writes the code of an expression that must have a result. -/
def lowerValue (expr : Expr) : Emit ValueId := s.valued (s.lowerExpr expr)

/-! ## Statements -/

mutual

/-- Writes the code of a statement. -/
def lowerStmt : Stmt → Emit Unit
  | .letVar id value => do
    let value ← s.lowerValue value
    s.writeVariable id value
  | .assign (.var id) value => do
    let value ← s.lowerValue value
    s.writeVariable id value
  | .assign (.field base field) value => do
    let base ← s.lowerValue base
    let value ← s.lowerValue value
    let (addr, ty) ← s.fieldAddress base field
    FunctionBuilder.store addr value ty
  | .expr value => do
    let _ ← s.lowerExpr value
    return
  | .branch condition thenBlock elseBlock => do
    let condition ← s.lowerValue condition
    let (_, thenBody) ← FunctionBuilder.inBlock (lowerBlock thenBlock)
    let (_, elseBody) ← FunctionBuilder.inBlock (lowerBlock elseBlock)
    FunctionBuilder.push (.branch condition thenBody elseBody)
  | .loop condition body => do
    let (condition, header) ← FunctionBuilder.inBlock (s.lowerValue condition)
    let (_, body) ← FunctionBuilder.inBlock (lowerBlock body)
    FunctionBuilder.push (.loop header condition body)
  | .ret none => FunctionBuilder.push (.ret none)
  | .ret (some value) => do
    let value ← s.lowerValue value
    FunctionBuilder.push (.ret (some value))

/-- Writes the code of statements one after the other. -/
def lowerBlock : List Stmt → Emit Unit
  | [] => return
  | stmt :: rest => do
    lowerStmt stmt
    lowerBlock rest

end

end Scope

end StaticChain
