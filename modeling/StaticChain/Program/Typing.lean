import StaticChain.Defect

/-!
# The types of expressions

`Program.exprType` recovers the type of an expression that was type-checked before: it reads types
off declarations and operators and looks at operands only where the type of the whole depends on
them. `ValueType.storage` is the low-level type that holds values of a type; the unit type has none.
-/

namespace StaticChain

namespace ValueType

/-- The low-level type that holds values of the type. -/
def storage? : ValueType → Option Lir.Ty
  | .unit => none
  | .int => some .i64
  | .bool => some .i64
  | .instanceOf _ => some .ptr
  | .function _ _ => some .closure

/-- The storage of a variable, which must have one. -/
def storage (ty : ValueType) : Except Defect Lir.Ty :=
  match ty.storage? with
  | some storage => .ok storage
  | none => .error .unitStorage

/-- The parameters and the result of a function value. -/
def signature (ty : ValueType) : Except Defect Lir.Signature :=
  match ty with
  | .function params ret => do
    let params ← params.mapM storage
    return { params, ret := ret.storage? }
  | ty => .error (.notAFunctionValue ty)

end ValueType

namespace Program

variable (p : Program)

/-- The type of a function as a value. -/
def functionValueType (id : DeclId) : Except Defect ValueType := do
  let function ← p.getFunction id
  let params ← function.params.mapM fun param => do
    return (← p.getVar param).ty
  return .function params function.returnType

/-- The type of an expression. -/
def exprType : Expr → Except Defect ValueType
  | .int _ => .ok .int
  | .bool _ => .ok .bool
  | .var id => do return (← p.getVar id).ty
  | .binary op _ _ =>
    .ok (if op.isComparison || op == .and || op == .or then .bool else .int)
  | .unary .neg _ => .ok .int
  | .unary .not _ => .ok .bool
  | .call function _ => do return (← p.getFunction function).returnType
  | .methodCall _ method _ => do return (← p.getFunction method).returnType
  | .new aggregate _ => .ok (.instanceOf aggregate)
  | .fieldGet _ field => do return (← p.getVar field).ty
  | .this aggregate => .ok (.instanceOf aggregate)
  | .functionRef function => p.functionValueType function
  | .callValue callee _ => do
    match ← exprType callee with
    | .function _ ret => return ret
    | ty => throw (.calledNonFunction ty)

end Program

end StaticChain
