import StaticChain.Program.Query

/-!
# What a body refers to

`Program.references` lists the variables that a function's body names and the declarations whose
context it needs, in the order of the text and with repetitions. Calling a function or building an
instance needs the context of the callee's parent; a method call needs none, because its receiver
is the context. `Expr.any` and `Stmt.any` ask whether some expression inside has a property.
-/

namespace StaticChain

/-- One thing a body refers to. -/
inductive Reference where
  /-- A variable named directly. -/
  | variable (var : VarId)
  /-- A declaration whose context is needed. -/
  | context (decl : DeclId)
deriving DecidableEq, Inhabited, Repr

namespace Program

variable (p : Program)

/-- The context of a declaration's parent, if it has one. -/
def parentReference (id : DeclId) : List Reference :=
  ((p.parent? id).map Reference.context).toList

mutual

def exprReferences : Expr → List Reference
  | .int _ => []
  | .bool _ => []
  | .var var => [.variable var]
  | .binary _ lhs rhs => exprReferences lhs ++ exprReferences rhs
  | .unary _ operand => exprReferences operand
  | .call function args => p.parentReference function ++ exprsReferences args
  | .methodCall receiver _ args => exprReferences receiver ++ exprsReferences args
  | .new aggregate args => p.parentReference aggregate ++ exprsReferences args
  | .fieldGet base _ => exprReferences base
  | .this aggregate => [.context aggregate]
  | .functionRef function => p.parentReference function
  | .callValue callee args => exprReferences callee ++ exprsReferences args

def exprsReferences : List Expr → List Reference
  | [] => []
  | expr :: rest => exprReferences expr ++ exprsReferences rest

end

def placeReferences : Place → List Reference
  | .var var => [.variable var]
  | .field base _ => p.exprReferences base

mutual

def stmtReferences : Stmt → List Reference
  | .letVar var value => p.exprReferences value ++ [.variable var]
  | .assign target value => p.placeReferences target ++ p.exprReferences value
  | .expr value => p.exprReferences value
  | .branch condition thenBlock elseBlock =>
    p.exprReferences condition ++ blockReferences thenBlock ++ blockReferences elseBlock
  | .loop condition body => p.exprReferences condition ++ blockReferences body
  | .ret (some value) => p.exprReferences value
  | .ret none => []

def blockReferences : List Stmt → List Reference
  | [] => []
  | stmt :: rest => stmtReferences stmt ++ blockReferences rest

end

/-- What the body of a function refers to. Other declarations have no body. -/
def references (id : DeclId) : List Reference :=
  match p.function? id with
  | some function => p.blockReferences function.body
  | none => []

end Program

/-! ## Expressions inside -/

namespace Expr

mutual

/-- Whether the expression or one inside it has the property. -/
def any (property : Expr → Bool) (expr : Expr) : Bool :=
  property expr || match expr with
    | .int _ => false
    | .bool _ => false
    | .var _ => false
    | .binary _ lhs rhs => any property lhs || any property rhs
    | .unary _ operand => any property operand
    | .call _ args => anyIn property args
    | .methodCall receiver _ args => any property receiver || anyIn property args
    | .new _ args => anyIn property args
    | .fieldGet base _ => any property base
    | .this _ => false
    | .functionRef _ => false
    | .callValue callee args => any property callee || anyIn property args

def anyIn (property : Expr → Bool) : List Expr → Bool
  | [] => false
  | expr :: rest => any property expr || anyIn property rest

end

end Expr

namespace Stmt

mutual

/-- Whether an expression in the statement has the property. -/
def any (property : Expr → Bool) : Stmt → Bool
  | .letVar _ value => value.any property
  | .assign (.var _) value => value.any property
  | .assign (.field base _) value => base.any property || value.any property
  | .expr value => value.any property
  | .branch condition thenBlock elseBlock =>
    condition.any property || anyIn property thenBlock || anyIn property elseBlock
  | .loop condition body => condition.any property || anyIn property body
  | .ret (some value) => value.any property
  | .ret none => false

def anyIn (property : Expr → Bool) : List Stmt → Bool
  | [] => false
  | stmt :: rest => any property stmt || anyIn property rest

end

end Stmt

end StaticChain
