import StaticChain.Program.Basic

/-!
# What is inside a body

Expressions hold lists of expressions and statements hold blocks. `Expr.ind` and `Stmt.ind` are
the induction principles in which what is assumed of a list is assumed of its members. `Stmt.Evaluates` and
`Stmt.Mentions` say which expressions and which names are somewhere in a statement.
-/

namespace StaticChain

section

variable {motive : Expr → Prop}
  (int : ∀ value, motive (.int value))
  (bool : ∀ value, motive (.bool value))
  (var : ∀ id, motive (.var id))
  (binary : ∀ op lhs rhs, motive lhs → motive rhs → motive (.binary op lhs rhs))
  (unary : ∀ op operand, motive operand → motive (.unary op operand))
  (call : ∀ function args, (∀ arg ∈ args, motive arg) → motive (.call function args))
  (methodCall : ∀ receiver method args, motive receiver → (∀ arg ∈ args, motive arg) →
    motive (.methodCall receiver method args))
  (new : ∀ aggregate args, (∀ arg ∈ args, motive arg) → motive (.new aggregate args))
  (fieldGet : ∀ base field, motive base → motive (.fieldGet base field))
  (this : ∀ aggregate, motive (.this aggregate))
  (functionRef : ∀ function, motive (.functionRef function))
  (callValue : ∀ callee args, motive callee → (∀ arg ∈ args, motive arg) →
    motive (.callValue callee args))
include int bool var binary unary call methodCall new fieldGet this functionRef callValue

/-- A property of expressions that holds of an expression when it holds of its parts. -/
@[elab_as_elim]
theorem Expr.ind (expr : Expr) : motive expr := by
  refine @Expr.rec motive (fun exprs => ∀ expr ∈ exprs, motive expr) int bool var binary unary call
    methodCall new fieldGet this functionRef callValue ?_ ?_ expr
  · simp
  · intro expr exprs h hs e he
    rcases List.mem_cons.1 he with rfl | he
    · exact h
    · exact hs e he

end

section

variable {motive : Stmt → Prop}
  (letVar : ∀ id value, motive (.letVar id value))
  (assign : ∀ target value, motive (.assign target value))
  (expr : ∀ value, motive (.expr value))
  (branch : ∀ condition thenBlock elseBlock, (∀ stmt ∈ thenBlock, motive stmt) →
    (∀ stmt ∈ elseBlock, motive stmt) → motive (.branch condition thenBlock elseBlock))
  (loop : ∀ condition body, (∀ stmt ∈ body, motive stmt) → motive (.loop condition body))
  (ret : ∀ value, motive (.ret value))
include letVar assign expr branch loop ret

/-- A property of statements that holds of a statement when it holds of the blocks inside it. -/
@[elab_as_elim]
theorem Stmt.ind (stmt : Stmt) : motive stmt := by
  refine @Stmt.rec motive (fun stmts => ∀ stmt ∈ stmts, motive stmt) letVar assign expr branch loop
    ret ?_ ?_ stmt
  · simp
  · intro stmt stmts h hs e he
    rcases List.mem_cons.1 he with rfl | he
    · exact h
    · exact hs e he

end

/-! ## The parts of a body -/

/-- The expressions whose values an expression uses. -/
def Expr.operands : Expr → List Expr
  | .int _ => []
  | .bool _ => []
  | .var _ => []
  | .binary _ lhs rhs => [lhs, rhs]
  | .unary _ operand => [operand]
  | .call _ args => args
  | .methodCall receiver _ args => receiver :: args
  | .new _ args => args
  | .fieldGet base _ => [base]
  | .this _ => []
  | .functionRef _ => []
  | .callValue callee args => callee :: args

/-- The expressions whose values a statement uses, apart from those in its blocks. -/
def Stmt.operands : Stmt → List Expr
  | .letVar _ value => [value]
  | .assign (.var _) value => [value]
  | .assign (.field base _) value => [base, value]
  | .expr _ => []
  | .branch condition _ _ => [condition]
  | .loop condition _ => [condition]
  | .ret value => value.toList

/-- The statements in the blocks of a statement. -/
def Stmt.inner : Stmt → List Stmt
  | .branch _ thenBlock elseBlock => thenBlock ++ elseBlock
  | .loop _ body => body
  | _ => []

/-- A property of expressions that holds of an expression when it holds of its operands. -/
theorem Expr.ind_operands {motive : Expr → Prop}
    (step : ∀ expr : Expr, (∀ operand ∈ expr.operands, motive operand) → motive expr) (expr : Expr) :
    motive expr := by
  induction expr using Expr.ind with
  | int | bool | var | this | functionRef => exact step _ nofun
  | binary op lhs rhs hl hr => exact step _ (by simp [operands, hl, hr])
  | unary op operand ih => exact step _ (by simp [operands, ih])
  | call function args ih => exact step _ ih
  | methodCall receiver method args hr ih => exact step _ (List.forall_mem_cons.2 ⟨hr, ih⟩)
  | new aggregate args ih => exact step _ ih
  | fieldGet base field ih => exact step _ (by simp [operands, ih])
  | callValue callee args hc ih => exact step _ (List.forall_mem_cons.2 ⟨hc, ih⟩)

/-- A property of statements that holds of a statement when it holds of those in its blocks. -/
theorem Stmt.ind_inner {motive : Stmt → Prop}
    (step : ∀ stmt : Stmt, (∀ s ∈ stmt.inner, motive s) → motive stmt) (stmt : Stmt) : motive stmt := by
  induction stmt using Stmt.ind with
  | letVar | assign | expr | ret => exact step _ nofun
  | branch condition thenBlock elseBlock ht he =>
    exact step _ fun s hs => (List.mem_append.1 hs).elim (ht s) (he s)
  | loop condition body ih => exact step _ ih

/-- Somewhere in the statement the expression is evaluated. -/
inductive Stmt.Evaluates : Stmt → Expr → Prop
  | operand {stmt : Stmt} {expr : Expr} : expr ∈ stmt.operands → Evaluates stmt expr
  | dropped {value : Expr} : Evaluates (.expr value) value
  | inner {stmt s : Stmt} {expr : Expr} : s ∈ stmt.inner → Evaluates s expr → Evaluates stmt expr
  | under {stmt : Stmt} {expr operand : Expr} : Evaluates stmt expr → operand ∈ expr.operands →
      Evaluates stmt operand

/-! ## Names in bodies -/

/-- A name in a body, with what its place asks of it. -/
inductive Mention where
  /-- A variable of any kind. -/
  | var (id : VarId)
  /-- A local of the function that the body belongs to. -/
  | bound (id : VarId)
  | field (id : VarId)
  /-- A function that is not a method, called with so many arguments. -/
  | function (id : DeclId) (args : Nat)
  /-- A method, called with so many arguments. -/
  | method (id : DeclId) (args : Nat)
  /-- An aggregate, made with so many initial values. -/
  | made (id : DeclId) (args : Nat)
  /-- An aggregate around the body. -/
  | enclosing (id : DeclId)
  /-- A function that is not a method, as a value. -/
  | functionValue (id : DeclId)

/-- The name in an expression that is not in one of its operands. -/
def Expr.mention? : Expr → Option Mention
  | .var id => some (.var id)
  | .call function args => some (.function function args.length)
  | .methodCall _ method args => some (.method method args.length)
  | .new aggregate args => some (.made aggregate args.length)
  | .fieldGet _ field => some (.field field)
  | .this aggregate => some (.enclosing aggregate)
  | .functionRef function => some (.functionValue function)
  | _ => none

/-- The name in a statement that is not in one of its expressions or blocks. -/
def Stmt.mention? : Stmt → Option Mention
  | .letVar id _ => some (.bound id)
  | .assign (.var id) _ => some (.var id)
  | .assign (.field _ field) _ => some (.field field)
  | _ => none

/-- Somewhere in the statement is the name. -/
inductive Stmt.Mentions : Stmt → Mention → Prop
  | self {stmt : Stmt} {m : Mention} : stmt.mention? = some m → Mentions stmt m
  | expr {stmt : Stmt} {expr : Expr} {m : Mention} : stmt.Evaluates expr → expr.mention? = some m →
      Mentions stmt m
  | inner {stmt s : Stmt} {m : Mention} : s ∈ stmt.inner → Mentions s m → Mentions stmt m

end StaticChain
