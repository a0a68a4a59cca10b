import StaticChain.Proofs.Capturing
import StaticChain.Proofs.Resolution
import StaticChain.Proofs.Syntax
import StaticChain.Proofs.Typing

/-!
# Misused values

A body may use the value of an expression only where the expression has one, and call a value only if it is a
function that takes values. `Program.Misuses` says of a function that its body breaks this somewhere.
`Program.misuse?` finds the first such place in the order in which the body is evaluated, and tells it as a
defect. It looks at the body of the function and at what the program declares, and at no other body
(`Program.DeclaresSame.misuse?_eq`).
-/

namespace StaticChain

/-! ## Value positions -/

namespace Program

variable (p : Program)

/-- The expression is a function, and none of its parameters is without values. -/
def Callable (callee : Expr) : Prop :=
  ∃ params ret, p.exprType callee = .ok (.function params ret) ∧ ∀ ty ∈ params, ty ≠ .unit

/-- Somewhere in an expression a value is used that is not there, or something called that cannot be. -/
inductive ExprMisuses : Expr → Prop
  | unit {expr operand : Expr} : operand ∈ expr.operands → p.exprType operand = .ok .unit → ExprMisuses expr
  | callee {callee : Expr} {args : List Expr} : ¬p.Callable callee → ExprMisuses (.callValue callee args)
  | operand {expr operand : Expr} : operand ∈ expr.operands → ExprMisuses operand → ExprMisuses expr

/-- Somewhere in a statement a value is used that is not there, or something called that cannot be. -/
inductive StmtMisuses : Stmt → Prop
  | unit {stmt : Stmt} {operand : Expr} :
      operand ∈ stmt.operands → p.exprType operand = .ok .unit → StmtMisuses stmt
  | operand {stmt : Stmt} {operand : Expr} : operand ∈ stmt.operands → p.ExprMisuses operand → StmtMisuses stmt
  | dropped {value : Expr} : p.ExprMisuses value → StmtMisuses (.expr value)
  | inner {stmt s : Stmt} : s ∈ stmt.inner → StmtMisuses s → StmtMisuses stmt

/-- The body of a function uses a value that is not there, or calls something that cannot be called. -/
def Misuses (id : DeclId) : Prop :=
  ∃ function, p.function? id = some function ∧ ∃ stmt ∈ function.body, p.StmtMisuses stmt

/-! ## The first misuse -/

/-- The defect of an expression whose value is used, if it has none. -/
def unitMisuse? (current : DeclId) (expr : Expr) : Option Defect :=
  match p.exprType expr with
  | .ok .unit => some (.unitAsValue (some current))
  | _ => none

/-- The defect of an expression that is called, if it cannot be. -/
def calleeMisuse? (callee : Expr) : Option Defect :=
  match p.exprType callee >>= ValueType.signature with
  | .error defect => some defect
  | .ok _ => none

mutual

/-- The first misuse in an expression. -/
def exprMisuse? (current : DeclId) : Expr → Option Defect
  | .int _ => none
  | .bool _ => none
  | .var _ => none
  | .binary _ lhs rhs => ((exprMisuse? current lhs).or (p.unitMisuse? current lhs)).or
      ((exprMisuse? current rhs).or (p.unitMisuse? current rhs))
  | .unary _ operand => (exprMisuse? current operand).or (p.unitMisuse? current operand)
  | .call _ args => valuesMisuse? current args
  | .methodCall receiver _ args => ((exprMisuse? current receiver).or (p.unitMisuse? current receiver)).or
      (valuesMisuse? current args)
  | .new _ args => valuesMisuse? current args
  | .fieldGet base _ => (exprMisuse? current base).or (p.unitMisuse? current base)
  | .this _ => none
  | .functionRef _ => none
  | .callValue callee args =>
    (p.calleeMisuse? callee).or (((exprMisuse? current callee).or (p.unitMisuse? current callee)).or
      (valuesMisuse? current args))

/-- The first misuse in expressions whose values are used. -/
def valuesMisuse? (current : DeclId) : List Expr → Option Defect
  | [] => none
  | expr :: rest =>
    ((exprMisuse? current expr).or (p.unitMisuse? current expr)).or (valuesMisuse? current rest)

end

/-- The first misuse in an expression whose value is used. -/
def valueMisuse? (current : DeclId) (expr : Expr) : Option Defect :=
  (p.exprMisuse? current expr).or (p.unitMisuse? current expr)

mutual

/-- The first misuse in a statement. -/
def stmtMisuse? (current : DeclId) : Stmt → Option Defect
  | .letVar _ value => p.valueMisuse? current value
  | .assign (.var _) value => p.valueMisuse? current value
  | .assign (.field base _) value => (p.valueMisuse? current base).or (p.valueMisuse? current value)
  | .expr value => p.exprMisuse? current value
  | .branch condition thenBlock elseBlock => (p.valueMisuse? current condition).or
      ((blockMisuse? current thenBlock).or (blockMisuse? current elseBlock))
  | .loop condition body => (p.valueMisuse? current condition).or (blockMisuse? current body)
  | .ret none => none
  | .ret (some value) => p.valueMisuse? current value

/-- The first misuse in statements that follow each other. -/
def blockMisuse? (current : DeclId) : List Stmt → Option Defect
  | [] => none
  | stmt :: rest => (stmtMisuse? current stmt).or (blockMisuse? current rest)

end

/-- The first misuse in the body of a function. -/
def misuse? (id : DeclId) : Option Defect :=
  (p.function? id).bind fun function => p.blockMisuse? id function.body

variable {p} {current : DeclId}

theorem isSome_unitMisuse? {expr : Expr} :
    (p.unitMisuse? current expr).isSome ↔ p.exprType expr = .ok .unit := by
  unfold unitMisuse?
  split
  · simp [*]
  · simp only [Option.isSome_none, Bool.false_eq_true, false_iff]
    assumption

theorem exists_mapM_storage_iff {tys : List ValueType} :
    (∃ storages, tys.mapM ValueType.storage = .ok storages) ↔ ∀ ty ∈ tys, ty ≠ .unit := by
  constructor
  · rintro ⟨storages, h⟩ ty hty rfl
    obtain ⟨storage, -, hs⟩ := exists_of_mapM_eq_ok h hty
    cases hs
  · refine fun h => exists_mapM_eq_ok fun ty hty => ?_
    have hne := h ty hty
    cases ty with
    | unit => exact absurd rfl hne
    | _ => exact ⟨_, rfl⟩

theorem exists_signature_iff {ty : ValueType} : (∃ signature, ty.signature = .ok signature) ↔
    ∃ params ret, ty = .function params ret ∧ ∀ ty ∈ params, ty ≠ .unit := by
  cases ty with
  | function params ret =>
    simp only [ValueType.signature, ValueType.function.injEq]
    constructor
    · rintro ⟨signature, h⟩
      obtain ⟨storages, hs, -⟩ := bind_eq_ok.1 h
      exact ⟨params, ret, ⟨rfl, rfl⟩, exists_mapM_storage_iff.1 ⟨storages, hs⟩⟩
    · rintro ⟨_, _, ⟨rfl, rfl⟩, h⟩
      obtain ⟨storages, hs⟩ := exists_mapM_storage_iff.2 h
      exact ⟨_, bind_eq_ok.2 ⟨storages, hs, rfl⟩⟩
  | _ => simp [ValueType.signature]

theorem calleeMisuse?_eq_none_iff {callee : Expr} : p.calleeMisuse? callee = none ↔ p.Callable callee := by
  have hsignature : p.calleeMisuse? callee = none ↔
      ∃ signature, (p.exprType callee >>= ValueType.signature) = .ok signature := by
    unfold calleeMisuse?
    cases p.exprType callee >>= ValueType.signature <;> simp
  rw [hsignature]
  constructor
  · rintro ⟨signature, h⟩
    obtain ⟨ty, hty, h⟩ := bind_eq_ok.1 h
    obtain ⟨params, ret, rfl, hparams⟩ := exists_signature_iff.1 ⟨signature, h⟩
    exact ⟨params, ret, hty, hparams⟩
  · rintro ⟨params, ret, hty, hparams⟩
    obtain ⟨signature, h⟩ := exists_signature_iff.2 ⟨params, ret, rfl, hparams⟩
    exact ⟨signature, bind_eq_ok.2 ⟨_, hty, h⟩⟩

theorem isSome_valueMisuse? {expr : Expr} : (p.valueMisuse? current expr).isSome ↔
    (p.exprMisuse? current expr).isSome ∨ p.exprType expr = .ok .unit := by
  rw [valueMisuse?, Option.isSome_or, Bool.or_eq_true, isSome_unitMisuse?]

theorem isSome_valuesMisuse? {exprs : List Expr} : (p.valuesMisuse? current exprs).isSome ↔
    ∃ expr ∈ exprs, (p.valueMisuse? current expr).isSome := by
  induction exprs with
  | nil => simp [valuesMisuse?]
  | cons expr exprs ih =>
    rw [valuesMisuse?, ← valueMisuse?, Option.isSome_or, Bool.or_eq_true, ih]
    simp

/-- What is misused in an expression is what it calls, or one of its operands. -/
theorem exprMisuse?_eq (expr : Expr) : p.exprMisuse? current expr =
    ((match expr with | .callValue callee _ => p.calleeMisuse? callee | _ => none).or
      (p.valuesMisuse? current expr.operands)) := by
  cases expr <;> simp [exprMisuse?, valuesMisuse?, Expr.operands]

theorem isSome_exprMisuse? (expr : Expr) :
    (p.exprMisuse? current expr).isSome ↔ p.ExprMisuses expr := by
  induction expr using Expr.ind_operands with
  | step expr ih =>
    rw [exprMisuse?_eq, Option.isSome_or, Bool.or_eq_true, isSome_valuesMisuse?]
    constructor
    · rintro (h | ⟨operand, hmem, h⟩)
      · split at h
        · rw [Option.isSome_iff_ne_none, ne_eq, calleeMisuse?_eq_none_iff] at h
          exact .callee h
        · cases h
      · rcases isSome_valueMisuse?.1 h with h | h
        · exact .operand hmem ((ih operand hmem).1 h)
        · exact .unit hmem h
    · intro h
      cases h with
      | unit hmem h => exact .inr ⟨_, hmem, isSome_valueMisuse?.2 (.inr h)⟩
      | callee h =>
        refine .inl ?_
        rwa [Option.isSome_iff_ne_none, ne_eq, calleeMisuse?_eq_none_iff]
      | operand hmem h => exact .inr ⟨_, hmem, isSome_valueMisuse?.2 (.inl ((ih _ hmem).2 h))⟩

/-- What is misused in a list of values or statements depends on the members one by one. -/
theorem valuesMisuse?_congr {q : Program} {exprs : List Expr}
    (h : ∀ e ∈ exprs, p.valueMisuse? current e = q.valueMisuse? current e) :
    p.valuesMisuse? current exprs = q.valuesMisuse? current exprs := by
  induction exprs with
  | nil => rfl
  | cons e exprs ih =>
    obtain ⟨he, hexprs⟩ := List.forall_mem_cons.1 h
    unfold valueMisuse? at he
    rw [valuesMisuse?, valuesMisuse?, he, ih hexprs]

theorem blockMisuse?_congr {q : Program} {block : List Stmt}
    (h : ∀ s ∈ block, p.stmtMisuse? current s = q.stmtMisuse? current s) :
    p.blockMisuse? current block = q.blockMisuse? current block := by
  induction block with
  | nil => rfl
  | cons s block ih =>
    obtain ⟨hs, hblock⟩ := List.forall_mem_cons.1 h
    rw [blockMisuse?, blockMisuse?, hs, ih hblock]

theorem isSome_blockMisuse? {block : List Stmt} : (p.blockMisuse? current block).isSome ↔
    ∃ stmt ∈ block, (p.stmtMisuse? current stmt).isSome := by
  induction block with
  | nil => simp [blockMisuse?]
  | cons stmt block ih => simp [blockMisuse?, ih]

/-- What is misused in a statement is an operand, a part of what it drops, or in one of its blocks. -/
theorem isSome_stmtMisuse?_iff (stmt : Stmt) : (p.stmtMisuse? current stmt).isSome ↔
    (∃ operand ∈ stmt.operands, (p.valueMisuse? current operand).isSome) ∨
    (∃ value, stmt = .expr value ∧ (p.exprMisuse? current value).isSome) ∨
    ∃ s ∈ stmt.inner, (p.stmtMisuse? current s).isSome := by
  cases stmt with
  | assign target value => cases target <;> simp [stmtMisuse?, Stmt.operands, Stmt.inner]
  | ret value => cases value <;> simp [stmtMisuse?, Stmt.operands, Stmt.inner]
  | branch condition thenBlock elseBlock =>
    simp [stmtMisuse?, Stmt.operands, Stmt.inner, isSome_blockMisuse?, or_and_right, exists_or]
  | loop condition body => simp [stmtMisuse?, Stmt.operands, Stmt.inner, isSome_blockMisuse?]
  | _ => simp [stmtMisuse?, Stmt.operands, Stmt.inner]

theorem isSome_stmtMisuse? (stmt : Stmt) : (p.stmtMisuse? current stmt).isSome ↔ p.StmtMisuses stmt := by
  induction stmt using Stmt.ind_inner with
  | step stmt ih =>
    rw [isSome_stmtMisuse?_iff]
    constructor
    · rintro (⟨operand, hmem, h⟩ | ⟨value, rfl, h⟩ | ⟨s, hmem, h⟩)
      · rcases isSome_valueMisuse?.1 h with h | h
        · exact .operand hmem ((isSome_exprMisuse? operand).1 h)
        · exact .unit hmem h
      · exact .dropped ((isSome_exprMisuse? value).1 h)
      · exact .inner hmem ((ih s hmem).1 h)
    · intro h
      cases h with
      | unit hmem h => exact .inl ⟨_, hmem, isSome_valueMisuse?.2 (.inr h)⟩
      | operand hmem h => exact .inl ⟨_, hmem, isSome_valueMisuse?.2 (.inl ((isSome_exprMisuse? _).2 h))⟩
      | dropped h => exact .inr (.inl ⟨_, rfl, (isSome_exprMisuse? _).2 h⟩)
      | inner hmem h => exact .inr (.inr ⟨_, hmem, (ih _ hmem).2 h⟩)

/-- A first misuse is found just where there is a misuse. -/
theorem isSome_misuse? {id : DeclId} : (p.misuse? id).isSome ↔ p.Misuses id := by
  unfold misuse? Misuses
  cases p.function? id with
  | none => simp
  | some function => simp [isSome_blockMisuse?, isSome_stmtMisuse?]

instance (id : DeclId) : Decidable (p.Misuses id) := decidable_of_iff _ isSome_misuse?

/-! ## Other bodies -/

/-- Two programs declare the same. Their bodies may differ, and the order of children. -/
structure DeclaresSame (p q : Program) : Prop where
  vars_eq : p.vars = q.vars
  outlines_eq : p.declarations.map Declaration.outline = q.declarations.map Declaration.outline

namespace DeclaresSame

variable {q : Program} (h : p.DeclaresSame q)
include h

/-- What is declared of a function, and what is wrong if it is not declared. -/
theorem getFunction_eq {α : Type} {f : FunctionDecl → Except Defect α}
    (hf : ∀ function body, f { function with body } = f function) (id : DeclId) :
    p.getFunction id >>= f = q.getFunction id >>= f := by
  have hd : (p.decl? id).map Declaration.outline = (q.decl? id).map Declaration.outline := by
    have := congrArg (·[id.index]?) h.outlines_eq
    simpa [decl?] using this
  unfold getFunction
  cases hp : p.decl? id with
  | none =>
    cases hq : q.decl? id with
    | none => rfl
    | some decl' => simp [hp, hq] at hd
  | some decl =>
    cases hq : q.decl? id with
    | none => simp [hp, hq] at hd
    | some decl' =>
      rw [hp, hq, Option.map_some, Option.map_some, Option.some.injEq] at hd
      have hkind := congrArg Declaration.kind hd
      obtain ⟨_, _, _, _, _, kind⟩ := decl
      obtain ⟨_, _, _, _, _, kind'⟩ := decl'
      cases kind <;> cases kind' <;> simp only [Declaration.outline, reduceCtorEq] at hkind
      case function.function function function' =>
        simp only [DeclKind.function.injEq] at hkind
        change f function = f function'
        rw [← hf function [], hkind, hf]
      case aggregate.aggregate => rfl

theorem getVar_eq (x : VarId) : p.getVar x = q.getVar x := by
  simp [getVar, var?, h.vars_eq]

theorem exprType_eq (expr : Expr) : p.exprType expr = q.exprType expr := by
  induction expr using Expr.ind with
  | int | bool | binary | new | this => rfl
  | unary op => cases op <;> rfl
  | var x | fieldGet _ x => simp only [exprType, h.getVar_eq]
  | call | methodCall => exact h.getFunction_eq (fun _ _ => rfl) _
  | functionRef function =>
    simp only [exprType, functionValueType, h.getVar_eq]
    exact h.getFunction_eq (fun _ _ => rfl) _
  | callValue callee args hc => simp only [exprType, hc]

theorem exprMisuse?_eq (expr : Expr) : p.exprMisuse? current expr = q.exprMisuse? current expr := by
  induction expr using Expr.ind_operands with
  | step expr ih =>
    have hoperands : p.valuesMisuse? current expr.operands = q.valuesMisuse? current expr.operands :=
      valuesMisuse?_congr fun e he => by simp only [valueMisuse?, unitMisuse?, ih e he, h.exprType_eq]
    rw [Program.exprMisuse?_eq, Program.exprMisuse?_eq, hoperands]
    cases expr <;> simp only [calleeMisuse?, h.exprType_eq]

theorem valueMisuse?_eq (expr : Expr) : p.valueMisuse? current expr = q.valueMisuse? current expr := by
  simp only [valueMisuse?, unitMisuse?, h.exprMisuse?_eq, h.exprType_eq]

theorem stmtMisuse?_eq (stmt : Stmt) : p.stmtMisuse? current stmt = q.stmtMisuse? current stmt := by
  induction stmt using Stmt.ind with
  | letVar => simp only [stmtMisuse?, h.valueMisuse?_eq]
  | assign target value => cases target <;> simp only [stmtMisuse?, h.valueMisuse?_eq]
  | expr => simp only [stmtMisuse?, h.exprMisuse?_eq]
  | branch condition thenBlock elseBlock ht he =>
    simp only [stmtMisuse?, h.valueMisuse?_eq, blockMisuse?_congr ht, blockMisuse?_congr he]
  | loop condition body ih => simp only [stmtMisuse?, h.valueMisuse?_eq, blockMisuse?_congr ih]
  | ret value => cases value <;> simp only [stmtMisuse?, h.valueMisuse?_eq]

/-- What is misused first in a body is the same among other bodies. -/
theorem misuse?_eq {id : DeclId} (hid : p.function? id = q.function? id) : p.misuse? id = q.misuse? id := by
  simp only [misuse?, hid, blockMisuse?_congr fun s _ => h.stmtMisuse?_eq s]

end DeclaresSame

end Program

end StaticChain
