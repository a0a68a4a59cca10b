import Mathlib.Data.List.Forall2
import StaticChain.Program.Typing
import StaticChain.Proofs.Tables

/-!
# Type-correct programs

`Program.check` takes types on trust. A program is type-correct (`Program.TypeCorrect`) when, by
`Program.exprType`, every argument, initial value, bound or assigned value, receiver, base of a
field and returned value has the type that its place declares, and operands and conditions are
integers or truth values. `Program.ReturnsMatch` asks apart from that for a result wherever a
function has one, and for none elsewhere.
-/

namespace StaticChain

/-- Integers and truth values are the types of operands and conditions. -/
def ValueType.IsScalar (ty : ValueType) : Prop := ty = .int ∨ ty = .bool

namespace Program

variable (p : Program)

def HasType (expr : Expr) (ty : ValueType) : Prop := p.exprType expr = .ok ty

/-- The expression can be an operand or a condition. -/
def ScalarTyped (expr : Expr) : Prop := ∃ ty, p.HasType expr ty ∧ ty.IsScalar

/-- The expression has the type of the variable. -/
def TypedAs (expr : Expr) (x : VarId) : Prop := ∃ var, p.var? x = some var ∧ p.HasType expr var.ty

/-- The expression is an instance that has the field. -/
def HasField (base : Expr) (field : VarId) : Prop :=
  ∃ var, p.var? field = some var ∧ p.HasType base (.instanceOf var.owner)

mutual

/-- What stands at each place inside an expression has the type of the place. -/
def ExprTyped : Expr → Prop
  | .int _ => True
  | .bool _ => True
  | .var _ => True
  | .binary _ lhs rhs => ExprTyped lhs ∧ ExprTyped rhs ∧ p.ScalarTyped lhs ∧ p.ScalarTyped rhs
  | .unary _ operand => ExprTyped operand ∧ p.ScalarTyped operand
  | .call function args => ExprsTyped args ∧
    ∃ decl, p.function? function = some decl ∧ List.Forall₂ p.TypedAs args decl.params
  | .methodCall receiver method args => ExprTyped receiver ∧ ExprsTyped args ∧
    ∃ decl parent, p.function? method = some decl ∧ p.parent? method = some parent ∧
      p.HasType receiver (.instanceOf parent) ∧ List.Forall₂ p.TypedAs args decl.params
  | .new aggregate args => ExprsTyped args ∧
    ∃ decl, p.aggregate? aggregate = some decl ∧ List.Forall₂ p.TypedAs args decl.fields
  | .fieldGet base field => ExprTyped base ∧ p.HasField base field
  | .this _ => True
  | .functionRef _ => True
  | .callValue callee args => ExprTyped callee ∧ ExprsTyped args ∧
    ∃ params ret, p.HasType callee (.function params ret) ∧ List.Forall₂ p.HasType args params

def ExprsTyped : List Expr → Prop
  | [] => True
  | expr :: rest => ExprTyped expr ∧ ExprsTyped rest

end

mutual

/-- What stands at each place inside a statement of a function has the type of the place. -/
def StmtTyped (returnType : ValueType) : Stmt → Prop
  | .letVar x value => p.ExprTyped value ∧ p.TypedAs value x
  | .assign (.var x) value => p.ExprTyped value ∧ p.TypedAs value x
  | .assign (.field base field) value =>
    p.ExprTyped base ∧ p.ExprTyped value ∧ p.HasField base field ∧ p.TypedAs value field
  | .expr value => p.ExprTyped value
  | .branch condition thenBlock elseBlock => p.ExprTyped condition ∧ p.ScalarTyped condition ∧
    BlockTyped returnType thenBlock ∧ BlockTyped returnType elseBlock
  | .loop condition body =>
    p.ExprTyped condition ∧ p.ScalarTyped condition ∧ BlockTyped returnType body
  | .ret (some value) => p.ExprTyped value ∧ p.HasType value returnType
  | .ret none => True

def BlockTyped (returnType : ValueType) : List Stmt → Prop
  | [] => True
  | stmt :: rest => StmtTyped returnType stmt ∧ BlockTyped returnType rest

end

/-- Every value has the type that its place declares. -/
def TypeCorrect : Prop :=
  ∀ id function, p.function? id = some function → p.BlockTyped function.returnType function.body

end Program

mutual

/-- Every return inside carries a value, or every one carries none. -/
def Stmt.ReturnsValue (valued : Bool) : Stmt → Prop
  | .letVar _ _ => True
  | .assign _ _ => True
  | .expr _ => True
  | .branch _ thenBlock elseBlock =>
    BlockReturnsValue valued thenBlock ∧ BlockReturnsValue valued elseBlock
  | .loop _ body => BlockReturnsValue valued body
  | .ret value => value.isSome = valued

def Stmt.BlockReturnsValue (valued : Bool) : List Stmt → Prop
  | [] => True
  | stmt :: rest => ReturnsValue valued stmt ∧ BlockReturnsValue valued rest

end

/-- Integers and truth values are stored alike. -/
theorem ValueType.IsScalar.storage?_eq {ty : ValueType} (h : ty.IsScalar) : ty.storage? = some .i64 := by
  rcases h with rfl | rfl <;> rfl

theorem ValueType.IsScalar.isUnit_eq_false {ty : ValueType} (h : ty.IsScalar) : ty.isUnit = false := by
  rcases h with rfl | rfl <;> rfl

/-- What has a result has a place for it. -/
theorem ValueType.isSome_storage? (ty : ValueType) : ty.storage?.isSome = !ty.isUnit := by
  cases ty <;> rfl

/-- Every variable can be stored. -/
theorem Program.Checked.exists_storage {p : Program} (hp : p.Checked) {x : VarId} {var : Variable}
    (hv : p.var? x = some var) : ∃ ty, var.ty.storage? = some ty := by
  rw [← Option.isSome_iff_exists, ValueType.isSome_storage?, hp.var_ty hv]
  rfl

/-- Returns carry a value exactly in the functions that have a result. -/
def Program.ReturnsMatch (p : Program) : Prop :=
  ∀ id function, p.function? id = some function →
    Stmt.BlockReturnsValue (!function.returnType.isUnit) function.body

/-! ## The types of expressions -/

namespace Program

variable {p : Program}

/-- An expression has one type. -/
theorem HasType.unique {expr : Expr} {ty ty' : ValueType} (h : p.HasType expr ty)
    (h' : p.HasType expr ty') : ty = ty' :=
  Except.ok.inj (h.symm.trans h')

theorem hasType_var {x : VarId} {var : Variable} (hv : p.var? x = some var) : p.HasType (.var x) var.ty :=
  bind_eq_ok.2 ⟨var, getVar_eq_ok.2 hv, rfl⟩

theorem hasType_call {id : DeclId} {function : FunctionDecl} (hf : p.function? id = some function)
    (args : List Expr) : p.HasType (.call id args) function.returnType :=
  bind_eq_ok.2 ⟨function, getFunction_eq_ok.2 hf, rfl⟩

theorem hasType_methodCall {id : DeclId} {function : FunctionDecl}
    (hf : p.function? id = some function) (receiver : Expr) (args : List Expr) :
    p.HasType (.methodCall receiver id args) function.returnType :=
  bind_eq_ok.2 ⟨function, getFunction_eq_ok.2 hf, rfl⟩

theorem hasType_fieldGet {x : VarId} {var : Variable} (hv : p.var? x = some var) (base : Expr) :
    p.HasType (.fieldGet base x) var.ty :=
  bind_eq_ok.2 ⟨var, getVar_eq_ok.2 hv, rfl⟩

theorem hasType_callValue {callee : Expr} {params : List ValueType} {ret : ValueType}
    (h : p.HasType callee (.function params ret)) (args : List Expr) :
    p.HasType (.callValue callee args) ret :=
  bind_eq_ok.2 ⟨_, h, rfl⟩

/-- Operators give integers or truth values. -/
theorem isScalar_of_binary {op : BinOp} {lhs rhs : Expr} {ty : ValueType}
    (h : p.HasType (.binary op lhs rhs) ty) : ty.IsScalar := by
  unfold HasType exprType at h
  split at h
  · cases h
    exact .inr rfl
  · cases h
    exact .inl rfl

theorem exists_hasType_unary (p : Program) (op : UnaryOp) (operand : Expr) :
    ∃ ty : ValueType, ty.IsScalar ∧ p.HasType (.unary op operand) ty := by
  cases op with
  | neg => exact ⟨.int, .inl rfl, rfl⟩
  | not => exact ⟨.bool, .inr rfl, rfl⟩

end Program

/-! ## Two type-correct programs -/

/-- A function that keeps a running total in a frame of its own, which may be on the stack, and calls a
function value whose context has to be on the heap. The statements about type-correct programs are
instantiated with it. -/
def tally : Program where
  declarations := #[
    ⟨⟨0⟩, "main", none, [⟨0⟩, ⟨1⟩], [⟨1⟩], .function {
      params := [⟨0⟩]
      returnType := .int
      body := [
        .letVar ⟨1⟩ (.var ⟨0⟩),
        .expr (.call ⟨1⟩ [.int 2]),
        .ret (some (.binary .add (.call ⟨1⟩ [.int 3])
          (.callValue (.call ⟨2⟩ [.var ⟨1⟩]) [.int 1])))] }⟩,
    ⟨⟨1⟩, "add", some ⟨0⟩, [⟨2⟩], [], .function {
      params := [⟨2⟩]
      returnType := .int
      body := [
        .assign (.var ⟨1⟩) (.binary .add (.var ⟨1⟩) (.var ⟨2⟩)),
        .ret (some (.var ⟨1⟩))] }⟩,
    ⟨⟨2⟩, "offset", none, [⟨3⟩], [⟨3⟩], .function {
      params := [⟨3⟩]
      returnType := .function [.int] .int
      body := [.ret (some (.functionRef ⟨3⟩))] }⟩,
    ⟨⟨3⟩, "shift", some ⟨2⟩, [⟨4⟩], [], .function {
      params := [⟨4⟩]
      returnType := .int
      body := [.ret (some (.binary .add (.var ⟨4⟩) (.var ⟨3⟩)))] }⟩]
  vars := #[
    ⟨⟨0⟩, "n", .int, ⟨0⟩, .param⟩,
    ⟨⟨1⟩, "total", .int, ⟨0⟩, .local⟩,
    ⟨⟨2⟩, "x", .int, ⟨1⟩, .param⟩,
    ⟨⟨3⟩, "k", .int, ⟨2⟩, .param⟩,
    ⟨⟨4⟩, "x", .int, ⟨3⟩, .param⟩]

theorem tally_check : tally.check = .ok () := by rfl

theorem tally_childrenDistinct : tally.ChildrenDistinct := by decide

theorem tally_typeCorrect : tally.TypeCorrect := by
  have hscalar : ∀ {e : Expr}, tally.HasType e .int → tally.ScalarTyped e := fun h => ⟨_, h, .inl rfl⟩
  rintro ⟨i⟩ function h
  match i, h with
  | 0, h =>
    cases h
    refine ⟨⟨trivial, _, rfl, rfl⟩, ⟨⟨trivial, trivial⟩, _, rfl, .cons ⟨_, rfl, rfl⟩ .nil⟩,
      ⟨⟨?_, ?_, ?_⟩, rfl⟩, trivial⟩
    · exact ⟨⟨trivial, trivial⟩, _, rfl, .cons ⟨_, rfl, rfl⟩ .nil⟩
    · exact ⟨⟨⟨trivial, trivial⟩, _, rfl, .cons ⟨_, rfl, rfl⟩ .nil⟩, ⟨trivial, trivial⟩, _, _, rfl,
        .cons rfl .nil⟩
    · exact ⟨hscalar rfl, hscalar rfl⟩
  | 1, h =>
    cases h
    exact ⟨⟨⟨trivial, trivial, hscalar rfl, hscalar rfl⟩, _, rfl, rfl⟩, ⟨trivial, rfl⟩, trivial⟩
  | 2, h =>
    cases h
    exact ⟨⟨trivial, rfl⟩, trivial⟩
  | 3, h =>
    cases h
    exact ⟨⟨⟨trivial, trivial, hscalar rfl, hscalar rfl⟩, rfl⟩, trivial⟩
  | k + 4, h => cases h

theorem tally_returnsMatch : tally.ReturnsMatch := by
  rintro ⟨i⟩ function h
  match i, h with
  | 0, h =>
    cases h
    exact ⟨trivial, trivial, rfl, trivial⟩
  | 1, h =>
    cases h
    exact ⟨trivial, rfl, trivial⟩
  | 2, h =>
    cases h
    exact ⟨rfl, trivial⟩
  | 3, h =>
    cases h
    exact ⟨rfl, trivial⟩
  | k + 4, h => cases h

/-- A function with a shape inside whose method looks at the function's parameter, and with a function inside
that makes such a shape and names a third function. All frames are on the heap: the inner frame and the shape are
linked to the outer frame. -/
def scene : Program where
  declarations := #[
    ⟨⟨0⟩, "scene", none, [⟨0⟩], [⟨1⟩, ⟨3⟩], .function {
      params := [⟨0⟩]
      returnType := .unit
      body := [.expr (.call ⟨3⟩ [.int 2])] }⟩,
    ⟨⟨1⟩, "Shape", some ⟨0⟩, [⟨1⟩], [⟨2⟩], .aggregate ⟨.structType, [⟨1⟩]⟩⟩,
    ⟨⟨2⟩, "area", some ⟨1⟩, [], [], .function {
      params := []
      returnType := .int
      body := [.ret (some (.binary .mul (.fieldGet (.this ⟨1⟩) ⟨1⟩) (.var ⟨0⟩)))] }⟩,
    ⟨⟨3⟩, "place", some ⟨0⟩, [⟨2⟩], [⟨4⟩], .function {
      params := [⟨2⟩]
      returnType := .function [] .int
      body := [.expr (.new ⟨1⟩ [.var ⟨2⟩]), .ret (some (.functionRef ⟨4⟩))] }⟩,
    ⟨⟨4⟩, "scale", some ⟨3⟩, [], [], .function {
      params := []
      returnType := .int
      body := [.ret (some (.var ⟨2⟩))] }⟩]
  vars := #[
    ⟨⟨0⟩, "zoom", .int, ⟨0⟩, .param⟩,
    ⟨⟨1⟩, "side", .int, ⟨1⟩, .field⟩,
    ⟨⟨2⟩, "factor", .int, ⟨3⟩, .param⟩]

theorem scene_check : scene.check = .ok () := by rfl

theorem scene_childrenDistinct : scene.ChildrenDistinct := by decide

theorem scene_typeCorrect : scene.TypeCorrect := by
  rintro ⟨i⟩ function h
  match i, h with
  | 0, h =>
    cases h
    exact ⟨⟨⟨trivial, trivial⟩, _, rfl, .cons ⟨_, rfl, rfl⟩ .nil⟩, trivial⟩
  | 1, h => cases h
  | 2, h =>
    cases h
    exact ⟨⟨⟨⟨trivial, _, rfl, rfl⟩, trivial, ⟨_, rfl, .inl rfl⟩, ⟨_, rfl, .inl rfl⟩⟩, rfl⟩, trivial⟩
  | 3, h =>
    cases h
    exact ⟨⟨⟨trivial, trivial⟩, _, rfl, .cons ⟨_, rfl, rfl⟩ .nil⟩, ⟨trivial, rfl⟩, trivial⟩
  | 4, h =>
    cases h
    exact ⟨⟨trivial, rfl⟩, trivial⟩
  | k + 5, h => cases h

end StaticChain
