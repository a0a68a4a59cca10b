import Mathlib.Tactic.Tauto
import StaticChain.Program.Query

/-!
# The meaning of programs

A program is evaluated here without frames, contexts or chains. An activation of a function is a record with
a cell for each variable that the function declares, and so is an instance with its fields. An environment
lists the records around a place, innermost first: a function that is called or named gets the records from
its lexical parent on, and a method those from its receiver on.

Operands and arguments are evaluated from left to right. Evaluation is limited in the depth of calls, as
machines are, and in the rounds of each loop, so that it always ends: `Stop.unfinished` says that a loop had
more rounds than the limit.
-/

namespace StaticChain

/-- The records around a place with the declarations they belong to, innermost first. -/
abbrev Env := List (DeclId × Nat)

/-- A value in the course of an evaluation. -/
inductive Datum where
  | int (value : Int64)
  /-- An instance: its own record first, then what was around it when it was made. -/
  | «instance» (env : Env)
  /-- A function together with the environment of its parent. -/
  | closure (function : DeclId) (env : Env)
deriving DecidableEq, Inhabited, Repr

/-- The records made so far. -/
structure Memory where
  next : Nat
  /-- The cell of a variable in a record, as far as it is set. -/
  cells : Nat → VarId → Option Datum

/-- Why an evaluation ends without a result. -/
inductive Stop where
  | divisionByZero
  | unset (var : VarId)
  /-- The end of a function that has a result. -/
  | resultMissing (function : DeclId)
  | depthExceeded
  /-- A loop had more rounds than the limit. -/
  | unfinished
  /-- The program is not type-correct. -/
  | illTyped
deriving DecidableEq, Inhabited, Repr

abbrev Eval := StateT Memory (Except Stop)

/-- What calling a function does, given the environment of its parent. -/
abbrev Handler := DeclId → Env → List Datum → Eval (Option Datum)

/-- Walks up to the record of a declaration. -/
def Env.upTo (env : Env) (decl : DeclId) : Env := env.dropWhile (·.1 != decl)

namespace Memory

def empty : Memory := ⟨0, fun _ _ => none⟩

/-- One more record. -/
def add (m : Memory) (cells : VarId → Option Datum) : Memory :=
  ⟨m.next + 1, fun record => if record = m.next then cells else m.cells record⟩

def set (m : Memory) (record : Nat) (x : VarId) (value : Datum) : Memory :=
  { m with cells := fun r y => if r = record ∧ y = x then some value else m.cells r y }

variable (m : Memory)

@[simp] theorem add_next (cells : VarId → Option Datum) : (m.add cells).next = m.next + 1 := rfl

@[simp] theorem add_cells_next (cells : VarId → Option Datum) : (m.add cells).cells m.next = cells := by
  simp [add]

theorem add_cells_of_lt (cells : VarId → Option Datum) {r : Nat} (h : r < m.next) :
    (m.add cells).cells r = m.cells r := by
  simp [add, Nat.ne_of_lt h]

@[simp] theorem set_next (r : Nat) (x : VarId) (d : Datum) : (m.set r x d).next = m.next := rfl

@[simp] theorem set_cells_self (r : Nat) (x : VarId) (d : Datum) :
    (m.set r x d).cells r x = some d := by
  simp [set]

theorem set_cells_of_ne {r r' : Nat} {x y : VarId} (d : Datum) (h : r' ≠ r ∨ y ≠ x) :
    (m.set r x d).cells r' y = m.cells r' y := by
  have : ¬(r' = r ∧ y = x) := by tauto
  simp [set, this]

end Memory

namespace Eval

/-- Makes a record. -/
def allocate (cells : VarId → Option Datum) : Eval Nat := do
  let m ← get
  set (m.add cells)
  return m.next

def read (record : Nat) (x : VarId) : Eval Datum := do
  match (← get).cells record x with
  | some value => return value
  | none => throw (.unset x)

def write (record : Nat) (x : VarId) (value : Datum) : Eval Unit :=
  modify fun m => m.set record x value

/-- The result of an expression that has one. -/
def valued : Option Datum → Eval Datum
  | some value => return value
  | none => throw .illTyped

def int : Option Datum → Eval Int64
  | some (.int value) => return value
  | _ => throw .illTyped

/-- The environment that an instance is. -/
def «instance» : Option Datum → Eval Env
  | some (.instance env) => return env
  | _ => throw .illTyped

/-- The innermost record of an environment. -/
def innermost : Env → Eval Nat
  | (_, record) :: _ => return record
  | [] => throw .illTyped

variable {record : Nat} {x : VarId} {memory : Memory}

theorem read_eq_ok {d : Datum} (h : memory.cells record x = some d) :
    read record x memory = .ok (d, memory) := by
  change (match memory.cells record x with
    | some value => (return value : Eval Datum)
    | none => throw (Stop.unset x)) memory = _
  rw [h]
  rfl

theorem read_eq_error (h : memory.cells record x = none) :
    read record x memory = .error (.unset x) := by
  change (match memory.cells record x with
    | some value => (return value : Eval Datum)
    | none => throw (Stop.unset x)) memory = _
  rw [h]
  rfl

end Eval

/-- The value of an operator that evaluates both operands. Sums, differences and products wrap around. -/
def BinOp.value : BinOp → Int64 → Int64 → Except Stop Int64
  | .add, x, y => .ok (x + y)
  | .sub, x, y => .ok (x - y)
  | .mul, x, y => .ok (x * y)
  | .div, x, y => if y = 0 then .error .divisionByZero else .ok (x / y)
  | .rem, x, y => if y = 0 then .error .divisionByZero else .ok (x % y)
  | .eq, x, y => .ok (if x = y then 1 else 0)
  | .ne, x, y => .ok (if x = y then 0 else 1)
  | .lt, x, y => .ok (if x < y then 1 else 0)
  | .le, x, y => .ok (if x ≤ y then 1 else 0)
  | .gt, x, y => .ok (if y < x then 1 else 0)
  | .ge, x, y => .ok (if y ≤ x then 1 else 0)
  | .and, _, y => .ok y
  | .or, _, y => .ok y

/-- The operand that decides an operator alone, with the value it decides for. -/
def BinOp.decided : BinOp → Int64 → Option Int64
  | .and, x => if x = 0 then some 0 else none
  | .or, x => if x = 0 then none else some 1
  | _, _ => none

def UnaryOp.value : UnaryOp → Int64 → Int64
  | .neg, x => -x
  | .not, x => if x = 0 then 1 else 0

/-- Where a statement leaves off. -/
inductive Flow where
  | next
  | returned (value : Option Datum)

namespace Program

variable (p : Program)

/-- The environment of a declaration's parent, found from a place inside the parent. -/
def parentEnv (env : Env) (decl : DeclId) : Env :=
  match p.parent? decl with
  | some parent => env.upTo parent
  | none => []

/-- The record that holds a variable. -/
def recordOf (env : Env) (x : VarId) : Eval Nat :=
  match p.var? x with
  | some var => Eval.innermost (env.upTo var.owner)
  | none => throw .illTyped

theorem recordOf_eq_ok {p : Program} {env rest : Env} {x : VarId} {var : Variable} {r : Nat}
    (hv : p.var? x = some var) (henv : env.upTo var.owner = (var.owner, r) :: rest) (memory : Memory) :
    p.recordOf env x memory = .ok (r, memory) := by
  simp only [recordOf, hv, henv]
  rfl

/-- The cells of an instance or an activation at the start. -/
def initial (xs : List VarId) (values : List Datum) (x : VarId) : Option Datum :=
  (xs.zip values).lookup x

theorem initial_eq_some {xs : List VarId} {values : List Datum} {i : Nat} {x : VarId} {d : Datum}
    (hn : xs.Nodup) (hx : xs[i]? = some x) (hd : values[i]? = some d) : initial xs values x = some d := by
  unfold initial
  induction xs generalizing values i with
  | nil => simp at hx
  | cons y xs ih =>
    obtain ⟨hy, hn⟩ := List.nodup_cons.1 hn
    cases values with
    | nil => simp at hd
    | cons e values =>
      cases i with
      | zero =>
        simp only [List.getElem?_cons_zero, Option.some.injEq] at hx hd
        simp [hx, hd]
      | succ i =>
        simp only [List.getElem?_cons_succ] at hx hd
        have hne : (x == y) = false := by
          rw [beq_eq_false_iff_ne]
          rintro rfl
          exact hy (List.mem_of_getElem? hx)
        simpa [List.lookup_cons, hne] using ih hn hx hd

theorem initial_eq_none {xs : List VarId} (values : List Datum) {x : VarId} (hx : x ∉ xs) :
    initial xs values x = none := by
  unfold initial
  rw [List.lookup_eq_none_iff]
  intro p hp
  simp only [bne_iff_ne, ne_eq]
  rintro rfl
  exact hx (List.of_mem_zip hp).1

section

variable (call : Handler) (env : Env)

mutual

/-- Evaluates an expression; a call of a function without result has no value. -/
def evalExpr : Expr → Eval (Option Datum)
  | .int x => return some (.int x)
  | .bool x => return some (.int (if x then 1 else 0))
  | .var x => do
    let record ← p.recordOf env x
    return some (← Eval.read record x)
  | .binary op lhs rhs => do
    let x ← Eval.int (← evalExpr lhs)
    match op.decided x with
    | some value => return some (.int value)
    | none =>
      let y ← Eval.int (← evalExpr rhs)
      return some (.int (← op.value x y))
  | .unary op operand => do
    let x ← Eval.int (← evalExpr operand)
    return some (.int (op.value x))
  | .call function args => do
    let args ← evalExprs args
    call function (p.parentEnv env function) args
  | .methodCall receiver method args => do
    let around ← Eval.instance (← evalExpr receiver)
    let args ← evalExprs args
    call method around args
  | .new aggregate args => do
    let args ← evalExprs args
    match p.aggregate? aggregate with
    | none => throw .illTyped
    | some decl =>
      let record ← Eval.allocate (initial decl.fields args)
      return some (.instance ((aggregate, record) :: p.parentEnv env aggregate))
  | .fieldGet base field => do
    let record ← Eval.innermost (← Eval.instance (← evalExpr base))
    return some (← Eval.read record field)
  | .this aggregate => return some (.instance (env.upTo aggregate))
  | .functionRef function => return some (.closure function (p.parentEnv env function))
  | .callValue callee args => do
    match ← evalExpr callee with
    | some (.closure function around) =>
      let args ← evalExprs args
      call function around args
    | _ => throw .illTyped

/-- Evaluates expressions that have values. -/
def evalExprs : List Expr → Eval (List Datum)
  | [] => return []
  | expr :: rest => do
    let value ← Eval.valued (← evalExpr expr)
    return value :: (← evalExprs rest)

end

/-- Repeats while the condition holds, at most as often as the limit says. -/
def evalLoop (condition : Eval Int64) (body : Eval Flow) : Nat → Eval Flow
  | 0 => throw .unfinished
  | rounds + 1 => do
    if (← condition) = 0 then return .next
    else
      match ← body with
      | .next => evalLoop condition body rounds
      | .returned value => return .returned value

variable (limit : Nat)

mutual

/-- Executes a statement. -/
def evalStmt : Stmt → Eval Flow
  | .letVar x value => do
    let value ← Eval.valued (← p.evalExpr call env value)
    Eval.write (← p.recordOf env x) x value
    return .next
  | .assign (.var x) value => do
    let value ← Eval.valued (← p.evalExpr call env value)
    Eval.write (← p.recordOf env x) x value
    return .next
  | .assign (.field base field) value => do
    let record ← Eval.innermost (← Eval.instance (← p.evalExpr call env base))
    let value ← Eval.valued (← p.evalExpr call env value)
    Eval.write record field value
    return .next
  | .expr value => do
    let _ ← p.evalExpr call env value
    return .next
  | .branch condition thenBlock elseBlock => do
    if (← Eval.int (← p.evalExpr call env condition)) = 0 then evalBlock elseBlock
    else evalBlock thenBlock
  | .loop condition body =>
    evalLoop (do Eval.int (← p.evalExpr call env condition)) (evalBlock body) limit
  | .ret none => return .returned none
  | .ret (some value) => return .returned (some (← Eval.valued (← p.evalExpr call env value)))

/-- Executes statements until one returns. -/
def evalBlock : List Stmt → Eval Flow
  | [] => return .next
  | stmt :: rest => do
    match ← evalStmt stmt with
    | .next => evalBlock rest
    | .returned value => return .returned value

end

end

variable (limit : Nat)

/-- Calls a function, with no more than so many activations at a time. -/
def evalCall : (depth : Nat) → Handler
  | 0, _, _, _ => throw .depthExceeded
  | depth + 1, id, env, args =>
    match p.function? id with
    | none => throw .illTyped
    | some function => do
      let record ← Eval.allocate (initial function.params args)
      match ← p.evalBlock (evalCall depth) ((id, record) :: env) limit function.body with
      | .returned value => return value
      | .next => if function.returnType.isUnit then return none else throw (.resultMissing id)

/-- The result of a function at top level. -/
def evaluate (depth : Nat) (id : DeclId) (args : List Int64) : Except Stop (Option Datum) :=
  (p.evalCall limit depth id [] (args.map .int)).run' .empty

end Program

end StaticChain
