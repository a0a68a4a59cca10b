import StaticChain.Lowering.Module
import StaticChain.Proofs.Tables

/-!
# The code of a body

Lowering writes code step by step into a builder. Here the result is described without the builder,
as relations between a piece of syntax and the instructions that stand for it: `ExprCode` for
expressions, `BlockCode` for statements, `FunctionCode` for whole functions, and one relation for
each thing the code does on the way, such as following a chain (`HopsCode`) or filling the slots of
a new object (`StoresCode`).

A piece of code belongs to a range of values and locals, which are numbered as they are written:
`Regs` counts them before and after. The value that holds a result is part of the relation.
-/

namespace StaticChain

open Lir (ValueId LocalId FunctionId StructId Inst Ty)

/-- The values and locals that a function has so far. -/
structure Regs where
  values : Array Ty
  locals : Array Ty

namespace Regs

/-- The value that is written next. -/
def next (σ : Regs) : ValueId := ⟨σ.values.size⟩

/-- One more value. -/
def value (σ : Regs) (ty : Ty) : Regs := { σ with values := σ.values.push ty }

/-- The local that is added next. -/
def nextLocal (σ : Regs) : LocalId := ⟨σ.locals.size⟩

/-- One more local. -/
def addLocal (σ : Regs) (ty : Ty) : Regs := { σ with locals := σ.locals.push ty }

/-- Where the result of a call goes. -/
def dest (σ : Regs) (ret : Option Ty) : Option ValueId := ret.map fun _ => σ.next

/-- The values after a call. -/
def result (σ : Regs) : Option Ty → Regs
  | some ty => σ.value ty
  | none => σ

@[simp] theorem value_values (σ : Regs) (ty : Ty) : (σ.value ty).values = σ.values.push ty := rfl

@[simp] theorem value_locals (σ : Regs) (ty : Ty) : (σ.value ty).locals = σ.locals := rfl

@[simp] theorem addLocal_values (σ : Regs) (ty : Ty) : (σ.addLocal ty).values = σ.values := rfl

@[simp] theorem addLocal_locals (σ : Regs) (ty : Ty) :
    (σ.addLocal ty).locals = σ.locals.push ty := rfl

end Regs

/-! ## Chains, contexts and objects -/

/-- Code that follows some links. -/
inductive HopsCode : Regs → ValueId → List Chain.Hop → List Inst → ValueId → Regs → Prop
  | nil {σ : Regs} {pointer : ValueId} : HopsCode σ pointer [] [] pointer σ
  | cons {σ σ' : Regs} {pointer r : ValueId} {hop : Chain.Hop} {hops : List Chain.Hop}
      {code : List Inst} :
      HopsCode ((σ.value .ptr).value .ptr) (σ.value .ptr).next hops code r σ' →
      HopsCode σ pointer (hop :: hops)
        (.fieldAddr σ.next pointer hop.struct hop.slot :: .load (σ.value .ptr).next σ.next .ptr ::
          code) r σ'

/-- A chain starts at the frame of its function or at the context that arrived. -/
theorem Nesting.chainStart_eq_ok {v : Vantage} {start : Chain.Start} {r : ValueId} :
    Nesting.chainStart v start = .ok r ↔
      start = .ownFrame ∧ v.frame = some r ∨ start = .incoming ∧ v.incoming = some r := by
  cases start with
  | ownFrame => cases hf : v.frame <;> simp [Nesting.chainStart, hf]
  | incoming => cases hi : v.incoming <;> simp [Nesting.chainStart, hi]

/-- Code that follows a chain from its start. -/
inductive ChainCode (v : Vantage) : Chain → Regs → List Inst → ValueId → Regs → Prop
  | mk {chain : Chain} {start r : ValueId} {σ σ' : Regs} {code : List Inst} :
      Nesting.chainStart v chain.start = .ok start → HopsCode σ start chain.hops code r σ' →
      ChainCode v chain σ code r σ'

/-- Code that finds a hidden argument, if there is one. -/
inductive ContextCode (v : Vantage) :
    ContextArgument → Regs → List Inst → Option ValueId → Regs → Prop
  | none {σ : Regs} : ContextCode v .none σ [] none σ
  | null {σ : Regs} : ContextCode v .null σ [.null σ.next] (some σ.next) (σ.value .ptr)
  | chain {chain : Chain} {σ σ' : Regs} {code : List Inst} {r : ValueId} :
      ChainCode v chain σ code r σ' → ContextCode v (.chain chain) σ code (some r) σ'

/-- Code that finds the context of a function value. -/
inductive ClosureContextCode (v : Vantage) :
    ContextArgument → Regs → List Inst → ValueId → Regs → Prop
  | none {σ : Regs} : ClosureContextCode v .none σ [.null σ.next] σ.next (σ.value .ptr)
  | null {σ : Regs} : ClosureContextCode v .null σ [.null σ.next] σ.next (σ.value .ptr)
  | chain {chain : Chain} {σ σ' : Regs} {code : List Inst} {r : ValueId} :
      ChainCode v chain σ code r σ' → ClosureContextCode v (.chain chain) σ code r σ'

/-- A value for a slot of a new object. -/
structure SlotStore where
  slot : Nat
  value : ValueId
  ty : Ty

/-- Code that fills slots of an object. -/
inductive StoresCode (struct : StructId) (object : ValueId) :
    Regs → List SlotStore → List Inst → Regs → Prop
  | nil {σ : Regs} : StoresCode struct object σ [] [] σ
  | cons {σ σ' : Regs} {s : SlotStore} {stores : List SlotStore} {code : List Inst} :
      StoresCode struct object (σ.value .ptr) stores code σ' →
      StoresCode struct object σ (s :: stores)
        (.fieldAddr σ.next object struct s.slot :: .store σ.next s.value s.ty :: code) σ'

/-- The store of a link, which comes first. -/
def linkStores : Option Nat → Option ValueId → List SlotStore
  | some slot, some link => [⟨slot, link, .ptr⟩]
  | _, _ => []

/-- The slots of a layout that hold fields. -/
def Layout.fieldSlots (l : Layout) : List (Layout.Slot × Nat) :=
  l.slots.zipIdx.filter fun (slot, _) => slot.kind matches .field _

/-- Code that makes an instance. -/
inductive InstanceCode (n : Nesting) :
    DeclId → Option ValueId → List ValueId → Regs → List Inst → ValueId → Regs → Prop
  | mk {aggregate : DeclId} {outer : Option ValueId} {fields : List ValueId} {l : Layout}
      {σ σ' : Regs} {code : List Inst} :
      n.layouts.layout? aggregate = some l → l.fieldSlots.length = fields.length →
      l.outerSlot.isSome = outer.isSome →
      StoresCode l.struct σ.next (σ.value .ptr)
        (linkStores l.outerSlot outer ++ (l.fieldSlots.zip fields).map fun ((slot, index), value) =>
          ⟨index, value, slot.ty⟩) code σ' →
      InstanceCode n aggregate outer fields σ (.alloc σ.next l.struct .heap :: code) σ.next σ'

/-! ## Variables -/

/-- Code that reads a variable. -/
inductive ReadCode (s : Scope) (v : Vantage) : VarId → Regs → List Inst → ValueId → Regs → Prop
  | local {id id' : VarId} {x : LocalId} {ty : Ty} {σ : Regs} :
      s.nesting.resolve v.decl id = .ok (.local id') → s.locals.lookup id' = some x →
      σ.locals[x.index]? = some ty →
      ReadCode s v id σ [.localGet σ.next x] σ.next (σ.value ty)
  | slot {id : VarId} {chain : Chain} {struct : StructId} {slot : Nat} {ty : Ty} {σ σ' : Regs}
      {code : List Inst} {carrier : ValueId} :
      s.nesting.resolve v.decl id = .ok (.slot chain struct slot ty) →
      ChainCode v chain σ code carrier σ' →
      ReadCode s v id σ
        (code ++ [.fieldAddr σ'.next carrier struct slot, .load (σ'.value .ptr).next σ'.next ty])
        (σ'.value .ptr).next ((σ'.value .ptr).value ty)

/-- Code that writes a variable. -/
inductive WriteCode (s : Scope) (v : Vantage) (value : ValueId) :
    VarId → Regs → List Inst → Regs → Prop
  | local {id id' : VarId} {x : LocalId} {σ : Regs} :
      s.nesting.resolve v.decl id = .ok (.local id') → s.locals.lookup id' = some x →
      WriteCode s v value id σ [.localSet x value] σ
  | slot {id : VarId} {chain : Chain} {struct : StructId} {slot : Nat} {ty : Ty} {σ σ' : Regs}
      {code : List Inst} {carrier : ValueId} :
      s.nesting.resolve v.decl id = .ok (.slot chain struct slot ty) →
      ChainCode v chain σ code carrier σ' →
      WriteCode s v value id σ
        (code ++ [.fieldAddr σ'.next carrier struct slot, .store σ'.next value ty]) (σ'.value .ptr)

/-! ## Expressions -/

mutual

/-- Code that evaluates an expression. -/
inductive ExprCode (s : Scope) (v : Vantage) :
    Expr → Regs → List Inst → Option ValueId → Regs → Prop
  | int {x : Int64} {σ : Regs} :
      ExprCode s v (.int x) σ [.const σ.next x] (some σ.next) (σ.value .i64)
  | bool {x : Bool} {σ : Regs} :
      ExprCode s v (.bool x) σ [.const σ.next (if x then 1 else 0)] (some σ.next) (σ.value .i64)
  | var {id : VarId} {σ σ' : Regs} {code : List Inst} {r : ValueId} :
      ReadCode s v id σ code r σ' → ExprCode s v (.var id) σ code (some r) σ'
  | strict {op : BinOp} {o : Lir.BinOp} {lhs rhs : Expr} {σ σ₁ σ₂ : Regs} {c₁ c₂ : List Inst}
      {l r : ValueId} : op.shape = .strict o →
      ExprCode s v lhs σ c₁ (some l) σ₁ → ExprCode s v rhs σ₁ c₂ (some r) σ₂ →
      ExprCode s v (.binary op lhs rhs) σ (c₁ ++ (c₂ ++ [.binary σ₂.next o l r])) (some σ₂.next)
        (σ₂.value .i64)
  | conjunction {op : BinOp} {lhs rhs : Expr} {σ σ₁ σ₂ : Regs} {c₁ c₂ : List Inst}
      {l r : ValueId} {ty : Ty} : op.shape = .conjunction →
      ExprCode s v lhs (σ.addLocal .i64) c₁ (some l) σ₁ → ExprCode s v rhs σ₁ c₂ (some r) σ₂ →
      σ₂.locals[σ.nextLocal.index]? = some ty →
      ExprCode s v (.binary op lhs rhs) σ
        (c₁ ++ [.branch l (c₂ ++ [.localSet σ.nextLocal r])
            [.const σ₂.next 0, .localSet σ.nextLocal σ₂.next],
          .localGet (σ₂.value .i64).next σ.nextLocal])
        (some (σ₂.value .i64).next) ((σ₂.value .i64).value ty)
  | disjunction {op : BinOp} {lhs rhs : Expr} {σ σ₁ σ₂ : Regs} {c₁ c₂ : List Inst}
      {l r : ValueId} {ty : Ty} : op.shape = .disjunction →
      ExprCode s v lhs (σ.addLocal .i64) c₁ (some l) σ₁ →
      ExprCode s v rhs (σ₁.value .i64) c₂ (some r) σ₂ →
      σ₂.locals[σ.nextLocal.index]? = some ty →
      ExprCode s v (.binary op lhs rhs) σ
        (c₁ ++ [.branch l [.const σ₁.next 1, .localSet σ.nextLocal σ₁.next]
            (c₂ ++ [.localSet σ.nextLocal r]),
          .localGet σ₂.next σ.nextLocal])
        (some σ₂.next) (σ₂.value ty)
  | unary {op : UnaryOp} {operand : Expr} {σ σ' : Regs} {code : List Inst} {r : ValueId} :
      ExprCode s v operand σ code (some r) σ' →
      ExprCode s v (.unary op operand) σ (code ++ [.unary σ'.next op.lower r]) (some σ'.next)
        (σ'.value .i64)
  | call {function : DeclId} {args : List Expr} {context : ContextArgument} {target : FunctionId}
      {decl : FunctionDecl} {σ σ₁ σ₂ : Regs} {c₁ c₂ : List Inst} {hidden : Option ValueId}
      {rs : List ValueId} : s.nesting.callContext v.decl function = .ok context →
      ContextCode v context σ c₁ hidden σ₁ → ExprsCode s v args σ₁ c₂ rs σ₂ →
      s.function? function = some target → s.nesting.program.function? function = some decl →
      ExprCode s v (.call function args) σ
        (c₁ ++ (c₂ ++ [.call (σ₂.dest decl.returnType.storage?) target (hidden.toList ++ rs)]))
        (σ₂.dest decl.returnType.storage?) (σ₂.result decl.returnType.storage?)
  | methodCall {receiver : Expr} {method : DeclId} {args : List Expr} {target : FunctionId}
      {decl : FunctionDecl} {σ σ₁ σ₂ : Regs} {c₁ c₂ : List Inst} {r : ValueId}
      {rs : List ValueId} :
      ExprCode s v receiver σ c₁ (some r) σ₁ → ExprsCode s v args σ₁ c₂ rs σ₂ →
      s.function? method = some target → s.nesting.program.function? method = some decl →
      ExprCode s v (.methodCall receiver method args) σ
        (c₁ ++ (c₂ ++ [.call (σ₂.dest decl.returnType.storage?) target (r :: rs)]))
        (σ₂.dest decl.returnType.storage?) (σ₂.result decl.returnType.storage?)
  | new {aggregate : DeclId} {args : List Expr} {context : ContextArgument} {σ σ₁ σ₂ σ₃ : Regs}
      {c₁ c₂ c₃ : List Inst} {rs : List ValueId} {outer : Option ValueId} {r : ValueId} :
      ExprsCode s v args σ c₁ rs σ₁ →
      s.nesting.constructionContext v.decl aggregate = .ok context →
      ContextCode v context σ₁ c₂ outer σ₂ →
      InstanceCode s.nesting aggregate outer rs σ₂ c₃ r σ₃ →
      ExprCode s v (.new aggregate args) σ (c₁ ++ (c₂ ++ c₃)) (some r) σ₃
  | fieldGet {base : Expr} {field : VarId} {σ σ' : Regs} {code : List Inst} {r : ValueId}
      {struct : StructId} {slot : Nat} {ty : Ty} :
      ExprCode s v base σ code (some r) σ' → s.fieldSlot field = .ok (struct, slot, ty) →
      ExprCode s v (.fieldGet base field) σ
        (code ++ [.fieldAddr σ'.next r struct slot, .load (σ'.value .ptr).next σ'.next ty])
        (some (σ'.value .ptr).next) ((σ'.value .ptr).value ty)
  | this {aggregate : DeclId} {chain : Chain} {σ σ' : Regs} {code : List Inst} {r : ValueId} :
      s.nesting.chainTo v.decl aggregate = .ok chain → ChainCode v chain σ code r σ' →
      ExprCode s v (.this aggregate) σ code (some r) σ'
  | functionRef {function : DeclId} {context : ContextArgument} {target : FunctionId}
      {σ σ' : Regs} {code : List Inst} {r : ValueId} :
      s.nesting.callContext v.decl function = .ok context →
      ClosureContextCode v context σ code r σ' → s.function? function = some target →
      ExprCode s v (.functionRef function) σ (code ++ [.makeClosure σ'.next target r])
        (some σ'.next) (σ'.value .closure)
  | callValue {callee : Expr} {args : List Expr} {ty : ValueType} {signature : Lir.Signature}
      {σ σ₁ σ₂ : Regs} {c₁ c₂ : List Inst} {r : ValueId} {rs : List ValueId} :
      s.nesting.program.exprType callee = .ok ty → ty.signature = .ok signature →
      ExprCode s v callee σ c₁ (some r) σ₁ → ExprsCode s v args σ₁ c₂ rs σ₂ →
      ExprCode s v (.callValue callee args) σ
        (c₁ ++ (c₂ ++ [.callClosure (σ₂.dest signature.ret) r rs signature]))
        (σ₂.dest signature.ret) (σ₂.result signature.ret)

/-- Code that evaluates expressions from left to right. -/
inductive ExprsCode (s : Scope) (v : Vantage) :
    List Expr → Regs → List Inst → List ValueId → Regs → Prop
  | nil {σ : Regs} : ExprsCode s v [] σ [] [] σ
  | cons {expr : Expr} {rest : List Expr} {σ σ₁ σ₂ : Regs} {c₁ c₂ : List Inst} {r : ValueId}
      {rs : List ValueId} :
      ExprCode s v expr σ c₁ (some r) σ₁ → ExprsCode s v rest σ₁ c₂ rs σ₂ →
      ExprsCode s v (expr :: rest) σ (c₁ ++ c₂) (r :: rs) σ₂

end

/-! ## Statements -/

mutual

/-- Code that executes a statement. -/
inductive StmtCode (s : Scope) (v : Vantage) : Stmt → Regs → List Inst → Regs → Prop
  | letVar {id : VarId} {value : Expr} {σ σ₁ σ₂ : Regs} {c₁ c₂ : List Inst} {r : ValueId} :
      ExprCode s v value σ c₁ (some r) σ₁ → WriteCode s v r id σ₁ c₂ σ₂ →
      StmtCode s v (.letVar id value) σ (c₁ ++ c₂) σ₂
  | assignVar {id : VarId} {value : Expr} {σ σ₁ σ₂ : Regs} {c₁ c₂ : List Inst} {r : ValueId} :
      ExprCode s v value σ c₁ (some r) σ₁ → WriteCode s v r id σ₁ c₂ σ₂ →
      StmtCode s v (.assign (.var id) value) σ (c₁ ++ c₂) σ₂
  | assignField {base : Expr} {field : VarId} {value : Expr} {σ σ₁ σ₂ : Regs}
      {c₁ c₂ : List Inst} {o r : ValueId} {struct : StructId} {slot : Nat} {ty : Ty} :
      ExprCode s v base σ c₁ (some o) σ₁ → ExprCode s v value σ₁ c₂ (some r) σ₂ →
      s.fieldSlot field = .ok (struct, slot, ty) →
      StmtCode s v (.assign (.field base field) value) σ
        (c₁ ++ (c₂ ++ [.fieldAddr σ₂.next o struct slot, .store σ₂.next r ty])) (σ₂.value .ptr)
  | expr {value : Expr} {σ σ' : Regs} {code : List Inst} {r : Option ValueId} :
      ExprCode s v value σ code r σ' → StmtCode s v (.expr value) σ code σ'
  | branch {condition : Expr} {thenBlock elseBlock : List Stmt} {σ σ₁ σ₂ σ₃ : Regs}
      {c₁ c₂ c₃ : List Inst} {r : ValueId} :
      ExprCode s v condition σ c₁ (some r) σ₁ → BlockCode s v thenBlock σ₁ c₂ σ₂ →
      BlockCode s v elseBlock σ₂ c₃ σ₃ →
      StmtCode s v (.branch condition thenBlock elseBlock) σ (c₁ ++ [.branch r c₂ c₃]) σ₃
  | loop {condition : Expr} {body : List Stmt} {σ σ₁ σ₂ : Regs} {c₁ c₂ : List Inst}
      {r : ValueId} :
      ExprCode s v condition σ c₁ (some r) σ₁ → BlockCode s v body σ₁ c₂ σ₂ →
      StmtCode s v (.loop condition body) σ [.loop c₁ r c₂] σ₂
  | retNone {σ : Regs} : StmtCode s v (.ret none) σ [.ret none] σ
  | ret {value : Expr} {σ σ' : Regs} {code : List Inst} {r : ValueId} :
      ExprCode s v value σ code (some r) σ' →
      StmtCode s v (.ret (some value)) σ (code ++ [.ret (some r)]) σ'

/-- Code that executes statements one after the other. -/
inductive BlockCode (s : Scope) (v : Vantage) : List Stmt → Regs → List Inst → Regs → Prop
  | nil {σ : Regs} : BlockCode s v [] σ [] σ
  | cons {stmt : Stmt} {rest : List Stmt} {σ σ₁ σ₂ : Regs} {c₁ c₂ : List Inst} :
      StmtCode s v stmt σ c₁ σ₁ → BlockCode s v rest σ₁ c₂ σ₂ →
      BlockCode s v (stmt :: rest) σ (c₁ ++ c₂) σ₂

end

/-! ## Functions -/

/-- Code that reads the captured parameters, from a position on, and the locals of the others. -/
inductive ParamsCode (n : Nesting) (first : Nat) : Nat → List VarId → Regs → List Inst →
    List (VarId × ValueId) → List (VarId × LocalId) → Regs → Prop
  | nil {index : Nat} {σ : Regs} : ParamsCode n first index [] σ [] [] [] σ
  | captured {index : Nat} {param : VarId} {rest : List VarId} {σ σ' : Regs} {ty : Ty}
      {code : List Inst} {arrived : List (VarId × ValueId)} {locals : List (VarId × LocalId)} :
      n.captures.isCaptured param = true → σ.locals[index + first]? = some ty →
      ParamsCode n first (index + 1) rest (σ.value ty) code arrived locals σ' →
      ParamsCode n first index (param :: rest) σ (.localGet σ.next ⟨index + first⟩ :: code)
        ((param, σ.next) :: arrived) locals σ'
  | local {index : Nat} {param : VarId} {rest : List VarId} {σ σ' : Regs} {code : List Inst}
      {arrived : List (VarId × ValueId)} {locals : List (VarId × LocalId)} :
      n.captures.isCaptured param = false →
      ParamsCode n first (index + 1) rest σ code arrived locals σ' →
      ParamsCode n first index (param :: rest) σ code arrived ((param, ⟨index + first⟩) :: locals) σ'

/-- The locals of the variables that are not captured. -/
inductive LocalsBound (n : Nesting) : List VarId → Regs → List (VarId × LocalId) → Regs → Prop
  | nil {σ : Regs} : LocalsBound n [] σ [] σ
  | captured {x : VarId} {rest : List VarId} {σ σ' : Regs} {locals : List (VarId × LocalId)} :
      n.captures.isCaptured x = true → LocalsBound n rest σ locals σ' →
      LocalsBound n (x :: rest) σ locals σ'
  | local {x : VarId} {rest : List VarId} {σ σ' : Regs} {locals : List (VarId × LocalId)}
      {var : Variable} {ty : Ty} : n.captures.isCaptured x = false →
      n.program.var? x = some var → var.ty.storage? = some ty →
      LocalsBound n rest (σ.addLocal ty) locals σ' →
      LocalsBound n (x :: rest) σ ((x, σ.nextLocal) :: locals) σ'

/-- The stores of captured parameters into a frame. -/
inductive ParamStores (l : Layout) : List (VarId × ValueId) → List SlotStore → Prop
  | nil : ParamStores l [] []
  | cons {x : VarId} {value : ValueId} {rest : List (VarId × ValueId)} {slot : Nat}
      {stores : List SlotStore} : l.slotOf? x = some slot → ParamStores l rest stores →
      ParamStores l ((x, value) :: rest) (⟨slot, value, (l.slotType? slot).getD .ptr⟩ :: stores)

/-- Code that enters a function: it makes the frame, if there is one. -/
inductive EnterCode (n : Nesting) (decl : DeclId) (incoming : Option ValueId)
    (arrived : List (VarId × ValueId)) : Regs → List Inst → Vantage → Regs → Prop
  | frameless {σ : Regs} : n.captures.isFrameNeeded decl = false →
      EnterCode n decl incoming arrived σ [] ⟨decl, none, incoming⟩ σ
  | framed {l : Layout} {kind : Lir.AllocKind} {stores : List SlotStore} {σ σ' : Regs}
      {code : List Inst} : n.captures.isFrameNeeded decl = true →
      n.layouts.layout? decl = some l → n.plan.kind? decl = some kind →
      (l.parentSlot.isSome = true → incoming.isSome = true) → ParamStores l arrived stores →
      StoresCode l.struct σ.next (σ.value .ptr) (linkStores l.parentSlot incoming ++ stores) code
        σ' →
      EnterCode n decl incoming arrived σ (.alloc σ.next l.struct kind :: code)
        ⟨decl, some σ.next, incoming⟩ σ'

/-- Code that reads the context, if the function has one. -/
inductive IncomingCode : Bool → Regs → List Inst → Option ValueId → Regs → Prop
  | none {σ : Regs} : IncomingCode false σ [] none σ
  | some {σ : Regs} {ty : Ty} : σ.locals[0]? = some ty →
      IncomingCode true σ [.localGet σ.next ⟨0⟩] (some σ.next) (σ.value ty)

/-- The types of the parameters. -/
def ParamTypes (p : Program) (params : List VarId) (tys : List Ty) : Prop :=
  List.Forall₂ (fun x ty => ∃ var, p.var? x = some var ∧ var.ty.storage? = some ty) params tys

/-- The function that a declaration is lowered to, and how its body sees the static chain. -/
inductive FunctionCode (s : Scope) (id : DeclId) : Vantage → Lir.Function → Prop
  | mk {decl : Declaration} {function : FunctionDecl} {target : FunctionId} {params : List Ty}
      {incoming : Option ValueId} {arrived : List (VarId × ValueId)}
      {paramLocals locals : List (VarId × LocalId)} {v : Vantage} {σ₁ σ₂ σ₃ σ₄ σ₅ : Regs}
      {c₁ c₂ c₃ c₄ : List Inst} :
      s.nesting.program.decl? id = some decl → decl.kind = .function function →
      s.function? id = some target → ParamTypes s.nesting.program function.params params →
      IncomingCode decl.parent.isSome
        ⟨#[], ((if decl.parent.isSome then [Ty.ptr] else []) ++ params).toArray⟩ c₁ incoming σ₁ →
      ParamsCode s.nesting decl.parent.isSome.toNat 0 function.params σ₁ c₂ arrived paramLocals σ₂ →
      LocalsBound s.nesting (decl.locals.drop function.params.length) σ₂ locals σ₃ →
      EnterCode s.nesting id incoming arrived σ₃ c₃ v σ₄ →
      BlockCode { s with locals := paramLocals ++ locals, current := some v } v function.body σ₄ c₄
        σ₅ →
      FunctionCode s id v {
        id := target
        name := s.nesting.program.qualifiedName id
        decl := id
        hasContext := decl.parent.isSome
        params
        ret := function.returnType.storage?
        locals := σ₅.locals
        valueTypes := σ₅.values
        body := c₁ ++ (c₂ ++ (c₃ ++ (c₄ ++
          [if function.returnType.isUnit then .ret none else .unreachable]))) }

end StaticChain
