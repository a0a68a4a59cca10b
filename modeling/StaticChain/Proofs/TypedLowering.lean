import StaticChain.Proofs.CodeTypes
import StaticChain.Proofs.Entering

/-!
# Type-correct programs are lowered to typed code

By induction on the syntax, what a type-correct program is lowered to fits the types that each function
declares (`Lir.Function.Typed`). The value of an expression has the storage of its type; at the end of a
body stands an instruction after which nothing goes on.
-/

namespace StaticChain

open Lir (ValueId LocalId Inst Ty)

/-! ## Variables -/

/-- What code finds when it starts has its types: frame, context and the locals of variables. -/
structure Scope.Typed (s : Scope) (p : Program) (v : Vantage) (τ : Regs) : Prop where
  vantage : v.Typed τ
  locals : ∀ x l, s.locals.lookup x = some l → τ.LocalHolds p l x

section

variable {n : Nesting} {policy : FramePolicy} {m : Lir.Module} (hm : n.Lowers policy m) {ret : Option Ty}
  {s : Scope} (hs : s.Within n) {v : Vantage} {τ : Regs} (ht : s.Typed n.program v τ)
include hm hs ht

variable (ret) in
theorem ReadCode.typed {σ σ' : Regs} {code : List Inst} {x : VarId} {r : ValueId}
    (h : ReadCode s v x σ code r σ') (hle : σ'.Le τ) :
    CodeTyped m ret τ code ∧ τ.HoldsVar n.program r x := by
  obtain ⟨rfl, -⟩ := hs
  cases h with
  | «local» hres hx hty =>
    obtain ⟨rfl, -⟩ := Nesting.resolve_eq_local hres
    have hlocal := hle.of_value.hasLocal hty
    refine ⟨.single (.localGet hlocal hle.next), ?_⟩
    intro ty hstored
    cases hlocal.unique (ht.locals _ _ hx _ hstored)
    exact hle.next
  | slot hres hchain =>
    obtain ⟨var, l, -, -, hl, rfl, hslot, hty⟩ := Nesting.resolve_eq_slot hres
    obtain ⟨ty, hty', hstored⟩ := hm.varStoredAs_of_slotOf? hl hslot
    cases Option.some.inj (hty.symm.trans hty')
    obtain ⟨hcode, hcarrier⟩ := hchain.typed m ret hle.of_value.of_value ht.vantage
    refine ⟨hcode.append (.read hcarrier hle .nil), ?_⟩
    intro ty' hstored'
    cases hstored.unique hstored'
    exact hle.next

theorem WriteCode.typed {σ σ' : Regs} {code : List Inst} {x : VarId} {value : ValueId}
    (h : WriteCode s v value x σ code σ') (hle : σ'.Le τ) (hvalue : τ.HoldsVar n.program value x) :
    CodeTyped m ret τ code := by
  obtain ⟨rfl, -⟩ := hs
  cases h with
  | «local» hres hx =>
    obtain ⟨rfl, var, hv, -⟩ := Nesting.resolve_eq_local hres
    obtain ⟨ty, hstored⟩ := hm.built.checked.exists_varStoredAs hv
    exact .single (.localSet (ht.locals _ _ hx _ hstored) (hvalue _ hstored))
  | slot hres hchain =>
    obtain ⟨var, l, -, -, hl, rfl, hslot, hty⟩ := Nesting.resolve_eq_slot hres
    obtain ⟨ty, hty', hstored⟩ := hm.varStoredAs_of_slotOf? hl hslot
    cases Option.some.inj (hty.symm.trans hty')
    obtain ⟨hcode, hcarrier⟩ := hchain.typed m ret hle.of_value ht.vantage
    exact hcode.append (.write hcarrier (hvalue _ hstored) hle .nil)

end

/-! ## Expressions -/

/-- What a lowered function takes and gives back is known from its declaration. -/
theorem Nesting.LoweredTo.signature_eq {n : Nesting} {id : DeclId} {f : Lir.Function} (h : n.LoweredTo id f)
    (hs : n.scope.nesting = n) {function : FunctionDecl} (hf : n.program.function? id = some function) :
    ParamTypes n.program function.params f.params ∧ f.ret = function.returnType.storage? := by
  obtain ⟨_, _, -, -, hcode⟩ := h
  cases hcode with | mk hd hk _ hparams =>
  rw [hs] at hd hparams
  obtain ⟨decl', hd', hk'⟩ := Program.function?_eq_some_iff.1 hf
  cases Option.some.inj (hd.symm.trans hd')
  cases hk.symm.trans hk'
  exact ⟨hparams, rfl⟩

section

variable {n : Nesting} {policy : FramePolicy} {m : Lir.Module} (hm : n.Lowers policy m)
include hm

/-- The arguments of a call have the storage types that the callee asks for. -/
theorem InstTyped.of_callee {ret : Option Ty} {σ τ : Regs} {s : Scope} (hs : s.Within n) {id : DeclId}
    {function : FunctionDecl} (hf : n.program.function? id = some function) {target : Lir.FunctionId}
    (htarget : s.function? id = some target) {hidden : Option ValueId} {rs : List ValueId}
    (hsome : hidden.isSome = (n.program.parent? id).isSome) (hhidden : ∀ r, hidden = some r → τ.HasValue r .ptr)
    (hargs : List.Forall₂ (τ.HoldsVar n.program) rs function.params)
    (hle : (σ.result function.returnType.storage?).Le τ) :
    InstTyped m ret τ (.call (σ.dest function.returnType.storage?) target (hidden.toList ++ rs)) := by
  rw [hs.function_eq] at htarget
  obtain ⟨f, hfun, hlowered⟩ := hm.function?_of_scope htarget
  obtain ⟨hparams, hret⟩ := hlowered.signature_eq n.scope_nesting hf
  obtain ⟨-, hcontext⟩ := hlowered.hasContext n.scope_nesting
  refine .call hfun (List.rel_append ?_ (Regs.hasValue_of_holdsVar hargs hparams)) (hret ▸ hle.dest)
  rw [hcontext, ← hsome]
  cases hidden with
  | none => exact .nil
  | some r => exact .cons (hhidden r rfl) .nil

end

/-- A context is passed exactly to functions that stand in another declaration. -/
theorem ContextCode.isSome_eq {n : Nesting} {v : Vantage} {function : DeclId} {context : ContextArgument}
    {σ σ' : Regs} {code : List Inst} {hidden : Option ValueId} (h : ContextCode v context σ code hidden σ')
    (hc : n.callContext v.decl function = .ok context) :
    hidden.isSome = (n.program.parent? function).isSome := by
  obtain ⟨-, ⟨rfl, hpar⟩ | rfl | ⟨hpar, hfor⟩⟩ := Nesting.callContext_eq_ok hc
  · cases h
    simp [hpar]
  · cases h
  · rw [hpar]
    cases hfor <;> cases h <;> rfl

/-- The code of the expression fits its types, and its result is stored as the expression's type. -/
def ExprFits (n : Nesting) (m : Lir.Module) (ret : Option Ty) (τ : Regs) (s : Scope) (v : Vantage)
    (expr : Expr) : Prop :=
  ∀ {σ σ' code r}, ExprCode s v expr σ code r σ' → σ'.Le τ → n.program.checkExpr expr = .ok () →
    n.program.ExprTyped expr → CodeTyped m ret τ code ∧ ∀ x, r = some x → τ.Holds n.program expr x

section

variable {n : Nesting} {policy : FramePolicy} {m : Lir.Module} (hm : n.Lowers policy m) {ret : Option Ty}
  {s : Scope} (hs : s.Within n) {v : Vantage} {τ : Regs} (ht : s.Typed n.program v τ)

theorem ExprsCode.typed_of {args : List Expr} (ih : ∀ arg ∈ args, ExprFits n m ret τ s v arg)
    {σ σ' : Regs} {code : List Inst} {rs : List ValueId} (h : ExprsCode s v args σ code rs σ')
    (hle : σ'.Le τ) (hcheck : n.program.checkExprs args = .ok ()) (htyped : n.program.ExprsTyped args) :
    CodeTyped m ret τ code ∧ List.Forall₂ (τ.Holds n.program) args rs := by
  induction args generalizing σ code rs with
  | nil =>
    cases h
    exact ⟨.nil, .nil⟩
  | cons arg args iha =>
    obtain ⟨⟩ | ⟨harg, hargs⟩ := h
    simp only [Program.checkExprs, then_eq_ok] at hcheck
    obtain ⟨hc₁, hr⟩ := ih arg (by simp) harg (hargs.le.trans hle) hcheck.1 htyped.1
    obtain ⟨hc₂, hrs⟩ := iha (fun arg ha => ih arg (by simp [ha])) hargs hcheck.2 htyped.2
    exact ⟨hc₁.append hc₂, .cons (hr _ rfl) hrs⟩

namespace ExprFits

theorem int (value : Int64) : ExprFits n m ret τ s v (.int value) := by
  intro σ σ' code r h hle _ _
  cases h
  refine ⟨.single (.const hle.next), ?_⟩
  rintro _ ⟨⟩
  exact hle.holds rfl rfl

theorem bool (value : Bool) : ExprFits n m ret τ s v (.bool value) := by
  intro σ σ' code r h hle _ _
  cases h
  refine ⟨.single (.const hle.next), ?_⟩
  rintro _ ⟨⟩
  exact hle.holds rfl rfl

/-! ### Operators -/

theorem unary (op : UnaryOp) {operand : Expr} (ih : ExprFits n m ret τ s v operand) :
    ExprFits n m ret τ s v (.unary op operand) := by
  intro σ σ' code r h hle hcheck htyped
  cases h with | unary ho =>
  obtain ⟨hc, hx⟩ := ih ho hle.of_value hcheck htyped.1
  obtain ⟨ty, hscalar, hty⟩ := n.program.exists_hasType_unary op operand
  refine ⟨hc.append (.single (.unary (hx _ rfl _ htyped.2.storedAs) hle.next)), ?_⟩
  rintro _ ⟨⟩
  exact hle.holds hty hscalar.storage?_eq

theorem binary (op : BinOp) {lhs rhs : Expr} (ihl : ExprFits n m ret τ s v lhs)
    (ihr : ExprFits n m ret τ s v rhs) : ExprFits n m ret τ s v (.binary op lhs rhs) := by
  intro σ σ' code r h hle hcheck htyped
  simp only [Program.checkExpr, then_eq_ok] at hcheck
  obtain ⟨htl, htr, hsl, hsr⟩ := htyped
  obtain ⟨ty, hty⟩ : ∃ ty, n.program.HasType (.binary op lhs rhs) ty := ⟨_, rfl⟩
  have hstorage := (Program.isScalar_of_binary hty).storage?_eq
  cases h with
  | strict hop hl hr =>
    obtain ⟨hc₁, hx⟩ := ihl hl (hr.le.trans hle.of_value) hcheck.1 htl
    obtain ⟨hc₂, hy⟩ := ihr hr hle.of_value hcheck.2 htr
    refine ⟨hc₁.append (hc₂.append (.single
      (.binary (hx _ rfl _ hsl.storedAs) (hy _ rfl _ hsr.storedAs) hle.next))), ?_⟩
    rintro _ ⟨⟩
    exact hle.holds hty hstorage
  | conjunction hop hl hr hlocal =>
    -- The truth value goes through a local, which is added when the left operand is there.
    have hle₂ := hle.of_value.of_value
    obtain ⟨hc₁, hx⟩ := ihl hl (hr.le.trans hle₂) hcheck.1 htl
    obtain ⟨hc₂, hy⟩ := ihr hr hle₂ hcheck.2 htr
    have htruth := ((hl.le.trans hr.le).trans hle₂).nextLocal
    cases htruth.unique (hle₂.hasLocal hlocal)
    refine ⟨hc₁.append (.branch (hx _ rfl _ hsl.storedAs) ?_ ?_ (.single (.localGet htruth hle.next))), ?_⟩
    · exact hc₂.append (.single (.localSet htruth (hy _ rfl _ hsr.storedAs)))
    · exact .inst (.const hle.of_value.next) (.single (.localSet htruth hle.of_value.next))
    · rintro _ ⟨⟩
      exact hle.holds hty hstorage
  | disjunction hop hl hr hlocal =>
    have hle₁ := hr.le.trans hle.of_value
    obtain ⟨hc₁, hx⟩ := ihl hl hle₁.of_value hcheck.1 htl
    obtain ⟨hc₂, hy⟩ := ihr hr hle.of_value hcheck.2 htr
    have htruth := (hl.le.trans hle₁.of_value).nextLocal
    cases htruth.unique (hle.of_value.hasLocal hlocal)
    refine ⟨hc₁.append (.branch (hx _ rfl _ hsl.storedAs) ?_ ?_ (.single (.localGet htruth hle.next))), ?_⟩
    · exact .inst (.const hle₁.next) (.single (.localSet htruth hle₁.next))
    · exact hc₂.append (.single (.localSet htruth (hy _ rfl _ hsr.storedAs)))
    · rintro _ ⟨⟩
      exact hle.holds hty hstorage

section

include hs ht

omit hs in
theorem this (aggregate : DeclId) : ExprFits n m ret τ s v (.this aggregate) := by
  intro σ σ' code r h hle _ _
  cases h with | this _ hchain =>
  obtain ⟨hc, hr⟩ := hchain.typed m ret hle ht.vantage
  refine ⟨hc, ?_⟩
  rintro _ ⟨⟩ ty hstored
  cases hstored.eq_of_hasType (show n.program.HasType (.this aggregate) (.instanceOf aggregate) from rfl)
  exact hr

include hm

/-! ### Variables and fields -/

theorem var (x : VarId) : ExprFits n m ret τ s v (.var x) := by
  intro σ σ' code r h hle _ _
  cases h with | var hread =>
  obtain ⟨hcode, hr⟩ := hread.typed hm ret hs ht hle
  refine ⟨hcode, ?_⟩
  rintro _ ⟨⟩ ty hstored
  exact hr ty (hstored.varStoredAs rfl)

theorem fieldGet {base : Expr} (field : VarId) (ih : ExprFits n m ret τ s v base) :
    ExprFits n m ret τ s v (.fieldGet base field) := by
  intro σ σ' code r h hle hcheck htyped
  simp only [Program.checkExpr, then_eq_ok] at hcheck
  obtain ⟨htb, var, hv, hbase⟩ := htyped
  cases h with | fieldGet hcode hslot =>
  obtain ⟨rfl, -⟩ := hs
  obtain ⟨hc, hx⟩ := ih hcode hle.of_value.of_value hcheck.1 htb
  obtain ⟨var', l, hv', hl, rfl, hfield, rfl⟩ := Scope.fieldSlot_eq_ok hslot
  obtain ⟨ty, hty, hstored⟩ := hm.varStoredAs_of_slotOf? hl hfield
  refine ⟨hc.append (.read (hx _ rfl _ ⟨_, hbase, rfl⟩) hle .nil), ?_⟩
  rintro _ ⟨⟩ ty' hstored'
  cases hstored.unique (hstored'.varStoredAs rfl)
  simpa [hty] using hle.next

/-! ### Instances and function values -/

theorem new (aggregate : DeclId) {args : List Expr} (ih : ∀ arg ∈ args, ExprFits n m ret τ s v arg) :
    ExprFits n m ret τ s v (.new aggregate args) := by
  intro σ σ' code r h hle hcheck htyped
  simp only [Program.checkExpr, then_eq_ok] at hcheck
  obtain ⟨hta, decl, hdecl, hforall⟩ := htyped
  cases h with | new hargs hcontext houter hinstance =>
  rw [hs.nesting_eq] at hinstance
  have hle₂ := hinstance.le.trans hle
  obtain ⟨hc₁, hrs⟩ := hargs.typed_of ih (houter.le.trans hle₂) hcheck.2 hta
  obtain ⟨hc₂, ho⟩ := houter.typed m ret hle₂ ht.vantage
  obtain ⟨hc₃, hr⟩ := hinstance.typed ret hm hdecl hle ho (Regs.holdsVar_of_typedAs hrs hforall)
  refine ⟨hc₁.append (hc₂.append hc₃), ?_⟩
  rintro _ ⟨⟩ ty hstored
  cases hstored.eq_of_hasType (show n.program.HasType (.new aggregate args) (.instanceOf aggregate) from rfl)
  exact hr

theorem functionRef (function : DeclId) : ExprFits n m ret τ s v (.functionRef function) := by
  intro σ σ' code r h hle _ _
  cases h with | functionRef hcontext hcode _ =>
  rw [hs.nesting_eq] at hcontext
  obtain ⟨⟨fn, hfn⟩, -⟩ := Nesting.callContext_eq_ok hcontext
  obtain ⟨hc, hr⟩ := hcode.typed m ret hle.of_value ht.vantage
  refine ⟨hc.append (.single (.makeClosure hr hle.next)), ?_⟩
  rintro _ ⟨⟩
  exact hle.holds (hm.built.checked.functionValueType_eq hfn) rfl

/-! ### Calls -/

theorem call (function : DeclId) {args : List Expr} (ih : ∀ arg ∈ args, ExprFits n m ret τ s v arg) :
    ExprFits n m ret τ s v (.call function args) := by
  intro σ σ' code r h hle hcheck htyped
  simp only [Program.checkExpr, then_eq_ok] at hcheck
  obtain ⟨hta, fn, hfn, hforall⟩ := htyped
  cases h with | call hcontext hhidden hargs htarget hdecl =>
  rw [hs.nesting_eq] at hcontext hdecl
  cases Option.some.inj (hfn.symm.trans hdecl)
  obtain ⟨hc₂, hrs⟩ := hargs.typed_of ih hle.of_result hcheck.2 hta
  obtain ⟨hc₁, hh⟩ := hhidden.typed m ret (hargs.le.trans hle.of_result) ht.vantage
  refine ⟨hc₁.append (hc₂.append (.single (.of_callee hm hs hfn htarget (hhidden.isSome_eq hcontext) hh
    (Regs.holdsVar_of_typedAs hrs hforall) hle))), ?_⟩
  exact fun x hx => hle.holds_dest (Program.hasType_call hfn args) hx

omit ht in
theorem methodCall {receiver : Expr} (method : DeclId) {args : List Expr}
    (ihr : ExprFits n m ret τ s v receiver) (ih : ∀ arg ∈ args, ExprFits n m ret τ s v arg) :
    ExprFits n m ret τ s v (.methodCall receiver method args) := by
  intro σ σ' code r h hle hcheck htyped
  simp only [Program.checkExpr, then_eq_ok] at hcheck
  obtain ⟨htr, hta, fn, parent, hfn, hpar, hrecv, hforall⟩ := htyped
  cases h with | @methodCall _ _ _ _ _ _ _ _ _ _ x _ hr hargs htarget hdecl =>
  rw [hs.nesting_eq] at hdecl
  cases Option.some.inj (hfn.symm.trans hdecl)
  obtain ⟨hc₂, hrs⟩ := hargs.typed_of ih hle.of_result hcheck.2.2 hta
  obtain ⟨hc₁, hx⟩ := ihr hr (hargs.le.trans hle.of_result) hcheck.1 htr
  have hreceiver : ∀ r, some x = some r → τ.HasValue r .ptr := by
    rintro _ ⟨⟩
    exact hx x rfl _ ⟨_, hrecv, rfl⟩
  refine ⟨hc₁.append (hc₂.append (.single (.of_callee hm hs hfn htarget (by simp [hpar]) hreceiver
    (Regs.holdsVar_of_typedAs hrs hforall) hle))), ?_⟩
  exact fun x hx => hle.holds_dest (Program.hasType_methodCall hfn receiver args) hx

omit hm ht in
theorem callValue {callee : Expr} {args : List Expr} (ihc : ExprFits n m ret τ s v callee)
    (ih : ∀ arg ∈ args, ExprFits n m ret τ s v arg) :
    ExprFits n m ret τ s v (.callValue callee args) := by
  intro σ σ' code r h hle hcheck htyped
  simp only [Program.checkExpr, then_eq_ok] at hcheck
  obtain ⟨htc, hta, params, result, hfun, hforall⟩ := htyped
  cases h with | callValue hty hsig hcallee hargs =>
  rw [hs.nesting_eq] at hty
  cases hfun.unique hty
  obtain ⟨hc₁, hx⟩ := ihc hcallee (hargs.le.trans hle.of_result) hcheck.1 htc
  obtain ⟨hc₂, hrs⟩ := hargs.typed_of ih hle.of_result hcheck.2 hta
  obtain ⟨tys, htys, hsig⟩ := bind_eq_ok.1 hsig
  cases pure_eq_ok.1 hsig
  have hstorage : List.Forall₂ (fun type ty => type.storage? = some ty) params tys :=
    (mapM_eq_ok.1 htys).imp fun _ _ => ValueType.storage_eq_ok.1
  refine ⟨hc₁.append (hc₂.append (.single (.callClosure (hx _ rfl _ ⟨_, hfun, rfl⟩)
    (Regs.hasValue_of_hasType hrs hforall hstorage) hle.dest))), ?_⟩
  exact fun x hx => hle.holds_dest (Program.hasType_callValue hfun args) hx

end

end ExprFits

include hm hs ht

theorem exprFits (expr : Expr) : ExprFits n m ret τ s v expr := by
  induction expr using Expr.ind with
  | int value => exact ExprFits.int value
  | bool value => exact ExprFits.bool value
  | var x => exact ExprFits.var hm hs ht x
  | binary op lhs rhs ihl ihr => exact ExprFits.binary op ihl ihr
  | unary op operand ih => exact ExprFits.unary op ih
  | call function args ih => exact ExprFits.call hm hs ht function ih
  | methodCall receiver method args ihr ih => exact ExprFits.methodCall hm hs method ihr ih
  | new aggregate args ih => exact ExprFits.new hm hs ht aggregate ih
  | fieldGet base field ih => exact ExprFits.fieldGet hm hs ht field ih
  | this aggregate => exact ExprFits.this ht aggregate
  | functionRef function => exact ExprFits.functionRef hm hs ht function
  | callValue callee args ihc ih => exact ExprFits.callValue hs ihc ih

end

/-! ## Statements -/

/-- The code of the statement fits its types. -/
def StmtFits (n : Nesting) (m : Lir.Module) (type : ValueType) (τ : Regs) (s : Scope) (v : Vantage)
    (stmt : Stmt) : Prop :=
  ∀ {σ σ' code}, StmtCode s v stmt σ code σ' → σ'.Le τ → n.program.checkStmt v.decl stmt = .ok () →
    n.program.StmtTyped type stmt → stmt.ReturnsValue (!type.isUnit) → CodeTyped m type.storage? τ code

section

variable {n : Nesting} {policy : FramePolicy} {m : Lir.Module} (hm : n.Lowers policy m) {type : ValueType}
  {s : Scope} (hs : s.Within n) {v : Vantage} {τ : Regs} (ht : s.Typed n.program v τ)

theorem BlockCode.typed_of {block : List Stmt} (ih : ∀ stmt ∈ block, StmtFits n m type τ s v stmt)
    {σ σ' : Regs} {code : List Inst} (h : BlockCode s v block σ code σ') (hle : σ'.Le τ)
    (hcheck : n.program.checkBlock v.decl block = .ok ()) (htyped : n.program.BlockTyped type block)
    (hreturns : Stmt.BlockReturnsValue (!type.isUnit) block) : CodeTyped m type.storage? τ code := by
  induction block generalizing σ code with
  | nil =>
    cases h
    exact .nil
  | cons stmt block ihb =>
    obtain ⟨⟩ | ⟨hstmt, hblock⟩ := h
    simp only [Program.checkBlock, then_eq_ok] at hcheck
    exact (ih stmt (by simp) hstmt (hblock.le.trans hle) hcheck.1 htyped.1 hreturns.1).append
      (ihb (fun stmt hmem => ih stmt (by simp [hmem])) hblock hcheck.2 htyped.2 hreturns.2)

include hm hs ht

theorem stmtFits (stmt : Stmt) : StmtFits n m type τ s v stmt := by
  have value : ∀ expr : Expr, ExprFits n m type.storage? τ s v expr := exprFits hm hs ht
  have write : ∀ {x : VarId} {expr : Expr} {σ σ₁ σ₂ : Regs} {c₁ c₂ : List Inst} {r : ValueId},
      ExprCode s v expr σ c₁ (some r) σ₁ → WriteCode s v r x σ₁ c₂ σ₂ → σ₂.Le τ →
      n.program.checkExpr expr = .ok () → n.program.ExprTyped expr ∧ n.program.TypedAs expr x →
      CodeTyped m type.storage? τ (c₁ ++ c₂) := by
    intro x expr σ σ₁ σ₂ c₁ c₂ r hexpr hwrite hle hcheck htyped
    obtain ⟨hc, hr⟩ := value expr hexpr (hwrite.le.trans hle) hcheck htyped.1
    exact hc.append (hwrite.typed hm hs ht hle ((hr r rfl).holdsVar htyped.2))
  induction stmt using Stmt.ind with
  | letVar x expr =>
    intro σ σ' code h hle hcheck htyped _
    simp only [Program.checkStmt, then_eq_ok] at hcheck
    cases h with | letVar hexpr hwrite =>
    exact write hexpr hwrite hle hcheck.2 htyped
  | assign target expr =>
    intro σ σ' code h hle hcheck htyped _
    simp only [Program.checkStmt, then_eq_ok] at hcheck
    cases h with
    | assignVar hexpr hwrite => exact write hexpr hwrite hle hcheck.2 htyped
    | assignField hbase hexpr hslot =>
      obtain ⟨rfl, -⟩ := hs
      simp only [Program.checkPlace, then_eq_ok] at hcheck
      obtain ⟨htb, hte, ⟨var, hv, hinstance⟩, hfits⟩ := htyped
      obtain ⟨hc₁, ho⟩ := value _ hbase (hexpr.le.trans hle.of_value) hcheck.1.1 htb
      obtain ⟨hc₂, hr⟩ := value _ hexpr hle.of_value hcheck.2 hte
      obtain ⟨var', l, hv', hl, rfl, hfield, rfl⟩ := Scope.fieldSlot_eq_ok hslot
      obtain ⟨ty, hty, hstored⟩ := hm.varStoredAs_of_slotOf? hl hfield
      refine hc₁.append (hc₂.append (.write (ho _ rfl _ ⟨_, hinstance, rfl⟩) ?_ hle .nil))
      simpa [hty] using (hr _ rfl).holdsVar hfits ty hstored
  | expr expr =>
    intro σ σ' code h hle hcheck htyped _
    cases h with | expr hexpr =>
    exact (value expr hexpr hle hcheck htyped).1
  | branch condition thenBlock elseBlock iht ihe =>
    intro σ σ' code h hle hcheck htyped hreturns
    simp only [Program.checkStmt, then_eq_ok] at hcheck
    obtain ⟨htc, hscalar, htt, hte⟩ := htyped
    cases h with | branch hcond hthen helse =>
    have hle₂ := helse.le.trans hle
    obtain ⟨hc, hx⟩ := value condition hcond (hthen.le.trans hle₂) hcheck.1 htc
    exact hc.append (.branch (hx _ rfl _ hscalar.storedAs) (hthen.typed_of iht hle₂ hcheck.2.1 htt hreturns.1)
      (helse.typed_of ihe hle hcheck.2.2 hte hreturns.2) .nil)
  | loop condition body ih =>
    intro σ σ' code h hle hcheck htyped hreturns
    simp only [Program.checkStmt, then_eq_ok] at hcheck
    obtain ⟨htc, hscalar, htb⟩ := htyped
    cases h with | loop hcond hbody =>
    obtain ⟨hc, hx⟩ := value condition hcond (hbody.le.trans hle) hcheck.1 htc
    exact .loop (hx _ rfl _ hscalar.storedAs) hc (hbody.typed_of ih hle hcheck.2 htb hreturns) .nil
  | ret expr =>
    intro σ σ' code h hle hcheck htyped hreturns
    -- A value is returned exactly from a function whose type is stored.
    have hsome : type.storage?.isSome = expr.isSome := (ValueType.isSome_storage? type).trans hreturns.symm
    cases h with
    | retNone =>
      have hnone : type.storage? = none := by simpa using hsome
      rw [hnone]
      exact .single (.ret .nil)
    | ret hexpr =>
      obtain ⟨ty, hty⟩ := Option.isSome_iff_exists.1 hsome
      obtain ⟨hc, hr⟩ := value _ hexpr hle hcheck htyped.1
      refine hc.append (.single (.ret ?_))
      rw [hty]
      exact .cons (hr _ rfl _ ⟨_, htyped.2, hty⟩) .nil

theorem BlockCode.typed {block : List Stmt} {σ σ' : Regs} {code : List Inst}
    (h : BlockCode s v block σ code σ') (hle : σ'.Le τ) (hcheck : n.program.checkBlock v.decl block = .ok ())
    (htyped : n.program.BlockTyped type block) (hreturns : Stmt.BlockReturnsValue (!type.isUnit) block) :
    CodeTyped m type.storage? τ code :=
  h.typed_of (fun stmt _ => stmtFits hm hs ht stmt) hle hcheck htyped hreturns

end

/-! ## Functions -/

section

variable {n : Nesting} {policy : FramePolicy} {m : Lir.Module} {ret : Option Ty} {τ σ σ' : Regs}
  {code : List Inst}

variable (m ret) in
theorem IncomingCode.typed {linked : Bool} {incoming : Option ValueId}
    (h : IncomingCode linked σ code incoming σ') (hle : σ'.Le τ)
    (hlocal : linked = true → τ.HasLocal ⟨0⟩ .ptr) :
    CodeTyped m ret τ code ∧ ∀ r, incoming = Option.some r → τ.HasValue r .ptr := by
  cases h with
  | none => exact ⟨.nil, by simp⟩
  | some hty =>
    cases (hlocal rfl).unique (hle.of_value.hasLocal hty)
    refine ⟨.single (.localGet (hlocal rfl) hle.next), ?_⟩
    rintro _ ⟨⟩
    exact hle.next

variable (m ret) in
theorem ParamsCode.typed {first index : Nat} {params : List VarId} {arrived : List (VarId × ValueId)}
    {locals : List (VarId × LocalId)} (h : ParamsCode n first index params σ code arrived locals σ')
    (hle : σ'.Le τ)
    (hparams : ∀ i x, params[i]? = some x → τ.LocalHolds n.program ⟨index + i + first⟩ x) :
    CodeTyped m ret τ code ∧ (∀ x r, (x, r) ∈ arrived → τ.HoldsVar n.program r x) ∧
      ∀ x l, (x, l) ∈ locals → τ.LocalHolds n.program l x := by
  induction h with
  | nil => exact ⟨.nil, by simp, by simp⟩
  | @captured index x rest σ σ' ty code arrived locals _ hty hrest ih =>
    obtain ⟨hcode, harrived, hlocals⟩ := ih hle fun i y hy => by
      have := hparams (i + 1) y (by simpa using hy)
      rwa [show index + (i + 1) + first = index + 1 + i + first by omega] at this
    have hle := hrest.le.trans hle
    have hlocal : τ.HasLocal ⟨index + first⟩ ty := hle.of_value.hasLocal hty
    have hx : τ.HoldsVar n.program σ.next x := by
      intro ty' hty'
      cases hlocal.unique (hparams 0 x rfl ty' hty')
      exact hle.next
    refine ⟨.inst (.localGet hlocal hle.next) hcode, ?_, hlocals⟩
    intro y r hmem
    rcases List.mem_cons.1 hmem with heq | hmem
    · cases heq
      exact hx
    · exact harrived y r hmem
  | @«local» index x rest σ σ' code arrived locals _ hrest ih =>
    obtain ⟨hcode, harrived, hlocals⟩ := ih hle fun i y hy => by
      have := hparams (i + 1) y (by simpa using hy)
      rwa [show index + (i + 1) + first = index + 1 + i + first by omega] at this
    refine ⟨hcode, harrived, ?_⟩
    intro y l hmem
    rcases List.mem_cons.1 hmem with heq | hmem
    · cases heq
      exact hparams 0 x rfl
    · exact hlocals y l hmem

theorem LocalsBound.typed {xs : List VarId} {locals : List (VarId × LocalId)}
    (h : LocalsBound n xs σ locals σ') (hle : σ'.Le τ) :
    ∀ x l, (x, l) ∈ locals → τ.LocalHolds n.program l x := by
  induction h with
  | nil => simp
  | captured _ _ ih => exact ih hle
  | @«local» x rest σ σ' locals var ty _ hv hs hrest ih =>
    intro y l hmem
    rcases List.mem_cons.1 hmem with heq | hmem
    · cases heq
      intro ty' hty'
      cases hty'.unique ⟨var, hv, hs⟩
      exact (hrest.le.trans hle).nextLocal
    · exact ih hle y l hmem

variable (hm : n.Lowers policy m)
include hm

theorem ParamStores.typed {owner : DeclId} {l : Layout} (hl : n.layouts.layout? owner = some l)
    {arrived : List (VarId × ValueId)} {stores : List SlotStore} (h : ParamStores l arrived stores)
    (harrived : ∀ x r, (x, r) ∈ arrived → τ.HoldsVar n.program r x) :
    ∀ s ∈ stores, τ.HasValue s.value s.ty := by
  induction h with
  | nil => simp
  | @cons x value rest slot stores hslot _ ih =>
    intro s hs
    rcases List.mem_cons.1 hs with rfl | hs
    · obtain ⟨ty, hty, hstored⟩ := hm.varStoredAs_of_slotOf? hl hslot
      simpa [hty] using harrived x value (by simp) ty hstored
    · exact ih (fun x r hmem => harrived x r (List.mem_cons_of_mem _ hmem)) s hs

variable (ret) in
theorem EnterCode.typed {decl : DeclId} {incoming : Option ValueId} {arrived : List (VarId × ValueId)}
    {v : Vantage} (h : EnterCode n decl incoming arrived σ code v σ') (hle : σ'.Le τ)
    (hincoming : ∀ r, incoming = some r → τ.HasValue r .ptr)
    (harrived : ∀ x r, (x, r) ∈ arrived → τ.HoldsVar n.program r x) :
    CodeTyped m ret τ code ∧ v.Typed τ := by
  cases h with
  | frameless => exact ⟨.nil, by simp, hincoming⟩
  | framed _ hl _ _ hparams hstores =>
    obtain ⟨hcode, hframe⟩ := hstores.typed_alloc ret hm hl hle hincoming (hparams.typed hm hl harrived)
    refine ⟨hcode, ?_, hincoming⟩
    rintro _ ⟨⟩
    exact hframe

end

/-- After the instruction nothing goes on. -/
def Lir.Inst.IsLast : Inst → Prop
  | .ret _ => True
  | .unreachable => True
  | _ => False

/-- The last instruction of a body is a single one. -/
theorem InstTyped.of_isLast {m : Lir.Module} {ret : Option Ty} {τ : Regs} {inst : Inst}
    (h : CodeTyped m ret τ [inst]) (hlast : inst.IsLast) : InstTyped m ret τ inst := by
  cases h with
  | inst hi => exact hi
  | branch => cases hlast
  | loop => cases hlast

/-- The values and locals that a function declares. -/
def Lir.Function.regs (f : Lir.Function) : Regs := ⟨f.valueTypes, f.locals⟩

/-- A function fits the types that it declares. What a caller passes comes into the first locals. -/
structure Lir.Function.Typed (m : Lir.Module) (f : Lir.Function) : Prop where
  params : f.callParams <+: f.locals.toList
  code : CodeTyped m f.ret f.regs f.body
  last : ∃ code inst, f.body = code ++ [inst] ∧ inst.IsLast

/-- The local of a parameter is declared with its type. -/
theorem localHolds_of_callParams {p : Program} {function : FunctionDecl} {linked : Bool} {params : List Ty}
    {τ : Regs} (h : ParamTypes p function.params params)
    (hle : (if linked then [Ty.ptr] else []) ++ params <+: τ.locals.toList) {i : Nat} {x : VarId}
    (hx : function.params[i]? = some x) : τ.LocalHolds p ⟨0 + i + linked.toNat⟩ x := by
  intro ty hstored
  obtain ⟨ty', hty', hx'⟩ := exists_getElem?_of_forall₂ h hx
  cases Program.VarStoredAs.unique hstored hx'
  have hget : ((if linked then [Ty.ptr] else []) ++ params).toArray[0 + i + linked.toNat]? = some ty := by
    cases linked <;> simpa using hty'
  exact Regs.getElem?_of_isPrefix hle hget

/-- Lowered functions fit their types. -/
theorem FunctionCode.typed {n : Nesting} {policy : FramePolicy} {m : Lir.Module} (hm : n.Lowers policy m)
    (htyped : n.program.TypeCorrect) (hreturns : n.program.ReturnsMatch) {id : DeclId} {v : Vantage}
    {f : Lir.Function} (h : FunctionCode n.scope id v f) : f.Typed m := by
  have hscope := n.scope_nesting
  cases h with
  | @mk decl function target params incoming arrived paramLocals locals _ σ₁ σ₂ σ₃ σ₄ σ₅ c₁ c₂ c₃ c₄
      hd hk htarget hparams hincoming hparamsCode hlocals henter hbody =>
  rw [hscope] at hd hparams hparamsCode hlocals henter
  have hf : n.program.function? id = some function := Program.function?_eq_some_iff.2 ⟨decl, hd, hk⟩
  have hwithin : Scope.Within n { n.scope with locals := paramLocals ++ locals, current := some v } :=
    ⟨hscope, fun _ => rfl⟩
  -- What each part of the code declares are the first registers of the finished function.
  have hle₄ := hbody.le
  have hle₃ := henter.le.trans hle₄
  have hle₂ := hlocals.le.trans hle₃
  have hle₁ := hparamsCode.le.trans hle₂
  have hfirst : (if decl.parent.isSome then [Ty.ptr] else []) ++ params <+: σ₅.locals.toList :=
    (hincoming.le.1.trans hle₁).locals_start
  obtain ⟨hc₁, hin⟩ := hincoming.typed m function.returnType.storage? hle₁ fun hsome => by
    have hget : ((if decl.parent.isSome then [Ty.ptr] else []) ++ params).toArray[0]? = some .ptr := by
      simp [hsome]
    exact Regs.getElem?_of_isPrefix hfirst hget
  obtain ⟨hc₂, harrived, hparamLocals⟩ := hparamsCode.typed m function.returnType.storage? hle₂
    fun i x hx => localHolds_of_callParams hparams hfirst hx
  have hlocals := hlocals.typed hle₃
  obtain ⟨hc₃, hv⟩ := henter.typed function.returnType.storage? hm hle₄ hin harrived
  have hdecl : v.decl = id := by cases henter <;> rfl
  have hplaced : Scope.Typed { n.scope with locals := paramLocals ++ locals, current := some v }
      n.program v σ₅ := by
    refine ⟨hv, fun x l hx => ?_⟩
    rcases List.mem_append.1 (mem_of_lookup hx) with hmem | hmem
    · exact hparamLocals x l hmem
    · exact hlocals x l hmem
  have hc₄ := hbody.typed hm hwithin hplaced (.refl σ₅) (hdecl ▸ hm.built.checked.body hd hk)
    (htyped id function hf) (hreturns id function hf)
  refine ⟨hfirst, hc₁.append (hc₂.append (hc₃.append (hc₄.append ?_))), c₁ ++ (c₂ ++ (c₃ ++ c₄)),
    if function.returnType.isUnit then .ret none else .unreachable, by simp, ?_⟩
  · split
    · rename_i hunit
      have hnone : function.returnType.storage? = none := by
        simpa [hunit] using ValueType.isSome_storage? function.returnType
      rw [hnone]
      exact .single (.ret .nil)
    · exact .single .unreachable
  · split <;> trivial

/-- Every function of a module that a type-correct program is lowered to fits its types. -/
theorem Nesting.Lowers.typed {n : Nesting} {policy : FramePolicy} {m : Lir.Module} (hm : n.Lowers policy m)
    (htyped : n.program.TypeCorrect) (hreturns : n.program.ReturnsMatch) {f : Lir.Function}
    (hf : f ∈ m.functions) : f.Typed m := by
  obtain ⟨i, hi⟩ := Array.getElem?_of_mem hf
  obtain ⟨id, -, _, _, -, -, hcode⟩ := hm.exists_code (show m.function? ⟨i⟩ = some f from hi)
  exact hcode.typed hm htyped hreturns

end StaticChain
