import Mathlib.Data.List.Forall2
import Mathlib.Data.Option.Basic
import StaticChain.Proofs.Availability
import StaticChain.Proofs.Endings
import StaticChain.Proofs.Entering
import StaticChain.Proofs.Misuse

/-!
# Lowering fails on misused values only

Lowering a body asks for many things that may be missing: tables, locals, slots, contexts, numbers of
functions. In a program whose tables can be made none of them is, and a body is lowered unless it misuses a
value; then it fails with the first misuse (`Scope.lowerFunction_misuse?`). What a function leaves behind
does not reach the next one, so the module is refused with the first misuse of each function that has one
(`lower_fails_on_misuse`).
-/

namespace StaticChain

open Lir (Emit ValueId LocalId FunctionId StructId Inst Ty FunctionBuilder)
open Lir.Emit Lir.FunctionBuilder

/-! ## Bodies -/

namespace Scope

/-- What the scope has while a body is lowered: the pointers from which chains start, locals for the variables
that stay out of frames, and numbers for all functions. -/
structure Ready (s : Scope) (v : Vantage) (bound : Nat) : Prop where
  current_eq : s.current = some v
  frame_eq : v.frame.isSome = s.nesting.captures.isFrameNeeded v.decl
  incoming_eq : v.incoming.isSome = (s.nesting.program.parent? v.decl).isSome
  exists_local : ∀ {x var}, s.nesting.program.var? x = some var → var.owner = v.decl →
    s.nesting.captures.isCaptured x = false → ∃ l, s.locals.lookup x = some l ∧ l.index < bound
  exists_function : ∀ {id}, s.nesting.program.isFunction id = true → ∃ target, s.function? id = some target

variable {s : Scope} {v : Vantage} {bound : Nat} {policy : FramePolicy} {b b' : FunctionBuilder}

section

variable (hs : s.Ready v bound)
include hs

/-- A chain that is found starts at a pointer that is there. -/
theorem Ready.exists_start {target : DeclId} {chain : Chain} (h : s.nesting.chainTo v.decl target = .ok chain) :
    ∃ start, Nesting.chainStart v chain.start = .ok start := by
  have hstart := Nesting.Built.start_of_chainTo h
  cases hc : chain.start with
  | ownFrame =>
    have hframe : v.frame.isSome = true := by rw [hs.frame_eq]; exact hstart.1 hc
    obtain ⟨frame, hframe⟩ := Option.isSome_iff_exists.1 hframe
    exact ⟨frame, by simp [Nesting.chainStart, hframe]⟩
  | incoming =>
    have hnested : (s.nesting.program.parent? v.decl).isSome = true := by
      obtain ⟨-, ⟨-, -, hown, -⟩ | ⟨carriers, hcs, -⟩⟩ := Nesting.Built.chainTo_eq_ok h
      · rw [hown] at hc
        cases hc
      · cases hpar : s.nesting.program.parent? v.decl with
        | some parent => rfl
        | none => simp [Nesting.carriersTo, Program.Checked.ancestors_of_root hpar] at hcs
    rw [← hs.incoming_eq] at hnested
    obtain ⟨incoming, hin⟩ := Option.isSome_iff_exists.1 hnested
    exact ⟨incoming, by simp [Nesting.chainStart, hin]⟩

theorem Ready.ends_getCurrent {α : Type} {f : Vantage → Emit α} {defect : Option Defect}
    {P : α → FunctionBuilder → Prop} (h : (f v).Ends b defect P) :
    (Emit.of s.getCurrent >>= f).Ends b defect P :=
  ends_of_ok_bind (getCurrent_eq_ok.2 hs.current_eq) h

theorem Ready.exists_start_of_contextFor {decl : DeclId} {context : ContextArgument}
    (h : s.nesting.ContextFor v.decl decl context) {chain : Chain} (hchain : context = .chain chain) :
    ∃ start, Nesting.chainStart v chain.start = .ok start := by
  subst hchain
  cases h with | chain _ hchain => exact hs.exists_start hchain

variable (hn : s.nesting.Built policy)
include hn

/-- A variable that the function refers to is found, and if it is in a local then in one that is there. -/
theorem Ready.ends_emitVariableAddress {x : VarId} (hr : .variable x ∈ s.nesting.program.references v.decl) :
    (s.nesting.emitVariableAddress v x).Ends b none fun address b' => b.Grows b' ∧
      ∀ y, address = .local y → ∃ l, s.getLocal y = .ok l ∧ l.index < bound := by
  unfold Nesting.emitVariableAddress
  obtain ⟨var, hv, ⟨howner, hcap, hres⟩ | ⟨-, chain, struct, slot, ty, hres, -, -⟩⟩ := hn.exists_resolve hr
  · obtain ⟨l, hl, hlt⟩ := hs.exists_local hv howner hcap
    refine ends_of_ok_bind hres (ends_pure ⟨.refl _, ?_⟩)
    rintro _ ⟨⟩
    exact ⟨l, getLocal_eq_ok.2 hl, hlt⟩
  · obtain ⟨var', l, -, hchain, -⟩ := Nesting.resolve_eq_slot hres
    obtain ⟨start, hstart⟩ := hs.exists_start hchain
    refine ends_of_ok_bind hres ?_
    refine (Nesting.ends_emitChain hstart).bind fun carrier b₁ h₁ => ?_
    refine (ends_produce .ptr _).bind fun addr b₂ h₂ => ?_
    exact ends_pure ⟨h₁.trans h₂, nofun⟩

theorem Ready.ends_readVariable {x : VarId} (hr : .variable x ∈ s.nesting.program.references v.decl)
    (hb : bound ≤ b.function.locals.size) : (s.readVariable x).Ends b none fun _ b' => b.Grows b' := by
  refine hs.ends_getCurrent ((hs.ends_emitVariableAddress hn hr).bind fun address b₁ h₁ => ?_)
  cases address with
  | «local» y =>
    obtain ⟨l, hl, hlt⟩ := h₁.2 y rfl
    have hlt : l.index < b₁.function.locals.size :=
      Nat.lt_of_lt_of_le hlt (Nat.le_trans hb h₁.1.locals_le)
    exact ends_of_ok_bind hl ((ends_localGet hlt).imp fun _ _ h₂ => h₁.1.trans h₂)
  | slot addr ty => exact (ends_produce ty _).imp fun _ _ h₂ => h₁.1.trans h₂

theorem Ready.ends_writeVariable {x : VarId} {value : ValueId}
    (hr : .variable x ∈ s.nesting.program.references v.decl) :
    (s.writeVariable x value).Ends b none fun _ b' => b.Grows b' := by
  refine hs.ends_getCurrent ((hs.ends_emitVariableAddress hn hr).bind fun address b₁ h₁ => ?_)
  cases address with
  | «local» y =>
    obtain ⟨l, hl, -⟩ := h₁.2 y rfl
    exact ends_of_ok_bind hl ((ends_push _).imp fun _ _ h₂ => h₁.1.trans h₂)
  | slot addr ty => exact (ends_push _).imp fun _ _ h₂ => h₁.1.trans h₂

/-- A function that is not a method gets its context. -/
theorem Ready.exists_callContext {callee : DeclId} (hf : s.nesting.program.isFunction callee = true)
    (hm : s.nesting.program.isMethod callee = false)
    (hr : ∀ r ∈ s.nesting.program.parentReference callee, r ∈ s.nesting.program.references v.decl) :
    ∃ context, s.nesting.callContext v.decl callee = .ok context ∧ context ≠ .receiver ∧
      ∀ chain, context = .chain chain → ∃ start, Nesting.chainStart v chain.start = .ok start := by
  obtain ⟨context, hcontext, -⟩ := hn.exists_callContext hf hr
  refine ⟨context, hcontext, ?_, fun chain hchain => ?_⟩
  · rintro rfl
    unfold Nesting.callContext at hcontext
    obtain ⟨_, -, hcontext⟩ := bind_eq_ok.1 hcontext
    simp only [Program.isMethod, hf, Bool.true_and] at hm
    split at hcontext
    · cases hcontext
    · rename_i parent hpar
      rw [hpar, Option.any_some] at hm
      simp only [hm, Bool.false_eq_true, if_false] at hcontext
      cases Nesting.contextFor_of_contextBelow hpar hcontext
  · obtain ⟨-, ⟨rfl, -⟩ | rfl | ⟨-, hfor⟩⟩ := Nesting.callContext_eq_ok hcontext
    · cases hchain
    · cases hchain
    · exact hs.exists_start_of_contextFor hfor hchain

theorem Ready.ends_emitCallContext {callee : DeclId} (hf : s.nesting.program.isFunction callee = true)
    (hm : s.nesting.program.isMethod callee = false)
    (hr : ∀ r ∈ s.nesting.program.parentReference callee, r ∈ s.nesting.program.references v.decl) :
    (s.nesting.emitCallContext v callee).Ends b none fun _ b' => b.Grows b' := by
  obtain ⟨context, hcontext, hne, hstart⟩ := hs.exists_callContext hn hf hm hr
  exact ends_of_ok_bind hcontext ((Nesting.ends_context hne hstart).imp fun _ _ h => h.1)

theorem Ready.ends_emitClosureContext {target : DeclId} (hf : s.nesting.program.isFunction target = true)
    (hm : s.nesting.program.isMethod target = false)
    (hr : ∀ r ∈ s.nesting.program.parentReference target, r ∈ s.nesting.program.references v.decl) :
    (s.nesting.emitClosureContext v target).Ends b none fun _ b' => b.Grows b' := by
  obtain ⟨context, hcontext, hne, hstart⟩ := hs.exists_callContext hn hf hm hr
  refine ends_of_ok_bind hcontext ?_
  cases context with
  | none => exact ends_produce .ptr _
  | null => exact ends_produce .ptr _
  | chain chain =>
    obtain ⟨start, hstart⟩ := hstart chain rfl
    exact Nesting.ends_emitChain hstart
  | receiver => exact absurd rfl hne

/-- An instance gets the context that its layout has a link for. -/
theorem Ready.ends_emitConstructionContext {aggregate : DeclId}
    (ha : s.nesting.program.isAggregate aggregate = true)
    (hr : ∀ r ∈ s.nesting.program.parentReference aggregate, r ∈ s.nesting.program.references v.decl) :
    ∃ l, s.nesting.layouts.layout? aggregate = some l ∧ ∀ b : FunctionBuilder,
      (s.nesting.emitConstructionContext v aggregate).Ends b none fun r b' =>
        b.Grows b' ∧ l.outerSlot.isSome = r.isSome := by
  obtain ⟨l, context, hl, hcontext, hnone⟩ := hn.exists_constructionContext ha hr
  obtain ⟨l', hl', hcases⟩ := Nesting.constructionContext_eq_ok hcontext
  cases hl.symm.trans hl'
  refine ⟨l, hl, fun b => ends_of_ok_bind hcontext ?_⟩
  have hctx : context ≠ .receiver ∧
      ∀ chain, context = .chain chain → ∃ start, Nesting.chainStart v chain.start = .ok start := by
    rcases hcases with ⟨rfl, -⟩ | ⟨-, hfor⟩
    · exact ⟨nofun, nofun⟩
    · refine ⟨?_, fun chain hchain => hs.exists_start_of_contextFor hfor hchain⟩
      rintro rfl
      cases hfor
  refine (Nesting.ends_context hctx.1 hctx.2).imp fun r _ h => ⟨h.1, ?_⟩
  rw [Bool.eq_iff_iff, Option.isSome_iff_ne_none, Option.isSome_iff_ne_none, not_iff_not, h.2, hnone]

omit hs in
/-- A field has a slot in the instances of its aggregate. -/
theorem exists_fieldSlot {field : VarId} (h : s.nesting.program.checkField field = .ok ()) :
    ∃ slot, s.fieldSlot field = .ok slot := by
  obtain ⟨var, hv, hk⟩ := Program.checkField_eq_ok h
  have hcarrier : s.nesting.captures.isCarrier s.nesting.program var.owner = true := by
    rw [Captures.isCarrier, hn.checked.isAggregate_owner hv hk, Bool.true_or]
  obtain ⟨l, hl⟩ := hn.exists_layout hcarrier
  obtain ⟨i, ty, hi, -⟩ := hn.exists_slot hv hl (absurd hk)
  refine ⟨(l.struct, i, (l.slotType? i).getD .ptr), bind_eq_ok.2 ⟨var, Program.getVar_eq_ok.2 hv,
    bind_eq_ok.2 ⟨l, Layouts.getLayout_eq_ok.2 hl, ?_⟩⟩⟩
  simp only [hi]
  rfl

omit hs in
theorem ends_fieldAddress {base : ValueId} {field : VarId} (h : s.nesting.program.checkField field = .ok ()) :
    (s.fieldAddress base field).Ends b none fun _ b' => b.Grows b' := by
  obtain ⟨slot, hslot⟩ := exists_fieldSlot hn h
  refine ends_of_ok_bind hslot ?_
  exact (ends_produce .ptr _).bind fun _ b' h => ends_pure h

end

/-! ## Expressions -/

/-- What is claimed of an expression: it is lowered unless it misuses a value, and has a result if its type has
values. -/
def EndsExpr (s : Scope) (v : Vantage) (bound : Nat) (expr : Expr) : Prop :=
  ∀ b : FunctionBuilder, bound ≤ b.function.locals.size →
    (s.lowerExpr expr).Ends b (s.nesting.program.exprMisuse? v.decl expr) fun r b' => b.Grows b' ∧
      ∃ ty, s.nesting.program.exprType expr = .ok ty ∧ r.isSome = !ty.isUnit

theorem EndsExpr.value {expr : Expr} (h : EndsExpr s v bound expr) (hv : s.current = some v)
    (hb : bound ≤ b.function.locals.size) : (s.lowerValue expr).Ends b
      (s.nesting.program.valueMisuse? v.decl expr) fun _ b' => b.Grows b' := by
  refine (h b hb).bind fun r b' hends => ?_
  obtain ⟨hgrows, ty, hty, hr⟩ := hends
  unfold Program.unitMisuse?
  cases ty with
  | unit =>
    obtain rfl : r = none := by simpa [ValueType.isUnit] using hr
    simp only [hty]
    exact ends_of_error (by simp [Scope.value, hv])
  | _ =>
    obtain ⟨result, rfl⟩ : ∃ result, r = some result := Option.isSome_iff_exists.1 hr
    simp only [hty]
    exact ends_of_ok rfl hgrows

theorem ends_lowerValues (hv : s.current = some v) {exprs : List Expr}
    (h : ∀ expr ∈ exprs, EndsExpr s v bound expr) (hb : bound ≤ b.function.locals.size) :
    (s.lowerValues exprs).Ends b (s.nesting.program.valuesMisuse? v.decl exprs) fun rs b' =>
      b.Grows b' ∧ rs.length = exprs.length := by
  induction exprs generalizing b with
  | nil => exact ends_pure ⟨.refl _, rfl⟩
  | cons expr exprs ih =>
    obtain ⟨hexpr, hexprs⟩ := List.forall_mem_cons.1 h
    rw [lowerValues]
    refine (hexpr.value hv hb).bind fun r b₁ h₁ => ?_
    refine (ih hexprs (Nat.le_trans hb h₁.locals_le)).andThen fun rs b₂ h₂ => ?_
    exact ends_pure ⟨h₁.trans h₂.1, by simp [h₂.2]⟩

theorem ends_settingBlock {x : LocalId} {action : Emit ValueId} {defect : Option Defect}
    (h : action.Ends b.opened defect fun _ b' => b.opened.Grows b') :
    (settingBlock x action).Ends b defect fun _ b' => b.Grows b' := by
  unfold settingBlock
  refine Ends.andThen (ends_inBlock (h.andThen fun r b₁ h₁ => ?_)) fun _ _ h₂ => ends_pure h₂
  exact (ends_push _).imp fun _ _ h₂ => h₁.trans h₂

/-- Operands of which the second is evaluated in a block fail in the order in which they stand. -/
theorem ends_shortCircuit {conjunction : Bool} {lhs rhs : Emit ValueId} {d₁ d₂ : Option Defect}
    (hl : ∀ b₁ : FunctionBuilder, b.function.locals.size ≤ b₁.function.locals.size →
      lhs.Ends b₁ d₁ fun _ b' => b₁.Grows b')
    (hr : ∀ b₁ : FunctionBuilder, b.function.locals.size ≤ b₁.function.locals.size →
      rhs.Ends b₁ d₂ fun _ b' => b₁.Grows b') :
    (shortCircuit conjunction lhs rhs).Ends b (d₁.or d₂) fun _ b' => b.Grows b' := by
  have hconst : ∀ (b₁ : FunctionBuilder) (value : Int64),
      Ends (liftM (FunctionBuilder.const value)) b₁ none fun _ b' => b₁.Grows b' :=
    fun b₁ value => ends_produce .i64 _
  unfold shortCircuit
  refine (ends_addLocal .i64).bind fun x b₁ hadded => ?_
  obtain ⟨h₁, hx⟩ := hadded
  refine (hl b₁ h₁.locals_le).bind fun condition b₂ h₂ => ?_
  have hlast : ∀ b₃, b₂.Grows b₃ → ∀ thenBody elseBody : List Inst, Ends (do
      FunctionBuilder.push (.branch condition thenBody elseBody)
      FunctionBuilder.localGet x) b₃ none fun _ b' => b.Grows b' := by
    intro b₃ h₃ thenBody elseBody
    refine (ends_push _).bind fun _ b₄ h₄ => ?_
    have h₅ := h₂.trans (h₃.trans h₄)
    exact (ends_localGet (Nat.lt_of_lt_of_le hx h₅.locals_le)).imp fun _ _ h => h₁.trans (h₅.trans h)
  cases conjunction with
  | true =>
    refine (ends_settingBlock (hr _ (h₁.trans h₂).locals_le)).andThen fun thenBody b₃ h₃ => ?_
    exact (ends_settingBlock (hconst _ 0)).bind fun elseBody b₄ h₄ => hlast b₄ (h₃.trans h₄) _ _
  | false =>
    refine (ends_settingBlock (hconst _ 1)).bind fun thenBody b₃ h₃ => ?_
    exact (ends_settingBlock (hr _ ((h₁.trans h₂).trans h₃).locals_le)).andThen fun elseBody b₄ h₄ =>
      hlast b₄ (h₃.trans h₄) _ _

namespace EndsExpr

theorem int (value : Int64) : EndsExpr s v bound (.int value) :=
  fun _ _ => (ends_produce .i64 _).map fun _ _ h => ⟨h, .int, rfl, rfl⟩

theorem bool (value : Bool) : EndsExpr s v bound (.bool value) :=
  fun _ _ => (ends_produce .i64 _).map fun _ _ h => ⟨h, .bool, rfl, rfl⟩

theorem unary (hv : s.current = some v) (op : UnaryOp) {operand : Expr} (ih : EndsExpr s v bound operand) :
    EndsExpr s v bound (.unary op operand) := by
  intro b hb
  obtain ⟨ty, hscalar, hty⟩ := s.nesting.program.exists_hasType_unary op operand
  rw [lowerExpr]
  refine (ih.value hv hb).andThen fun r b₁ h₁ => ?_
  exact (ends_produce .i64 _).map fun _ _ h₂ => ⟨h₁.trans h₂, ty, hty, by simp [hscalar.isUnit_eq_false]⟩

theorem binary (hv : s.current = some v) (op : BinOp) {lhs rhs : Expr} (hl : EndsExpr s v bound lhs)
    (hr : EndsExpr s v bound rhs) : EndsExpr s v bound (.binary op lhs rhs) := by
  intro b hb
  have hvalue : ∀ {e : Expr}, EndsExpr s v bound e → ∀ b₁ : FunctionBuilder,
      b.function.locals.size ≤ b₁.function.locals.size → (s.valued (s.lowerExpr e)).Ends b₁
        (s.nesting.program.valueMisuse? v.decl e) fun _ b' => b₁.Grows b' :=
    fun he b₁ hle => he.value hv (Nat.le_trans hb hle)
  obtain ⟨ty, hty⟩ : ∃ ty, s.nesting.program.HasType (.binary op lhs rhs) ty := ⟨_, rfl⟩
  have hunit := (Program.isScalar_of_binary hty).isUnit_eq_false
  rw [lowerExpr]
  cases op.shape with
  | strict o =>
    refine (hvalue hl b (Nat.le_refl _)).bind fun _ b₁ h₁ => ?_
    refine (hvalue hr b₁ h₁.locals_le).andThen fun _ b₂ h₂ => ?_
    exact (ends_produce .i64 _).map fun _ _ h₃ => ⟨h₁.trans (h₂.trans h₃), ty, hty, by simp [hunit]⟩
  | conjunction | disjunction =>
    exact (ends_shortCircuit (hvalue hl) (hvalue hr)).map fun _ _ h => ⟨h, ty, hty, by simp [hunit]⟩

end EndsExpr

section

variable (hs : s.Ready v bound) (hn : s.nesting.Built policy)
include hs hn

omit hn in
/-- A call has a result if the function that is called has. -/
theorem Ready.ends_emitCall {function : DeclId} {decl : FunctionDecl} {args : List ValueId}
    (hdecl : s.nesting.program.function? function = some decl) :
    (s.emitCall function args).Ends b none fun r b' => b.Grows b' ∧ r.isSome = !decl.returnType.isUnit := by
  obtain ⟨target, htarget⟩ := hs.exists_function (Program.isFunction_iff.2 ⟨decl, hdecl⟩)
  refine ends_of_ok_bind (getFunction_eq_ok.2 htarget) ?_
  refine ends_of_ok_bind (Program.getFunction_eq_ok.2 hdecl) ?_
  refine (ends_produceIf _ _).imp fun r _ h => ⟨h.1, ?_⟩
  rw [h.2, ValueType.isSome_storage?]

namespace EndsExpr

/-! ### Variables, instances and function values -/

theorem var {x : VarId} (hcheck : s.nesting.program.checkVar x = .ok ())
    (hrefs : .variable x ∈ s.nesting.program.references v.decl) : EndsExpr s v bound (.var x) := by
  intro b hb
  obtain ⟨var, hx⟩ := Program.checkVar_eq_ok hcheck
  rw [lowerExpr]
  exact (hs.ends_readVariable hn hrefs hb).map fun _ _ h =>
    ⟨h, var.ty, Program.hasType_var hx, by simp [hn.checked.var_ty hx]⟩

theorem fieldGet {base : Expr} {field : VarId} (hcheck : s.nesting.program.checkField field = .ok ())
    (ih : EndsExpr s v bound base) : EndsExpr s v bound (.fieldGet base field) := by
  intro b hb
  obtain ⟨var, hx, -⟩ := Program.checkField_eq_ok hcheck
  rw [lowerExpr]
  refine (ih.value hs.current_eq hb).andThen fun r b₁ h₁ => ?_
  refine (ends_fieldAddress hn hcheck).bind fun _ b₂ h₂ => ?_
  exact (ends_produce _ _).map fun _ _ h₃ =>
    ⟨h₁.trans (h₂.trans h₃), var.ty, Program.hasType_fieldGet hx base, by simp [hn.checked.var_ty hx]⟩

theorem this {aggregate : DeclId} (ha : s.nesting.program.isAggregate aggregate = true)
    (hrefs : .context aggregate ∈ s.nesting.program.references v.decl) :
    EndsExpr s v bound (.this aggregate) := by
  intro b hb
  obtain ⟨chain, hchain, -⟩ := hn.exists_chainTo hrefs rfl
    (Nesting.Built.nearestCarrier?_self (by simp [Captures.isCarrier, ha]))
  obtain ⟨start, hstart⟩ := hs.exists_start hchain
  rw [lowerExpr]
  refine hs.ends_getCurrent ?_
  exact Ends.map (ends_of_ok_bind hchain (Nesting.ends_emitChain hstart)) fun _ _ h =>
    ⟨h, .instanceOf aggregate, rfl, rfl⟩

theorem new {aggregate : DeclId} {args : List Expr}
    (hcheck : s.nesting.program.checkNew aggregate args.length = .ok ())
    (hrefs : ∀ r ∈ s.nesting.program.parentReference aggregate, r ∈ s.nesting.program.references v.decl)
    (ih : ∀ arg ∈ args, EndsExpr s v bound arg) : EndsExpr s v bound (.new aggregate args) := by
  intro b hb
  obtain ⟨decl, hdecl, hlen⟩ := Program.checkNew_eq_ok hcheck
  obtain ⟨l, hl, hcontext⟩ := hs.ends_emitConstructionContext hn (Program.isAggregate_iff.2 ⟨decl, hdecl⟩) hrefs
  rw [lowerExpr]
  refine (ends_lowerValues hs.current_eq ih hb).andThen fun rs b₁ h₁ => hs.ends_getCurrent ?_
  refine (hcontext b₁).bind fun outer b₂ h₂ => ?_
  have hfields : l.fieldSlots.length = rs.length := by
    rw [← ((hn.layout_of hl).fieldSlots_eq hdecl).length_eq, hlen, h₁.2]
  exact (Nesting.ends_emitInstance hl hfields h₂.2).map fun _ _ h₃ =>
    ⟨h₁.1.trans (h₂.1.trans h₃), .instanceOf aggregate, rfl, rfl⟩

theorem functionRef {function : DeclId} (hf : s.nesting.program.isFunction function = true)
    (hmethod : s.nesting.program.isMethod function = false)
    (hrefs : ∀ r ∈ s.nesting.program.parentReference function, r ∈ s.nesting.program.references v.decl) :
    EndsExpr s v bound (.functionRef function) := by
  intro b hb
  obtain ⟨target, htarget⟩ := hs.exists_function hf
  obtain ⟨decl, hdecl⟩ := Program.isFunction_iff.1 hf
  rw [lowerExpr]
  refine hs.ends_getCurrent ?_
  refine (hs.ends_emitClosureContext hn hf hmethod hrefs).bind fun _ b₁ h₁ => ?_
  refine ends_of_ok_bind (getFunction_eq_ok.2 htarget) ?_
  exact (ends_produce .closure _).map fun _ _ h₂ =>
    ⟨h₁.trans h₂, _, hn.checked.functionValueType_eq hdecl, rfl⟩

/-! ### Calls -/

theorem call {function : DeclId} {args : List Expr}
    (hcheck : s.nesting.program.checkCallee function args.length false = .ok ())
    (hrefs : ∀ r ∈ s.nesting.program.parentReference function, r ∈ s.nesting.program.references v.decl)
    (ih : ∀ arg ∈ args, EndsExpr s v bound arg) : EndsExpr s v bound (.call function args) := by
  intro b hb
  obtain ⟨decl, hdecl, hmethod, -⟩ := Program.checkCallee_eq_ok hcheck
  have hf := Program.isFunction_iff.2 ⟨decl, hdecl⟩
  rw [lowerExpr]
  refine hs.ends_getCurrent ?_
  refine (hs.ends_emitCallContext hn hf hmethod hrefs).bind fun _ b₁ h₁ => ?_
  refine (ends_lowerValues hs.current_eq ih (Nat.le_trans hb h₁.locals_le)).andThen fun rs b₂ h₂ => ?_
  exact (hs.ends_emitCall hdecl).imp fun _ _ h₃ =>
    ⟨h₁.trans (h₂.1.trans h₃.1), _, Program.hasType_call hdecl args, h₃.2⟩

omit hn in
theorem methodCall {receiver : Expr} {method : DeclId} {args : List Expr}
    (hcheck : s.nesting.program.checkCallee method args.length true = .ok ())
    (ihr : EndsExpr s v bound receiver) (ih : ∀ arg ∈ args, EndsExpr s v bound arg) :
    EndsExpr s v bound (.methodCall receiver method args) := by
  intro b hb
  obtain ⟨decl, hdecl, -⟩ := Program.checkCallee_eq_ok hcheck
  rw [lowerExpr]
  refine (ihr.value hs.current_eq hb).bind fun _ b₁ h₁ => ?_
  refine (ends_lowerValues hs.current_eq ih (Nat.le_trans hb h₁.locals_le)).andThen fun rs b₂ h₂ => ?_
  exact (hs.ends_emitCall hdecl).imp fun _ _ h₃ =>
    ⟨h₁.trans (h₂.1.trans h₃.1), _, Program.hasType_methodCall hdecl receiver args, h₃.2⟩

omit hn in
theorem callValue {callee : Expr} {args : List Expr} (ihc : EndsExpr s v bound callee)
    (ih : ∀ arg ∈ args, EndsExpr s v bound arg) : EndsExpr s v bound (.callValue callee args) := by
  intro b hb
  rw [lowerExpr]
  have hsignature : (Emit.of (s.nesting.program.exprType callee >>= ValueType.signature)).Ends b
      (s.nesting.program.calleeMisuse? callee) fun signature b' => b' = b ∧
        (s.nesting.program.exprType callee >>= ValueType.signature) = .ok signature := by
    unfold Program.calleeMisuse?
    cases hsig : s.nesting.program.exprType callee >>= ValueType.signature with
    | error defect => exact ends_of_error rfl
    | ok signature => exact ends_of_ok rfl ⟨rfl, rfl⟩
  refine hsignature.bind ?_
  rintro signature _ ⟨rfl, hsig⟩
  obtain ⟨ty, hty, hsig⟩ := bind_eq_ok.1 hsig
  obtain ⟨params, ret, rfl, -⟩ := Program.exists_signature_iff.1 ⟨signature, hsig⟩
  obtain ⟨storages, -, hsig⟩ := bind_eq_ok.1 hsig
  obtain rfl := pure_eq_ok.1 hsig
  refine (ihc.value hs.current_eq hb).bind fun _ b₁ h₁ => ?_
  refine (ends_lowerValues hs.current_eq ih (Nat.le_trans hb h₁.locals_le)).andThen fun rs b₂ h₂ => ?_
  refine (ends_produceIf _ _).imp fun r _ h₃ =>
    ⟨h₁.trans (h₂.1.trans h₃.1), ret, Program.hasType_callValue hty args, ?_⟩
  rw [h₃.2, ValueType.isSome_storage?]

end EndsExpr

theorem Ready.endsExpr (expr : Expr) : s.nesting.program.checkExpr expr = .ok () →
    (∀ r ∈ s.nesting.program.exprReferences expr, r ∈ s.nesting.program.references v.decl) →
    EndsExpr s v bound expr := by
  have hv := hs.current_eq
  have hargs : ∀ {args : List Expr}, (∀ arg ∈ args, s.nesting.program.checkExpr arg = .ok () →
      (∀ r ∈ s.nesting.program.exprReferences arg, r ∈ s.nesting.program.references v.decl) →
      EndsExpr s v bound arg) → s.nesting.program.checkExprs args = .ok () →
      (∀ r ∈ s.nesting.program.exprsReferences args, r ∈ s.nesting.program.references v.decl) →
      ∀ arg ∈ args, EndsExpr s v bound arg := by
    intro args ih hcheck hrefs arg harg
    exact ih arg harg (Program.checkExprs_eq_ok.1 hcheck arg harg) fun r hr =>
      hrefs r (Program.mem_exprsReferences.2 ⟨arg, harg, hr⟩)
  intro hcheck hrefs
  induction expr using Expr.ind with
  | int value => exact EndsExpr.int value
  | bool value => exact EndsExpr.bool value
  | var x => exact EndsExpr.var hs hn hcheck (hrefs _ (by simp [Program.exprReferences]))
  | binary op lhs rhs hl hr =>
    simp only [Program.checkExpr, then_eq_ok] at hcheck
    simp only [Program.exprReferences, List.mem_append] at hrefs
    exact EndsExpr.binary hv op (hl hcheck.1 fun r h => hrefs r (.inl h)) (hr hcheck.2 fun r h => hrefs r (.inr h))
  | unary op operand ih => exact EndsExpr.unary hv op (ih hcheck hrefs)
  | call function args ih =>
    simp only [Program.checkExpr, then_eq_ok] at hcheck
    simp only [Program.exprReferences, List.mem_append] at hrefs
    exact EndsExpr.call hs hn hcheck.1 (fun r h => hrefs r (.inl h)) (hargs ih hcheck.2 fun r h => hrefs r (.inr h))
  | methodCall receiver method args ihr ih =>
    simp only [Program.checkExpr, then_eq_ok] at hcheck
    simp only [Program.exprReferences, List.mem_append] at hrefs
    exact EndsExpr.methodCall hs hcheck.2.1 (ihr hcheck.1 fun r h => hrefs r (.inl h))
      (hargs ih hcheck.2.2 fun r h => hrefs r (.inr h))
  | new aggregate args ih =>
    simp only [Program.checkExpr, then_eq_ok] at hcheck
    simp only [Program.exprReferences, List.mem_append] at hrefs
    exact EndsExpr.new hs hn hcheck.1 (fun r h => hrefs r (.inl h)) (hargs ih hcheck.2 fun r h => hrefs r (.inr h))
  | fieldGet base field ih =>
    simp only [Program.checkExpr, then_eq_ok] at hcheck
    exact EndsExpr.fieldGet hs hn hcheck.2 (ih hcheck.1 hrefs)
  | this aggregate =>
    simp only [Program.checkExpr, Flaw.excludedBy_eq_ok] at hcheck
    exact EndsExpr.this hs hn hcheck (hrefs _ (by simp [Program.exprReferences]))
  | functionRef function =>
    simp only [Program.checkExpr, Flaw.excludedBy_eq_ok, Bool.and_eq_true, Bool.not_eq_true'] at hcheck
    exact EndsExpr.functionRef hs hn hcheck.1 hcheck.2 hrefs
  | callValue callee args ihc ih =>
    simp only [Program.checkExpr, then_eq_ok] at hcheck
    simp only [Program.exprReferences, List.mem_append] at hrefs
    exact EndsExpr.callValue hs (ihc hcheck.1 fun r h => hrefs r (.inl h))
      (hargs ih hcheck.2 fun r h => hrefs r (.inr h))

end

/-! ## Statements -/

/-- What is claimed of a statement: it is lowered unless it misuses a value. -/
def EndsStmt (s : Scope) (v : Vantage) (bound : Nat) (stmt : Stmt) : Prop :=
  ∀ b : FunctionBuilder, bound ≤ b.function.locals.size →
    (s.lowerStmt stmt).Ends b (s.nesting.program.stmtMisuse? v.decl stmt) fun _ b' => b.Grows b'

theorem ends_lowerBlock {block : List Stmt} (h : ∀ stmt ∈ block, EndsStmt s v bound stmt)
    (hb : bound ≤ b.function.locals.size) :
    (s.lowerBlock block).Ends b (s.nesting.program.blockMisuse? v.decl block) fun _ b' => b.Grows b' := by
  induction block generalizing b with
  | nil => exact ends_pure (.refl _)
  | cons stmt block ih =>
    obtain ⟨hstmt, hblock⟩ := List.forall_mem_cons.1 h
    rw [lowerBlock]
    refine (hstmt b hb).bind fun _ b₁ h₁ => ?_
    exact (ih hblock (Nat.le_trans hb h₁.locals_le)).imp fun _ _ h₂ => h₁.trans h₂

section

variable (hs : s.Ready v bound) (hn : s.nesting.Built policy)
include hs hn

theorem Ready.endsStmt (stmt : Stmt) : s.nesting.program.checkStmt v.decl stmt = .ok () →
    (∀ r ∈ s.nesting.program.stmtReferences stmt, r ∈ s.nesting.program.references v.decl) →
    EndsStmt s v bound stmt := by
  have hv := hs.current_eq
  have hblock : ∀ {block : List Stmt}, (∀ stmt ∈ block,
      s.nesting.program.checkStmt v.decl stmt = .ok () →
      (∀ r ∈ s.nesting.program.stmtReferences stmt, r ∈ s.nesting.program.references v.decl) →
      EndsStmt s v bound stmt) → s.nesting.program.checkBlock v.decl block = .ok () →
      (∀ r ∈ s.nesting.program.blockReferences block, r ∈ s.nesting.program.references v.decl) →
      ∀ b : FunctionBuilder, bound ≤ b.function.locals.size →
        (FunctionBuilder.inBlock (s.lowerBlock block)).Ends b (s.nesting.program.blockMisuse? v.decl block)
          fun _ b' => b.Grows b' := by
    intro block ih hcheck hrefs b hb
    refine ends_inBlock (ends_lowerBlock (fun stmt hmem => ?_) hb)
    exact ih stmt hmem (Program.checkBlock_eq_ok.1 hcheck stmt hmem) fun r hr =>
      hrefs r (Program.mem_blockReferences.2 ⟨stmt, hmem, hr⟩)
  induction stmt using Stmt.ind with
  | letVar x value =>
    intro hcheck hrefs b hb
    simp only [Program.checkStmt, then_eq_ok] at hcheck
    simp only [Program.stmtReferences, List.mem_append, List.mem_singleton] at hrefs
    rw [lowerStmt]
    refine ((hs.endsExpr hn value hcheck.2 fun r h => hrefs r (.inl h)).value hv hb).andThen fun _ b₁ h₁ => ?_
    exact (hs.ends_writeVariable hn (hrefs _ (.inr rfl))).imp fun _ _ h₂ => h₁.trans h₂
  | assign target value =>
    intro hcheck hrefs b hb
    simp only [Program.checkStmt, then_eq_ok] at hcheck
    simp only [Program.stmtReferences, List.mem_append] at hrefs
    have hvalue := hs.endsExpr hn value hcheck.2 fun r h => hrefs r (.inr h)
    cases target with
    | var x =>
      rw [lowerStmt]
      refine (hvalue.value hv hb).andThen fun _ b₁ h₁ => ?_
      exact (hs.ends_writeVariable hn (hrefs _ (.inl (by simp [Program.placeReferences])))).imp
        fun _ _ h₂ => h₁.trans h₂
    | field base field =>
      simp only [Program.checkPlace, then_eq_ok] at hcheck
      have hbase := hs.endsExpr hn base hcheck.1.1 fun r h => hrefs r (.inl h)
      rw [lowerStmt]
      refine (hbase.value hv hb).bind fun _ b₁ h₁ => ?_
      refine (hvalue.value hv (Nat.le_trans hb h₁.locals_le)).andThen fun _ b₂ h₂ => ?_
      refine (ends_fieldAddress hn hcheck.1.2).bind fun _ b₃ h₃ => ?_
      exact (ends_push _).imp fun _ _ h₄ => h₁.trans (h₂.trans (h₃.trans h₄))
  | expr value =>
    intro hcheck hrefs b hb
    rw [lowerStmt]
    exact ((hs.endsExpr hn value hcheck hrefs) b hb).andThen fun _ _ h => ends_pure h.1
  | branch condition thenBlock elseBlock iht ihe =>
    intro hcheck hrefs b hb
    simp only [Program.checkStmt, then_eq_ok] at hcheck
    simp only [Program.stmtReferences, List.mem_append] at hrefs
    have hcondition := hs.endsExpr hn condition hcheck.1 fun r h => hrefs r (.inl (.inl h))
    rw [lowerStmt]
    refine (hcondition.value hv hb).bind fun _ b₁ h₁ => ?_
    have hb₁ := Nat.le_trans hb h₁.locals_le
    refine (hblock iht hcheck.2.1 (fun r h => hrefs r (.inl (.inr h))) b₁ hb₁).bind fun _ b₂ h₂ => ?_
    refine (hblock ihe hcheck.2.2 (fun r h => hrefs r (.inr h)) b₂
      (Nat.le_trans hb₁ h₂.locals_le)).andThen fun _ b₃ h₃ => ?_
    exact (ends_push _).imp fun _ _ h₄ => h₁.trans (h₂.trans (h₃.trans h₄))
  | loop condition body ih =>
    intro hcheck hrefs b hb
    simp only [Program.checkStmt, then_eq_ok] at hcheck
    simp only [Program.stmtReferences, List.mem_append] at hrefs
    have hcondition := hs.endsExpr hn condition hcheck.1 fun r h => hrefs r (.inl h)
    rw [lowerStmt]
    refine (ends_inBlock (hcondition.value hv hb)).bind fun _ b₁ h₁ => ?_
    refine (hblock ih hcheck.2 (fun r h => hrefs r (.inr h)) b₁
      (Nat.le_trans hb h₁.locals_le)).andThen fun _ b₂ h₂ => ?_
    exact (ends_push _).imp fun _ _ h₃ => h₁.trans (h₂.trans h₃)
  | ret value =>
    intro hcheck hrefs b hb
    cases value with
    | none =>
      rw [lowerStmt]
      exact ends_push _
    | some value =>
      rw [lowerStmt]
      refine ((hs.endsExpr hn value hcheck hrefs).value hv hb).andThen fun _ b₁ h₁ => ?_
      exact (ends_push _).imp fun _ _ h₂ => h₁.trans h₂

end

/-! ## Functions -/

/-- The body of a function that is ready is lowered unless it misuses a value, and no block stays open. -/
theorem Ready.ends_lowerBody (hs : s.Ready v bound) (hn : s.nesting.Built policy) {function : FunctionDecl}
    (hf : s.nesting.program.function? v.decl = some function) (hb : bound ≤ b.function.locals.size) :
    (s.lowerBody function).Ends b (s.nesting.program.misuse? v.decl) fun _ b' => b.Grows b' := by
  obtain ⟨decl, hd, hk⟩ := Program.function?_eq_some_iff.1 hf
  have hbody := Program.checkBlock_eq_ok.1 (hn.checked.body hd hk)
  have hmisuse : s.nesting.program.misuse? v.decl = s.nesting.program.blockMisuse? v.decl function.body := by
    simp [Program.misuse?, hf]
  rw [hmisuse]
  unfold lowerBody
  refine (ends_lowerBlock (fun stmt hmem => hs.endsStmt hn stmt (hbody stmt hmem) fun r hr => ?_) hb).andThen
    fun _ b₁ h₁ => ?_
  · simp only [Program.references, hf]
    exact Program.mem_blockReferences.2 ⟨stmt, hmem, hr⟩
  · exact (ends_push _).imp fun _ _ h₂ => h₁.trans h₂

section

variable {id : DeclId} {decl : Declaration} {function : FunctionDecl} (hn : s.nesting.Built policy)
  (hd : s.nesting.program.decl? id = some decl) (hk : decl.kind = .function function)
include hn hd hk

theorem exists_startFunction {target : FunctionId} (htarget : s.function? decl.id = some target) :
    ∃ b, s.startFunction decl function = .ok b := by
  have hparams : ∃ params, (function.params.mapM fun param => do (← s.nesting.program.getVar param).ty.storage) =
      .ok params := by
    refine exists_mapM_eq_ok fun x hx => ?_
    obtain ⟨var, hv, -⟩ := hn.checked.local_owner hd ((hn.checked.params_prefix hd hk).subset hx)
    obtain ⟨ty, hty⟩ := hn.checked.exists_storage hv
    exact ⟨ty, bind_eq_ok.2 ⟨var, Program.getVar_eq_ok.2 hv, ValueType.storage_eq_ok.2 hty⟩⟩
  obtain ⟨params, hparams⟩ := hparams
  exact ⟨_, bind_eq_ok.2 ⟨target, getFunction_eq_ok.2 htarget, bind_eq_ok.2 ⟨params, hparams, rfl⟩⟩⟩

end

theorem ends_bindParams {index : Nat} {params : List VarId}
    (h : index + params.length + b.function.hasContext.toNat ≤ b.function.locals.size) :
    (s.bindParams index params).Ends b none fun _ b' => b.Grows b' := by
  induction params generalizing index b with
  | nil => exact ends_pure (.refl _)
  | cons param params ih =>
    simp only [List.length_cons] at h
    rw [bindParams]
    refine ends_get_bind ?_
    by_cases hcap : s.nesting.captures.isCaptured param = true
    · simp only [hcap, if_true]
      refine (ends_localGet (by simp only [Lir.Function.paramLocal]; omega)).bind fun _ b₁ h₁ => ?_
      refine (ih (b := b₁) ?_).bind fun _ b₂ h₂ => ends_pure (h₁.trans h₂)
      have := h₁.locals_le
      rw [h₁.hasContext_eq]
      omega
    · simp only [hcap, Bool.false_eq_true, if_false]
      exact (ih (by omega)).bind fun _ b₂ h₂ => ends_pure h₂

theorem ends_bindLocals (hp : s.nesting.program.Checked) {vars : List VarId}
    (h : ∀ x ∈ vars, ∃ var, s.nesting.program.var? x = some var) :
    (s.bindLocals vars).Ends b none fun _ b' => b.Grows b' := by
  induction vars generalizing b with
  | nil => exact ends_pure (.refl _)
  | cons x vars ih =>
    obtain ⟨⟨var, hv⟩, hvars⟩ := List.forall_mem_cons.1 h
    rw [bindLocals]
    by_cases hcap : s.nesting.captures.isCaptured x = true
    · simp only [hcap, if_true]
      exact ih hvars
    · simp only [hcap, Bool.false_eq_true, if_false]
      obtain ⟨ty, hty⟩ := hp.exists_storage hv
      refine ends_of_ok_bind (bind_eq_ok.2 ⟨var, Program.getVar_eq_ok.2 hv, ValueType.storage_eq_ok.2 hty⟩) ?_
      refine (ends_addLocal ty).bind fun _ b₁ h₁ => ?_
      exact (ih hvars).bind fun _ b₂ h₂ => ends_pure (h₁.1.trans h₂)

/-- The locals that a function starts with are those of its context and its parameters. -/
theorem ends_bindVariables (hp : s.nesting.program.Checked) {id : DeclId} {decl : Declaration}
    {function : FunctionDecl} (hd : s.nesting.program.decl? id = some decl)
    (hlinked : b.function.hasContext.toNat + function.params.length ≤ b.function.locals.size) :
    (s.bindVariables decl function).Ends b none fun _ b' => b.Grows b' := by
  have hlocals : ∀ x ∈ decl.locals.drop function.params.length, ∃ var, s.nesting.program.var? x = some var :=
    fun x hx => (hp.local_owner hd (List.mem_of_mem_drop hx)).imp fun _ h => h.1
  unfold bindVariables
  refine ends_get_bind ?_
  have hrest : ∀ (incoming : Option ValueId) (b₁ : FunctionBuilder), b.Grows b₁ → Ends (do
      let found ← s.bindParams 0 function.params
      let locals ← s.bindLocals (decl.locals.drop function.params.length)
      return (incoming, found.1, found.2 ++ locals)) b₁ none fun _ b' => b.Grows b' := by
    intro incoming b₁ h₁
    have := h₁.locals_le
    refine (ends_bindParams (by rw [h₁.hasContext_eq]; omega)).bind fun found b₂ h₂ => ?_
    exact (ends_bindLocals hp hlocals).bind fun locals b₃ h₃ => ends_pure (h₁.trans (h₂.trans h₃))
  unfold Lir.Function.contextLocal?
  cases hctx : b.function.hasContext with
  | true =>
    rw [hctx, Bool.toNat_true] at hlinked
    have hread : Ends (some <$> FunctionBuilder.localGet ⟨0⟩) b none fun _ b' => b.Grows b' :=
      (ends_localGet (show 0 < b.function.locals.size by omega)).map fun _ _ h => h
    exact hread.bind hrest
  | false =>
    have hnone : Ends (pure none) b none fun (_ : Option ValueId) b' => b.Grows b' := ends_pure (.refl b)
    exact hnone.bind hrest

section

variable {id : DeclId} {decl : Declaration} {function : FunctionDecl} (hn : s.nesting.Built policy)
  (hd : s.nesting.program.decl? id = some decl) (hk : decl.kind = .function function)
include hn hd hk

/-- After the prologue the scope has what the body asks for. -/
theorem ready_of_prologue {params : List Ty} {incoming : Option ValueId}
    {arrived : List (VarId × ValueId)} {paramLocals bodyLocals : List (VarId × LocalId)}
    {σ₁ σ₂ σ₃ σ₄ : Regs} {c₁ c₂ c₃ : List Inst}
    (hparams : ParamTypes s.nesting.program function.params params)
    (hincoming : IncomingCode decl.parent.isSome
      ⟨#[], ((if decl.parent.isSome then [Ty.ptr] else []) ++ params).toArray⟩ c₁ incoming σ₁)
    (hparamsCode : ParamsCode s.nesting decl.parent.isSome.toNat 0 function.params σ₁ c₂ arrived paramLocals σ₂)
    (hlocals : LocalsBound s.nesting (decl.locals.drop function.params.length) σ₂ bodyLocals σ₃)
    (henter : EnterCode s.nesting id incoming arrived σ₃ c₃ v σ₄)
    (hfunctions : ∀ {id}, s.nesting.program.isFunction id = true → ∃ target, s.function? id = some target) :
    Ready { s with locals := paramLocals ++ bodyLocals, current := some v } v σ₄.locals.size ∧ v.decl = id := by
  obtain ⟨rfl, hvincoming, hvframe⟩ := henter.vantage_eq
  refine ⟨⟨rfl, hvframe, ?_, ?_, hfunctions⟩, rfl⟩
  · have hpar : s.nesting.program.parent? v.decl = decl.parent := by simp [Program.parent?, hd]
    rw [hvincoming, hpar]
    generalize decl.parent.isSome = linked at hincoming
    cases hincoming <;> rfl
  · intro x var hv howner hcap
    obtain ⟨decl', hd', hx⟩ := hn.checked.exists_owner hv
    rw [howner, hd] at hd'
    cases hd'
    obtain ⟨rest, hrest⟩ := hn.checked.params_prefix hd hk
    rw [← hrest, List.drop_left] at hlocals
    have hplaces := BodyLocals.of_prologue hparams hincoming hparamsCode hlocals
    obtain ⟨l, hmem⟩ := hplaces.bound x (hrest ▸ hx) hcap
    obtain ⟨l, hl⟩ := exists_lookup_of_mem hmem
    exact ⟨l, hl, Nat.lt_of_lt_of_le (hplaces.lt (mem_of_lookup hl)) henter.le.locals⟩

end

/-- The prologue always runs through, and leaves no block open. -/
theorem exists_prologue {id : DeclId} {decl : Declaration} {function : FunctionDecl} (hn : s.nesting.Built policy)
    (hd : s.nesting.program.decl? id = some decl) (hk : decl.kind = .function function)
    (hfunctions : ∀ {id}, s.nesting.program.isFunction id = true → ∃ target, s.function? id = some target) :
    ∃ b₀ incoming arrived locals b₁ v b₂, s.startFunction decl function = .ok b₀ ∧
      (s.bindVariables decl function).Gives b₀ (incoming, arrived, locals) b₁ ∧
      (s.nesting.enterFunction id incoming arrived).Gives b₁ v b₂ ∧
      Ready { s with locals, current := some v } v b₂.function.locals.size ∧ v.decl = id ∧ b₂.around = [] := by
  have hfunction := Program.function?_eq_some_iff.2 ⟨decl, hd, hk⟩
  have hf := Program.isFunction_iff.2 ⟨function, hfunction⟩
  obtain ⟨target, htarget⟩ := hfunctions hf
  obtain ⟨b₀, hstart⟩ := exists_startFunction hn hd hk ((hn.checked.decl_id hd).symm ▸ htarget)
  obtain ⟨target', params, -, hparams, hb₀⟩ := startFunction_eq_ok hstart
  have hsize : b₀.function.hasContext.toNat + function.params.length ≤ b₀.function.locals.size := by
    rw [hb₀, hparams.length_eq]
    cases decl.parent.isSome <;> simp [FunctionBuilder.start, Nat.add_comm]
  obtain ⟨⟨incoming, arrived, locals⟩, b₁, hbind, -⟩ := ends_bindVariables hn.checked hd hsize
  obtain ⟨c₁, c₂, σ₁, σ₂, σ₃, paramLocals, bodyLocals, hc₁, hc₂, hσ₃, rfl, rfl⟩ := gives_bindVariables hbind
  have hframe : s.nesting.captures.isFrameNeeded id = true → ∃ l kind, s.nesting.layouts.layout? id = some l ∧
      s.nesting.plan.kind? id = some kind ∧ (l.parentSlot.isSome = true → incoming.isSome = true) ∧
      ∀ x ∈ arrived, s.nesting.captures.isCaptured x.1 = true → ∃ slot, l.slotOf? x.1 = some slot := by
    intro hframe
    have hcarrier : s.nesting.captures.isCarrier s.nesting.program id = true := by
      simp [Captures.isCarrier, hframe]
    obtain ⟨l, hl⟩ := hn.exists_layout hcarrier
    obtain ⟨kind, hkind⟩ := hn.exists_kind hl hf
    refine ⟨l, kind, hl, hkind, fun hlink => ?_, fun x hx hcap => ?_⟩
    · have hparent := hn.isSome_parent_of_parentSlot hl hlink
      rw [show s.nesting.program.parent? id = decl.parent by simp [Program.parent?, hd]] at hparent
      simp only [hb₀, FunctionBuilder.start, hparent] at hc₁
      cases hc₁
      rfl
    · obtain ⟨var, hv, howner⟩ := hn.checked.exists_param hfunction (hc₂.arrived x hx)
      obtain ⟨slot, -, hslot, -⟩ := hn.exists_slot hv (howner ▸ hl) fun _ => hcap
      exact ⟨slot, hslot⟩
  obtain ⟨v, b₂, henter, -⟩ := Nesting.ends_enterFunction (b := b₀.extend (c₁ ++ c₂) σ₃) hframe
  obtain ⟨c₃, σ₄, hc₃, rfl⟩ := Nesting.enterCode_of_enterFunction hc₂.isCaptured henter
  subst hb₀
  obtain ⟨hready, hvdecl⟩ := ready_of_prologue hn hd hk hparams hc₁ hc₂ hσ₃ hc₃ hfunctions
  exact ⟨_, incoming, arrived, _, _, v, _, hstart, hbind, henter, hready, hvdecl, rfl⟩

/-- A function is lowered in every scope in which all functions have numbers, whatever was lowered before,
unless it misuses a value: then it fails with the first misuse. -/
theorem lowerFunction_misuse? {id : DeclId} (hn : s.nesting.Built policy)
    (hfunctions : ∀ {id}, s.nesting.program.isFunction id = true → ∃ target, s.function? id = some target)
    (hf : s.nesting.program.isFunction id = true) :
    match s.nesting.program.misuse? id with
    | none => ∃ f, (s.lowerFunction id).1 = .ok f
    | some defect => (s.lowerFunction id).1 = .error defect := by
  obtain ⟨function, hfunction⟩ := Program.isFunction_iff.1 hf
  obtain ⟨decl, hd, hk⟩ := Program.function?_eq_some_iff.1 hfunction
  have hdecls : (do return (← s.nesting.program.getDecl id, ← s.nesting.program.getFunction id)) =
      (.ok (decl, function) : Except Defect _) :=
    bind_eq_ok.2 ⟨decl, Program.getDecl_eq_ok.2 hd, bind_eq_ok.2
      ⟨function, Program.getFunction_eq_ok.2 hfunction, rfl⟩⟩
  obtain ⟨b₀, incoming, arrived, locals, b₁, v, b₂, hstart, hbind, henter, hready, rfl, haround⟩ :=
    exists_prologue (s := s.reset) hn hd hk hfunctions
  have hbody : (Scope.lowerBody { s.reset with locals, current := some v } function).Ends b₂
      (s.nesting.program.misuse? v.decl) fun _ b' => b₂.Grows b' :=
    hready.ends_lowerBody hn hfunction (Nat.le_refl _)
  unfold Lir.Emit.Gives at hbind henter
  unfold lowerFunction
  simp only [hdecls, hstart, hbind, henter]
  cases hmisuse : s.nesting.program.misuse? v.decl with
  | some defect =>
    rw [hmisuse] at hbody
    obtain ⟨b₃, hbody⟩ := hbody
    simp only [hbody]
  | none =>
    rw [hmisuse] at hbody
    obtain ⟨_, b₃, hbody, hgrows⟩ := hbody
    unfold Lir.Emit.Gives at hbody
    simp only [hbody]
    have hfinish : b₃.finish = .ok { b₃.function with body := b₃.block.toList } := by
      unfold FunctionBuilder.finish
      rw [hgrows.around_eq, haround]
    exact ⟨_, hfinish⟩

/-- Lowering a function leaves the tables and the numbers of functions as they are. -/
theorem reset_lowerFunction (s : Scope) (id : DeclId) : (s.lowerFunction id).2.reset = s.reset := by
  unfold lowerFunction
  simp only
  repeat' split
  all_goals rfl

/-- What was set up for the function before does not matter. -/
theorem lowerFunction_reset (s : Scope) (id : DeclId) :
    (s.reset.lowerFunction id).1 = (s.lowerFunction id).1 := by
  unfold lowerFunction
  simp only [reset]
  split <;> rfl

/-- The results of lowering functions one by one, each in the scope that the one before it left behind. -/
def lowerInTurn (s : Scope) : List DeclId → List (Except Defect Lir.Function)
  | [] => []
  | id :: rest => (s.lowerFunction id).1 :: lowerInTurn (s.lowerFunction id).2 rest

theorem lowerInTurn_eq_map {s t : Scope} (h : t.reset = s.reset) (ids : List DeclId) :
    t.lowerInTurn ids = ids.map fun id => (s.lowerFunction id).1 := by
  induction ids generalizing t with
  | nil => rfl
  | cons id ids ih =>
    rw [lowerInTurn, List.map_cons, ih ((reset_lowerFunction t id).trans h), ← lowerFunction_reset t,
      h, lowerFunction_reset]

end Scope

/-! ## Modules -/

namespace Nesting

variable {n : Nesting} {policy : FramePolicy}

/-- The defect with which a function fails to be lowered. -/
def defect? (n : Nesting) (id : DeclId) : Option Defect :=
  match (n.scope.lowerFunction id).1 with
  | .ok _ => none
  | .error defect => some defect

/-- Every function has a number in the scope of the tables. -/
theorem Built.exists_function? (hn : n.Built policy) (hc : n.program.ChildrenDistinct) {id : DeclId}
    (hf : n.scope.nesting.program.isFunction id = true) : ∃ target, n.scope.function? id = some target := by
  rw [scope_nesting] at hf
  obtain ⟨function, hfunction⟩ := Program.isFunction_iff.1 hf
  obtain ⟨decl, hd, -⟩ := Program.function?_eq_some_iff.1 hfunction
  have hmem : id ∈ n.functionOrder := List.mem_filter.2 ⟨hn.checked.mem_preorder hd, hf⟩
  rw [scope_eq hn.checked hc, ← Option.isSome_iff_exists, Scope.function?, Option.isSome_map,
    List.findIdx?_isSome, List.any_eq_true]
  exact ⟨id, hmem, by simp⟩

/-- What a function fails with is what it misuses first. -/
theorem Built.defect?_eq (hn : n.Built policy) (hc : n.program.ChildrenDistinct) {id : DeclId}
    (hf : n.program.isFunction id = true) : n.defect? id = n.program.misuse? id := by
  have hnesting : n.scope.nesting = n := n.scope_nesting
  have h := Scope.lowerFunction_misuse? (s := n.scope) (hnesting.symm ▸ hn) (hn.exists_function? hc)
    (show n.scope.nesting.program.isFunction id = true by rwa [hnesting])
  rw [hnesting] at h
  unfold defect?
  cases hmisuse : n.program.misuse? id with
  | some defect =>
    rw [hmisuse] at h
    simp only [h]
  | none =>
    rw [hmisuse] at h
    obtain ⟨f, h⟩ := h
    simp only [h]

/-- A module is refused with the defects of all functions that have one. -/
theorem lower_eq (n : Nesting) : n.lower =
    if (n.functionOrder.filterMap n.defect?).isEmpty then
      .ok { structs := n.layouts.structs, functions := (n.lowered.filterMap Except.toOption).toArray }
    else .error (n.functionOrder.filterMap n.defect?) := by
  have hdefects : ∀ f : Except Defect Lir.Function → Option Defect, (∀ defect, f (.error defect) = some defect) →
      (∀ function, f (.ok function) = none) → n.lowered.filterMap f = n.functionOrder.filterMap n.defect? := by
    intro f herror hok
    unfold lowered
    rw [List.filterMap_map]
    refine List.filterMap_congr fun id _ => ?_
    unfold defect?
    cases h : (n.scope.lowerFunction id).1 with
    | error defect => simp [h, herror]
    | ok function => simp [h, hok]
  unfold lower
  dsimp only
  rw [hdefects _ (fun _ => rfl) fun _ => rfl]

theorem exists_lower_iff {n : Nesting} :
    (∃ m, n.lower = .ok m) ↔ ∀ id ∈ n.functionOrder, n.defect? id = none := by
  rw [lower_eq, ← List.filterMap_eq_nil_iff, ← List.isEmpty_iff]
  split <;> simp [*]

end Nesting

/-- A partial function gives one answer for each argument that it has one for, in order. -/
theorem forall₂_filterMap {α β : Type} {f : α → Option β} {P : α → Bool} {l : List α}
    (h : ∀ a ∈ l, (f a).isSome = P a) : List.Forall₂ (fun a b => f a = some b) (l.filter P) (l.filterMap f) := by
  induction l with
  | nil => exact .nil
  | cons a l ih =>
    obtain ⟨ha, hl⟩ := List.forall_mem_cons.1 h
    cases hfa : f a with
    | none =>
      rw [hfa] at ha
      rw [List.filter_cons_of_neg (by simp [← ha]), List.filterMap_cons_none hfa]
      exact ih hl
    | some b =>
      rw [hfa] at ha
      rw [List.filter_cons_of_pos (by simp [← ha]), List.filterMap_cons_some hfa]
      exact .cons hfa (ih hl)

/-- Lowering a program whose tables can be made fails just if a function misuses a value, and then with one
defect for each function that does, in pre-order. It makes no difference that the functions are lowered in turn,
each after what may have failed before it, and what a function fails with does not depend on other bodies. -/
theorem lower_fails_on_misuse {p : Program} (hp : p.check = .ok ()) (hc : p.ChildrenDistinct)
    {policy : FramePolicy} {n : Nesting} (hn : Nesting.of p policy = .ok n) :
    ((∃ m, n.lower = .ok m) ↔ ∀ id, ¬p.Misuses id) ∧
    (∀ defects, n.lower = .error defects → List.Forall₂ (fun id defect => n.defect? id = some defect)
      (p.preorder.filter fun id => p.Misuses id) defects) ∧
    n.scope.lowerInTurn n.functionOrder = n.lowered ∧
    ∀ {q : Program} {policy' : FramePolicy} {n' : Nesting}, q.check = .ok () → q.ChildrenDistinct →
      Nesting.of q policy' = .ok n' → p.DeclaresSame q → ∀ {id function}, p.function? id = some function →
      q.function? id = some function → n'.defect? id = n.defect? id := by
  obtain ⟨rfl, hbuilt⟩ := Nesting.built_of_eq_ok (Program.checked_of_check hp) hn
  have hdefect : ∀ id, (n.program.isFunction id = true → n.defect? id = n.program.misuse? id) :=
    fun id => hbuilt.defect?_eq hc
  have horder : ∀ id ∈ n.functionOrder, (n.defect? id).isSome = decide (n.program.Misuses id) := by
    intro id hid
    rw [hdefect id (List.mem_filter.1 hid).2, Bool.eq_iff_iff, decide_eq_true_iff, Program.isSome_misuse?]
  have hfilter : (n.program.preorder.filter fun id => n.program.Misuses id) =
      n.functionOrder.filter fun id => n.program.Misuses id := by
    unfold Nesting.functionOrder
    rw [List.filter_filter]
    refine List.filter_congr fun id _ => ?_
    by_cases h : n.program.Misuses id
    · obtain ⟨function, hf⟩ : ∃ function, n.program.function? id = some function := h.imp fun _ h => h.1
      simp [h, Program.isFunction_iff.2 ⟨function, hf⟩]
    · simp [h]
  refine ⟨?_, fun defects h => ?_, Scope.lowerInTurn_eq_map rfl _, ?_⟩
  · rw [Nesting.exists_lower_iff]
    constructor
    · intro hnone id hmisuses
      have hid : id ∈ n.functionOrder := by
        obtain ⟨function, hf, -⟩ := hmisuses
        obtain ⟨decl, hd, -⟩ := Program.function?_eq_some_iff.1 hf
        exact List.mem_filter.2 ⟨hbuilt.checked.mem_preorder hd, Program.isFunction_iff.2 ⟨function, hf⟩⟩
      simpa [hnone id hid, hmisuses] using horder id hid
    · intro hnone id hid
      simpa [hnone id] using horder id hid
  · rw [Nesting.lower_eq] at h
    split at h
    · cases h
    · cases h
      rw [hfilter]
      exact forall₂_filterMap horder
  · intro q policy' n' hq hqc hn' hsame id function hf hf'
    obtain ⟨rfl, hbuilt'⟩ := Nesting.built_of_eq_ok (Program.checked_of_check hq) hn'
    rw [hdefect id (Program.isFunction_iff.2 ⟨function, hf⟩),
      hbuilt'.defect?_eq hqc (Program.isFunction_iff.2 ⟨function, hf'⟩), hsame.misuse?_eq (hf.trans hf'.symm)]

/-- A function that adds what another one does not return, beside one that calls a number. -/
def mixup : Program where
  declarations := #[
    ⟨⟨0⟩, "main", none, [], [⟨1⟩, ⟨2⟩], .function {
      params := []
      returnType := .int
      body := [.ret (some (.binary .add (.int 1) (.call ⟨1⟩ [])))] }⟩,
    ⟨⟨1⟩, "hush", some ⟨0⟩, [], [], .function { params := [], returnType := .unit, body := [] }⟩,
    ⟨⟨2⟩, "ring", some ⟨0⟩, [], [], .function {
      params := []
      returnType := .int
      body := [.ret (some (.callValue (.int 3) []))] }⟩]
  vars := #[]

/-- Both of them are reported, and the one between them is not. -/
theorem lower_fails_on_misuse_mixup : ∃ n first second, Nesting.of mixup .escapeAnalysis = .ok n ∧
    n.lower = .error [first, second] ∧ n.defect? ⟨0⟩ = some first ∧ n.defect? ⟨2⟩ = some second := by
  obtain ⟨n, hn⟩ := exists_of_isOk (show (Nesting.of mixup .escapeAnalysis).isOk = true by decide +kernel)
  obtain ⟨hiff, hdefects, -⟩ := lower_fails_on_misuse (show mixup.check = .ok () by rfl) (by decide) hn
  cases hlower : n.lower with
  | ok m => exact absurd (show mixup.Misuses ⟨0⟩ by decide +kernel) (hiff.1 ⟨m, hlower⟩ ⟨0⟩)
  | error defects =>
    have hdefects := hdefects defects hlower
    rw [show (mixup.preorder.filter fun id => mixup.Misuses id) = [⟨0⟩, ⟨2⟩] by decide +kernel] at hdefects
    obtain ⟨first, rest, hfirst, hrest, rfl⟩ := List.forall₂_cons_left_iff.1 hdefects
    obtain ⟨second, rest, hsecond, hnil, rfl⟩ := List.forall₂_cons_left_iff.1 hrest
    obtain rfl := List.forall₂_nil_left_iff.1 hnil
    exact ⟨n, first, second, hn, hlower, hfirst, hsecond⟩

end StaticChain
