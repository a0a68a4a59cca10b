import StaticChain.Proofs.Misuse
import StaticChain.Proofs.Numbering
import StaticChain.Proofs.Preorder
import StaticChain.Proofs.TypedLowering

/-!
# Lowered modules are well-formed

Numbers of functions, numbers of struct types, hidden arguments and slots come from tables that different
passes build, and a lowered body joins them by number only. Here they are shown to agree, for every program
that the check accepts, type-correct or not: what an instruction names is there, and the instruction gives it
what it takes (`Lir.Inst.Agrees`). The relations of `StaticChain.Proofs.Code` say where an instruction comes
from, and its place in the whole body says which instruction defines the address that it reads or writes
through (`CodeAgrees`).
-/

namespace StaticChain

open Lir (ValueId LocalId StructId Inst Ty allInsts)

/-! ## What instructions name -/

/-- The type that a slot of a struct type is declared with. -/
def Lir.Module.slotType? (m : Lir.Module) (struct : StructId) (slot : Nat) : Option Ty :=
  (m.struct? struct).bind (·.slots[slot]?)

/-- The value is defined by one instruction, which addresses a slot of the type. -/
def Lir.Function.Addresses (m : Lir.Module) (f : Lir.Function) (addr : ValueId) (ty : Ty) : Prop :=
  ∃ base struct slot, f.definers addr = [.fieldAddr addr base struct slot] ∧
    m.slotType? struct slot = some ty

/-- The body of a lowered function: the statements that it is the code of, and from where it sees them. -/
structure BodyView where
  scope : Scope
  vantage : Vantage
  stmts : List Stmt

namespace BodyView

variable (b : BodyView)

/-- The expression is evaluated somewhere in the body. -/
def Evaluates (expr : Expr) : Prop := ∃ stmt ∈ b.stmts, stmt.Evaluates expr

/-- The call is the one that a method call of the body is lowered to, and the value is what the code of the
receiver, which stands before it, computes. -/
def Receives (f : Lir.Function) (method : DeclId) (call : Inst) (r : ValueId) : Prop :=
  ∃ receiver args σ σ' code between, b.Evaluates (.methodCall receiver method args) ∧
    ExprCode b.scope b.vantage receiver σ code (some r) σ' ∧
    allInsts code ++ (between ++ [call]) <:+: allInsts f.body

end BodyView

/-- What the instruction names is there, and it is used as it is declared. -/
def Lir.Inst.Agrees (p : Program) (m : Lir.Module) (f : Lir.Function) (b : BodyView) : Inst → Prop
  | .call dest target args => ∃ callee, m.function? target = some callee ∧
      args.length = callee.callParams.length ∧ dest.isSome = callee.ret.isSome ∧
      ∀ parent, p.parent? callee.decl = some parent → ∃ first rest, args = first :: rest ∧
        if p.isAggregate parent then b.Receives f callee.decl (.call dest target args) first
        else f.valueType? first = some .ptr
  | .makeClosure _ target context => ∃ callee, m.function? target = some callee ∧
      p.isMethod callee.decl = false ∧ f.valueType? context = some .ptr
  | .alloc _ struct _ => (m.struct? struct).isSome
  | .fieldAddr _ _ struct slot => (m.slotType? struct slot).isSome
  | .load _ addr ty => f.Addresses m addr ty
  | .store addr _ ty => f.Addresses m addr ty
  | _ => True

/-- The instructions of a piece of the function's body agree with what they name. -/
def CodeAgrees (p : Program) (m : Lir.Module) (f : Lir.Function) (b : BodyView) (code : List Inst) : Prop :=
  allInsts code <:+: allInsts f.body → ∀ inst ∈ allInsts code, inst.Agrees p m f b

namespace CodeAgrees

variable {p : Program} {m : Lir.Module} {f : Lir.Function} {b : BodyView} {c₁ c₂ : List Inst} {inst : Inst}

theorem nil : CodeAgrees p m f b [] := by
  simp [CodeAgrees, allInsts]

theorem append (h₁ : CodeAgrees p m f b c₁) (h₂ : CodeAgrees p m f b c₂) : CodeAgrees p m f b (c₁ ++ c₂) := by
  intro hpart
  rw [Lir.allInsts_append] at hpart ⊢
  exact List.forall_mem_append.2 ⟨h₁ ((List.prefix_append _ _).isInfix.trans hpart),
    h₂ ((List.suffix_append _ _).isInfix.trans hpart)⟩

theorem single (hi : inst.withNested = [inst]) (h : inst.Agrees p m f b) : CodeAgrees p m f b [inst] := by
  intro _ inst' hmem
  simp only [allInsts, hi, List.append_nil, List.mem_singleton] at hmem
  exact hmem ▸ h

theorem cons (hi : inst.withNested = [inst]) (h₁ : inst.Agrees p m f b) (h₂ : CodeAgrees p m f b c₂) :
    CodeAgrees p m f b (inst :: c₂) :=
  (single hi h₁).append h₂

/-- The blocks of an instruction stand in the body right after it. -/
theorem nested (hi : inst.withNested = inst :: (allInsts c₁ ++ allInsts c₂)) (h : inst.Agrees p m f b)
    (h₁ : CodeAgrees p m f b c₁) (h₂ : CodeAgrees p m f b c₂) : CodeAgrees p m f b [inst] := by
  intro hpart inst' hmem
  simp only [allInsts, hi, List.append_nil] at hpart hmem
  have hinner := (List.suffix_cons _ _).isInfix.trans hpart
  rw [← Lir.allInsts_append] at hinner hmem
  obtain rfl | hmem := List.mem_cons.1 hmem
  · exact h
  · exact h₁.append h₂ hinner inst' hmem

theorem branch {condition : ValueId} (h₁ : CodeAgrees p m f b c₁) (h₂ : CodeAgrees p m f b c₂) :
    CodeAgrees p m f b [.branch condition c₁ c₂] :=
  nested (by simp [Inst.withNested]) trivial h₁ h₂

theorem loop {condition : ValueId} (h₁ : CodeAgrees p m f b c₁) (h₂ : CodeAgrees p m f b c₂) :
    CodeAgrees p m f b [.loop c₁ condition c₂] :=
  nested (by simp [Inst.withNested]) trivial h₁ h₂

end CodeAgrees

/-! ## Slots -/

section

variable {n : Nesting} {policy : FramePolicy} {m : Lir.Module} (hm : n.Lowers policy m)
include hm

namespace Nesting.Lowers

variable {owner : DeclId} {l : Layout} (hl : n.layouts.layout? owner = some l) {slot : Nat}
include hl

/-- A struct type has the slots of the layout that it stands for. -/
theorem slotType?_eq (slot : Nat) : m.slotType? l.struct slot = l.slotType? slot := by
  simp [Lir.Module.slotType?, hm.struct?_eq hl, Layout.toStruct, Layout.slotType?]

theorem slotType?_of_slotOf? {x : VarId} (h : l.slotOf? x = some slot) :
    m.slotType? l.struct slot = some ((l.slotType? slot).getD .ptr) := by
  obtain ⟨s, hs, -⟩ := Layout.kind_of_slotOf? h
  simp [hm.slotType?_eq hl, Layout.slotType?, hs]

theorem slotType?_link (h : l.linkSlot? = some slot) : m.slotType? l.struct slot = some .ptr := by
  rw [hm.slotType?_eq hl]
  exact (hm.built.layout_of hl).slotType_linkSlot h

end Nesting.Lowers

/-- The links that a chain follows are slots for pointers. -/
theorem Nesting.Lowers.slotType?_hop {useSite target : DeclId} {chain : Chain}
    (h : n.chainTo useSite target = .ok chain) :
    ∀ hop ∈ chain.hops, m.slotType? hop.struct hop.slot = some .ptr := by
  have hfound : ∀ hop ∈ chain.hops, ∃ through, n.hop through = .ok hop := by
    obtain ⟨-, ⟨-, -, -, hnil⟩ | ⟨carriers, -, -, hall⟩⟩ := Nesting.Built.chainTo_eq_ok h
    · simp [hnil]
    · intro hop hmem
      obtain ⟨through, -, hhop⟩ := exists_of_forall₂ hall hmem
      exact ⟨through, hhop⟩
  intro hop hmem
  obtain ⟨through, hhop⟩ := hfound hop hmem
  obtain ⟨l, hl, hstruct, hlink⟩ := Nesting.hop_eq_ok hhop
  rw [hstruct]
  exact hm.slotType?_link hl hlink

end

/-! ## Chains, contexts and objects -/

section

variable {p : Program} {m : Lir.Module} {f : Lir.Function} (hdef : f.DefinesOnce) {b : BodyView}
include hdef

/-- A slot is addressed, and used by one instruction that agrees with the address. -/
theorem CodeAgrees.slot {addr base : ValueId} {struct : StructId} {slot : Nat} {ty : Ty} {inst : Inst}
    (hslot : m.slotType? struct slot = some ty) (hi : inst.withNested = [inst])
    (hagrees : f.definers addr = [.fieldAddr addr base struct slot] → inst.Agrees p m f b) :
    CodeAgrees p m f b [.fieldAddr addr base struct slot, inst] := by
  intro hpart
  have hmem : .fieldAddr addr base struct slot ∈ allInsts f.body :=
    hpart.subset (by simp [allInsts, Inst.withNested])
  have haddr : f.definers addr = [.fieldAddr addr base struct slot] := hdef _ hmem _ rfl
  exact CodeAgrees.cons rfl (Option.isSome_iff_exists.2 ⟨ty, hslot⟩) (.single hi (hagrees haddr)) hpart

/-- A slot is addressed, and read as what it stores. -/
theorem CodeAgrees.read {dest addr base : ValueId} {struct : StructId} {slot : Nat} {ty : Ty}
    (hslot : m.slotType? struct slot = some ty) :
    CodeAgrees p m f b [.fieldAddr addr base struct slot, .load dest addr ty] :=
  .slot hdef hslot rfl fun haddr => ⟨base, struct, slot, haddr, hslot⟩

/-- A slot is addressed, and written as what it stores. -/
theorem CodeAgrees.write {addr base value : ValueId} {struct : StructId} {slot : Nat} {ty : Ty}
    (hslot : m.slotType? struct slot = some ty) :
    CodeAgrees p m f b [.fieldAddr addr base struct slot, .store addr value ty] :=
  .slot hdef hslot rfl fun haddr => ⟨base, struct, slot, haddr, hslot⟩

variable {n : Nesting} {v : Vantage} {σ σ' : Regs} {code : List Inst}

theorem HopsCode.agrees {pointer r : ValueId} {hops : List Chain.Hop}
    (h : HopsCode σ pointer hops code r σ')
    (hhops : ∀ hop ∈ hops, m.slotType? hop.struct hop.slot = some .ptr) : CodeAgrees p m f b code := by
  induction h with
  | nil => exact .nil
  | cons _ ih =>
    obtain ⟨hhop, hhops⟩ := List.forall_mem_cons.1 hhops
    exact (CodeAgrees.read hdef hhop).append (ih hhops)

theorem StoresCode.agrees {struct : StructId} {object : ValueId} {stores : List SlotStore}
    (h : StoresCode struct object σ stores code σ')
    (hstores : ∀ s ∈ stores, m.slotType? struct s.slot = some s.ty) : CodeAgrees p m f b code := by
  induction h with
  | nil => exact .nil
  | cons _ ih =>
    obtain ⟨hstore, hstores⟩ := List.forall_mem_cons.1 hstores
    exact (CodeAgrees.write hdef hstore).append (ih hstores)

variable {policy : FramePolicy} (hm : n.Lowers policy m)
include hm

theorem ChainCode.agrees {useSite target : DeclId} {chain : Chain} {r : ValueId}
    (hchain : n.chainTo useSite target = .ok chain) (h : ChainCode v chain σ code r σ') :
    CodeAgrees p m f b code := by
  cases h with | mk _ h => exact h.agrees hdef (hm.slotType?_hop hchain)

theorem ContextCode.agrees {context : ContextArgument} {hidden : Option ValueId}
    (hchain : ∀ chain, context = .chain chain → ∃ useSite target, n.chainTo useSite target = .ok chain)
    (h : ContextCode v context σ code hidden σ') : CodeAgrees p m f b code := by
  cases h with
  | none => exact .nil
  | null => exact .single rfl trivial
  | chain h =>
    obtain ⟨_, _, hchain⟩ := hchain _ rfl
    exact h.agrees hdef hm hchain

theorem ClosureContextCode.agrees {context : ContextArgument} {r : ValueId}
    (hchain : ∀ chain, context = .chain chain → ∃ useSite target, n.chainTo useSite target = .ok chain)
    (h : ClosureContextCode v context σ code r σ') : CodeAgrees p m f b code := by
  cases h with
  | none => exact .single rfl trivial
  | null => exact .single rfl trivial
  | chain h =>
    obtain ⟨_, _, hchain⟩ := hchain _ rfl
    exact h.agrees hdef hm hchain

/-- Code that makes a carrier, stores its link and fills other slots. -/
theorem StoresCode.agrees_alloc {owner : DeclId} {l : Layout} (hl : n.layouts.layout? owner = some l)
    {object : ValueId} {kind : Lir.AllocKind} {slot : Option Nat} {link : Option ValueId}
    {stores : List SlotStore} (h : StoresCode l.struct object σ (linkStores slot link ++ stores) code σ')
    (hlink : ∀ k, slot = some k → l.linkSlot? = some k)
    (hstores : ∀ s ∈ stores, m.slotType? l.struct s.slot = some s.ty) :
    CodeAgrees p m f b (.alloc object l.struct kind :: code) := by
  refine .cons rfl (Option.isSome_iff_exists.2 ⟨_, hm.struct?_eq hl⟩) (h.agrees hdef ?_)
  refine List.forall_mem_append.2 ⟨?_, hstores⟩
  intro s hs
  cases slot with
  | none => simp [linkStores] at hs
  | some k =>
    cases link with
    | none => simp [linkStores] at hs
    | some r =>
      obtain rfl := List.mem_singleton.1 hs
      exact hm.slotType?_link hl (hlink k rfl)

theorem InstanceCode.agrees {aggregate : DeclId} (ha : n.program.isAggregate aggregate = true)
    {outer : Option ValueId} {fields : List ValueId} {r : ValueId}
    (h : InstanceCode n aggregate outer fields σ code r σ') : CodeAgrees p m f b code := by
  cases h with | mk hl _ _ hstores =>
  refine hstores.agrees_alloc hdef hm hl (fun k hk => ?_) ?_
  · rw [(hm.built.layout_of hl).linkSlot_of_isAggregate ha, hk]
  · intro s hs
    simp only [List.mem_map, Prod.exists] at hs
    obtain ⟨slot, index, value, hmem, rfl⟩ := hs
    have hslot := (List.mem_filter.1 (List.of_mem_zip hmem).1).1
    have hget := List.mem_zipIdx_iff_getElem?.1 hslot
    simp [hm.slotType?_eq hl, Layout.slotType?, hget]

end

/-! ## Variables and expressions -/

/-- A chain that a call passes on was found. -/
theorem Nesting.ContextFor.exists_chainTo {n : Nesting} {useSite decl : DeclId} {context : ContextArgument}
    (h : n.ContextFor useSite decl context) {chain : Chain} (hchain : context = .chain chain) :
    ∃ useSite target, n.chainTo useSite target = .ok chain := by
  cases h with
  | null => cases hchain
  | chain _ h =>
    cases hchain
    exact ⟨_, _, h⟩

theorem Nesting.exists_chainTo_of_callContext {n : Nesting} {useSite callee : DeclId}
    {context : ContextArgument} (h : n.callContext useSite callee = .ok context) (chain : Chain)
    (hchain : context = .chain chain) : ∃ useSite target, n.chainTo useSite target = .ok chain := by
  obtain ⟨-, ⟨rfl, -⟩ | rfl | ⟨-, hfor⟩⟩ := Nesting.callContext_eq_ok h
  · cases hchain
  · cases hchain
  · exact hfor.exists_chainTo hchain

theorem Nesting.exists_chainTo_of_constructionContext {n : Nesting} {useSite aggregate : DeclId}
    {context : ContextArgument} (h : n.constructionContext useSite aggregate = .ok context) (chain : Chain)
    (hchain : context = .chain chain) : ∃ useSite target, n.chainTo useSite target = .ok chain := by
  obtain ⟨_, -, ⟨rfl, -⟩ | ⟨-, hfor⟩⟩ := Nesting.constructionContext_eq_ok h
  · cases hchain
  · exact hfor.exists_chainTo hchain

/-- A context is passed exactly to functions that stand in another declaration. -/
theorem Nesting.isSome_of_callContext {n : Nesting} {useSite callee : DeclId} {context : ContextArgument}
    (h : n.callContext useSite callee = .ok context) {v : Vantage} {σ σ' : Regs} {code : List Inst}
    {hidden : Option ValueId} (hcode : ContextCode v context σ code hidden σ') :
    hidden.isSome = (n.program.parent? callee).isSome := by
  obtain ⟨-, ⟨rfl, hparent⟩ | rfl | ⟨hparent, hfor⟩⟩ := Nesting.callContext_eq_ok h
  · cases hcode
    simp [hparent]
  · cases hcode
  · rw [hparent]
    cases hfor <;> cases hcode <;> rfl

theorem ExprsCode.length_eq {s : Scope} {v : Vantage} {exprs : List Expr} {σ σ' : Regs} {code : List Inst}
    {rs : List ValueId} (h : ExprsCode s v exprs σ code rs σ') : rs.length = exprs.length := by
  induction exprs generalizing σ code rs with
  | nil =>
    cases h
    rfl
  | cons expr exprs ih =>
    obtain ⟨⟩ | ⟨-, h⟩ := h
    simp [ih h]

section

variable {n : Nesting} {policy : FramePolicy} {m : Lir.Module} (hm : n.Lowers policy m) {f : Lir.Function}
  (hdef : f.DefinesOnce) {b : BodyView} (hs : b.scope.Within n)
include hm hs

/-- A call of a function that is registered gives it what it takes. -/
theorem Lir.Inst.Agrees.of_callee {σ : Regs} {id : DeclId} {function : FunctionDecl}
    (hf : n.program.function? id = some function) {target : Lir.FunctionId}
    (htarget : b.scope.function? id = some target) {hidden : Option ValueId} {rs : List ValueId}
    (hsome : hidden.isSome = (n.program.parent? id).isSome) (hlen : rs.length = function.params.length)
    (hfirst : ∀ parent r, n.program.parent? id = some parent → hidden = some r →
      if n.program.isAggregate parent then
        b.Receives f id (.call (σ.dest function.returnType.storage?) target (hidden.toList ++ rs)) r
      else f.valueType? r = some .ptr) :
    (Inst.call (σ.dest function.returnType.storage?) target (hidden.toList ++ rs)).Agrees n.program m f b := by
  rw [hs.function_eq] at htarget
  obtain ⟨callee, hcallee, hlowered⟩ := hm.function?_of_scope htarget
  obtain ⟨hparams, hret⟩ := hlowered.signature_eq n.scope_nesting hf
  obtain ⟨hdecl, hcontext⟩ := hlowered.hasContext n.scope_nesting
  refine ⟨callee, hcallee, ?_, by simp [hret, Regs.dest], ?_⟩
  · rw [Lir.Function.callParams, hcontext, ← hsome]
    cases hidden <;> simp [hlen, hparams.length_eq]
  · rw [hdecl]
    intro parent hparent
    obtain ⟨r, rfl⟩ : ∃ r, hidden = some r := Option.isSome_iff_exists.1 (by rw [hsome, hparent]; rfl)
    exact ⟨r, rs, rfl, hfirst parent r hparent rfl⟩

/-- The slot of a field is one that its struct type has. -/
theorem Scope.slotType?_of_fieldSlot {field : VarId} {struct : StructId} {slot : Nat} {ty : Ty}
    (h : b.scope.fieldSlot field = .ok (struct, slot, ty)) : m.slotType? struct slot = some ty := by
  obtain ⟨_, l, -, hl, rfl, hslot, rfl⟩ := Scope.fieldSlot_eq_ok h
  rw [hs.nesting_eq] at hl
  exact hm.slotType?_of_slotOf? hl hslot

include hdef

theorem ReadCode.agrees {σ σ' : Regs} {code : List Inst} {x : VarId} {r : ValueId}
    (h : ReadCode b.scope b.vantage x σ code r σ') : CodeAgrees n.program m f b code := by
  cases h with
  | «local» => exact .single rfl trivial
  | slot hres hchain =>
    rw [hs.nesting_eq] at hres
    obtain ⟨_, l, -, hto, hl, rfl, hslot, hty⟩ := Nesting.resolve_eq_slot hres
    exact (hchain.agrees hdef hm hto).append (.read hdef ((hm.slotType?_eq hl _).trans hty))

theorem WriteCode.agrees {σ σ' : Regs} {code : List Inst} {x : VarId} {value : ValueId}
    (h : WriteCode b.scope b.vantage value x σ code σ') : CodeAgrees n.program m f b code := by
  cases h with
  | «local» => exact .single rfl trivial
  | slot hres hchain =>
    rw [hs.nesting_eq] at hres
    obtain ⟨_, l, -, hto, hl, rfl, hslot, hty⟩ := Nesting.resolve_eq_slot hres
    exact (hchain.agrees hdef hm hto).append (.write hdef ((hm.slotType?_eq hl _).trans hty))

end

/-- The code of the expression agrees with what it names, if the body evaluates the expression. -/
def ExprAgrees (n : Nesting) (m : Lir.Module) (f : Lir.Function) (b : BodyView) (expr : Expr) : Prop :=
  ∀ {σ σ' code r}, ExprCode b.scope b.vantage expr σ code r σ' → σ'.Le f.regs →
    n.program.checkExpr expr = .ok () → b.Evaluates expr → CodeAgrees n.program m f b code

section

variable {n : Nesting} {policy : FramePolicy} {m : Lir.Module} (hm : n.Lowers policy m) {f : Lir.Function}
  (hdef : f.DefinesOnce) {b : BodyView} (hs : b.scope.Within n) (hv : b.vantage.Typed f.regs)

theorem BodyView.Evaluates.operand {expr operand : Expr} (h : b.Evaluates expr)
    (hmem : operand ∈ expr.operands) : b.Evaluates operand := by
  obtain ⟨stmt, hstmt, h⟩ := h
  exact ⟨stmt, hstmt, .under h hmem⟩

theorem ExprsCode.agrees_of {args : List Expr} (ih : ∀ arg ∈ args, ExprAgrees n m f b arg) {σ σ' : Regs}
    {code : List Inst} {rs : List ValueId} (h : ExprsCode b.scope b.vantage args σ code rs σ')
    (hle : σ'.Le f.regs) (hcheck : n.program.checkExprs args = .ok ())
    (heval : ∀ arg ∈ args, b.Evaluates arg) : CodeAgrees n.program m f b code := by
  induction args generalizing σ code rs with
  | nil =>
    cases h
    exact .nil
  | cons arg args iha =>
    obtain ⟨⟩ | ⟨harg, hargs⟩ := h
    simp only [Program.checkExprs, then_eq_ok] at hcheck
    obtain ⟨hfirst, hrest⟩ := List.forall_mem_cons.1 heval
    exact (ih arg (by simp) harg (hargs.le.trans hle) hcheck.1 hfirst).append
      (iha (fun arg ha => ih arg (by simp [ha])) hargs hcheck.2 hrest)

namespace ExprAgrees

theorem binary (op : BinOp) {lhs rhs : Expr} (ihl : ExprAgrees n m f b lhs) (ihr : ExprAgrees n m f b rhs) :
    ExprAgrees n m f b (.binary op lhs rhs) := by
  intro σ σ' code r h hle hcheck heval
  simp only [Program.checkExpr, then_eq_ok] at hcheck
  have hel := heval.operand (show lhs ∈ (Expr.binary op lhs rhs).operands by simp [Expr.operands])
  have her := heval.operand (show rhs ∈ (Expr.binary op lhs rhs).operands by simp [Expr.operands])
  have hconst {d : ValueId} {i : Int64} : CodeAgrees n.program m f b [.const d i] := .single rfl trivial
  have hset {x : Lir.LocalId} {r : ValueId} : CodeAgrees n.program m f b [.localSet x r] := .single rfl trivial
  have hget {d : ValueId} {x : Lir.LocalId} : CodeAgrees n.program m f b [.localGet d x] := .single rfl trivial
  cases h with
  | strict _ hl hr =>
    exact (ihl hl (hr.le.trans hle.of_value) hcheck.1 hel).append
      ((ihr hr hle.of_value hcheck.2 her).append (.single rfl trivial))
  | conjunction _ hl hr _ =>
    have hle₂ := hle.of_value.of_value
    have hc₁ := ihl hl (hr.le.trans hle₂) hcheck.1 hel
    have hc₂ := ihr hr hle₂ hcheck.2 her
    exact hc₁.append ((CodeAgrees.branch (hc₂.append hset) (hconst.append hset)).append hget)
  | disjunction _ hl hr _ =>
    have hc₁ := ihl hl (hr.le.trans hle.of_value).of_value hcheck.1 hel
    have hc₂ := ihr hr hle.of_value hcheck.2 her
    exact hc₁.append ((CodeAgrees.branch (hconst.append hset) (hc₂.append hset)).append hget)

include hm hs

theorem methodCall {receiver : Expr} (method : DeclId) {args : List Expr} (ihr : ExprAgrees n m f b receiver)
    (ih : ∀ arg ∈ args, ExprAgrees n m f b arg) :
    ExprAgrees n m f b (.methodCall receiver method args) := by
  intro σ σ' code r h hle hcheck heval
  simp only [Program.checkExpr, then_eq_ok] at hcheck
  obtain ⟨fn, hfn, hmethod, hlen⟩ := Program.checkCallee_eq_ok hcheck.2.1
  obtain ⟨parent, hparent, haggregate⟩ : ∃ parent, n.program.parent? method = some parent ∧
      n.program.isAggregate parent = true := by
    simp only [Program.isMethod, Bool.and_eq_true, Option.any_eq_true] at hmethod
    exact hmethod.2
  cases h with
  | @methodCall _ _ _ target decl _ σ₁ σ₂ c₁ c₂ x rs hr hargs htarget hdecl =>
  rw [hs.nesting_eq] at hdecl
  cases Option.some.inj (hfn.symm.trans hdecl)
  have hc₁ := ihr hr (hargs.le.trans hle.of_result) hcheck.1 (heval.operand (by simp [Expr.operands]))
  have hc₂ := hargs.agrees_of ih hle.of_result hcheck.2.2
    fun arg ha => heval.operand (by simp [Expr.operands, ha])
  intro hpart
  refine (hc₁.append (hc₂.append (.single rfl
    (.of_callee hm hs hfn htarget (show (some x).isSome = _ by simp [hparent])
      (hargs.length_eq.trans hlen.symm) ?_)))) hpart
  rintro parent' _ hparent' ⟨⟩
  obtain rfl := Option.some.inj (hparent.symm.trans hparent')
  rw [haggregate]
  refine ⟨receiver, args, _, _, c₁, allInsts c₂, heval, hr, ?_⟩
  simpa [Lir.allInsts_append, allInsts, Inst.withNested] using hpart

include hdef

theorem new (aggregate : DeclId) {args : List Expr} (ih : ∀ arg ∈ args, ExprAgrees n m f b arg) :
    ExprAgrees n m f b (.new aggregate args) := by
  intro σ σ' code r h hle hcheck heval
  simp only [Program.checkExpr, then_eq_ok] at hcheck
  obtain ⟨_, ha, -⟩ := Program.checkNew_eq_ok hcheck.1
  cases h with | new hargs hcontext houter hinstance =>
  rw [hs.nesting_eq] at hinstance hcontext
  have hle₁ := houter.le.trans (hinstance.le.trans hle)
  exact (hargs.agrees_of ih hle₁ hcheck.2 fun arg ha => heval.operand ha).append
    ((houter.agrees hdef hm (Nesting.exists_chainTo_of_constructionContext hcontext)).append
      (hinstance.agrees hdef hm (Program.isAggregate_iff.2 ⟨_, ha⟩)))

include hv

theorem call (function : DeclId) {args : List Expr} (ih : ∀ arg ∈ args, ExprAgrees n m f b arg) :
    ExprAgrees n m f b (.call function args) := by
  intro σ σ' code r h hle hcheck heval
  simp only [Program.checkExpr, then_eq_ok] at hcheck
  obtain ⟨fn, hfn, hmethod, hlen⟩ := Program.checkCallee_eq_ok hcheck.1
  cases h with
  | call hcontext hhidden hargs htarget hdecl =>
  rw [hs.nesting_eq] at hcontext hdecl
  cases Option.some.inj (hfn.symm.trans hdecl)
  have hle₁ := hargs.le.trans hle.of_result
  refine (hhidden.agrees hdef hm (Nesting.exists_chainTo_of_callContext hcontext)).append
    ((hargs.agrees_of ih hle.of_result hcheck.2 fun arg ha => heval.operand ha).append
      (.single rfl (.of_callee hm hs hfn htarget ?_ (hargs.length_eq.trans hlen.symm) ?_)))
  · exact Nesting.isSome_of_callContext hcontext hhidden
  · -- A function that is called without a receiver does not stand in an aggregate.
    intro parent r hparent hr
    have hnot : n.program.isAggregate parent = false := by
      simpa [Program.isMethod, Program.isFunction, hfn, hparent] using hmethod
    rw [hnot]
    exact (hhidden.typed m none hle₁ hv).2 r hr

theorem functionRef (function : DeclId) :
    ExprAgrees n m f b (.functionRef function) := by
  intro σ σ' code r h hle hcheck _
  cases h with | functionRef hcontext hcode htarget =>
  rw [hs.nesting_eq] at hcontext
  rw [hs.function_eq] at htarget
  simp only [Program.checkExpr, Flaw.excludedBy_eq_ok, Bool.and_eq_true, Bool.not_eq_true'] at hcheck
  obtain ⟨callee, hcallee, hlowered⟩ := hm.function?_of_scope htarget
  obtain ⟨hdecl, -⟩ := hlowered.hasContext n.scope_nesting
  exact (hcode.agrees hdef hm (Nesting.exists_chainTo_of_callContext hcontext)).append
    (.single rfl ⟨callee, hcallee, hdecl ▸ hcheck.2, (hcode.typed m none hle.of_value hv).2⟩)

end ExprAgrees

include hm hdef hs hv

theorem exprAgrees (expr : Expr) : ExprAgrees n m f b expr := by
  induction expr using Expr.ind with
  | int value =>
    intro σ σ' code r h _ _ _
    cases h
    exact .single rfl trivial
  | bool value =>
    intro σ σ' code r h _ _ _
    cases h
    exact .single rfl trivial
  | var id =>
    intro σ σ' code r h _ _ _
    cases h with | var h =>
    exact h.agrees hm hdef hs
  | binary op lhs rhs ihl ihr => exact ExprAgrees.binary op ihl ihr
  | unary op operand ih =>
    intro σ σ' code r h hle hcheck heval
    cases h with | unary h =>
    exact (ih h hle.of_value hcheck (heval.operand (by simp [Expr.operands]))).append (.single rfl trivial)
  | call function args ih => exact ExprAgrees.call hm hdef hs hv function ih
  | methodCall receiver method args ihr ih => exact ExprAgrees.methodCall hm hs method ihr ih
  | new aggregate args ih => exact ExprAgrees.new hm hdef hs aggregate ih
  | fieldGet base field ih =>
    intro σ σ' code r h hle hcheck heval
    simp only [Program.checkExpr, then_eq_ok] at hcheck
    cases h with | fieldGet hbase hslot =>
    exact (ih hbase hle.of_value.of_value hcheck.1 (heval.operand (by simp [Expr.operands]))).append
      (.read hdef (Scope.slotType?_of_fieldSlot hm hs hslot))
  | this aggregate =>
    intro σ σ' code r h _ _ _
    cases h with | this hto hchain =>
    rw [hs.nesting_eq] at hto
    exact hchain.agrees hdef hm hto
  | functionRef function => exact ExprAgrees.functionRef hm hdef hs hv function
  | callValue callee args ihc ih =>
    intro σ σ' code r h hle hcheck heval
    simp only [Program.checkExpr, then_eq_ok] at hcheck
    cases h with | callValue _ _ hcallee hargs =>
    exact (ihc hcallee (hargs.le.trans hle.of_result) hcheck.1
        (heval.operand (by simp [Expr.operands]))).append
      ((hargs.agrees_of ih hle.of_result hcheck.2
        fun arg ha => heval.operand (by simp [Expr.operands, ha])).append (.single rfl trivial))

end

/-! ## Statements -/

/-- The code of the statement agrees with what it names, if the body executes the statement. -/
def StmtAgrees (n : Nesting) (m : Lir.Module) (f : Lir.Function) (b : BodyView) (stmt : Stmt) : Prop :=
  ∀ {σ σ' code}, StmtCode b.scope b.vantage stmt σ code σ' → σ'.Le f.regs →
    n.program.checkStmt b.vantage.decl stmt = .ok () → (∀ expr, stmt.Evaluates expr → b.Evaluates expr) →
      CodeAgrees n.program m f b code

section

variable {n : Nesting} {policy : FramePolicy} {m : Lir.Module} (hm : n.Lowers policy m) {f : Lir.Function}
  (hdef : f.DefinesOnce) {b : BodyView} (hs : b.scope.Within n) (hv : b.vantage.Typed f.regs)

theorem BlockCode.agrees_of {block : List Stmt} (ih : ∀ stmt ∈ block, StmtAgrees n m f b stmt) {σ σ' : Regs}
    {code : List Inst} (h : BlockCode b.scope b.vantage block σ code σ') (hle : σ'.Le f.regs)
    (hcheck : n.program.checkBlock b.vantage.decl block = .ok ())
    (heval : ∀ stmt ∈ block, ∀ expr, stmt.Evaluates expr → b.Evaluates expr) :
    CodeAgrees n.program m f b code := by
  induction block generalizing σ code with
  | nil =>
    cases h
    exact .nil
  | cons stmt block ihb =>
    obtain ⟨⟩ | ⟨hstmt, hblock⟩ := h
    simp only [Program.checkBlock, then_eq_ok] at hcheck
    obtain ⟨hfirst, hrest⟩ := List.forall_mem_cons.1 heval
    exact (ih stmt (by simp) hstmt (hblock.le.trans hle) hcheck.1 hfirst).append
      (ihb (fun stmt hmem => ih stmt (by simp [hmem])) hblock hcheck.2 hrest)

include hm hdef hs hv

theorem stmtAgrees (stmt : Stmt) : StmtAgrees n m f b stmt := by
  have value : ∀ expr : Expr, ExprAgrees n m f b expr := exprAgrees hm hdef hs hv
  induction stmt using Stmt.ind with
  | letVar x expr =>
    intro σ σ' code h hle hcheck heval
    simp only [Program.checkStmt, then_eq_ok] at hcheck
    cases h with | letVar hexpr hwrite =>
    exact (value expr hexpr (hwrite.le.trans hle) hcheck.2
      (heval _ (.operand (by simp [Stmt.operands])))).append (hwrite.agrees hm hdef hs)
  | assign target expr =>
    intro σ σ' code h hle hcheck heval
    simp only [Program.checkStmt, then_eq_ok] at hcheck
    cases h with
    | assignVar hexpr hwrite =>
      exact (value expr hexpr (hwrite.le.trans hle) hcheck.2
        (heval _ (.operand (by simp [Stmt.operands])))).append (hwrite.agrees hm hdef hs)
    | assignField hbase hexpr hslot =>
      simp only [Program.checkPlace, then_eq_ok] at hcheck
      have hc₁ := value _ hbase (hexpr.le.trans hle.of_value) hcheck.1.1
        (heval _ (.operand (by simp [Stmt.operands])))
      have hc₂ := value _ hexpr hle.of_value hcheck.2 (heval _ (.operand (by simp [Stmt.operands])))
      exact hc₁.append (hc₂.append (.write hdef (Scope.slotType?_of_fieldSlot hm hs hslot)))
  | expr expr =>
    intro σ σ' code h hle hcheck heval
    cases h with | expr hexpr =>
    exact value expr hexpr hle hcheck (heval _ .dropped)
  | branch condition thenBlock elseBlock iht ihe =>
    intro σ σ' code h hle hcheck heval
    simp only [Program.checkStmt, then_eq_ok] at hcheck
    cases h with | branch hcond hthen helse =>
    have hle₂ := helse.le.trans hle
    have hc := value condition hcond (hthen.le.trans hle₂) hcheck.1
      (heval _ (.operand (by simp [Stmt.operands])))
    exact hc.append (.branch
      (hthen.agrees_of iht hle₂ hcheck.2.1 fun _ hs _ he => heval _ (.inner (by simp [Stmt.inner, hs]) he))
      (helse.agrees_of ihe hle hcheck.2.2 fun _ hs _ he => heval _ (.inner (by simp [Stmt.inner, hs]) he)))
  | loop condition body ih =>
    intro σ σ' code h hle hcheck heval
    simp only [Program.checkStmt, then_eq_ok] at hcheck
    cases h with | loop hcond hbody =>
    have hc := value condition hcond (hbody.le.trans hle) hcheck.1
      (heval _ (.operand (by simp [Stmt.operands])))
    exact .loop hc (hbody.agrees_of ih hle hcheck.2 fun _ hs _ he => heval _ (.inner hs he))
  | ret expr =>
    intro σ σ' code h hle hcheck heval
    cases h with
    | retNone => exact .single rfl trivial
    | ret hexpr =>
      exact (value _ hexpr hle hcheck (heval _ (.operand (by simp [Stmt.operands])))).append (.single rfl trivial)

end

/-! ## Functions -/

section

variable {n : Nesting} {p : Program} {m : Lir.Module} {f : Lir.Function} {b : BodyView} {σ σ' : Regs}
  {code : List Inst}

theorem IncomingCode.agrees {linked : Bool} {incoming : Option ValueId}
    (h : IncomingCode linked σ code incoming σ') : CodeAgrees p m f b code := by
  cases h with
  | none => exact .nil
  | some => exact .single rfl trivial

theorem ParamsCode.agrees {first index : Nat} {params : List VarId} {arrived : List (VarId × ValueId)}
    {locals : List (VarId × LocalId)} (h : ParamsCode n first index params σ code arrived locals σ') :
    CodeAgrees p m f b code := by
  induction h with
  | nil => exact .nil
  | captured _ _ _ ih => exact .cons rfl (by trivial) ih
  | «local» _ _ ih => exact ih

variable {policy : FramePolicy} (hm : n.Lowers policy m)
include hm

theorem ParamStores.slotType?_eq {owner : DeclId} {l : Layout} (hl : n.layouts.layout? owner = some l)
    {arrived : List (VarId × ValueId)} {stores : List SlotStore} (h : ParamStores l arrived stores) :
    ∀ s ∈ stores, m.slotType? l.struct s.slot = some s.ty := by
  induction h with
  | nil => simp
  | cons hslot _ ih => exact List.forall_mem_cons.2 ⟨hm.slotType?_of_slotOf? hl hslot, ih⟩

theorem EnterCode.agrees (hdef : f.DefinesOnce) {decl : DeclId} {incoming : Option ValueId}
    {arrived : List (VarId × ValueId)} {v : Vantage} (h : EnterCode n decl incoming arrived σ code v σ') :
    CodeAgrees p m f b code := by
  cases h with
  | frameless => exact .nil
  | framed hneeded hl _ _ hparams hstores =>
    refine hstores.agrees_alloc hdef hm hl (fun k hk => ?_) (hparams.slotType?_eq hm hl)
    rw [(hm.built.layout_of hl).linkSlot_of_isFunction (hm.built.isFunction_of_isFrameNeeded hneeded), hk]

end

/-- The frame and the context of an activation are pointers from the start. -/
theorem EnterCode.vantage_typed {n : Nesting} {decl : DeclId} {incoming : Option ValueId}
    {arrived : List (VarId × ValueId)} {v : Vantage} {σ σ' τ : Regs} {code : List Inst}
    (h : EnterCode n decl incoming arrived σ code v σ') (hle : σ'.Le τ)
    (hincoming : ∀ r, incoming = some r → τ.HasValue r .ptr) : v.Typed τ := by
  cases h with
  | frameless => exact ⟨by simp, hincoming⟩
  | framed _ _ _ _ _ hstores =>
    refine ⟨?_, hincoming⟩
    rintro _ ⟨⟩
    exact (hstores.le.trans hle).next

/-- What is known of a lowered function: it is the code of a function of the program, and its instructions
agree with what they name. -/
structure Lir.Function.WellFormed (p : Program) (m : Lir.Module) (f : Lir.Function) (b : BodyView) :
    Prop where
  body : ∃ function, p.function? f.decl = some function ∧ b.stmts = function.body
  code : ∃ σ σ' before code after, BlockCode b.scope b.vantage b.stmts σ code σ' ∧
    f.body = before ++ (code ++ after)
  hasContext_iff : f.hasContext = true ↔ ∃ parent, p.parent? f.decl = some parent
  agrees : ∀ inst ∈ allInsts f.body, inst.Agrees p m f b

theorem FunctionCode.wellFormed {n : Nesting} {policy : FramePolicy} {m : Lir.Module} (hm : n.Lowers policy m)
    {id : DeclId} {v : Vantage} {f : Lir.Function} (h : FunctionCode n.scope id v f) :
    ∃ b : BodyView, b.scope.nesting = n ∧ b.vantage.decl = f.decl ∧ f.WellFormed n.program m b := by
  have hscope := n.scope_nesting
  have hdef := h.definesOnce
  cases h with
  | @mk decl function target params incoming arrived paramLocals locals _ σ₁ σ₂ σ₃ σ₄ σ₅ c₁ c₂ c₃ c₄
      hd hk htarget hparams hincoming hparamsCode hlocals henter hbody =>
  rw [hscope] at hd hparams hparamsCode hlocals henter
  have hf : n.program.function? id = some function := Program.function?_eq_some_iff.2 ⟨decl, hd, hk⟩
  have hdecl : v.decl = id := by cases henter <;> rfl
  let b : BodyView := ⟨{ n.scope with locals := paramLocals ++ locals, current := some v }, v, function.body⟩
  have hs : b.scope.Within n := ⟨hscope, fun _ => rfl⟩
  have hle₄ := hbody.le
  have hle₁ := hparamsCode.le.trans (hlocals.le.trans (henter.le.trans hle₄))
  have hv : v.Typed σ₅ := by
    refine henter.vantage_typed hle₄ ?_
    refine (hincoming.typed m none hle₁ fun hsome => ?_).2
    have hget : ((if decl.parent.isSome then [Ty.ptr] else []) ++ params).toArray[0]? = some .ptr := by
      simp [hsome]
    exact Regs.getElem?_of_isPrefix (hincoming.le.1.trans hle₁).locals_start hget
  generalize hlast : (if function.returnType.isUnit then Inst.ret none else .unreachable) = last at hdef ⊢
  refine ⟨b, hscope, hdecl, ⟨function, hf, rfl⟩, ⟨_, _, c₁ ++ (c₂ ++ c₃), c₄, [last], hbody, by simp⟩, ?_, ?_⟩
  · simp [Program.parent?, hd, Option.isSome_iff_exists]
  have hcheck : n.program.checkBlock v.decl function.body = .ok () := hdecl ▸ hm.built.checked.body hd hk
  have hagrees := hbody.agrees_of (b := b) (fun stmt _ => stmtAgrees hm hdef hs hv stmt) (.refl σ₅) hcheck
    fun stmt hstmt expr heval => ⟨stmt, hstmt, heval⟩
  refine CodeAgrees.append hincoming.agrees (.append hparamsCode.agrees
    (.append (henter.agrees hm hdef) (.append hagrees ?_))) (List.infix_refl _)
  rw [← hlast]
  split <;> exact .single rfl trivial

/-- A program that the check accepts is lowered to a well-formed module, if no list of children has one twice
and it can be lowered at all: there is one function for each function of the program, in pre-order, each at its
own number, and its instructions agree with what they name. -/
theorem wellFormed_of_lower {p : Program} (hp : p.check = .ok ()) (hc : p.ChildrenDistinct)
    {policy : FramePolicy} {n : Nesting} (hn : Nesting.of p policy = .ok n) {m : Lir.Module}
    (hm : n.lower = .ok m) :
    m.functions.toList.map Lir.Function.decl = p.preorder.filter p.isFunction ∧
      ∀ (i : Nat) (f : Lir.Function), m.functions[i]? = some f → f.id = ⟨i⟩ ∧
        ∃ b : BodyView, b.scope.nesting = n ∧ b.vantage.decl = f.decl ∧ f.WellFormed p m b := by
  obtain ⟨rfl, hbuilt⟩ := Nesting.built_of_eq_ok (Program.checked_of_check hp) hn
  have hlowers := Nesting.lowers_of_lower hbuilt hc hm
  obtain ⟨hdecls, hids⟩ := hlowers.functions_eq
  refine ⟨hdecls, fun i f hf => ⟨hids i f hf, ?_⟩⟩
  obtain ⟨id, -, _, v, -, -, hcode⟩ := hlowers.exists_code (show m.function? ⟨i⟩ = some f from hf)
  exact hcode.wellFormed hlowers

/-- A function with a counter that it and a function inside it add to, by a method. -/
def counting : Program where
  declarations := #[
    ⟨⟨0⟩, "main", none, [⟨0⟩, ⟨1⟩], [⟨1⟩], .function {
      params := [⟨0⟩]
      returnType := .int
      body := [
        .letVar ⟨1⟩ (.new ⟨2⟩ [.int 1]),
        .ret (some (.binary .add (.call ⟨1⟩ []) (.methodCall (.var ⟨1⟩) ⟨3⟩ [.int 2])))] }⟩,
    ⟨⟨1⟩, "inner", some ⟨0⟩, [], [], .function {
      params := []
      returnType := .int
      body := [.ret (some (.methodCall (.var ⟨1⟩) ⟨3⟩ [.var ⟨0⟩]))] }⟩,
    ⟨⟨2⟩, "Counter", none, [⟨2⟩], [⟨3⟩], .aggregate ⟨.classType, [⟨2⟩]⟩⟩,
    ⟨⟨3⟩, "add", some ⟨2⟩, [⟨3⟩], [], .function {
      params := [⟨3⟩]
      returnType := .int
      body := [
        .assign (.field (.this ⟨2⟩) ⟨2⟩) (.binary .add (.fieldGet (.this ⟨2⟩) ⟨2⟩) (.var ⟨3⟩)),
        .ret (some (.fieldGet (.this ⟨2⟩) ⟨2⟩))] }⟩]
  vars := #[
    ⟨⟨0⟩, "n", .int, ⟨0⟩, .param⟩,
    ⟨⟨1⟩, "counter", .instanceOf ⟨2⟩, ⟨0⟩, .local⟩,
    ⟨⟨2⟩, "count", .int, ⟨2⟩, .field⟩,
    ⟨⟨3⟩, "by", .int, ⟨3⟩, .param⟩]

/-- The inner function is passed the frame that has the counter, and gives the counter to the method. -/
theorem wellFormed_of_lower_counting : ∃ n m inner, Nesting.of counting .escapeAnalysis = .ok n ∧
    n.lower = .ok m ∧ m.functions[1]? = some inner ∧ inner.callParams = [.ptr] ∧
    ∃ b : BodyView, inner.WellFormed counting m b ∧
      inner.body.any (fun inst => inst matches .call _ ⟨2⟩ [_, _]) = true := by
  obtain ⟨u, hu⟩ := exists_of_isOk (show (({} : Settings).compile counting).isOk = true by decide +kernel)
  obtain ⟨n, hn, hlower⟩ := Nesting.exists_of_compile hu
  have hinner : (({} : Settings).compile counting).toOption.any (fun u => u.lir.functions[1]?.any fun inner =>
      inner.callParams == [.ptr] && inner.body.any fun inst => inst matches .call _ ⟨2⟩ [_, _]) = true := by
    decide +kernel
  simp only [hu, Except.toOption, Option.any_some, Option.any_eq_true, Bool.and_eq_true, beq_iff_eq] at hinner
  obtain ⟨inner, hget, hparams, hcall⟩ := hinner
  obtain ⟨-, b, -, -, hformed⟩ := (wellFormed_of_lower (show counting.check = .ok () by rfl)
    (show counting.ChildrenDistinct by decide) hn hlower).2 1 inner hget
  exact ⟨n, u.lir, inner, hn, hlower, hget, hparams, b, hformed, hcall⟩

end StaticChain
