import Mathlib.Data.List.Forall2
import StaticChain.Proofs.Making
import StaticChain.Proofs.RoleAssignment

/-!
# Lowered code fits its types

A lowered function declares a storage type for each of its values and locals. Its code keeps to them
(`CodeTyped`): operands have the type that an instruction takes, and results the type that it gives.

A type never changes once it is there, so each relation of `StaticChain.Proofs.Code` is looked at
against the registers of the finished function, of which its own are the first ones (`Regs.Le`). What
links the code to the program is the storage of an expression's type (`Program.StoredAs`): the value of
an expression has it, and a program that is type-correct asks for the same at the place where the value
goes.
-/

namespace StaticChain

open Lir (ValueId LocalId StructId Inst Ty)

/-! ## Registers -/

namespace Regs

/-- The value is declared with the type. -/
def HasValue (τ : Regs) (r : ValueId) (ty : Ty) : Prop := τ.values[r.index]? = some ty

/-- The local is declared with the type. -/
def HasLocal (τ : Regs) (x : LocalId) (ty : Ty) : Prop := τ.locals[x.index]? = some ty

variable {σ τ : Regs} {r : ValueId} {x : LocalId} {ty ty' : Ty}

theorem HasLocal.unique (h : τ.HasLocal x ty) (h' : τ.HasLocal x ty') : ty = ty' :=
  Option.some.inj (h.symm.trans h')

theorem getElem?_of_isPrefix {α : Type} {as bs : Array α} (h : as.toList <+: bs.toList) {i : Nat} {a : α}
    (ha : as[i]? = some a) : bs[i]? = some a := by
  rw [← Array.getElem?_toList] at ha ⊢
  obtain ⟨more, heq⟩ := h
  rw [← heq, List.getElem?_append_left (List.getElem?_eq_some_iff.1 ha).1, ha]

theorem Le.hasValue (h : σ.Le τ) (hr : σ.HasValue r ty) : τ.HasValue r ty :=
  getElem?_of_isPrefix h.values_start hr

theorem Le.hasLocal (h : σ.Le τ) (hx : σ.HasLocal x ty) : τ.HasLocal x ty :=
  getElem?_of_isPrefix h.locals_start hx

theorem Le.next (h : (σ.value ty).Le τ) : τ.HasValue σ.next ty :=
  h.hasValue (by simp [HasValue, Regs.next])

theorem Le.nextLocal (h : (σ.addLocal ty).Le τ) : τ.HasLocal σ.nextLocal ty :=
  h.hasLocal (by simp [HasLocal, Regs.nextLocal])

theorem Le.of_value (h : (σ.value ty).Le τ) : σ.Le τ := (σ.le_value ty).trans h

theorem Le.of_result {ret : Option Ty} (h : (σ.result ret).Le τ) : σ.Le τ := (σ.le_result ret).trans h

/-- The result of a call goes to a value of its type. -/
theorem Le.dest {ret : Option Ty} (h : (σ.result ret).Le τ) :
    List.Forall₂ τ.HasValue (σ.dest ret).toList ret.toList := by
  cases ret with
  | none => exact .nil
  | some ty => exact .cons (show (σ.value ty).Le τ from h).next .nil

theorem Le.dest_some {ret : Option Ty} (h : (σ.result ret).Le τ) (hr : σ.dest ret = some r) :
    ∃ ty, ret = some ty ∧ τ.HasValue r ty := by
  cases ret with
  | none => cases hr
  | some ty =>
    cases hr
    exact ⟨ty, rfl, (show (σ.value ty).Le τ from h).next⟩

end Regs

/-! ## Typed code -/

/-- The instruction fits the types of values and locals. Branches and loops are left to `CodeTyped`. -/
inductive InstTyped (m : Lir.Module) (ret : Option Ty) (τ : Regs) : Inst → Prop
  | const {dest : ValueId} {x : Int64} : τ.HasValue dest .i64 → InstTyped m ret τ (.const dest x)
  | null {dest : ValueId} : τ.HasValue dest .ptr → InstTyped m ret τ (.null dest)
  | binary {dest lhs rhs : ValueId} {op : Lir.BinOp} : τ.HasValue lhs .i64 → τ.HasValue rhs .i64 →
      τ.HasValue dest .i64 → InstTyped m ret τ (.binary dest op lhs rhs)
  | unary {dest operand : ValueId} {op : Lir.UnaryOp} : τ.HasValue operand .i64 →
      τ.HasValue dest .i64 → InstTyped m ret τ (.unary dest op operand)
  | localGet {dest : ValueId} {x : LocalId} {ty : Ty} : τ.HasLocal x ty → τ.HasValue dest ty →
      InstTyped m ret τ (.localGet dest x)
  | localSet {x : LocalId} {value : ValueId} {ty : Ty} : τ.HasLocal x ty → τ.HasValue value ty →
      InstTyped m ret τ (.localSet x value)
  | alloc {dest : ValueId} {struct : StructId} {kind : Lir.AllocKind} {layout : Lir.StructType} :
      m.struct? struct = some layout → τ.HasValue dest .ptr →
      InstTyped m ret τ (.alloc dest struct kind)
  | fieldAddr {dest base : ValueId} {struct : StructId} {slot : Nat} : τ.HasValue base .ptr →
      τ.HasValue dest .ptr → InstTyped m ret τ (.fieldAddr dest base struct slot)
  | load {dest addr : ValueId} {ty : Ty} : τ.HasValue addr .ptr → τ.HasValue dest ty →
      InstTyped m ret τ (.load dest addr ty)
  | store {addr value : ValueId} {ty : Ty} : τ.HasValue addr .ptr → τ.HasValue value ty →
      InstTyped m ret τ (.store addr value ty)
  | call {dest : Option ValueId} {target : Lir.FunctionId} {args : List ValueId} {f : Lir.Function} :
      m.function? target = some f → List.Forall₂ τ.HasValue args f.callParams →
      List.Forall₂ τ.HasValue dest.toList f.ret.toList → InstTyped m ret τ (.call dest target args)
  | makeClosure {dest context : ValueId} {target : Lir.FunctionId} : τ.HasValue context .ptr →
      τ.HasValue dest .closure → InstTyped m ret τ (.makeClosure dest target context)
  | callClosure {dest : Option ValueId} {closure : ValueId} {args : List ValueId}
      {signature : Lir.Signature} : τ.HasValue closure .closure →
      List.Forall₂ τ.HasValue args signature.params →
      List.Forall₂ τ.HasValue dest.toList signature.ret.toList →
      InstTyped m ret τ (.callClosure dest closure args signature)
  | ret {value : Option ValueId} : List.Forall₂ τ.HasValue value.toList ret.toList →
      InstTyped m ret τ (.ret value)
  | unreachable : InstTyped m ret τ .unreachable

/-- The instructions of a body fit the types of values and locals. -/
inductive CodeTyped (m : Lir.Module) (ret : Option Ty) (τ : Regs) : List Inst → Prop
  | nil : CodeTyped m ret τ []
  | inst {inst : Inst} {rest : List Inst} : InstTyped m ret τ inst → CodeTyped m ret τ rest →
      CodeTyped m ret τ (inst :: rest)
  | branch {condition : ValueId} {thenBody elseBody rest : List Inst} : τ.HasValue condition .i64 →
      CodeTyped m ret τ thenBody → CodeTyped m ret τ elseBody → CodeTyped m ret τ rest →
      CodeTyped m ret τ (.branch condition thenBody elseBody :: rest)
  | loop {condition : ValueId} {header body rest : List Inst} : τ.HasValue condition .i64 →
      CodeTyped m ret τ header → CodeTyped m ret τ body → CodeTyped m ret τ rest →
      CodeTyped m ret τ (.loop header condition body :: rest)

namespace CodeTyped

variable {m : Lir.Module} {ret : Option Ty} {τ : Regs} {c₁ c₂ : List Inst}

theorem append (h₁ : CodeTyped m ret τ c₁) (h₂ : CodeTyped m ret τ c₂) : CodeTyped m ret τ (c₁ ++ c₂) := by
  induction h₁ with
  | nil => exact h₂
  | inst hi _ ih => exact .inst hi ih
  | branch hc ht he _ _ _ ih => exact .branch hc ht he ih
  | loop hc hh hb _ _ _ ih => exact .loop hc hh hb ih

theorem of_append (h : CodeTyped m ret τ (c₁ ++ c₂)) : CodeTyped m ret τ c₁ ∧ CodeTyped m ret τ c₂ := by
  induction c₁ with
  | nil => exact ⟨.nil, h⟩
  | cons inst c₁ ih =>
    cases h with
    | inst hi h => exact ⟨.inst hi (ih h).1, (ih h).2⟩
    | branch hc ht he h => exact ⟨.branch hc ht he (ih h).1, (ih h).2⟩
    | loop hc hh hb h => exact ⟨.loop hc hh hb (ih h).1, (ih h).2⟩

theorem single {inst : Inst} (h : InstTyped m ret τ inst) : CodeTyped m ret τ [inst] := .inst h .nil

end CodeTyped

/-! ## Storage types -/

namespace Program

variable (p : Program)

/-- Values of the variable are stored as the type. -/
def VarStoredAs (x : VarId) (ty : Ty) : Prop := ∃ var, p.var? x = some var ∧ var.ty.storage? = some ty

/-- Values of the expression are stored as the type. -/
def StoredAs (expr : Expr) (ty : Ty) : Prop := ∃ type, p.HasType expr type ∧ type.storage? = some ty

variable {p} {expr : Expr} {x : VarId} {ty : Ty}

theorem VarStoredAs.unique {ty' : Ty} (h : p.VarStoredAs x ty) (h' : p.VarStoredAs x ty') : ty = ty' := by
  obtain ⟨var, hv, hs⟩ := h
  obtain ⟨var', hv', hs'⟩ := h'
  cases Option.some.inj (hv.symm.trans hv')
  exact Option.some.inj (hs.symm.trans hs')

theorem VarStoredAs.storedAs (h : p.VarStoredAs x ty) (ht : p.TypedAs expr x) : p.StoredAs expr ty := by
  obtain ⟨var, hv, hs⟩ := h
  obtain ⟨var', hv', ht⟩ := ht
  cases Option.some.inj (hv.symm.trans hv')
  exact ⟨_, ht, hs⟩

theorem ScalarTyped.storedAs (h : p.ScalarTyped expr) : p.StoredAs expr .i64 := by
  obtain ⟨type, ht, hscalar⟩ := h
  exact ⟨type, ht, hscalar.storage?_eq⟩

theorem StoredAs.eq_of_hasType {type : ValueType} (h : p.StoredAs expr ty) (ht : p.HasType expr type) :
    type.storage? = some ty := by
  obtain ⟨type', ht', hs⟩ := h
  cases ht.unique ht'
  exact hs

/-- An expression that reads a variable has its type. -/
theorem StoredAs.varStoredAs (h : p.StoredAs expr ty)
    (hr : p.exprType expr = do return (← p.getVar x).ty) : p.VarStoredAs x ty := by
  obtain ⟨type, ht, hs⟩ := h
  obtain ⟨var, hv, ht⟩ := bind_eq_ok.1 (hr.symm.trans ht)
  cases pure_eq_ok.1 ht
  exact ⟨var, getVar_eq_ok.1 hv, hs⟩

theorem Checked.exists_varStoredAs (hp : p.Checked) {var : Variable} (hv : p.var? x = some var) :
    ∃ ty, p.VarStoredAs x ty := by
  obtain ⟨ty, hs⟩ := hp.exists_storage hv
  exact ⟨ty, var, hv, hs⟩

end Program

namespace Regs

variable {σ τ : Regs} {p : Program}

/-- The value has the storage type of the variable. -/
def HoldsVar (τ : Regs) (p : Program) (r : ValueId) (x : VarId) : Prop :=
  ∀ ty, p.VarStoredAs x ty → τ.HasValue r ty

/-- The local has the storage type of the variable. -/
def LocalHolds (τ : Regs) (p : Program) (l : LocalId) (x : VarId) : Prop :=
  ∀ ty, p.VarStoredAs x ty → τ.HasLocal l ty

/-- The value has the storage type of the expression. -/
def Holds (τ : Regs) (p : Program) (expr : Expr) (r : ValueId) : Prop :=
  ∀ ty, p.StoredAs expr ty → τ.HasValue r ty

theorem Holds.holdsVar {expr : Expr} {r : ValueId} {x : VarId} (h : τ.Holds p expr r)
    (ht : p.TypedAs expr x) : τ.HoldsVar p r x :=
  fun ty hx => h ty (hx.storedAs ht)

/-- The value that is written last holds an expression of its type. -/
theorem Le.holds {ty : Ty} {type : ValueType} {expr : Expr} (h : (σ.value ty).Le τ)
    (ht : p.HasType expr type) (hs : type.storage? = some ty) : τ.Holds p expr σ.next := by
  intro ty' hstored
  cases Option.some.inj (hs.symm.trans (hstored.eq_of_hasType ht))
  exact h.next

/-- The result of a call holds an expression of its type. -/
theorem Le.holds_dest {type : ValueType} {expr : Expr} (h : (σ.result type.storage?).Le τ)
    (ht : p.HasType expr type) {r : ValueId} (hr : σ.dest type.storage? = some r) : τ.Holds p expr r := by
  intro ty hstored
  obtain ⟨ty', hs, hvalue⟩ := h.dest_some hr
  cases Option.some.inj (hs.symm.trans (hstored.eq_of_hasType ht))
  exact hvalue

theorem holdsVar_of_typedAs {args : List Expr} {rs : List ValueId} {xs : List VarId}
    (h : List.Forall₂ (τ.Holds p) args rs) (ht : List.Forall₂ p.TypedAs args xs) :
    List.Forall₂ (τ.HoldsVar p) rs xs := by
  induction h generalizing xs with
  | nil =>
    cases ht
    exact .nil
  | cons hr _ ih =>
    obtain ⟨⟩ | ⟨hx, ht⟩ := ht
    exact .cons (hr.holdsVar hx) (ih ht)

/-- The values of arguments have the storage types of the parameters that they are for. -/
theorem hasValue_of_holdsVar {rs : List ValueId} {xs : List VarId} {tys : List Ty}
    (h : List.Forall₂ (τ.HoldsVar p) rs xs) (ht : ParamTypes p xs tys) :
    List.Forall₂ τ.HasValue rs tys := by
  induction h generalizing tys with
  | nil =>
    cases ht
    exact .nil
  | cons hr _ ih =>
    obtain ⟨⟩ | ⟨hx, ht⟩ := ht
    exact .cons (hr _ hx) (ih ht)

/-- The values of arguments have the storage types of a signature. -/
theorem hasValue_of_hasType {args : List Expr} {rs : List ValueId} {types : List ValueType} {tys : List Ty}
    (h : List.Forall₂ (τ.Holds p) args rs) (ht : List.Forall₂ p.HasType args types)
    (hs : List.Forall₂ (fun type ty => type.storage? = some ty) types tys) :
    List.Forall₂ τ.HasValue rs tys := by
  induction h generalizing types tys with
  | nil =>
    cases ht
    cases hs
    exact .nil
  | cons hr _ ih =>
    obtain ⟨⟩ | ⟨hx, ht⟩ := ht
    obtain ⟨⟩ | ⟨hy, hs⟩ := hs
    exact .cons (hr _ ⟨_, hx, hy⟩) (ih ht hs)

end Regs

/-! ## Chains, contexts and objects -/

/-- The frame and the context of an activation are pointers. -/
structure Vantage.Typed (v : Vantage) (τ : Regs) : Prop where
  frame : ∀ r, v.frame = some r → τ.HasValue r .ptr
  incoming : ∀ r, v.incoming = some r → τ.HasValue r .ptr

theorem Vantage.Typed.start {v : Vantage} {τ : Regs} (h : v.Typed τ) {start : Chain.Start} {r : ValueId}
    (hstart : Nesting.chainStart v start = .ok r) : τ.HasValue r .ptr := by
  obtain ⟨rfl, hframe⟩ | ⟨rfl, hincoming⟩ := Nesting.chainStart_eq_ok.1 hstart
  · exact h.frame r hframe
  · exact h.incoming r hincoming

section

variable {m : Lir.Module} {ret : Option Ty} {τ : Regs} {v : Vantage} {σ σ' : Regs} {code : List Inst}

/-- Code that reads a slot fits. -/
theorem CodeTyped.read {base : ValueId} {struct : StructId} {slot : Nat} {ty : Ty} {rest : List Inst}
    (hbase : τ.HasValue base .ptr) (hle : ((σ.value .ptr).value ty).Le τ) (hrest : CodeTyped m ret τ rest) :
    CodeTyped m ret τ
      (.fieldAddr σ.next base struct slot :: .load (σ.value .ptr).next σ.next ty :: rest) :=
  .inst (.fieldAddr hbase hle.of_value.next) (.inst (.load hle.of_value.next hle.next) hrest)

/-- Code that writes a slot fits. -/
theorem CodeTyped.write {base value : ValueId} {struct : StructId} {slot : Nat} {ty : Ty} {rest : List Inst}
    (hbase : τ.HasValue base .ptr) (hvalue : τ.HasValue value ty) (hle : (σ.value .ptr).Le τ)
    (hrest : CodeTyped m ret τ rest) :
    CodeTyped m ret τ (.fieldAddr σ.next base struct slot :: .store σ.next value ty :: rest) :=
  .inst (.fieldAddr hbase hle.next) (.inst (.store hle.next hvalue) hrest)

variable (m ret) in
theorem HopsCode.typed {pointer r : ValueId} {hops : List Chain.Hop}
    (h : HopsCode σ pointer hops code r σ') (hle : σ'.Le τ) (hp : τ.HasValue pointer .ptr) :
    CodeTyped m ret τ code ∧ τ.HasValue r .ptr := by
  induction h with
  | nil => exact ⟨.nil, hp⟩
  | cons hcode ih =>
    have hstart := hcode.le.trans hle
    obtain ⟨hrest, hr⟩ := ih hle hstart.next
    exact ⟨.read hp hstart hrest, hr⟩

variable (m ret) in
theorem ChainCode.typed {chain : Chain} {r : ValueId} (h : ChainCode v chain σ code r σ') (hle : σ'.Le τ)
    (hv : v.Typed τ) : CodeTyped m ret τ code ∧ τ.HasValue r .ptr := by
  cases h with | mk hstart hhops
  exact hhops.typed m ret hle (hv.start hstart)

variable (m ret) in
theorem ContextCode.typed {context : ContextArgument} {hidden : Option ValueId}
    (h : ContextCode v context σ code hidden σ') (hle : σ'.Le τ) (hv : v.Typed τ) :
    CodeTyped m ret τ code ∧ ∀ r, hidden = some r → τ.HasValue r .ptr := by
  cases h with
  | none => exact ⟨.nil, by simp⟩
  | null =>
    refine ⟨.single (.null hle.next), ?_⟩
    rintro _ ⟨⟩
    exact hle.next
  | chain h =>
    obtain ⟨hcode, hr⟩ := h.typed m ret hle hv
    refine ⟨hcode, ?_⟩
    rintro _ ⟨⟩
    exact hr

variable (m ret) in
theorem ClosureContextCode.typed {context : ContextArgument} {r : ValueId}
    (h : ClosureContextCode v context σ code r σ') (hle : σ'.Le τ) (hv : v.Typed τ) :
    CodeTyped m ret τ code ∧ τ.HasValue r .ptr := by
  cases h with
  | none => exact ⟨.single (.null hle.next), hle.next⟩
  | null => exact ⟨.single (.null hle.next), hle.next⟩
  | chain h => exact h.typed m ret hle hv

theorem StoresCode.typed {struct : StructId} {object : ValueId} {stores : List SlotStore}
    (h : StoresCode struct object σ stores code σ') (hle : σ'.Le τ) (ho : τ.HasValue object .ptr)
    (hs : ∀ s ∈ stores, τ.HasValue s.value s.ty) : CodeTyped m ret τ code := by
  induction h with
  | nil => exact .nil
  | cons hcode ih =>
    exact .write ho (hs _ (by simp)) (hcode.le.trans hle) (ih hle fun s hmem => hs s (by simp [hmem]))

theorem hasValue_of_mem_linkStores {slot : Option Nat} {link : Option ValueId}
    (hlink : ∀ r, link = some r → τ.HasValue r .ptr) : ∀ s ∈ linkStores slot link, τ.HasValue s.value s.ty := by
  cases slot with
  | none => simp [linkStores]
  | some slot =>
    cases link with
    | none => simp [linkStores]
    | some r =>
      simp only [linkStores, List.mem_singleton, forall_eq]
      exact hlink r rfl

variable {n : Nesting} {policy : FramePolicy} (hm : n.Lowers policy m)
include hm

variable (ret) in
/-- Code that allocates a carrier, stores its link and fills other slots fits. -/
theorem StoresCode.typed_alloc {owner : DeclId} {l : Layout} (hl : n.layouts.layout? owner = some l)
    {kind : Lir.AllocKind} {slot : Option Nat} {link : Option ValueId} {stores : List SlotStore}
    (h : StoresCode l.struct σ.next (σ.value .ptr) (linkStores slot link ++ stores) code σ') (hle : σ'.Le τ)
    (hlink : ∀ r, link = some r → τ.HasValue r .ptr) (hs : ∀ s ∈ stores, τ.HasValue s.value s.ty) :
    CodeTyped m ret τ (.alloc σ.next l.struct kind :: code) ∧ τ.HasValue σ.next .ptr := by
  have hobject : τ.HasValue σ.next .ptr := (h.le.trans hle).next
  have hstores : ∀ s ∈ linkStores slot link ++ stores, τ.HasValue s.value s.ty :=
    List.forall_mem_append.2 ⟨hasValue_of_mem_linkStores hlink, hs⟩
  exact ⟨.inst (.alloc (hm.struct?_eq hl) hobject) (h.typed hle hobject hstores), hobject⟩

/-- A slot of a variable stores what the variable does. -/
theorem Nesting.Lowers.varStoredAs_of_slot {owner : DeclId} {l : Layout} (hl : n.layouts.layout? owner = some l)
    {slot : Nat} {s : Layout.Slot} {x : VarId} (hslot : l.slots[slot]? = some s) (hx : s.kind.var? = some x) :
    n.program.VarStoredAs x s.ty :=
  (hm.built.layout_of hl).storage_of_kind hslot hx

theorem Nesting.Lowers.varStoredAs_of_slotOf? {owner : DeclId} {l : Layout}
    (hl : n.layouts.layout? owner = some l) {slot : Nat} {x : VarId} (hslot : l.slotOf? x = some slot) :
    ∃ ty, l.slotType? slot = some ty ∧ n.program.VarStoredAs x ty := by
  obtain ⟨s, hs, hx⟩ := Layout.kind_of_slotOf? hslot
  exact ⟨s.ty, by simp [Layout.slotType?, hs], hm.varStoredAs_of_slot hl hs hx⟩

variable (ret) in
theorem InstanceCode.typed {aggregate : DeclId} {decl : AggregateDecl} {outer : Option ValueId}
    {fields : List ValueId} {r : ValueId} (ha : n.program.aggregate? aggregate = some decl)
    (h : InstanceCode n aggregate outer fields σ code r σ') (hle : σ'.Le τ)
    (houter : ∀ r, outer = some r → τ.HasValue r .ptr)
    (hfields : List.Forall₂ (τ.HoldsVar n.program) fields decl.fields) :
    CodeTyped m ret τ code ∧ τ.HasValue r .ptr := by
  cases h with | mk hl _ _ hstores =>
  refine hstores.typed_alloc ret hm hl hle houter ?_
  intro s hs
  simp only [List.mem_map, Prod.exists] at hs
  obtain ⟨slot, index, value, hmem, rfl⟩ := hs
  obtain ⟨x, ⟨hslot, hkind⟩, hholds⟩ :=
    exists_of_mem_zip ((hm.built.layout_of hl).fieldSlots_eq ha) hfields hmem
  exact hholds _ (hm.varStoredAs_of_slot hl hslot (by rw [hkind]; rfl))

end

end StaticChain
