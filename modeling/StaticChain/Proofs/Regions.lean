import StaticChain.Proofs.Activations
import StaticChain.Proofs.Code

/-!
# The region of a piece of code

A piece of code writes values and locals with numbers from those it starts with up to those it ends with
(`Regs.Le`), so what was there before stays as it is (`Activation.Keeps`), as long as the activation has
room for all of them (`Activation.Fits`).
-/

namespace StaticChain

open Lir (ValueId LocalId Inst Ty)
open Machine (Activation Value)

namespace Regs

/-- There are the same values and locals, and perhaps more after them. -/
structure Le (σ σ' : Regs) : Prop where
  values_start : σ.values.toList <+: σ'.values.toList
  locals_start : σ.locals.toList <+: σ'.locals.toList

variable {σ σ' σ'' : Regs}

theorem Le.values (h : σ.Le σ') : σ.values.size ≤ σ'.values.size := by
  simpa using h.values_start.length_le

theorem Le.locals (h : σ.Le σ') : σ.locals.size ≤ σ'.locals.size := by
  simpa using h.locals_start.length_le

theorem Le.refl (σ : Regs) : σ.Le σ := ⟨List.prefix_refl _, List.prefix_refl _⟩

theorem Le.trans (h : σ.Le σ') (h' : σ'.Le σ'') : σ.Le σ'' :=
  ⟨h.values_start.trans h'.values_start, h.locals_start.trans h'.locals_start⟩

theorem Le.value (h : σ.Le σ') (ty : Ty) : σ.Le (σ'.value ty) :=
  ⟨h.values_start.trans (by simp), h.locals_start⟩

theorem Le.addLocal (h : σ.Le σ') (ty : Ty) : σ.Le (σ'.addLocal ty) :=
  ⟨h.values_start, h.locals_start.trans (by simp)⟩

theorem Le.result (h : σ.Le σ') (ret : Option Ty) : σ.Le (σ'.result ret) := by
  cases ret with
  | none => exact h
  | some ty => exact h.value ty

theorem le_value (σ : Regs) (ty : Ty) : σ.Le (σ.value ty) := (Le.refl σ).value ty

theorem le_result (σ : Regs) (ret : Option Ty) : σ.Le (σ.result ret) := (Le.refl σ).result ret

end Regs

/-! ## Code -/

section

variable {n : Nesting} {s : Scope} {v : Vantage} {σ σ' : Regs} {code : List Inst}

theorem HopsCode.le {pointer r : ValueId} {hops : List Chain.Hop}
    (h : HopsCode σ pointer hops code r σ') : σ.Le σ' := by
  induction h with
  | nil => exact .refl _
  | cons _ ih => exact (((Regs.Le.refl _).value _).value _).trans ih

theorem ChainCode.le {chain : Chain} {r : ValueId} (h : ChainCode v chain σ code r σ') : σ.Le σ' := by
  cases h with | mk _ h => exact h.le

theorem ContextCode.le {context : ContextArgument} {hidden : Option ValueId}
    (h : ContextCode v context σ code hidden σ') : σ.Le σ' := by
  cases h with
  | none => exact .refl _
  | null => exact σ.le_value _
  | chain h => exact h.le

theorem ClosureContextCode.le {context : ContextArgument} {r : ValueId}
    (h : ClosureContextCode v context σ code r σ') : σ.Le σ' := by
  cases h with
  | none => exact σ.le_value _
  | null => exact σ.le_value _
  | chain h => exact h.le

theorem StoresCode.le {struct : Lir.StructId} {object : ValueId} {stores : List SlotStore}
    (h : StoresCode struct object σ stores code σ') : σ.Le σ' := by
  induction h with
  | nil => exact .refl _
  | cons _ ih => exact (Regs.le_value _ _).trans ih

theorem InstanceCode.le {aggregate : DeclId} {outer : Option ValueId} {fields : List ValueId}
    {r : ValueId} (h : InstanceCode n aggregate outer fields σ code r σ') : σ.Le σ' := by
  cases h with | mk _ _ _ h => exact (σ.le_value _).trans h.le

/-- The object is written by the code that makes it. -/
theorem InstanceCode.lt {aggregate : DeclId} {outer : Option ValueId} {fields : List ValueId}
    {r : ValueId} (h : InstanceCode n aggregate outer fields σ code r σ') :
    r.index < σ'.values.size := by
  cases h with | mk _ _ _ h => exact Nat.lt_of_lt_of_le (by simp [Regs.next]) h.le.values

theorem ReadCode.le {x : VarId} {r : ValueId} (h : ReadCode s v x σ code r σ') : σ.Le σ' := by
  cases h with
  | «local» => exact σ.le_value _
  | slot _ h => exact (h.le.value _).value _

theorem WriteCode.le {x : VarId} {r : ValueId} (h : WriteCode s v r x σ code σ') : σ.Le σ' := by
  cases h with
  | «local» => exact .refl _
  | slot _ h => exact h.le.value _

mutual

theorem ExprCode.le {expr : Expr} {σ σ' : Regs} {code : List Inst} {r : Option ValueId} :
    ExprCode s v expr σ code r σ' → σ.Le σ'
  | .int => σ.le_value _
  | .bool => σ.le_value _
  | .var h => h.le
  | .strict _ hl hr => (hl.le.trans hr.le).value _
  | .conjunction _ hl hr _ => (((((Regs.Le.refl σ).addLocal _).trans hl.le).trans hr.le).value _).value _
  | .disjunction _ hl hr _ => (((((Regs.Le.refl σ).addLocal _).trans hl.le).value _).trans hr.le).value _
  | .unary h => h.le.value _
  | .call _ hc hargs _ _ => (hc.le.trans hargs.le).result _
  | .methodCall hr hargs _ _ => (hr.le.trans hargs.le).result _
  | .new hargs _ hc hi => (hargs.le.trans hc.le).trans hi.le
  | .fieldGet h _ => (h.le.value _).value _
  | .this _ h => h.le
  | .functionRef _ h _ => h.le.value _
  | .callValue _ _ hc hargs => (hc.le.trans hargs.le).result _

theorem ExprsCode.le {exprs : List Expr} {σ σ' : Regs} {code : List Inst} {rs : List ValueId} :
    ExprsCode s v exprs σ code rs σ' → σ.Le σ'
  | .nil => .refl _
  | .cons h hs => h.le.trans hs.le

end

mutual

theorem StmtCode.le {stmt : Stmt} {σ σ' : Regs} {code : List Inst} :
    StmtCode s v stmt σ code σ' → σ.Le σ'
  | .letVar h hw => h.le.trans hw.le
  | .assignVar h hw => h.le.trans hw.le
  | .assignField hb hv _ => (hb.le.trans hv.le).value _
  | .expr h => h.le
  | .branch hc ht he => (hc.le.trans ht.le).trans he.le
  | .loop hc hb => hc.le.trans hb.le
  | .retNone => .refl _
  | .ret h => h.le

theorem BlockCode.le {stmts : List Stmt} {σ σ' : Regs} {code : List Inst} :
    BlockCode s v stmts σ code σ' → σ.Le σ'
  | .nil => .refl _
  | .cons h hs => h.le.trans hs.le

end

theorem ParamsCode.le {first index : Nat} {params : List VarId} {arrived : List (VarId × ValueId)}
    {locals : List (VarId × LocalId)} (h : ParamsCode n first index params σ code arrived locals σ') :
    σ.Le σ' := by
  induction h with
  | nil => exact .refl _
  | captured _ _ _ ih => exact (Regs.le_value _ _).trans ih
  | «local» _ _ ih => exact ih

theorem LocalsBound.le {xs : List VarId} {locals : List (VarId × LocalId)}
    (h : LocalsBound n xs σ locals σ') : σ.Le σ' := by
  induction h with
  | nil => exact .refl _
  | captured _ _ ih => exact ih
  | «local» _ _ _ _ ih => exact ((Regs.Le.refl _).addLocal _).trans ih

theorem EnterCode.le {decl : DeclId} {incoming : Option ValueId} {arrived : List (VarId × ValueId)}
    (h : EnterCode n decl incoming arrived σ code v σ') : σ.Le σ' := by
  cases h with
  | frameless => exact .refl _
  | framed _ _ _ _ _ h => exact (Regs.le_value _ _).trans h.le

end

/-! ## Activations -/

namespace Machine.Activation

/-- There is room for the values and locals. -/
structure Fits (σ : Regs) (a : Activation) : Prop where
  values : σ.values.size ≤ a.values.size
  locals : σ.locals.size ≤ a.locals.size

/-- The values and locals that there were at some point are still the same. -/
structure Keeps (σ : Regs) (a a' : Activation) : Prop where
  value : ∀ r : ValueId, r.index < σ.values.size → a'.value r = a.value r
  «local» : ∀ i, i < σ.locals.size → a'.locals[i]? = a.locals[i]?
  function_eq : a'.function = a.function
  owned_eq : a'.owned = a.owned
  dest_eq : a'.dest = a.dest
  values_size : a'.values.size = a.values.size
  locals_size : a'.locals.size = a.locals.size

variable {σ σ' : Regs} {a a' a'' : Activation}

theorem Fits.of_le (h : a.Fits σ') (hle : σ.Le σ') : a.Fits σ :=
  ⟨Nat.le_trans hle.values h.values, Nat.le_trans hle.locals h.locals⟩

theorem Fits.keep (h : a.Fits σ') (hk : a.Keeps σ a') : a'.Fits σ' :=
  ⟨hk.values_size ▸ h.values, hk.locals_size ▸ h.locals⟩

theorem Keeps.refl (σ : Regs) (a : Activation) : a.Keeps σ a :=
  ⟨fun _ _ => rfl, fun _ _ => rfl, rfl, rfl, rfl, rfl, rfl⟩

theorem Keeps.trans (h : a.Keeps σ a') (h' : a'.Keeps σ' a'') (hle : σ.Le σ') : a.Keeps σ a'' where
  value r hr := (h'.value r (Nat.lt_of_lt_of_le hr hle.values)).trans (h.value r hr)
  «local» i hi := (h'.local i (Nat.lt_of_lt_of_le hi hle.locals)).trans (h.local i hi)
  function_eq := h'.function_eq.trans h.function_eq
  owned_eq := h'.owned_eq.trans h.owned_eq
  dest_eq := h'.dest_eq.trans h.dest_eq
  values_size := h'.values_size.trans h.values_size
  locals_size := h'.locals_size.trans h.locals_size

theorem Keeps.of_le (h : a.Keeps σ' a') (hle : σ.Le σ') : a.Keeps σ a' := (refl σ a).trans h hle

/-- A value is written that was not there. -/
theorem Keeps.define (h : a.Keeps σ a') (hle : σ.Le σ') (v : Value) :
    a.Keeps σ (a'.define σ'.next v) := by
  refine h.trans ⟨?_, fun _ _ => rfl, rfl, rfl, rfl, by simp [Activation.define], rfl⟩ (.refl σ)
  intro r hr
  refine value_define_of_ne ?_
  rintro rfl
  have := hle.values
  simp only [Regs.next] at hr
  omega

/-- A local is written that was not there. -/
theorem Keeps.assign (h : a.Keeps σ a') {x : LocalId} (hx : σ.locals.size ≤ x.index) (v : Value) :
    a.Keeps σ (a'.assign x v) := by
  refine h.trans ⟨fun _ _ => rfl, ?_, rfl, rfl, rfl, rfl, by simp [Activation.assign]⟩ (.refl σ)
  intro i hi
  have hne : x.index ≠ i := by omega
  simp [Activation.assign, hne]

/-- The value that was written last. -/
theorem Fits.value_define {ty : Ty} (h : a.Fits (σ.value ty)) (v : Value) :
    (a.define σ.next v).value σ.next = .ok v := by
  refine value_define_self ?_
  have := h.values
  simp only [Regs.value_values, Array.size_push] at this
  exact this

end Machine.Activation

end StaticChain
