import StaticChain.Proofs.Lowered
import StaticChain.Proofs.Regions
import StaticChain.Proofs.Typing

/-!
# Where code puts its results

Lowered code is closed (`Lir.Function.Closed`): each instruction writes a value that its function has,
and returns carry a result exactly in the functions that have one. Values are numbered as code is
written, so what a piece of code writes lies below the numbers that come after it.
-/

namespace StaticChain

open Lir (ValueId FunctionId Inst Ty)

namespace Lir

/-- The value that an instruction writes. -/
def Inst.dest? : Inst → Option ValueId
  | .const dest _ => some dest
  | .null dest => some dest
  | .binary dest _ _ _ => some dest
  | .unary dest _ _ => some dest
  | .localGet dest _ => some dest
  | .alloc dest _ _ => some dest
  | .fieldAddr dest _ _ _ => some dest
  | .load dest _ _ => some dest
  | .call dest _ _ => dest
  | .makeClosure dest _ _ => some dest
  | .callClosure dest _ _ _ => dest
  | .localSet _ _ => none
  | .store _ _ _ => none
  | .branch _ _ _ => none
  | .loop _ _ _ => none
  | .ret _ => none
  | .unreachable => none

/-- The instruction writes one of the first values; if it returns, it carries a result or none, as it is
asked to. -/
structure Inst.ClosedBy (values : Nat) (valued : Bool) (inst : Inst) : Prop where
  dest_lt : ∀ dest, inst.dest? = some dest → dest.index < values
  ret_eq : ∀ value, inst = .ret value → value.isSome = valued

/-- The instructions of a body, inner bodies included, write only the first values. -/
def ClosedBy (values : Nat) (valued : Bool) (code : List Inst) : Prop :=
  ∀ inst ∈ allInsts code, inst.ClosedBy values valued

/-- What the code of a function relies on. -/
def Function.Closed (f : Function) : Prop := ClosedBy f.valueTypes.size f.ret.isSome f.body

theorem allInsts_append (c₁ c₂ : List Inst) : allInsts (c₁ ++ c₂) = allInsts c₁ ++ allInsts c₂ := by
  induction c₁ with
  | nil => simp [allInsts]
  | cons inst rest ih => simp [allInsts, ih]

namespace ClosedBy

variable {k k' : Nat} {valued : Bool} {c₁ c₂ : List Inst}

theorem nil : ClosedBy k valued [] := by simp [ClosedBy, allInsts]

theorem append (h₁ : ClosedBy k valued c₁) (h₂ : ClosedBy k valued c₂) : ClosedBy k valued (c₁ ++ c₂) := by
  unfold ClosedBy
  rw [allInsts_append]
  exact List.forall_mem_append.2 ⟨h₁, h₂⟩

theorem mono (h : ClosedBy k valued c₁) (hk : k ≤ k') : ClosedBy k' valued c₁ :=
  fun inst hi => ⟨fun d hd => Nat.lt_of_lt_of_le ((h inst hi).dest_lt d hd) hk, (h inst hi).ret_eq⟩

/-- An instruction without inner bodies comes first. -/
theorem cons {inst : Inst} (hi : inst.withNested = [inst]) (h₁ : inst.ClosedBy k valued)
    (h₂ : ClosedBy k valued c₂) : ClosedBy k valued (inst :: c₂) := by
  intro inst' hmem
  rw [allInsts, hi, List.singleton_append, List.mem_cons] at hmem
  rcases hmem with rfl | hmem
  · exact h₁
  · exact h₂ _ hmem

/-- An instruction that writes nothing comes first. -/
theorem silent {inst : Inst} (h₂ : ClosedBy k valued c₂) (hd : inst.dest? = none := by rfl)
    (hi : inst.withNested = [inst] := by rfl) (hret : ∀ value, inst ≠ .ret value := by nofun) :
    ClosedBy k valued (inst :: c₂) :=
  cons hi ⟨by simp [hd], fun value hv => absurd hv (hret value)⟩ h₂

theorem branch {condition : ValueId} {rest : List Inst} (h₁ : ClosedBy k valued c₁)
    (h₂ : ClosedBy k valued c₂) (hrest : ClosedBy k valued rest) :
    ClosedBy k valued (.branch condition c₁ c₂ :: rest) := by
  intro inst hmem
  simp only [allInsts, Inst.withNested, List.mem_append, List.mem_cons] at hmem
  rcases hmem with (rfl | hmem | hmem) | hmem
  · exact ⟨nofun, nofun⟩
  · exact h₁ _ hmem
  · exact h₂ _ hmem
  · exact hrest _ hmem

theorem loop {condition : ValueId} (h₁ : ClosedBy k valued c₁) (h₂ : ClosedBy k valued c₂) :
    ClosedBy k valued [.loop c₁ condition c₂] := by
  intro inst hmem
  simp only [allInsts, Inst.withNested, List.mem_append, List.mem_cons, List.not_mem_nil, or_false] at hmem
  rcases hmem with rfl | hmem | hmem
  · exact ⟨nofun, nofun⟩
  · exact h₁ _ hmem
  · exact h₂ _ hmem

end ClosedBy

end Lir

open Lir (ClosedBy)

section

variable {n : Nesting} {s : Scope} {v : Vantage} {σ σ' : Regs} {code : List Inst} {k : Nat} {valued : Bool}

/-- The next value is below what comes after it. -/
theorem Regs.next_lt {ty : Ty} (h : (σ.value ty).Le σ') : σ.next.index < σ'.values.size :=
  Nat.lt_of_lt_of_le (by simp [Regs.next]) h.values

/-- An instruction that writes the next value comes first. -/
theorem Lir.ClosedBy.next {inst : Inst} {ty : Ty} (hle : (σ.value ty).Le σ')
    (h : ClosedBy σ'.values.size valued code) (hd : inst.dest? = some σ.next := by rfl)
    (hi : inst.withNested = [inst] := by rfl) (hret : ∀ value, inst ≠ .ret value := by nofun) :
    ClosedBy σ'.values.size valued (inst :: code) := by
  refine .cons hi ⟨fun d h => ?_, fun value hv => absurd hv (hret value)⟩ h
  rw [hd] at h
  cases h
  exact Regs.next_lt hle

/-- A call that writes the next value, if it has a result. -/
theorem Lir.ClosedBy.result {inst : Inst} {ret : Option Ty} (hd : inst.dest? = σ.dest ret := by rfl)
    (hi : inst.withNested = [inst] := by rfl) (hret : ∀ value, inst ≠ .ret value := by nofun) :
    ClosedBy (σ.result ret).values.size valued [inst] := by
  cases ret with
  | none => exact .silent .nil hd hi hret
  | some ty => exact .next (.refl (σ.value ty)) .nil hd hi hret

theorem HopsCode.closed {pointer r : ValueId} {hops : List Chain.Hop}
    (h : HopsCode σ pointer hops code r σ') : ClosedBy σ'.values.size valued code := by
  induction h with
  | nil => exact .nil
  | cons hrest ih => exact .next ((Regs.le_value _ _).trans hrest.le) (.next hrest.le ih)

theorem ChainCode.closed {chain : Chain} {r : ValueId} (h : ChainCode v chain σ code r σ') :
    ClosedBy σ'.values.size valued code := by
  cases h with | mk _ h => exact h.closed

theorem ContextCode.closed {context : ContextArgument} {hidden : Option ValueId}
    (h : ContextCode v context σ code hidden σ') : ClosedBy σ'.values.size valued code := by
  cases h with
  | none => exact .nil
  | null => exact .next (.refl _) .nil
  | chain h => exact h.closed

theorem ClosureContextCode.closed {context : ContextArgument} {r : ValueId}
    (h : ClosureContextCode v context σ code r σ') : ClosedBy σ'.values.size valued code := by
  cases h with
  | none => exact .next (.refl _) .nil
  | null => exact .next (.refl _) .nil
  | chain h => exact h.closed

theorem StoresCode.closed {struct : Lir.StructId} {object : ValueId} {stores : List SlotStore}
    (h : StoresCode struct object σ stores code σ') : ClosedBy σ'.values.size valued code := by
  induction h with
  | nil => exact .nil
  | cons hrest ih => exact .next hrest.le (.silent ih)

theorem InstanceCode.closed {aggregate : DeclId} {outer : Option ValueId} {fields : List ValueId}
    {r : ValueId} (h : InstanceCode n aggregate outer fields σ code r σ') :
    ClosedBy σ'.values.size valued code := by
  cases h with | mk _ _ _ h => exact .next h.le h.closed

/-- A slot of the carrier that code has found is addressed and read. -/
theorem Lir.ClosedBy.read {base : ValueId} {struct : Lir.StructId} {slot : Nat} {ty : Ty}
    (h : ClosedBy σ.values.size valued code) :
    ClosedBy ((σ.value .ptr).value ty).values.size valued
      (code ++ [.fieldAddr σ.next base struct slot, .load (σ.value .ptr).next σ.next ty]) :=
  .append (h.mono ((σ.le_value _).value _).values) (.next (Regs.le_value _ _) (.next (.refl _) .nil))

/-- A slot of the carrier that code has found is addressed and written. -/
theorem Lir.ClosedBy.write {base value : ValueId} {struct : Lir.StructId} {slot : Nat} {ty : Ty}
    (h : ClosedBy σ.values.size valued code) :
    ClosedBy (σ.value .ptr).values.size valued
      (code ++ [.fieldAddr σ.next base struct slot, .store σ.next value ty]) :=
  .append (h.mono (σ.le_value _).values) (.next (.refl _) (.silent .nil))

theorem ReadCode.closed {x : VarId} {r : ValueId} (h : ReadCode s v x σ code r σ') :
    ClosedBy σ'.values.size valued code := by
  cases h with
  | «local» => exact .next (.refl _) .nil
  | slot _ h => exact h.closed.read

theorem WriteCode.closed {x : VarId} {r : ValueId} (h : WriteCode s v r x σ code σ') :
    ClosedBy σ'.values.size valued code := by
  cases h with
  | «local» => exact .silent .nil
  | slot _ h => exact h.closed.write

mutual

/-- Code of expressions returns nowhere. -/
theorem ExprCode.closed {expr : Expr} {σ σ' : Regs} {code : List Inst} {r : Option ValueId} :
    ExprCode s v expr σ code r σ' → ClosedBy σ'.values.size valued code
  | .int => .next (.refl _) .nil
  | .bool => .next (.refl _) .nil
  | .var h => h.closed
  | .strict _ hl hr =>
    .append (hl.closed.mono (hr.le.value _).values)
      (.append (hr.closed.mono (Regs.le_value _ _).values) (.next (.refl _) .nil))
  | .conjunction _ hl hr _ =>
    have hle := ((Regs.le_value _ _).value _)
    .append (hl.closed.mono (hr.le.trans hle).values)
      (.branch ((hr.closed.append (.silent .nil)).mono hle.values)
        (.next (Regs.le_value _ _) (.silent .nil)) (.next (.refl _) .nil))
  | .disjunction _ hl hr _ =>
    have hle := Regs.le_value _ _
    .append (hl.closed.mono (((Regs.le_value _ _).trans hr.le).trans hle).values)
      (.branch (.next (hr.le.trans hle) (.silent .nil))
        ((hr.closed.append (.silent .nil)).mono hle.values) (.next (.refl _) .nil))
  | .unary h => .append (h.closed.mono (Regs.le_value _ _).values) (.next (.refl _) .nil)
  | .call _ hc hargs _ _ =>
    .append (hc.closed.mono (hargs.le.result _).values)
      (.append (hargs.closed.mono (Regs.le_result _ _).values) .result)
  | .methodCall hr hargs _ _ =>
    .append (hr.closed.mono (hargs.le.result _).values)
      (.append (hargs.closed.mono (Regs.le_result _ _).values) .result)
  | .new hargs _ hc hi =>
    .append (hargs.closed.mono (hc.le.trans hi.le).values) (.append (hc.closed.mono hi.le.values) hi.closed)
  | .fieldGet h _ => h.closed.read
  | .this _ h => h.closed
  | .functionRef _ h _ => .append (h.closed.mono (Regs.le_value _ _).values) (.next (.refl _) .nil)
  | .callValue _ _ hc hargs =>
    .append (hc.closed.mono (hargs.le.result _).values)
      (.append (hargs.closed.mono (Regs.le_result _ _).values) .result)

theorem ExprsCode.closed {exprs : List Expr} {σ σ' : Regs} {code : List Inst} {rs : List ValueId} :
    ExprsCode s v exprs σ code rs σ' → ClosedBy σ'.values.size valued code
  | .nil => .nil
  | .cons h hs => .append (h.closed.mono hs.le.values) hs.closed

end

mutual

theorem StmtCode.closed {stmt : Stmt} {σ σ' : Regs} {code : List Inst} (hr : stmt.ReturnsValue valued) :
    StmtCode s v stmt σ code σ' → ClosedBy σ'.values.size valued code
  | .letVar h hw => .append (h.closed.mono hw.le.values) hw.closed
  | .assignVar h hw => .append (h.closed.mono hw.le.values) hw.closed
  | .assignField hb hv _ => by
    rw [← List.append_assoc]
    exact ((hb.closed.mono hv.le.values).append hv.closed).write
  | .expr h => h.closed
  | .branch hc ht he =>
    .append (hc.closed.mono (ht.le.trans he.le).values)
      (.branch ((StmtCode.closed_block hr.1 ht).mono he.le.values) (StmtCode.closed_block hr.2 he) .nil)
  | .loop hc hb => .loop (hc.closed.mono hb.le.values) (StmtCode.closed_block hr hb)
  | .retNone => .cons rfl ⟨nofun, by rintro _ ⟨⟩; exact hr⟩ .nil
  | .ret h => .append h.closed (.cons rfl ⟨nofun, by rintro _ ⟨⟩; exact hr⟩ .nil)

theorem StmtCode.closed_block {stmts : List Stmt} {σ σ' : Regs} {code : List Inst}
    (hr : Stmt.BlockReturnsValue valued stmts) :
    BlockCode s v stmts σ code σ' → ClosedBy σ'.values.size valued code
  | .nil => .nil
  | .cons h hs => .append ((StmtCode.closed hr.1 h).mono hs.le.values) (StmtCode.closed_block hr.2 hs)

end

theorem ParamsCode.closed {first index : Nat} {params : List VarId} {arrived : List (VarId × ValueId)}
    {locals : List (VarId × Lir.LocalId)} (h : ParamsCode n first index params σ code arrived locals σ') :
    ClosedBy σ'.values.size valued code := by
  induction h with
  | nil => exact .nil
  | captured _ _ hrest ih => exact .next hrest.le ih
  | «local» _ _ ih => exact ih

theorem EnterCode.closed {decl : DeclId} {incoming : Option ValueId} {arrived : List (VarId × ValueId)}
    (h : EnterCode n decl incoming arrived σ code v σ') : ClosedBy σ'.values.size valued code := by
  cases h with
  | frameless => exact .nil
  | framed _ _ _ _ _ h => exact .next h.le h.closed

theorem IncomingCode.closed {hasContext : Bool} {incoming : Option ValueId}
    (h : IncomingCode hasContext σ code incoming σ') : ClosedBy σ'.values.size valued code := by
  cases h with
  | none => exact .nil
  | some _ => exact .next (.refl _) .nil

end

/-- The function of a declaration is closed. -/
theorem FunctionCode.closed {s : Scope} {id : DeclId} {v : Vantage} {f : Lir.Function}
    (hr : s.nesting.program.ReturnsMatch) (h : FunctionCode s id v f) : f.Closed := by
  cases h with | @mk _ function _ _ _ _ _ _ _ σ₁ σ₂ σ₃ σ₄ σ₅ c₁ c₂ c₃ c₄ hd hk _ _ hi hp hl he hb =>
  have hfun : s.nesting.program.function? id = some function :=
    Program.function?_eq_some_iff.2 ⟨_, hd, hk⟩
  have hbody := StmtCode.closed_block (hr id function hfun) hb
  change ClosedBy σ₅.values.size function.returnType.storage?.isSome _
  rw [ValueType.isSome_storage?]
  have hle := hl.le.trans (he.le.trans hb.le)
  refine .append (hi.closed.mono (hp.le.trans hle).values) (.append (hp.closed.mono hle.values)
    (.append (he.closed.mono hb.le.values) (.append hbody ?_)))
  split
  · exact .cons rfl ⟨nofun, by rintro _ ⟨⟩; simp [*]⟩ .nil
  · exact .silent .nil

end StaticChain
