import StaticChain.Proofs.Entering
import StaticChain.Proofs.Numbering

/-!
# What code may change of an activation

The code of a function sets locals that the function declares (`FunctionCode.setsBelow`) and writes values that
it numbers (`FunctionCode.dest_lt`), so it leaves alone what a back end keeps beside them
(`Lir.Function.Contained`). Locals are set by the statements of a program and by its short-circuit operators
only; the code of chains, contexts, objects and prologues sets none.
-/

namespace StaticChain

open Lir (ValueId LocalId StructId Inst Ty)

namespace Lir

/-- The local that an instruction sets. -/
def Inst.target? : Inst → Option LocalId
  | .localSet target _ => some target
  | _ => none

/-- The locals that code sets, in the order of its instructions. -/
def assigned (code : List Inst) : List LocalId := (allInsts code).filterMap Inst.target?

@[simp] theorem assigned_nil : assigned [] = [] := rfl

@[simp] theorem assigned_append (c₁ c₂ : List Inst) : assigned (c₁ ++ c₂) = assigned c₁ ++ assigned c₂ := by
  simp [assigned, allInsts_append]

@[simp] theorem assigned_branch (condition : ValueId) (c₁ c₂ code : List Inst) :
    assigned (.branch condition c₁ c₂ :: code) = assigned c₁ ++ (assigned c₂ ++ assigned code) := by
  simp [assigned, allInsts, Inst.withNested, Inst.target?, List.filterMap_cons]

@[simp] theorem assigned_loop (condition : ValueId) (c₁ c₂ code : List Inst) :
    assigned (.loop c₁ condition c₂ :: code) = assigned c₁ ++ (assigned c₂ ++ assigned code) := by
  simp [assigned, allInsts, Inst.withNested, Inst.target?, List.filterMap_cons]

@[simp] theorem assigned_localSet (x : LocalId) (value : ValueId) (code : List Inst) :
    assigned (.localSet x value :: code) = x :: assigned code := by
  simp [assigned, allInsts, Inst.withNested, Inst.target?]

/-- An instruction that sets nothing comes first. -/
theorem assigned_cons {inst : Inst} (code : List Inst) (ht : inst.target? = none := by rfl)
    (hi : inst.withNested = [inst] := by rfl) : assigned (inst :: code) = assigned code := by
  simp [assigned, allInsts, hi, ht]

/-- Code sets some of the first locals only. -/
def SetsBelow (count : Nat) (code : List Inst) : Prop := ∀ x ∈ assigned code, x.index < count

namespace SetsBelow

variable {k k' : Nat} {c₁ c₂ : List Inst}

theorem mono (h : SetsBelow k c₁) (hk : k ≤ k') : SetsBelow k' c₁ :=
  fun x hx => Nat.lt_of_lt_of_le (h x hx) hk

theorem append (h₁ : SetsBelow k c₁) (h₂ : SetsBelow k c₂) : SetsBelow k (c₁ ++ c₂) := by
  unfold SetsBelow
  rw [assigned_append]
  exact List.forall_mem_append.2 ⟨h₁, h₂⟩

/-- Code that sets nothing. -/
theorem quiet (h : assigned c₁ = [] := by rfl) : SetsBelow k c₁ := by
  unfold SetsBelow
  rw [h]
  exact nofun

/-- An instruction that sets nothing comes first. -/
theorem after {inst : Inst} (h : SetsBelow k c₁) (ht : inst.target? = none := by rfl)
    (hi : inst.withNested = [inst] := by rfl) : SetsBelow k (inst :: c₁) := by
  unfold SetsBelow
  rwa [assigned_cons c₁ ht hi]

theorem localSet {x : LocalId} {value : ValueId} (hx : x.index < k) : SetsBelow k [.localSet x value] := by
  simpa [SetsBelow] using hx

theorem branch {condition : ValueId} {code : List Inst} (h₁ : SetsBelow k c₁) (h₂ : SetsBelow k c₂)
    (h : assigned code = [] := by rfl) : SetsBelow k (.branch condition c₁ c₂ :: code) := by
  unfold SetsBelow
  rw [assigned_branch, h, List.append_nil]
  exact List.forall_mem_append.2 ⟨h₁, h₂⟩

theorem loop {condition : ValueId} (h₁ : SetsBelow k c₁) (h₂ : SetsBelow k c₂) :
    SetsBelow k [.loop c₁ condition c₂] := by
  unfold SetsBelow
  rw [assigned_loop, assigned_nil, List.append_nil]
  exact List.forall_mem_append.2 ⟨h₁, h₂⟩

end SetsBelow

/-- The code of a function changes nothing but values and locals of the function, and does not come to its
end without a return. -/
structure Function.Contained (f : Function) : Prop where
  dest_lt : ∀ inst ∈ allInsts f.body, ∀ r, inst.dest? = some r → r.index < f.valueTypes.size
  target_lt : ∀ inst ∈ allInsts f.body, ∀ x, inst.target? = some x → x.index < f.locals.size
  closes : ∃ code last, f.body = code ++ [last] ∧ ((∃ value, last = .ret value) ∨ last = .unreachable)

end Lir

open Lir (assigned SetsBelow)

section

variable {n : Nesting} {s : Scope} {v : Vantage} {σ σ' : Regs} {code : List Inst}

/-! ## Code that sets nothing -/

theorem HopsCode.assigned_eq {pointer r : ValueId} {hops : List Chain.Hop}
    (h : HopsCode σ pointer hops code r σ') : assigned code = [] := by
  induction h with
  | nil => rfl
  | cons _ ih => exact ih

theorem ChainCode.assigned_eq {chain : Chain} {r : ValueId} (h : ChainCode v chain σ code r σ') :
    assigned code = [] := by
  cases h with | mk _ h => exact h.assigned_eq

theorem ContextCode.assigned_eq {context : ContextArgument} {hidden : Option ValueId}
    (h : ContextCode v context σ code hidden σ') : assigned code = [] := by
  cases h with
  | none => rfl
  | null => rfl
  | chain h => exact h.assigned_eq

theorem ClosureContextCode.assigned_eq {context : ContextArgument} {r : ValueId}
    (h : ClosureContextCode v context σ code r σ') : assigned code = [] := by
  cases h with
  | none => rfl
  | null => rfl
  | chain h => exact h.assigned_eq

theorem StoresCode.assigned_eq {struct : StructId} {object : ValueId} {stores : List SlotStore}
    (h : StoresCode struct object σ stores code σ') : assigned code = [] := by
  induction h with
  | nil => rfl
  | cons _ ih => exact ih

theorem InstanceCode.assigned_eq {aggregate : DeclId} {outer : Option ValueId} {fields : List ValueId}
    {r : ValueId} (h : InstanceCode n aggregate outer fields σ code r σ') : assigned code = [] := by
  cases h with | mk _ _ _ h => exact h.assigned_eq

theorem ReadCode.assigned_eq {x : VarId} {r : ValueId} (h : ReadCode s v x σ code r σ') : assigned code = [] := by
  cases h with
  | «local» => rfl
  | slot _ h => rw [Lir.assigned_append, h.assigned_eq]; rfl

theorem IncomingCode.assigned_eq {hasContext : Bool} {incoming : Option ValueId}
    (h : IncomingCode hasContext σ code incoming σ') : assigned code = [] := by
  cases h <;> rfl

theorem ParamsCode.assigned_eq {first index : Nat} {params : List VarId} {arrived : List (VarId × ValueId)}
    {locals : List (VarId × LocalId)} (h : ParamsCode n first index params σ code arrived locals σ') :
    assigned code = [] := by
  induction h with
  | nil => rfl
  | captured _ _ _ ih => exact ih
  | «local» _ _ ih => exact ih

theorem EnterCode.assigned_eq {decl : DeclId} {incoming : Option ValueId} {arrived : List (VarId × ValueId)}
    (h : EnterCode n decl incoming arrived σ code v σ') : assigned code = [] := by
  cases h with
  | frameless => rfl
  | framed _ _ _ _ _ h => exact h.assigned_eq

/-! ## Locals of variables -/

/-- The locals that variables are bound to are there. -/
def LocalsBelow (count : Nat) (locals : List (VarId × LocalId)) : Prop :=
  ∀ entry ∈ locals, entry.2.index < count

theorem LocalsBelow.mono {k k' : Nat} {locals : List (VarId × LocalId)} (h : LocalsBelow k locals)
    (hk : k ≤ k') : LocalsBelow k' locals :=
  fun entry hmem => Nat.lt_of_lt_of_le (h entry hmem) hk

theorem BodyLocals.localsBelow {first : Nat} {params others : List VarId} {locals : List (VarId × LocalId)}
    (h : BodyLocals n first params others σ σ' locals) : LocalsBelow σ'.locals.size locals :=
  fun _ hmem => h.lt hmem

theorem WriteCode.setsBelow {x : VarId} {r : ValueId} (hs : LocalsBelow σ.locals.size s.locals)
    (h : WriteCode s v r x σ code σ') : SetsBelow σ'.locals.size code := by
  cases h with
  | «local» _ hx => exact .localSet (hs _ (mem_of_lookup hx))
  | slot _ h => exact .append (.quiet h.assigned_eq) .quiet

/-! ## Bodies -/

/-- The local of a short-circuit operator is there after its operands. -/
theorem Regs.Le.nextLocal_lt {ty : Ty} (h : (σ.addLocal ty).Le σ') : σ.nextLocal.index < σ'.locals.size :=
  Nat.lt_of_lt_of_le (by simp [Regs.nextLocal]) h.locals

mutual

theorem ExprCode.setsBelow {expr : Expr} {σ σ' : Regs} {code : List Inst} {r : Option ValueId} :
    ExprCode s v expr σ code r σ' → SetsBelow σ'.locals.size code
  | .int => .quiet
  | .bool => .quiet
  | .var h => .quiet h.assigned_eq
  | .strict _ hl hr => .append (hl.setsBelow.mono hr.le.locals) (.append hr.setsBelow .quiet)
  | .conjunction _ hl hr _ =>
    have hlt := (hl.le.trans hr.le).nextLocal_lt
    .append (hl.setsBelow.mono hr.le.locals)
      (.branch (.append hr.setsBelow (.localSet hlt)) (.after (.localSet hlt)))
  | .disjunction _ hl hr _ =>
    have hlt := (hl.le.trans ((Regs.le_value _ _).trans hr.le)).nextLocal_lt
    .append (hl.setsBelow.mono hr.le.locals)
      (.branch (.after (.localSet hlt)) (.append hr.setsBelow (.localSet hlt)))
  | .unary h => .append h.setsBelow .quiet
  | .call _ hc hargs _ _ =>
    .append (.quiet hc.assigned_eq) (.append (hargs.setsBelow.mono (Regs.le_result _ _).locals) .quiet)
  | .methodCall hr hargs _ _ =>
    .append (hr.setsBelow.mono (hargs.le.result _).locals)
      (.append (hargs.setsBelow.mono (Regs.le_result _ _).locals) .quiet)
  | .new hargs _ hc hi =>
    .append (hargs.setsBelow.mono (hc.le.trans hi.le).locals)
      (.append (.quiet hc.assigned_eq) (.quiet hi.assigned_eq))
  | .fieldGet h _ => .append h.setsBelow .quiet
  | .this _ h => .quiet h.assigned_eq
  | .functionRef _ h _ => .append (.quiet h.assigned_eq) .quiet
  | .callValue _ _ hc hargs =>
    .append (hc.setsBelow.mono (hargs.le.result _).locals)
      (.append (hargs.setsBelow.mono (Regs.le_result _ _).locals) .quiet)

theorem ExprsCode.setsBelow {exprs : List Expr} {σ σ' : Regs} {code : List Inst} {rs : List ValueId} :
    ExprsCode s v exprs σ code rs σ' → SetsBelow σ'.locals.size code
  | .nil => .quiet
  | .cons h hs => .append (h.setsBelow.mono hs.le.locals) hs.setsBelow

end

mutual

theorem StmtCode.setsBelow {stmt : Stmt} {σ σ' : Regs} {code : List Inst}
    (hs : LocalsBelow σ.locals.size s.locals) : StmtCode s v stmt σ code σ' → SetsBelow σ'.locals.size code
  | .letVar h hw => .append (h.setsBelow.mono hw.le.locals) (hw.setsBelow (hs.mono h.le.locals))
  | .assignVar h hw => .append (h.setsBelow.mono hw.le.locals) (hw.setsBelow (hs.mono h.le.locals))
  | .assignField hb hv _ => .append (hb.setsBelow.mono hv.le.locals) (.append hv.setsBelow .quiet)
  | .expr h => h.setsBelow
  | .branch hc ht he =>
    .append (hc.setsBelow.mono (ht.le.trans he.le).locals)
      (.branch ((BlockCode.setsBelow (hs.mono hc.le.locals) ht).mono he.le.locals)
        (BlockCode.setsBelow (hs.mono (hc.le.trans ht.le).locals) he))
  | .loop hc hb =>
    .loop (hc.setsBelow.mono hb.le.locals) (BlockCode.setsBelow (hs.mono hc.le.locals) hb)
  | .retNone => .quiet
  | .ret h => .append h.setsBelow .quiet

theorem BlockCode.setsBelow {stmts : List Stmt} {σ σ' : Regs} {code : List Inst}
    (hs : LocalsBelow σ.locals.size s.locals) : BlockCode s v stmts σ code σ' → SetsBelow σ'.locals.size code
  | .nil => .quiet
  | .cons h hrest =>
    .append ((StmtCode.setsBelow hs h).mono hrest.le.locals) (BlockCode.setsBelow (hs.mono h.le.locals) hrest)

end

end

namespace FunctionCode

variable {s : Scope} {id : DeclId} {v : Vantage} {f : Lir.Function}

/-- A function sets locals that it declares. -/
theorem setsBelow (h : FunctionCode s id v f) : SetsBelow f.locals.size f.body := by
  cases h with
  | @mk _ function _ _ _ _ paramLocals locals _ _ _ _ σ₄ _ _ _ _ _ _ _ _ hparams hi hp hl he hb =>
  have hscope : LocalsBelow σ₄.locals.size (paramLocals ++ locals) :=
    (BodyLocals.of_prologue hparams hi hp hl).localsBelow.mono he.le.locals
  have hlast : assigned [if function.returnType.isUnit then .ret none else .unreachable] = [] := by
    split <;> rfl
  exact .append (.quiet hi.assigned_eq) (.append (.quiet hp.assigned_eq) (.append (.quiet he.assigned_eq)
    (.append (BlockCode.setsBelow hscope hb) (.quiet hlast))))

/-- A function writes values that it numbers. -/
theorem dest_lt (h : FunctionCode s id v f) {inst : Inst} (hmem : inst ∈ Lir.allInsts f.body) {r : ValueId}
    (hd : inst.dest? = some r) : r.index < f.valueTypes.size := by
  have hwrites : r ∈ Lir.writes f.body := List.mem_filterMap.2 ⟨inst, hmem, hd⟩
  rw [h.writes_eq, List.mem_map] at hwrites
  obtain ⟨i, hi, rfl⟩ := hwrites
  exact List.mem_range.1 hi

theorem contained (h : FunctionCode s id v f) : f.Contained where
  dest_lt _ hmem _ hd := h.dest_lt hmem hd
  target_lt inst hmem x ht := h.setsBelow x (List.mem_filterMap.2 ⟨inst, hmem, ht⟩)
  closes := by
    cases h with | @mk _ function _ _ _ _ _ _ _ _ _ _ _ _ c₁ c₂ c₃ c₄ _ _ _ _ _ _ _ _ _ =>
    refine ⟨c₁ ++ (c₂ ++ (c₃ ++ c₄)), function.lastInst, by simp [FunctionDecl.lastInst], ?_⟩
    unfold FunctionDecl.lastInst
    split
    · exact .inl ⟨none, rfl⟩
    · exact .inr rfl

end FunctionCode

/-- The functions that a program is lowered to are contained. -/
theorem Nesting.contained_of_lower {n : Nesting} (hp : n.program.Checked) {m : Lir.Module} (h : n.lower = .ok m)
    {f : Lir.Function} (hf : f ∈ m.functions) : f.Contained := by
  obtain ⟨i, hi⟩ := List.getElem?_of_mem (Array.mem_toList_iff.2 hf)
  obtain ⟨id, -, _, v, -, -, hcode⟩ := exists_getElem?_of_forall₂ (functions_of_lower hp h).flip hi
  exact hcode.contained

end StaticChain
