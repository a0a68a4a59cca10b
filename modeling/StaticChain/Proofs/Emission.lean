import StaticChain.Proofs.Code
import StaticChain.Proofs.Syntax

/-!
# Lowering writes the code

A step of lowering that succeeds leaves the builder as it was, with some instructions more in the
innermost block and some values and locals more in the function (`FunctionBuilder.extend`). For each
step these instructions are the code that `StaticChain.Proofs.Code` describes. The main statements are
`Scope.exprCode_of_lowerExpr`, `Scope.blockCode_of_lowerBlock` and
`Scope.functionCode_of_lowerFunction`.
-/

namespace StaticChain

open Lir (Emit ValueId LocalId FunctionId StructId Inst Ty FunctionBuilder)

namespace Lir

/-- The action succeeds with a result and takes one builder to another. -/
def Emit.Gives {α : Type} (x : Emit α) (b : FunctionBuilder) (a : α) (b' : FunctionBuilder) : Prop :=
  @Eq (Except Defect α × FunctionBuilder) (x.run b) (.ok a, b')

namespace Emit

variable {α β : Type} {b b' : FunctionBuilder}

theorem gives_pure {a a' : α} : Gives (pure a) b a' b' ↔ a = a' ∧ b = b' := by
  have hrun : ExceptT.run (pure a : Emit α) b = (.ok a, b) := rfl
  unfold Gives
  rw [hrun]
  simp

theorem gives_bind {x : Emit α} {f : α → Emit β} {r : β} :
    Gives (x >>= f) b r b' ↔ ∃ a b₁, x.Gives b a b₁ ∧ (f a).Gives b₁ r b' := by
  unfold Gives
  rw [ExceptT.run_bind]
  simp only [bind, StateT.bind]
  cases h : x.run b with
  | mk res b₁ =>
    cases res with
    | error e =>
      change ((.error e, b₁) : Except Defect β × FunctionBuilder) = (.ok r, b') ↔ _
      simp
    | ok a => simp

theorem gives_map {x : Emit α} {f : α → β} {r : β} :
    Gives (f <$> x) b r b' ↔ ∃ a, x.Gives b a b' ∧ f a = r := by
  rw [map_eq_pure_bind, gives_bind]
  constructor
  · rintro ⟨a, b₁, hx, hr⟩
    obtain ⟨rfl, rfl⟩ := gives_pure.1 hr
    exact ⟨a, hx, rfl⟩
  · rintro ⟨a, hx, rfl⟩
    exact ⟨a, b', hx, gives_pure.2 ⟨rfl, rfl⟩⟩

theorem gives_of {x : Except Defect α} {a : α} : Gives (Emit.of x) b a b' ↔ x = .ok a ∧ b = b' := by
  have hrun : ExceptT.run (Emit.of x) b = (x, b) := rfl
  unfold Gives
  rw [hrun]
  simp

theorem gives_lift {x : StateM FunctionBuilder α} {a : α} :
    Gives (liftM x : Emit α) b a b' ↔ x b = (a, b') := by
  unfold Gives
  cases h : x b with
  | mk a₁ b₁ =>
    have hrun : ExceptT.run (liftM x : Emit α) b = (.ok (x b).1, (x b).2) := rfl
    rw [hrun, h]
    change ((.ok a₁, b₁) : Except Defect α × FunctionBuilder) = (.ok a, b') ↔
      ((a₁, b₁) : α × FunctionBuilder) = (a, b')
    simp

theorem gives_throw {e : Defect} {a : α} : ¬Gives (throw e : Emit α) b a b' := by
  have hrun : ExceptT.run (throw e : Emit α) b = (.error e, b) := rfl
  unfold Gives
  rw [hrun]
  simp

theorem gives_get {a : FunctionBuilder} : Gives (get : Emit FunctionBuilder) b a b' ↔
    a = b ∧ b = b' := by
  have hrun : ExceptT.run (get : Emit FunctionBuilder) b = (.ok b, b) := rfl
  unfold Gives
  rw [hrun]
  simp [eq_comm]

theorem gives_set {b₁ : FunctionBuilder} {u : PUnit} :
    Gives (set b₁ : Emit PUnit) b u b' ↔ b' = b₁ := by
  have hrun : ExceptT.run (set b₁ : Emit PUnit) b = (.ok ⟨⟩, b₁) := rfl
  unfold Gives
  rw [hrun]
  simp [eq_comm]

end Emit

namespace FunctionBuilder

variable {b b' : FunctionBuilder}

/-- The values and locals of the function under construction. -/
def regs (b : FunctionBuilder) : Regs := ⟨b.function.valueTypes, b.function.locals⟩

/-- The builder after some code was written. -/
def extend (b : FunctionBuilder) (code : List Inst) (σ : Regs) : FunctionBuilder where
  function := { b.function with valueTypes := σ.values, locals := σ.locals }
  block := b.block ++ code.toArray
  around := b.around

/-- The builder after a block was opened. -/
def opened (b : FunctionBuilder) : FunctionBuilder :=
  { b with block := #[], around := b.block :: b.around }

@[simp] theorem regs_extend (code : List Inst) (σ : Regs) : (b.extend code σ).regs = σ := rfl

@[simp] theorem regs_opened : b.opened.regs = b.regs := rfl

@[simp] theorem extend_extend (c₁ c₂ : List Inst) (σ₁ σ₂ : Regs) :
    (b.extend c₁ σ₁).extend c₂ σ₂ = b.extend (c₁ ++ c₂) σ₂ := by
  simp [extend]

@[simp] theorem extend_nil : b.extend [] b.regs = b := by
  simp [extend, regs]

theorem produce_eq (ty : Ty) (inst : ValueId → Inst) :
    produce ty inst b = (b.regs.next, b.extend [inst b.regs.next] (b.regs.value ty)) := by
  have hrun : produce ty inst b = (b.regs.next, (push (inst b.regs.next) (fresh ty b).2).2) := rfl
  rw [hrun]
  simp [fresh, push, extend, regs, Regs.value]

theorem push_eq (inst : Inst) : push inst b = ((), b.extend [inst] b.regs) := by
  simp [push, extend, regs]

theorem produceIf_eq (ty : Option Ty) (inst : Option ValueId → Inst) :
    produceIf ty inst b =
      (b.regs.dest ty, b.extend [inst (b.regs.dest ty)] (b.regs.result ty)) := by
  cases ty with
  | none =>
    have hrun : produceIf none inst b = (none, (push (inst none) b).2) := rfl
    rw [hrun]
    simp [push, extend, regs, Regs.dest, Regs.result]
  | some ty =>
    have hrun : produceIf (some ty) inst b =
        (some b.regs.next, (push (inst (some b.regs.next)) (fresh ty b).2).2) := rfl
    rw [hrun]
    simp [fresh, push, extend, regs, Regs.value, Regs.dest, Regs.result]

theorem addLocal_eq (ty : Ty) :
    addLocal ty b = (b.regs.nextLocal, b.extend [] (b.regs.addLocal ty)) := by
  simp [addLocal, extend, regs, Regs.nextLocal, Regs.addLocal]

theorem gives_produce {ty : Ty} {inst : ValueId → Inst} {r : ValueId} :
    Emit.Gives (liftM (produce ty inst)) b r b' ↔
      r = b.regs.next ∧ b' = b.extend [inst b.regs.next] (b.regs.value ty) := by
  rw [Emit.gives_lift, produce_eq, Prod.mk.injEq, eq_comm, eq_comm (b := b')]

theorem gives_push {inst : Inst} {u : Unit} :
    Emit.Gives (liftM (push inst)) b u b' ↔ b' = b.extend [inst] b.regs := by
  rw [Emit.gives_lift, push_eq, Prod.mk.injEq, eq_comm (b := b')]
  exact and_iff_right rfl

theorem gives_produceIf {ty : Option Ty} {inst : Option ValueId → Inst} {r : Option ValueId} :
    Emit.Gives (liftM (produceIf ty inst)) b r b' ↔
      r = b.regs.dest ty ∧ b' = b.extend [inst (b.regs.dest ty)] (b.regs.result ty) := by
  rw [Emit.gives_lift, produceIf_eq, Prod.mk.injEq, eq_comm, eq_comm (b := b')]

theorem gives_addLocal {ty : Ty} {x : LocalId} :
    Emit.Gives (liftM (addLocal ty)) b x b' ↔
      x = b.regs.nextLocal ∧ b' = b.extend [] (b.regs.addLocal ty) := by
  rw [Emit.gives_lift, addLocal_eq, Prod.mk.injEq, eq_comm, eq_comm (b := b')]

theorem gives_localGet {x : LocalId} {r : ValueId} (h : (localGet x).Gives b r b') :
    ∃ ty, b.regs.locals[x.index]? = some ty ∧ r = b.regs.next ∧
      b' = b.extend [.localGet b.regs.next x] (b.regs.value ty) := by
  unfold localGet at h
  obtain ⟨b₁, b₂, hget, h⟩ := Emit.gives_bind.1 h
  obtain ⟨rfl, rfl⟩ := Emit.gives_get.1 hget
  cases hty : b₁.function.locals[x.index]? with
  | none => exact absurd (by simpa only [hty] using h) Emit.gives_throw
  | some ty =>
    simp only [hty] at h
    obtain ⟨rfl, rfl⟩ := gives_produce.1 h
    exact ⟨ty, hty, rfl, rfl⟩

/-- What an action writes into a block of its own comes back as the block. -/
theorem gives_inBlock {α : Type} {action : Emit α} {a : α} {body : List Inst}
    (h : (inBlock action).Gives b (a, body) b') :
    ∃ b₁, action.Gives b.opened a b₁ ∧
      ∀ code σ, b₁ = b.opened.extend code σ → body = code ∧ b' = b.extend [] σ := by
  unfold inBlock at h
  obtain ⟨_, b₁, hopen, h⟩ := Emit.gives_bind.1 h
  have hopen := Emit.gives_lift.1 hopen
  obtain ⟨a', b₂, ha, h⟩ := Emit.gives_bind.1 h
  obtain ⟨code', b₃, hend, h⟩ := Emit.gives_bind.1 h
  obtain ⟨heq, rfl⟩ := Emit.gives_pure.1 h
  cases heq
  have hb₁ : b₁ = b.opened := (Prod.mk.inj hopen).2.symm
  rw [hb₁] at ha
  refine ⟨b₂, ha, ?_⟩
  rintro code σ rfl
  unfold endBlock at hend
  obtain ⟨b₄, b₅, hget, hend⟩ := Emit.gives_bind.1 hend
  obtain ⟨rfl, rfl⟩ := Emit.gives_get.1 hget
  have haround : (b.opened.extend code σ).around = b.block :: b.around := rfl
  simp only [haround] at hend
  obtain ⟨_, b₆, hset, hend⟩ := Emit.gives_bind.1 hend
  obtain rfl := Emit.gives_set.1 hset
  obtain ⟨rfl, rfl⟩ := Emit.gives_pure.1 hend
  simp [opened, extend]

end FunctionBuilder

end Lir

open Lir.Emit Lir.FunctionBuilder

/-! ## Chains, contexts and objects -/

namespace Nesting

variable {n : Nesting} {v : Vantage} {b b' : FunctionBuilder}

theorem hopsCode_of_emitHops {pointer r : ValueId} {hops : List Chain.Hop}
    (h : emitHops pointer hops b = (r, b')) :
    ∃ code σ, HopsCode b.regs pointer hops code r σ ∧ b' = b.extend code σ := by
  induction hops generalizing b pointer with
  | nil =>
    cases h
    exact ⟨[], _, .nil, by simp⟩
  | cons hop hops ih =>
    simp only [emitHops, fieldAddr, load, bind, StateT.bind, produce_eq] at h
    obtain ⟨code, σ, hcode, rfl⟩ := ih h
    exact ⟨_, σ, .cons hcode, by simp⟩

theorem chainCode_of_emitChain {chain : Chain} {r : ValueId}
    (h : (emitChain v chain).Gives b r b') :
    ∃ code σ, ChainCode v chain b.regs code r σ ∧ b' = b.extend code σ := by
  unfold emitChain at h
  obtain ⟨start, b₁, h₁, h⟩ := gives_bind.1 h
  obtain ⟨hstart, rfl⟩ := gives_of.1 h₁
  obtain ⟨code, σ, hcode, rfl⟩ := hopsCode_of_emitHops (gives_lift.1 h)
  exact ⟨code, σ, .mk hstart hcode, rfl⟩

theorem chainCode_of_emitContextPointer {target : DeclId} {r : ValueId}
    (h : (n.emitContextPointer v target).Gives b r b') :
    ∃ chain code σ, n.chainTo v.decl target = .ok chain ∧ ChainCode v chain b.regs code r σ ∧
      b' = b.extend code σ := by
  unfold emitContextPointer at h
  obtain ⟨chain, b₁, h₁, h⟩ := gives_bind.1 h
  obtain ⟨hchain, rfl⟩ := gives_of.1 h₁
  obtain ⟨code, σ, hcode, rfl⟩ := chainCode_of_emitChain h
  exact ⟨chain, code, σ, hchain, hcode, rfl⟩

/-- A hidden argument is found in one way for calls and constructions. -/
theorem contextCode_of_match {context : ContextArgument} {defect : Defect} {hidden : Option ValueId}
    (h : Gives (match context with
      | .none => return none
      | .null => some <$> (FunctionBuilder.null : Emit ValueId)
      | .chain chain => some <$> emitChain v chain
      | .receiver => throw defect) b hidden b') :
    ∃ code σ, ContextCode v context b.regs code hidden σ ∧ b' = b.extend code σ := by
  cases context with
  | none =>
    obtain ⟨rfl, rfl⟩ := gives_pure.1 h
    exact ⟨[], _, .none, by simp⟩
  | null =>
    obtain ⟨r, hr, rfl⟩ := gives_map.1 h
    obtain ⟨rfl, rfl⟩ := gives_produce.1 hr
    exact ⟨_, _, .null, rfl⟩
  | chain chain =>
    obtain ⟨r, hr, rfl⟩ := gives_map.1 h
    obtain ⟨code, σ, hcode, rfl⟩ := chainCode_of_emitChain hr
    exact ⟨code, σ, .chain hcode, rfl⟩
  | receiver => exact absurd h gives_throw

theorem contextCode_of_emitCallContext {callee : DeclId} {hidden : Option ValueId}
    (h : (n.emitCallContext v callee).Gives b hidden b') :
    ∃ context code σ, n.callContext v.decl callee = .ok context ∧
      ContextCode v context b.regs code hidden σ ∧ b' = b.extend code σ := by
  unfold emitCallContext at h
  obtain ⟨context, b₁, h₁, h⟩ := gives_bind.1 h
  obtain ⟨hcontext, rfl⟩ := gives_of.1 h₁
  obtain ⟨code, σ, hcode, rfl⟩ := contextCode_of_match h
  exact ⟨context, code, σ, hcontext, hcode, rfl⟩

theorem contextCode_of_emitConstructionContext {aggregate : DeclId} {outer : Option ValueId}
    (h : (n.emitConstructionContext v aggregate).Gives b outer b') :
    ∃ context code σ, n.constructionContext v.decl aggregate = .ok context ∧
      ContextCode v context b.regs code outer σ ∧ b' = b.extend code σ := by
  unfold emitConstructionContext at h
  obtain ⟨context, b₁, h₁, h⟩ := gives_bind.1 h
  obtain ⟨hcontext, rfl⟩ := gives_of.1 h₁
  obtain ⟨code, σ, hcode, rfl⟩ := contextCode_of_match h
  exact ⟨context, code, σ, hcontext, hcode, rfl⟩

theorem closureContextCode_of_emitClosureContext {target : DeclId} {r : ValueId}
    (h : (n.emitClosureContext v target).Gives b r b') :
    ∃ context code σ, n.callContext v.decl target = .ok context ∧
      ClosureContextCode v context b.regs code r σ ∧ b' = b.extend code σ := by
  unfold emitClosureContext at h
  obtain ⟨context, b₁, h₁, h⟩ := gives_bind.1 h
  obtain ⟨hcontext, rfl⟩ := gives_of.1 h₁
  cases context with
  | none =>
    obtain ⟨rfl, rfl⟩ := gives_produce.1 h
    exact ⟨_, _, _, hcontext, .none, rfl⟩
  | null =>
    obtain ⟨rfl, rfl⟩ := gives_produce.1 h
    exact ⟨_, _, _, hcontext, .null, rfl⟩
  | chain chain =>
    obtain ⟨code, σ, hcode, rfl⟩ := chainCode_of_emitChain h
    exact ⟨_, code, σ, hcontext, .chain hcode, rfl⟩
  | receiver => exact absurd h gives_throw

/-- The store of a value into a slot of an object. -/
theorem store_slot {α : Type} {struct : StructId} {object value : ValueId} {slot : Nat} {ty : Ty}
    {next : Emit α} {a : α}
    (h : Gives (do
      let addr ← FunctionBuilder.fieldAddr object struct slot
      FunctionBuilder.store addr value ty
      next) b a b') :
    next.Gives (b.extend [.fieldAddr b.regs.next object struct slot,
      .store b.regs.next value ty] (b.regs.value .ptr)) a b' := by
  obtain ⟨addr, b₁, h₁, h⟩ := gives_bind.1 h
  obtain ⟨u, b₂, h₂, h⟩ := gives_bind.1 h
  obtain ⟨rfl, rfl⟩ := gives_produce.1 h₁
  obtain rfl := gives_push.1 h₂
  simpa using h

theorem storesCode_of_emitFields {struct : StructId} {object : ValueId}
    {fields : List ((Layout.Slot × Nat) × ValueId)} (h : emitFields struct object fields b = ((), b')) :
    ∃ code σ, StoresCode struct object b.regs
      (fields.map fun ((slot, index), value) => ⟨index, value, slot.ty⟩) code σ ∧
      b' = b.extend code σ := by
  induction fields generalizing b with
  | nil =>
    cases h
    exact ⟨[], _, .nil, by simp⟩
  | cons field fields ih =>
    obtain ⟨⟨slot, index⟩, value⟩ := field
    simp only [emitFields, fieldAddr, store, bind, StateT.bind, produce_eq, push_eq] at h
    obtain ⟨code, σ, hcode, rfl⟩ := ih h
    exact ⟨_, σ, .cons (by simpa using hcode), by simp⟩

theorem instanceCode_of_emitInstance {aggregate : DeclId} {outer : Option ValueId}
    {fields : List ValueId} {r : ValueId} (h : (n.emitInstance aggregate outer fields).Gives b r b') :
    ∃ code σ, InstanceCode n aggregate outer fields b.regs code r σ ∧ b' = b.extend code σ := by
  unfold emitInstance at h
  obtain ⟨l, b₁, h₁, h⟩ := gives_bind.1 h
  obtain ⟨hl, rfl⟩ := gives_of.1 h₁
  have hl := Layouts.getLayout_eq_ok.1 hl
  dsimp only at h
  split at h
  · obtain ⟨_, _, h₁, -⟩ := gives_bind.1 h
    exact absurd h₁ gives_throw
  rename_i hlen
  have hlen : l.fieldSlots.length = fields.length := not_not.1 hlen
  obtain ⟨object, b₂, h₁, h⟩ := gives_bind.1 h
  obtain ⟨rfl, rfl⟩ := gives_produce.1 h₁
  cases hos : l.outerSlot with
  | none =>
    cases outer with
    | some outer =>
      simp only [hos] at h
      obtain ⟨_, _, h₁, -⟩ := gives_bind.1 h
      exact absurd h₁ gives_throw
    | none =>
      simp only [hos] at h
      obtain ⟨_, b₃, h₁, h⟩ := gives_bind.1 h
      obtain ⟨rfl, rfl⟩ := gives_pure.1 h
      obtain ⟨code, σ, hcode, rfl⟩ := storesCode_of_emitFields (gives_lift.1 h₁)
      refine ⟨_, σ, .mk hl hlen (by simp [hos]) ?_, by simp; rfl⟩
      rw [hos]
      exact hcode
  | some slot =>
    cases outer with
    | none =>
      simp only [hos] at h
      obtain ⟨_, _, h₁, -⟩ := gives_bind.1 h
      exact absurd h₁ gives_throw
    | some outer =>
      simp only [hos] at h
      have h := store_slot h
      obtain ⟨_, b₃, h₁, h⟩ := gives_bind.1 h
      obtain ⟨rfl, rfl⟩ := gives_pure.1 h
      obtain ⟨code, σ, hcode, rfl⟩ := storesCode_of_emitFields (gives_lift.1 h₁)
      refine ⟨_, σ, .mk hl hlen (by simp [hos]) ?_, by simp; rfl⟩
      rw [hos]
      exact .cons hcode

theorem storesCode_of_emitParams {l : Layout} {frame : ValueId} {arrived : List (VarId × ValueId)}
    (hcap : ∀ x ∈ arrived, n.captures.isCaptured x.1 = true)
    (h : (n.emitParams l frame arrived).Gives b () b') :
    ∃ stores code σ, ParamStores l arrived stores ∧ StoresCode l.struct frame b.regs stores code σ ∧
      b' = b.extend code σ := by
  induction arrived generalizing b with
  | nil =>
    obtain ⟨-, rfl⟩ := gives_pure.1 h
    exact ⟨[], [], _, .nil, .nil, by simp⟩
  | cons arrival arrived ih =>
    obtain ⟨x, value⟩ := arrival
    have hx := hcap (x, value) (by simp)
    simp only [emitParams, hx, if_true] at h
    cases hslot : l.slotOf? x with
    | none =>
      simp only [hslot] at h
      obtain ⟨_, _, h₁, -⟩ := gives_bind.1 h
      exact absurd h₁ gives_throw
    | some slot =>
      simp only [hslot] at h
      obtain ⟨stores, code, σ, hstores, hcode, rfl⟩ :=
        ih (fun y hy => hcap y (List.mem_cons_of_mem _ hy)) (store_slot h)
      exact ⟨_, _, σ, .cons hslot hstores, .cons hcode, by simp⟩

theorem enterCode_of_enterFunction {decl : DeclId} {incoming : Option ValueId}
    {arrived : List (VarId × ValueId)} (hcap : ∀ x ∈ arrived, n.captures.isCaptured x.1 = true)
    (h : (n.enterFunction decl incoming arrived).Gives b v b') :
    ∃ code σ, EnterCode n decl incoming arrived b.regs code v σ ∧ b' = b.extend code σ := by
  unfold enterFunction at h
  by_cases hf : n.captures.isFrameNeeded decl = true
  swap
  · simp only [hf, Bool.not_false, if_true] at h
    obtain ⟨rfl, rfl⟩ := gives_pure.1 h
    exact ⟨[], _, .frameless (by simpa using hf), by simp⟩
  simp only [hf, Bool.not_true, Bool.false_eq_true, if_false] at h
  obtain ⟨l, b₁, h₁, h⟩ := gives_bind.1 h
  obtain ⟨hl, rfl⟩ := gives_of.1 h₁
  have hl := Layouts.getLayout_eq_ok.1 hl
  cases hk : n.plan.kind? decl with
  | none => exact absurd (by simpa only [hk] using h) gives_throw
  | some kind =>
    simp only [hk] at h
    obtain ⟨frame, b₂, h₁, h⟩ := gives_bind.1 h
    obtain ⟨rfl, rfl⟩ := gives_produce.1 h₁
    cases hps : l.parentSlot with
    | none =>
      simp only [hps] at h
      obtain ⟨_, b₃, h₁, h⟩ := gives_bind.1 h
      obtain ⟨rfl, rfl⟩ := gives_pure.1 h
      obtain ⟨stores, code, σ, hstores, hcode, rfl⟩ := storesCode_of_emitParams hcap h₁
      refine ⟨_, σ, .framed hf hl hk (by simp [hps]) hstores ?_, by simp; rfl⟩
      rw [hps]
      exact hcode
    | some slot =>
      cases incoming with
      | none =>
        simp only [hps] at h
        obtain ⟨_, _, h₁, -⟩ := gives_bind.1 h
        exact absurd h₁ gives_throw
      | some parent =>
        simp only [hps] at h
        obtain ⟨_, b₃, h₁, h⟩ := gives_bind.1 (store_slot h)
        obtain ⟨rfl, rfl⟩ := gives_pure.1 h
        obtain ⟨stores, code, σ, hstores, hcode, rfl⟩ := storesCode_of_emitParams hcap h₁
        refine ⟨_, σ, .framed hf hl hk (by simp) hstores ?_, by simp; rfl⟩
        rw [hps]
        exact .cons hcode

end Nesting

/-! ## Variables -/

theorem ParamsCode.isCaptured {n : Nesting} {first index : Nat} {params : List VarId} {σ σ' : Regs}
    {code : List Inst} {arrived : List (VarId × ValueId)} {locals : List (VarId × LocalId)}
    (h : ParamsCode n first index params σ code arrived locals σ') :
    ∀ x ∈ arrived, n.captures.isCaptured x.1 = true := by
  induction h with
  | nil => simp
  | captured hcap _ _ ih =>
    intro x hx
    rcases List.mem_cons.1 hx with rfl | hx
    · exact hcap
    · exact ih x hx
  | «local» _ _ ih => exact ih

namespace Scope

variable {s : Scope} {v : Vantage} {b b' : FunctionBuilder}

theorem getCurrent_eq_ok : s.getCurrent = .ok v ↔ s.current = some v := by
  unfold getCurrent
  cases s.current <;> simp

theorem getLocal_eq_ok {id : VarId} {x : LocalId} :
    s.getLocal id = .ok x ↔ s.locals.lookup id = some x := by
  unfold getLocal
  cases s.locals.lookup id <;> simp

theorem getFunction_eq_ok {id : DeclId} {target : FunctionId} :
    s.getFunction id = .ok target ↔ s.function? id = some target := by
  unfold getFunction
  cases s.function? id <;> simp

/-- The current function is known while its body is written. -/
theorem gives_getCurrent {α : Type} (hv : s.current = some v) {f : Vantage → Emit α} {a : α}
    (h : Gives (Emit.of s.getCurrent >>= f) b a b') : (f v).Gives b a b' := by
  obtain ⟨v', b₁, h₁, h⟩ := gives_bind.1 h
  obtain ⟨hcur, rfl⟩ := gives_of.1 h₁
  rw [getCurrent_eq_ok, hv] at hcur
  cases hcur
  exact h

theorem gives_valued {action : Emit (Option ValueId)} {r : ValueId}
    (h : (s.valued action).Gives b r b') : action.Gives b (some r) b' := by
  unfold valued at h
  obtain ⟨result, b₁, h₁, h⟩ := gives_bind.1 h
  obtain ⟨hvalue, rfl⟩ := gives_of.1 h
  cases result with
  | none => simp [value] at hvalue
  | some r' =>
    cases hvalue
    exact h₁

/-- A variable is in a local, or in a slot that a chain leads to. -/
theorem gives_emitVariableAddress {n : Nesting} {id : VarId} {address : VariableAddress}
    (h : (n.emitVariableAddress v id).Gives b address b') :
    (∃ id', n.resolve v.decl id = .ok (.local id') ∧ address = .local id' ∧ b' = b) ∨
      ∃ chain struct slot ty carrier code σ, n.resolve v.decl id = .ok (.slot chain struct slot ty) ∧
        ChainCode v chain b.regs code carrier σ ∧ address = .slot σ.next ty ∧
        b' = b.extend (code ++ [.fieldAddr σ.next carrier struct slot]) (σ.value .ptr) := by
  unfold Nesting.emitVariableAddress at h
  obtain ⟨resolution, b₁, h₁, h⟩ := gives_bind.1 h
  obtain ⟨hres, rfl⟩ := gives_of.1 h₁
  cases resolution with
  | «local» id' =>
    obtain ⟨rfl, rfl⟩ := gives_pure.1 h
    exact .inl ⟨id', hres, rfl, rfl⟩
  | slot chain struct slot ty =>
    obtain ⟨carrier, b₂, h₂, h⟩ := gives_bind.1 h
    obtain ⟨code, σ, hcode, rfl⟩ := Nesting.chainCode_of_emitChain h₂
    obtain ⟨addr, b₃, h₃, h⟩ := gives_bind.1 h
    obtain ⟨rfl, rfl⟩ := gives_produce.1 h₃
    obtain ⟨rfl, rfl⟩ := gives_pure.1 h
    exact .inr ⟨chain, struct, slot, ty, carrier, code, σ, hres, hcode, rfl, by simp⟩

theorem readCode_of_readVariable (hv : s.current = some v) {id : VarId} {r : ValueId}
    (h : (s.readVariable id).Gives b r b') :
    ∃ code σ, ReadCode s v id b.regs code r σ ∧ b' = b.extend code σ := by
  unfold readVariable at h
  obtain ⟨address, b₁, haddress, hrest⟩ := gives_bind.1 (gives_getCurrent hv h)
  obtain ⟨id', hres, rfl, rfl⟩ | ⟨chain, struct, slot, ty, carrier, code, σ, hres, hcode, rfl, rfl⟩ :=
    gives_emitVariableAddress haddress
  · obtain ⟨x, b₂, hlocal, hrest⟩ := gives_bind.1 hrest
    obtain ⟨hx, rfl⟩ := gives_of.1 hlocal
    obtain ⟨ty, hty, rfl, rfl⟩ := gives_localGet hrest
    exact ⟨_, _, .local hres (getLocal_eq_ok.1 hx) hty, rfl⟩
  · obtain ⟨rfl, rfl⟩ := gives_produce.1 hrest
    exact ⟨_, _, .slot hres hcode, by simp⟩

theorem writeCode_of_writeVariable (hv : s.current = some v) {id : VarId} {value : ValueId}
    (h : (s.writeVariable id value).Gives b () b') :
    ∃ code σ, WriteCode s v value id b.regs code σ ∧ b' = b.extend code σ := by
  unfold writeVariable at h
  obtain ⟨address, b₁, haddress, hrest⟩ := gives_bind.1 (gives_getCurrent hv h)
  obtain ⟨id', hres, rfl, rfl⟩ | ⟨chain, struct, slot, ty, carrier, code, σ, hres, hcode, rfl, rfl⟩ :=
    gives_emitVariableAddress haddress
  · obtain ⟨x, b₂, hlocal, hrest⟩ := gives_bind.1 hrest
    obtain ⟨hx, rfl⟩ := gives_of.1 hlocal
    obtain rfl := gives_push.1 hrest
    exact ⟨_, _, .local hres (getLocal_eq_ok.1 hx), rfl⟩
  · obtain rfl := gives_push.1 hrest
    exact ⟨_, _, .slot hres hcode, by simp⟩

theorem gives_fieldAddress {base : ValueId} {field : VarId} {addr : ValueId} {ty : Ty}
    (h : (s.fieldAddress base field).Gives b (addr, ty) b') :
    ∃ struct slot, s.fieldSlot field = .ok (struct, slot, ty) ∧ addr = b.regs.next ∧
      b' = b.extend [.fieldAddr b.regs.next base struct slot] (b.regs.value .ptr) := by
  unfold fieldAddress at h
  obtain ⟨⟨struct, slot, ty'⟩, b₁, h₁, h⟩ := gives_bind.1 h
  obtain ⟨hslot, rfl⟩ := gives_of.1 h₁
  obtain ⟨addr', b₂, h₂, h⟩ := gives_bind.1 h
  obtain ⟨heq, rfl⟩ := gives_pure.1 h
  obtain ⟨rfl, rfl⟩ := gives_produce.1 h₂
  cases heq
  exact ⟨struct, slot, hslot, rfl, rfl⟩

/-! ## Expressions -/

theorem gives_emitCall {function : DeclId} {args : List ValueId} {r : Option ValueId}
    (h : (s.emitCall function args).Gives b r b') :
    ∃ target decl, s.function? function = some target ∧
      s.nesting.program.function? function = some decl ∧
      r = b.regs.dest decl.returnType.storage? ∧
      b' = b.extend [.call (b.regs.dest decl.returnType.storage?) target args]
        (b.regs.result decl.returnType.storage?) := by
  unfold emitCall at h
  obtain ⟨target, b₁, h₁, h⟩ := gives_bind.1 h
  obtain ⟨htarget, rfl⟩ := gives_of.1 h₁
  obtain ⟨decl, b₂, h₂, h⟩ := gives_bind.1 h
  obtain ⟨hdecl, rfl⟩ := gives_of.1 h₂
  obtain ⟨rfl, rfl⟩ := gives_produceIf.1 h
  exact ⟨target, decl, getFunction_eq_ok.1 htarget, Program.getFunction_eq_ok.1 hdecl, rfl, rfl⟩

/-- A block that sets a local to the value of some code. -/
theorem gives_settingBlock {x : LocalId} {action : Emit ValueId} {body : List Inst}
    (h : (settingBlock x action).Gives b body b') :
    ∃ r b₁, action.Gives b.opened r b₁ ∧ ∀ code σ, b₁ = b.opened.extend code σ →
      body = code ++ [.localSet x r] ∧ b' = b.extend [] σ := by
  unfold settingBlock at h
  obtain ⟨⟨_, body'⟩, b₁, h₁, h⟩ := gives_bind.1 h
  obtain ⟨rfl, rfl⟩ := gives_pure.1 h
  obtain ⟨b₂, h₂, hbody⟩ := gives_inBlock h₁
  obtain ⟨r, b₃, hr, h₂⟩ := gives_bind.1 h₂
  obtain rfl := gives_push.1 h₂
  refine ⟨r, b₃, hr, ?_⟩
  rintro code σ rfl
  exact hbody _ _ (by simp)

/-- The block of a constant operand. -/
theorem gives_settingBlock_const {x : LocalId} {value : Int64} {body : List Inst}
    (h : (settingBlock x (FunctionBuilder.const value)).Gives b body b') :
    body = [.const b.regs.next value, .localSet x b.regs.next] ∧
      b' = b.extend [] (b.regs.value .i64) := by
  obtain ⟨r, b₁, hr, hbody⟩ := gives_settingBlock h
  obtain ⟨rfl, rfl⟩ := gives_produce.1 hr
  exact hbody _ _ rfl

/-- A short-circuit operator chooses between two blocks that set one local, and reads the local. -/
theorem gives_shortCircuit {conjunction : Bool} {lhs rhs : Emit ValueId} {r : ValueId}
    (h : (shortCircuit conjunction lhs rhs).Gives b r b') :
    ∃ l b₁ thenBody b₂ elseBody b₃ ty, lhs.Gives (b.extend [] (b.regs.addLocal .i64)) l b₁ ∧
      (settingBlock b.regs.nextLocal (if conjunction then rhs else FunctionBuilder.const 1)).Gives
        b₁ thenBody b₂ ∧
      (settingBlock b.regs.nextLocal (if conjunction then FunctionBuilder.const 0 else rhs)).Gives
        b₂ elseBody b₃ ∧
      b₃.regs.locals[b.regs.nextLocal.index]? = some ty ∧ r = b₃.regs.next ∧
      b' = b₃.extend [.branch l thenBody elseBody, .localGet b₃.regs.next b.regs.nextLocal]
        (b₃.regs.value ty) := by
  unfold shortCircuit at h
  obtain ⟨x, b₁, h₁, h⟩ := gives_bind.1 h
  obtain ⟨rfl, rfl⟩ := gives_addLocal.1 h₁
  obtain ⟨l, b₂, hl, h⟩ := gives_bind.1 h
  obtain ⟨thenBody, b₃, hthen, h⟩ := gives_bind.1 h
  obtain ⟨elseBody, b₄, helse, h⟩ := gives_bind.1 h
  obtain ⟨_, b₅, hpush, h⟩ := gives_bind.1 h
  obtain rfl := gives_push.1 hpush
  obtain ⟨ty, hty, rfl, rfl⟩ := gives_localGet h
  exact ⟨l, b₂, thenBody, b₃, elseBody, b₄, ty, hl, hthen, helse, hty, rfl, by simp⟩

/-- What is claimed of an expression: its code is written. -/
def WritesExpr (s : Scope) (v : Vantage) (expr : Expr) : Prop :=
  ∀ (b b' : FunctionBuilder) (r : Option ValueId), (s.lowerExpr expr).Gives b r b' →
    ∃ code σ, ExprCode s v expr b.regs code r σ ∧ b' = b.extend code σ

theorem WritesExpr.value {expr : Expr} (hexpr : WritesExpr s v expr) {r : ValueId}
    (h : (s.valued (s.lowerExpr expr)).Gives b r b') :
    ∃ code σ, ExprCode s v expr b.regs code (some r) σ ∧ b' = b.extend code σ :=
  hexpr b b' r (gives_valued h)

theorem exprsCode_of_lowerValues {exprs : List Expr} (hexprs : ∀ expr ∈ exprs, WritesExpr s v expr)
    {rs : List ValueId} (h : (s.lowerValues exprs).Gives b rs b') :
    ∃ code σ, ExprsCode s v exprs b.regs code rs σ ∧ b' = b.extend code σ := by
  induction exprs generalizing b b' rs with
  | nil =>
    rw [lowerValues] at h
    obtain ⟨rfl, rfl⟩ := gives_pure.1 h
    exact ⟨[], _, .nil, by simp⟩
  | cons expr exprs ih =>
    rw [lowerValues] at h
    obtain ⟨r, b₁, h₁, h⟩ := gives_bind.1 h
    obtain ⟨c₁, σ₁, hc₁, rfl⟩ := (hexprs expr (by simp)).value h₁
    obtain ⟨rs', b₂, h₂, h⟩ := gives_bind.1 h
    obtain ⟨c₂, σ₂, hc₂, rfl⟩ := ih (fun e he => hexprs e (List.mem_cons_of_mem _ he)) h₂
    obtain ⟨rfl, rfl⟩ := gives_pure.1 h
    exact ⟨_, σ₂, .cons hc₁ hc₂, by simp⟩

namespace WritesExpr

-- Each case starts from the equation of `lowerExpr` for its constructor.
attribute [local simp] lowerExpr

theorem int (value : Int64) : WritesExpr s v (.int value) := by
  intro b b' r h
  rw [lowerExpr] at h
  obtain ⟨d, hd, rfl⟩ := gives_map.1 h
  obtain ⟨rfl, rfl⟩ := gives_produce.1 hd
  exact ⟨_, _, .int, rfl⟩

theorem bool (value : Bool) : WritesExpr s v (.bool value) := by
  intro b b' r h
  rw [lowerExpr] at h
  obtain ⟨d, hd, rfl⟩ := gives_map.1 h
  obtain ⟨rfl, rfl⟩ := gives_produce.1 hd
  exact ⟨_, _, .bool, rfl⟩

theorem var (hv : s.current = some v) (id : VarId) : WritesExpr s v (.var id) := by
  intro b b' r h
  rw [lowerExpr] at h
  obtain ⟨d, hd, rfl⟩ := gives_map.1 h
  obtain ⟨code, σ, hcode, rfl⟩ := readCode_of_readVariable hv hd
  exact ⟨code, σ, .var hcode, rfl⟩

theorem unary (op : UnaryOp) {operand : Expr} (ih : WritesExpr s v operand) :
    WritesExpr s v (.unary op operand) := by
  intro b b' r h
  rw [lowerExpr] at h
  obtain ⟨d, b₁, h₁, h⟩ := gives_bind.1 h
  obtain ⟨code, σ, hcode, rfl⟩ := ih.value h₁
  obtain ⟨d, hd, rfl⟩ := gives_map.1 h
  obtain ⟨rfl, rfl⟩ := gives_produce.1 hd
  exact ⟨_, _, .unary hcode, by simp⟩

theorem binary (op : BinOp) {lhs rhs : Expr} (hl : WritesExpr s v lhs) (hr : WritesExpr s v rhs) :
    WritesExpr s v (.binary op lhs rhs) := by
  intro b b' r h
  rw [lowerExpr] at h
  cases hop : op.shape with
  | strict o =>
    simp only [hop] at h
    obtain ⟨l, b₁, h₁, h⟩ := gives_bind.1 h
    obtain ⟨c₁, σ₁, hc₁, rfl⟩ := hl.value h₁
    obtain ⟨r', b₂, h₂, h⟩ := gives_bind.1 h
    obtain ⟨c₂, σ₂, hc₂, rfl⟩ := hr.value h₂
    obtain ⟨d, h₃, rfl⟩ := gives_map.1 h
    obtain ⟨rfl, rfl⟩ := gives_produce.1 h₃
    exact ⟨_, _, .strict hop hc₁ hc₂, by simp⟩
  | conjunction =>
    simp only [hop] at h
    obtain ⟨d, hd, rfl⟩ := gives_map.1 h
    obtain ⟨l, b₁, thenBody, b₂, elseBody, b₃, ty, h₁, hthen, helse, hty, rfl, rfl⟩ := gives_shortCircuit hd
    obtain ⟨c₁, σ₁, hc₁, rfl⟩ := hl.value h₁
    obtain ⟨r', b₄, h₂, hbody⟩ := gives_settingBlock hthen
    obtain ⟨c₂, σ₂, hc₂, rfl⟩ := hr.value (by simpa using h₂)
    obtain ⟨rfl, rfl⟩ := hbody c₂ σ₂ rfl
    obtain ⟨rfl, rfl⟩ := gives_settingBlock_const (by simpa using helse)
    exact ⟨_, _, .conjunction hop hc₁ hc₂ hty, by simp⟩
  | disjunction =>
    simp only [hop] at h
    obtain ⟨d, hd, rfl⟩ := gives_map.1 h
    obtain ⟨l, b₁, thenBody, b₂, elseBody, b₃, ty, h₁, hthen, helse, hty, rfl, rfl⟩ := gives_shortCircuit hd
    obtain ⟨c₁, σ₁, hc₁, rfl⟩ := hl.value h₁
    obtain ⟨rfl, rfl⟩ := gives_settingBlock_const (by simpa using hthen)
    obtain ⟨r', b₄, h₂, hbody⟩ := gives_settingBlock helse
    obtain ⟨c₂, σ₂, hc₂, rfl⟩ := hr.value (by simpa using h₂)
    obtain ⟨rfl, rfl⟩ := hbody c₂ σ₂ rfl
    exact ⟨_, _, .disjunction hop hc₁ (by simpa using hc₂) hty, by simp⟩

theorem call (hv : s.current = some v) (function : DeclId) {args : List Expr}
    (ih : ∀ arg ∈ args, WritesExpr s v arg) : WritesExpr s v (.call function args) := by
  intro b b' r h
  rw [lowerExpr] at h
  have h := gives_getCurrent hv h
  obtain ⟨hidden, b₁, h₁, h⟩ := gives_bind.1 h
  obtain ⟨context, c₁, σ₁, hcontext, hc₁, rfl⟩ := Nesting.contextCode_of_emitCallContext h₁
  obtain ⟨rs, b₂, h₂, h⟩ := gives_bind.1 h
  obtain ⟨c₂, σ₂, hc₂, rfl⟩ := exprsCode_of_lowerValues ih h₂
  obtain ⟨target, decl, htarget, hdecl, rfl, rfl⟩ := gives_emitCall h
  exact ⟨_, _, .call hcontext hc₁ hc₂ htarget hdecl, by simp⟩

theorem methodCall (method : DeclId) {receiver : Expr} {args : List Expr}
    (ihr : WritesExpr s v receiver) (ih : ∀ arg ∈ args, WritesExpr s v arg) :
    WritesExpr s v (.methodCall receiver method args) := by
  intro b b' r h
  rw [lowerExpr] at h
  obtain ⟨d, b₁, h₁, h⟩ := gives_bind.1 h
  obtain ⟨c₁, σ₁, hc₁, rfl⟩ := ihr.value h₁
  obtain ⟨rs, b₂, h₂, h⟩ := gives_bind.1 h
  obtain ⟨c₂, σ₂, hc₂, rfl⟩ := exprsCode_of_lowerValues ih h₂
  obtain ⟨target, decl, htarget, hdecl, rfl, rfl⟩ := gives_emitCall h
  exact ⟨_, _, .methodCall hc₁ hc₂ htarget hdecl, by simp⟩

theorem new (hv : s.current = some v) (aggregate : DeclId) {args : List Expr}
    (ih : ∀ arg ∈ args, WritesExpr s v arg) : WritesExpr s v (.new aggregate args) := by
  intro b b' r h
  rw [lowerExpr] at h
  obtain ⟨rs, b₁, h₁, h⟩ := gives_bind.1 h
  obtain ⟨c₁, σ₁, hc₁, rfl⟩ := exprsCode_of_lowerValues ih h₁
  have h := gives_getCurrent hv h
  obtain ⟨outer, b₂, h₂, h⟩ := gives_bind.1 h
  obtain ⟨context, c₂, σ₂, hcontext, hc₂, rfl⟩ :=
    Nesting.contextCode_of_emitConstructionContext h₂
  obtain ⟨d, hd, rfl⟩ := gives_map.1 h
  obtain ⟨c₃, σ₃, hc₃, rfl⟩ := Nesting.instanceCode_of_emitInstance hd
  exact ⟨_, _, .new hc₁ hcontext hc₂ hc₃, by simp⟩

theorem fieldGet (field : VarId) {base : Expr} (ih : WritesExpr s v base) :
    WritesExpr s v (.fieldGet base field) := by
  intro b b' r h
  rw [lowerExpr] at h
  obtain ⟨o, b₁, h₁, h⟩ := gives_bind.1 h
  obtain ⟨code, σ, hcode, rfl⟩ := ih.value h₁
  obtain ⟨⟨addr, ty⟩, b₂, h₂, h⟩ := gives_bind.1 h
  obtain ⟨struct, slot, hslot, rfl, rfl⟩ := gives_fieldAddress h₂
  obtain ⟨d, hd, rfl⟩ := gives_map.1 h
  obtain ⟨rfl, rfl⟩ := gives_produce.1 hd
  exact ⟨_, _, .fieldGet hcode hslot, by simp⟩

theorem this (hv : s.current = some v) (aggregate : DeclId) : WritesExpr s v (.this aggregate) := by
  intro b b' r h
  rw [lowerExpr] at h
  have h := gives_getCurrent hv h
  obtain ⟨d, hd, rfl⟩ := gives_map.1 h
  obtain ⟨chain, code, σ, hchain, hcode, rfl⟩ := Nesting.chainCode_of_emitContextPointer hd
  exact ⟨code, σ, .this hchain hcode, rfl⟩

theorem functionRef (hv : s.current = some v) (function : DeclId) :
    WritesExpr s v (.functionRef function) := by
  intro b b' r h
  rw [lowerExpr] at h
  have h := gives_getCurrent hv h
  obtain ⟨d, b₁, h₁, h⟩ := gives_bind.1 h
  obtain ⟨context, code, σ, hcontext, hcode, rfl⟩ :=
    Nesting.closureContextCode_of_emitClosureContext h₁
  obtain ⟨target, b₂, h₂, h⟩ := gives_bind.1 h
  obtain ⟨htarget, rfl⟩ := gives_of.1 h₂
  obtain ⟨d, hd, rfl⟩ := gives_map.1 h
  obtain ⟨rfl, rfl⟩ := gives_produce.1 hd
  exact ⟨_, _, .functionRef hcontext hcode (getFunction_eq_ok.1 htarget), by simp⟩

theorem callValue {callee : Expr} {args : List Expr} (ihc : WritesExpr s v callee)
    (ih : ∀ arg ∈ args, WritesExpr s v arg) : WritesExpr s v (.callValue callee args) := by
  intro b b' r h
  rw [lowerExpr] at h
  obtain ⟨signature, b₁, h₁, h⟩ := gives_bind.1 h
  obtain ⟨hsig, rfl⟩ := gives_of.1 h₁
  obtain ⟨ty, hty, hsig⟩ := bind_eq_ok.1 hsig
  obtain ⟨d, b₂, h₂, h⟩ := gives_bind.1 h
  obtain ⟨c₁, σ₁, hc₁, rfl⟩ := ihc.value h₂
  obtain ⟨rs, b₃, h₃, h⟩ := gives_bind.1 h
  obtain ⟨c₂, σ₂, hc₂, rfl⟩ := exprsCode_of_lowerValues ih h₃
  obtain ⟨rfl, rfl⟩ := gives_produceIf.1 h
  exact ⟨_, _, .callValue hty hsig hc₁ hc₂, by simp⟩

end WritesExpr

theorem writesExpr (hv : s.current = some v) (expr : Expr) : WritesExpr s v expr := by
  induction expr using Expr.ind with
  | int value => exact .int value
  | bool value => exact .bool value
  | var id => exact .var hv id
  | binary op lhs rhs ihl ihr => exact .binary op ihl ihr
  | unary op operand ih => exact .unary op ih
  | call function args ih => exact .call hv function ih
  | methodCall receiver method args ihr ih => exact .methodCall method ihr ih
  | new aggregate args ih => exact .new hv aggregate ih
  | fieldGet base field ih => exact .fieldGet field ih
  | this aggregate => exact .this hv aggregate
  | functionRef function => exact .functionRef hv function
  | callValue callee args ihc ih => exact .callValue ihc ih

theorem exprCode_of_lowerExpr (hv : s.current = some v) {expr : Expr} {r : Option ValueId}
    (h : (s.lowerExpr expr).Gives b r b') :
    ∃ code σ, ExprCode s v expr b.regs code r σ ∧ b' = b.extend code σ :=
  writesExpr hv expr b b' r h

theorem exprCode_of_lowerValue (hv : s.current = some v) {expr : Expr} {r : ValueId}
    (h : (s.lowerValue expr).Gives b r b') :
    ∃ code σ, ExprCode s v expr b.regs code (some r) σ ∧ b' = b.extend code σ :=
  (writesExpr hv expr).value h

/-! ## Statements -/

/-- What is claimed of a statement: its code is written. -/
def WritesStmt (s : Scope) (v : Vantage) (stmt : Stmt) : Prop :=
  ∀ (b b' : FunctionBuilder), (s.lowerStmt stmt).Gives b () b' →
    ∃ code σ, StmtCode s v stmt b.regs code σ ∧ b' = b.extend code σ

theorem blockCode_of_writesStmt {block : List Stmt} (hblock : ∀ stmt ∈ block, WritesStmt s v stmt)
    (h : (s.lowerBlock block).Gives b () b') :
    ∃ code σ, BlockCode s v block b.regs code σ ∧ b' = b.extend code σ := by
  induction block generalizing b b' with
  | nil =>
    rw [lowerBlock] at h
    obtain ⟨-, rfl⟩ := gives_pure.1 h
    exact ⟨[], _, .nil, by simp⟩
  | cons stmt block ih =>
    rw [lowerBlock] at h
    obtain ⟨_, b₁, h₁, h⟩ := gives_bind.1 h
    obtain ⟨c₁, σ₁, hc₁, rfl⟩ := hblock stmt (by simp) _ _ h₁
    obtain ⟨c₂, σ₂, hc₂, rfl⟩ := ih (fun e he => hblock e (List.mem_cons_of_mem _ he)) h
    exact ⟨_, σ₂, .cons hc₁ hc₂, by simp⟩

/-- The code that a block of statements has inside another one. -/
theorem blockCode_of_inBlock {block : List Stmt} (hblock : ∀ stmt ∈ block, WritesStmt s v stmt)
    {u : Unit} {body : List Inst} (h : (inBlock (s.lowerBlock block)).Gives b (u, body) b') :
    ∃ σ, BlockCode s v block b.regs body σ ∧ b' = b.extend [] σ := by
  obtain ⟨b₁, h₁, hbody⟩ := gives_inBlock h
  obtain ⟨code, σ, hcode, rfl⟩ := blockCode_of_writesStmt hblock h₁
  obtain ⟨rfl, rfl⟩ := hbody code σ rfl
  exact ⟨σ, hcode, rfl⟩

theorem writesStmt (hv : s.current = some v) (stmt : Stmt) : WritesStmt s v stmt := by
  induction stmt using Stmt.ind with
  | letVar id value =>
    intro b b' h
    rw [lowerStmt] at h
    obtain ⟨r, b₁, h₁, h⟩ := gives_bind.1 h
    obtain ⟨c₁, σ₁, hc₁, rfl⟩ := exprCode_of_lowerValue hv h₁
    obtain ⟨c₂, σ₂, hc₂, rfl⟩ := writeCode_of_writeVariable hv h
    exact ⟨_, _, .letVar hc₁ hc₂, by simp⟩
  | assign target value =>
    intro b b' h
    cases target with
    | var id =>
      rw [lowerStmt] at h
      obtain ⟨r, b₁, h₁, h⟩ := gives_bind.1 h
      obtain ⟨c₁, σ₁, hc₁, rfl⟩ := exprCode_of_lowerValue hv h₁
      obtain ⟨c₂, σ₂, hc₂, rfl⟩ := writeCode_of_writeVariable hv h
      exact ⟨_, _, .assignVar hc₁ hc₂, by simp⟩
    | field base field =>
      rw [lowerStmt] at h
      obtain ⟨o, b₁, h₁, h⟩ := gives_bind.1 h
      obtain ⟨c₁, σ₁, hc₁, rfl⟩ := exprCode_of_lowerValue hv h₁
      obtain ⟨r, b₂, h₂, h⟩ := gives_bind.1 h
      obtain ⟨c₂, σ₂, hc₂, rfl⟩ := exprCode_of_lowerValue hv h₂
      obtain ⟨⟨addr, ty⟩, b₃, h₃, h⟩ := gives_bind.1 h
      obtain ⟨struct, slot, hslot, rfl, rfl⟩ := gives_fieldAddress h₃
      obtain rfl := gives_push.1 h
      exact ⟨_, _, .assignField hc₁ hc₂ hslot, by simp⟩
  | expr value =>
    intro b b' h
    rw [lowerStmt] at h
    obtain ⟨r, b₁, h₁, h⟩ := gives_bind.1 h
    obtain ⟨code, σ, hcode, rfl⟩ := exprCode_of_lowerExpr hv h₁
    obtain ⟨-, rfl⟩ := gives_pure.1 h
    exact ⟨_, _, .expr hcode, rfl⟩
  | branch condition thenBlock elseBlock iht ihe =>
    intro b b' h
    rw [lowerStmt] at h
    obtain ⟨r, b₁, h₁, h⟩ := gives_bind.1 h
    obtain ⟨c₁, σ₁, hc₁, rfl⟩ := exprCode_of_lowerValue hv h₁
    obtain ⟨⟨_, c₂⟩, b₂, h₂, h⟩ := gives_bind.1 h
    obtain ⟨σ₂, hc₂, rfl⟩ := blockCode_of_inBlock iht h₂
    obtain ⟨⟨_, c₃⟩, b₃, h₃, h⟩ := gives_bind.1 h
    obtain ⟨σ₃, hc₃, rfl⟩ := blockCode_of_inBlock ihe h₃
    obtain rfl := gives_push.1 h
    exact ⟨_, _, .branch hc₁ hc₂ hc₃, by simp⟩
  | loop condition body ih =>
    intro b b' h
    rw [lowerStmt] at h
    obtain ⟨⟨r, c₁⟩, b₁, h₁, h⟩ := gives_bind.1 h
    obtain ⟨b₂, h₂, hheader⟩ := gives_inBlock h₁
    obtain ⟨code, σ₁, hc₁, rfl⟩ := exprCode_of_lowerValue hv h₂
    obtain ⟨rfl, rfl⟩ := hheader code σ₁ rfl
    obtain ⟨⟨_, c₂⟩, b₃, h₃, h⟩ := gives_bind.1 h
    obtain ⟨σ₂, hc₂, rfl⟩ := blockCode_of_inBlock ih h₃
    obtain rfl := gives_push.1 h
    exact ⟨_, _, .loop hc₁ hc₂, by simp⟩
  | ret value =>
    intro b b' h
    cases value with
    | none =>
      rw [lowerStmt] at h
      obtain rfl := gives_push.1 h
      exact ⟨_, _, .retNone, rfl⟩
    | some value =>
      rw [lowerStmt] at h
      obtain ⟨r, b₁, h₁, h⟩ := gives_bind.1 h
      obtain ⟨c₁, σ₁, hc₁, rfl⟩ := exprCode_of_lowerValue hv h₁
      obtain rfl := gives_push.1 h
      exact ⟨_, _, .ret hc₁, by simp⟩

theorem blockCode_of_lowerBlock (hv : s.current = some v) {block : List Stmt}
    (h : (s.lowerBlock block).Gives b () b') :
    ∃ code σ, BlockCode s v block b.regs code σ ∧ b' = b.extend code σ :=
  blockCode_of_writesStmt (fun stmt _ => writesStmt hv stmt) h

/-! ## Functions -/

@[simp] theorem hasContext_extend (code : List Inst) (σ : Regs) :
    (b.extend code σ).function.hasContext = b.function.hasContext := rfl

theorem paramsCode_of_bindParams {index : Nat} {params : List VarId}
    {arrived : List (VarId × ValueId)} {locals : List (VarId × LocalId)}
    (h : (s.bindParams index params).Gives b (arrived, locals) b') :
    ∃ code σ, ParamsCode s.nesting b.function.hasContext.toNat index params b.regs code arrived locals σ ∧
      b' = b.extend code σ := by
  induction params generalizing index b b' arrived locals with
  | nil =>
    rw [bindParams] at h
    obtain ⟨heq, rfl⟩ := gives_pure.1 h
    cases heq
    exact ⟨[], _, .nil, by simp⟩
  | cons param params ih =>
    rw [bindParams] at h
    obtain ⟨b₁, b₂, h₁, h⟩ := gives_bind.1 h
    obtain ⟨rfl, rfl⟩ := gives_get.1 h₁
    by_cases hcap : s.nesting.captures.isCaptured param = true
    · simp only [hcap, if_true] at h
      obtain ⟨r, b₂, h₂, h⟩ := gives_bind.1 h
      obtain ⟨ty, hty, rfl, rfl⟩ := gives_localGet h₂
      obtain ⟨⟨arrived', locals'⟩, b₃, h₃, h⟩ := gives_bind.1 h
      obtain ⟨code, σ, hcode, rfl⟩ := ih h₃
      obtain ⟨heq, rfl⟩ := gives_pure.1 h
      cases heq
      exact ⟨_, σ, .captured hcap hty hcode, by simp [Lir.Function.paramLocal]⟩
    · simp only [hcap, Bool.false_eq_true, if_false] at h
      obtain ⟨⟨arrived', locals'⟩, b₃, h₃, h⟩ := gives_bind.1 h
      obtain ⟨code, σ, hcode, rfl⟩ := ih h₃
      obtain ⟨heq, rfl⟩ := gives_pure.1 h
      cases heq
      exact ⟨_, σ, .local (by simpa using hcap) hcode, rfl⟩

theorem localsBound_of_bindLocals {vars : List VarId} {locals : List (VarId × LocalId)}
    (h : (s.bindLocals vars).Gives b locals b') :
    ∃ σ, LocalsBound s.nesting vars b.regs locals σ ∧ b' = b.extend [] σ := by
  induction vars generalizing b b' locals with
  | nil =>
    rw [bindLocals] at h
    obtain ⟨rfl, rfl⟩ := gives_pure.1 h
    exact ⟨_, .nil, by simp⟩
  | cons x vars ih =>
    rw [bindLocals] at h
    by_cases hcap : s.nesting.captures.isCaptured x = true
    · simp only [hcap, if_true] at h
      obtain ⟨σ, hσ, rfl⟩ := ih h
      exact ⟨σ, .captured hcap hσ, rfl⟩
    · simp only [hcap, Bool.false_eq_true, if_false] at h
      obtain ⟨ty, b₁, h₁, h⟩ := gives_bind.1 h
      obtain ⟨hty, rfl⟩ := gives_of.1 h₁
      obtain ⟨var, hvar, hty⟩ := bind_eq_ok.1 hty
      obtain ⟨added, b₂, h₂, h⟩ := gives_bind.1 h
      obtain ⟨rfl, rfl⟩ := gives_addLocal.1 h₂
      obtain ⟨locals', b₃, h₃, h⟩ := gives_bind.1 h
      obtain ⟨σ, hσ, rfl⟩ := ih h₃
      obtain ⟨rfl, rfl⟩ := gives_pure.1 h
      exact ⟨σ, .local (by simpa using hcap) (Program.getVar_eq_ok.1 hvar)
        (ValueType.storage_eq_ok.1 hty) hσ, by simp⟩

theorem paramTypes_of_mapM {p : Program} {params : List VarId} {tys : List Ty}
    (h : params.mapM (fun param => do (← p.getVar param).ty.storage) = .ok tys) :
    ParamTypes p params tys := by
  refine (mapM_eq_ok.1 h).imp ?_
  intro x ty hx
  obtain ⟨var, hvar, hty⟩ := bind_eq_ok.1 hx
  exact ⟨var, Program.getVar_eq_ok.1 hvar, ValueType.storage_eq_ok.1 hty⟩

theorem startFunction_eq_ok {decl : Declaration} {function : FunctionDecl}
    (h : s.startFunction decl function = .ok b) :
    ∃ target params, s.function? decl.id = some target ∧
      ParamTypes s.nesting.program function.params params ∧
      b = .start target (s.nesting.program.qualifiedName decl.id) decl.id decl.parent.isSome params
        function.returnType.storage? := by
  unfold startFunction at h
  obtain ⟨target, htarget, h⟩ := bind_eq_ok.1 h
  obtain ⟨params, hparams, h⟩ := bind_eq_ok.1 h
  exact ⟨target, params, getFunction_eq_ok.1 htarget, paramTypes_of_mapM hparams,
    (pure_eq_ok.1 h).symm⟩

theorem gives_bindVariables {decl : Declaration} {function : FunctionDecl}
    {incoming : Option ValueId} {arrived : List (VarId × ValueId)}
    {locals : List (VarId × LocalId)}
    (h : (s.bindVariables decl function).Gives b (incoming, arrived, locals) b') :
    ∃ c₁ c₂ σ₁ σ₂ σ₃ paramLocals bodyLocals,
      IncomingCode b.function.hasContext b.regs c₁ incoming σ₁ ∧
      ParamsCode s.nesting b.function.hasContext.toNat 0 function.params σ₁ c₂ arrived paramLocals σ₂ ∧
      LocalsBound s.nesting (decl.locals.drop function.params.length) σ₂ bodyLocals σ₃ ∧
      locals = paramLocals ++ bodyLocals ∧ b' = b.extend (c₁ ++ c₂) σ₃ := by
  unfold bindVariables at h
  obtain ⟨b₁, b₂, h₁, h⟩ := gives_bind.1 h
  obtain ⟨rfl, rfl⟩ := gives_get.1 h₁
  have hin : ∃ c₁ σ₁ incoming', IncomingCode b₁.function.hasContext b₁.regs c₁ incoming' σ₁ ∧
      Gives (do
        let found ← s.bindParams 0 function.params
        let locals ← s.bindLocals (decl.locals.drop function.params.length)
        return (incoming', found.1, found.2 ++ locals)) (b₁.extend c₁ σ₁)
        (incoming, arrived, locals) b' := by
    unfold Lir.Function.contextLocal? at h
    cases hctx : b₁.function.hasContext with
    | true =>
      simp only [hctx, if_true] at h
      obtain ⟨incoming', b₂, h₂, h⟩ := gives_bind.1 h
      obtain ⟨r, hr, rfl⟩ := gives_map.1 h₂
      obtain ⟨ty, hty, rfl, rfl⟩ := gives_localGet hr
      exact ⟨_, _, _, .some hty, h⟩
    | false =>
      simp only [hctx, Bool.false_eq_true, if_false] at h
      obtain ⟨incoming', b₂, h₂, h⟩ := gives_bind.1 h
      obtain ⟨rfl, rfl⟩ := gives_pure.1 h₂
      exact ⟨[], _, _, .none, by simpa using h⟩
  obtain ⟨c₁, σ₁, incoming', hc₁, h⟩ := hin
  obtain ⟨⟨arrived', paramLocals⟩, b₃, h₃, h⟩ := gives_bind.1 h
  obtain ⟨c₂, σ₂, hc₂, rfl⟩ := paramsCode_of_bindParams h₃
  obtain ⟨bodyLocals, b₄, h₄, h⟩ := gives_bind.1 h
  obtain ⟨σ₃, hσ₃, rfl⟩ := localsBound_of_bindLocals h₄
  obtain ⟨heq, rfl⟩ := gives_pure.1 h
  cases heq
  exact ⟨c₁, c₂, σ₁, σ₂, σ₃, paramLocals, bodyLocals, hc₁, hc₂, hσ₃, rfl, by simp⟩

theorem gives_lowerBody (hv : s.current = some v) {function : FunctionDecl}
    (h : (s.lowerBody function).Gives b () b') :
    ∃ code σ, BlockCode s v function.body b.regs code σ ∧
      b' = b.extend (code ++ [if function.returnType.isUnit then .ret none else .unreachable]) σ := by
  unfold lowerBody at h
  obtain ⟨_, b₁, h₁, h⟩ := gives_bind.1 h
  obtain ⟨code, σ, hcode, rfl⟩ := blockCode_of_lowerBlock hv h₁
  obtain rfl := gives_push.1 h
  exact ⟨code, σ, hcode, by simp⟩

/-- The function that comes of a declaration is the one that its code describes. -/
theorem functionCode_of_lowerFunction (hp : s.nesting.program.Checked) {id : DeclId}
    {f : Lir.Function} {s' : Scope} (h : s.lowerFunction id = (.ok f, s')) :
    ∃ v, s'.current = some v ∧ FunctionCode s id v f := by
  unfold lowerFunction at h
  simp only at h
  split at h
  · cases h
  rename_i decl function hdecls
  obtain ⟨decl', hd, hdecls⟩ := bind_eq_ok.1 hdecls
  obtain ⟨function', hf, hdecls⟩ := bind_eq_ok.1 hdecls
  cases pure_eq_ok.1 hdecls
  have hd := Program.getDecl_eq_ok.1 hd
  obtain ⟨decl', hd', hk⟩ := Program.function?_eq_some_iff.1 (Program.getFunction_eq_ok.1 hf)
  cases hd.symm.trans hd'
  have hid := hp.decl_id hd
  split at h
  · cases h
  rename_i b₀ hstart
  obtain ⟨target, params, htarget, hparams, rfl⟩ := startFunction_eq_ok hstart
  split at h
  · cases h
  rename_i incoming arrived locals b₁ hbind
  obtain ⟨c₁, c₂, σ₁, σ₂, σ₃, paramLocals, bodyLocals, hc₁, hc₂, hσ₃, rfl, rfl⟩ :=
    gives_bindVariables hbind
  split at h
  · cases h
  rename_i v b₂ henter
  obtain ⟨c₃, σ₄, hc₃, rfl⟩ := Nesting.enterCode_of_enterFunction hc₂.isCaptured henter
  split at h
  · cases h
  rename_i b₃ hbody
  obtain ⟨c₄, σ₅, hc₄, rfl⟩ := gives_lowerBody rfl hbody
  have hcode := FunctionCode.mk hd hk (hid ▸ htarget) hparams hc₁ hc₂ hσ₃ hc₃ hc₄
  simp only [FunctionBuilder.finish, extend, start, Prod.mk.injEq, Except.ok.injEq] at h
  obtain ⟨rfl, rfl⟩ := h
  exact ⟨v, rfl, by simpa [hid, reset] using hcode⟩

end Scope

end StaticChain
