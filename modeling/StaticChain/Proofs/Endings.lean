import Mathlib.Data.Option.Basic
import StaticChain.Proofs.Emission
import StaticChain.Proofs.Regions

/-!
# How lowering ends

An action that writes code ends in one of two ways (`Lir.Emit.Ends`): it fails with a defect, or it
succeeds and leaves something that is known. A sequence ends as its first part does, or else as its second
(`Ends.bind`), so what fails first is what all of it fails with. Actions that write no more than
instructions never fail; those that look something up in the tables do not where it is there, as for the
code of chains, contexts, instances and frames.
-/

namespace StaticChain

open Lir (Emit ValueId LocalId StructId Inst Ty FunctionBuilder)

/-! ## How actions end -/

namespace Lir

namespace Emit

/-- The action fails with the defect, or without one it succeeds such that the statement holds. -/
def Ends {α : Type} (x : Emit α) (b : FunctionBuilder) (defect : Option Defect)
    (P : α → FunctionBuilder → Prop) : Prop :=
  match defect with
  | none => ∃ a b', x.Gives b a b' ∧ P a b'
  | some defect => ∃ b', @Eq (Except Defect α × FunctionBuilder) (x.run b) (.error defect, b')

variable {α β : Type} {b b' : FunctionBuilder} {defect next : Option Defect} {P : α → FunctionBuilder → Prop}
  {Q : β → FunctionBuilder → Prop}

theorem ends_pure {a : α} (h : P a b) : Ends (pure a) b none P :=
  ⟨a, b, gives_pure.2 ⟨rfl, rfl⟩, h⟩

theorem ends_of_ok {x : Except Defect α} {a : α} (hx : x = .ok a) (h : P a b) : Ends (Emit.of x) b none P :=
  ⟨a, b, gives_of.2 ⟨hx, rfl⟩, h⟩

theorem ends_of_error {x : Except Defect α} {d : Defect} (hx : x = .error d) :
    Ends (Emit.of x) b (some d) P :=
  ⟨b, congrArg (·, b) hx⟩

theorem ends_lift {x : StateM FunctionBuilder α} (h : P (x b).1 (x b).2) : Ends (liftM x : Emit α) b none P :=
  ⟨_, _, gives_lift.2 rfl, h⟩

/-- A sequence fails with what its first part fails with, or else its second. -/
theorem Ends.bind {x : Emit α} {f : α → Emit β} (hx : x.Ends b defect P)
    (hf : ∀ a b', P a b' → (f a).Ends b' next Q) : (x >>= f).Ends b (defect.or next) Q := by
  cases defect with
  | some d =>
    obtain ⟨b', h⟩ := hx
    refine ⟨b', ?_⟩
    rw [ExceptT.run_bind]
    simp only [Bind.bind, StateT.bind, h]
    rfl
  | none =>
    obtain ⟨a, b₁, ha, hP⟩ := hx
    have hrest := hf a b₁ hP
    cases next with
    | none =>
      obtain ⟨r, b₂, hr, hQ⟩ := hrest
      exact ⟨r, b₂, gives_bind.2 ⟨a, b₁, ha, hr⟩, hQ⟩
    | some d =>
      obtain ⟨b', h⟩ := hrest
      refine ⟨b', ?_⟩
      rw [ExceptT.run_bind]
      simp only [Bind.bind, StateT.bind]
      unfold Gives at ha
      rw [ha]
      exact h

theorem ends_get_bind {f : FunctionBuilder → Emit β} (h : (f b).Ends b defect Q) :
    (get >>= f).Ends b defect Q := by
  have hget : Ends (get : Emit FunctionBuilder) b none fun a b' => a = b ∧ b' = b :=
    ⟨b, b, gives_get.2 ⟨rfl, rfl⟩, rfl, rfl⟩
  refine Ends.bind hget ?_
  rintro _ _ ⟨rfl, rfl⟩
  exact h

/-- What is looked up and there does not matter for how a sequence ends. -/
theorem ends_of_ok_bind {x : Except Defect α} {a : α} {f : α → Emit β} (hx : x = .ok a)
    (hf : (f a).Ends b defect Q) : (Emit.of x >>= f).Ends b defect Q := by
  have hfound : (Emit.of x).Ends b none fun a' b' => a' = a ∧ b' = b := ends_of_ok hx ⟨rfl, rfl⟩
  refine hfound.bind ?_
  rintro _ _ ⟨rfl, rfl⟩
  exact hf

/-- A sequence whose second part does not fail. -/
theorem Ends.andThen {x : Emit α} {f : α → Emit β} (hx : x.Ends b defect P)
    (hf : ∀ a b', P a b' → (f a).Ends b' none Q) : (x >>= f).Ends b defect Q := by
  have := hx.bind hf
  rwa [Option.or_none] at this

theorem Ends.imp {x : Emit α} {Q : α → FunctionBuilder → Prop} (hx : x.Ends b defect P)
    (h : ∀ a b', P a b' → Q a b') : x.Ends b defect Q := by
  cases defect with
  | some d => exact hx
  | none =>
    obtain ⟨a, b', ha, hP⟩ := hx
    exact ⟨a, b', ha, h a b' hP⟩

theorem Ends.map {x : Emit α} {f : α → β} (hx : x.Ends b defect P) (h : ∀ a b', P a b' → Q (f a) b') :
    (f <$> x).Ends b defect Q := by
  rw [map_eq_pure_bind]
  exact hx.andThen fun a b' ha => ends_pure (h a b' ha)

end Emit

namespace FunctionBuilder

open Emit

/-- Some code was written to the innermost block. -/
def Grows (b b' : FunctionBuilder) : Prop := ∃ code σ, b' = b.extend code σ ∧ b.regs.Le σ

variable {α : Type} {b b' b'' : FunctionBuilder}

theorem grows_extend {code : List Inst} {σ : Regs} (h : b.regs.Le σ) : b.Grows (b.extend code σ) :=
  ⟨code, σ, rfl, h⟩

theorem Grows.refl (b : FunctionBuilder) : b.Grows b := ⟨[], b.regs, by simp, Regs.Le.refl _⟩

theorem Grows.trans (h : b.Grows b') (h' : b'.Grows b'') : b.Grows b'' := by
  obtain ⟨c₁, σ₁, rfl, h₁⟩ := h
  obtain ⟨c₂, σ₂, rfl, h₂⟩ := h'
  exact ⟨c₁ ++ c₂, σ₂, by simp, h₁.trans h₂⟩

theorem Grows.locals_le (h : b.Grows b') : b.function.locals.size ≤ b'.function.locals.size := by
  obtain ⟨code, σ, rfl, h⟩ := h
  exact h.locals

theorem Grows.hasContext_eq (h : b.Grows b') : b'.function.hasContext = b.function.hasContext := by
  obtain ⟨code, σ, rfl, -⟩ := h
  rfl

theorem Grows.around_eq (h : b.Grows b') : b'.around = b.around := by
  obtain ⟨code, σ, rfl, -⟩ := h
  rfl

theorem ends_produce (ty : Ty) (inst : ValueId → Inst) :
    Ends (liftM (produce ty inst)) b none fun _ b' => b.Grows b' :=
  ends_lift (by rw [produce_eq]; exact grows_extend (Regs.le_value _ _))

theorem ends_push (inst : Inst) : Ends (liftM (push inst)) b none fun _ b' => b.Grows b' :=
  ends_lift (by rw [push_eq]; exact grows_extend (Regs.Le.refl _))

/-- The result is there if it has a type. -/
theorem ends_produceIf (ty : Option Ty) (inst : Option ValueId → Inst) :
    Ends (liftM (produceIf ty inst)) b none fun r b' => b.Grows b' ∧ r.isSome = ty.isSome :=
  ends_lift (by
    rw [produceIf_eq]
    exact ⟨grows_extend (Regs.le_result _ _), by simp [Regs.dest]⟩)

theorem ends_addLocal (ty : Ty) : Ends (liftM (addLocal ty)) b none fun x b' =>
    b.Grows b' ∧ x.index < b'.function.locals.size :=
  ends_lift (by
    rw [addLocal_eq]
    exact ⟨grows_extend ((Regs.Le.refl _).addLocal ty), by simp [Regs.nextLocal, regs, extend]⟩)

theorem ends_localGet {x : LocalId} (h : x.index < b.function.locals.size) :
    (localGet x).Ends b none fun _ b' => b.Grows b' := by
  unfold localGet
  refine ends_get_bind ?_
  simp only [Array.getElem?_eq_getElem h]
  exact ends_produce _ _

/-- A block inside goes into a list of instructions of its own. -/
theorem ends_inBlock {action : Emit α} {defect : Option Defect}
    (h : action.Ends b.opened defect fun _ b₁ => b.opened.Grows b₁) :
    (inBlock action).Ends b defect fun _ b' => b.Grows b' := by
  unfold FunctionBuilder.inBlock
  have hopen : Ends (liftM beginBlock) b none fun _ b' => b' = b.opened := ends_lift rfl
  refine hopen.bind fun _ _ heq => ?_
  subst heq
  refine h.andThen fun a b₁ hgrows => ?_
  obtain ⟨code, σ, rfl, hle⟩ := hgrows
  have hend : endBlock.Ends (b.opened.extend code σ) none fun _ b' => b' = b.extend [] σ := by
    unfold endBlock
    refine ends_get_bind ?_
    refine ⟨code, b.extend [] σ, ?_, rfl⟩
    refine gives_bind.2 ⟨⟨⟩, _, gives_set.2 rfl, gives_pure.2 ⟨?_, ?_⟩⟩
    · simp [opened, extend]
    · simp [opened, extend]
  refine hend.bind fun body b' heq => ?_
  subst heq
  exact ends_pure (grows_extend hle)

end FunctionBuilder

end Lir

open Lir.Emit Lir.FunctionBuilder

/-! ## Chains, contexts and objects -/

namespace Nesting

variable {n : Nesting} {v : Vantage} {b b' : FunctionBuilder}

theorem ends_emitChain {chain : Chain} {start : ValueId} (h : chainStart v chain.start = .ok start) :
    (emitChain v chain).Ends b none fun _ b' => b.Grows b' := by
  unfold emitChain
  refine ends_of_ok_bind h ?_
  refine ends_lift ?_
  have hrun : emitHops start chain.hops b =
      ((emitHops start chain.hops b).1, (emitHops start chain.hops b).2) := rfl
  obtain ⟨code, σ, hcode, heq⟩ := hopsCode_of_emitHops hrun
  rw [heq]
  exact grows_extend hcode.le

/-- The store of a value into a slot of an object. -/
theorem ends_storeSlot {α : Type} {struct : StructId} {object value : ValueId} {slot : Nat} {ty : Ty}
    {next : Emit α} {defect : Option Defect} {P : α → FunctionBuilder → Prop}
    (h : ∀ b', b.Grows b' → next.Ends b' defect P) : Ends (do
      let addr ← FunctionBuilder.fieldAddr object struct slot
      FunctionBuilder.store addr value ty
      next) b defect P := by
  refine (ends_produce .ptr _).bind fun addr b₁ h₁ => ?_
  refine (ends_push _).bind fun _ b₂ h₂ => ?_
  exact h b₂ (h₁.trans h₂)

theorem ends_emitFields {struct : StructId} {object : ValueId} (fields : List ((Layout.Slot × Nat) × ValueId)) :
    Ends (liftM (emitFields struct object fields)) b none fun _ b' => b.Grows b' := by
  refine ends_lift ?_
  have hrun : emitFields struct object fields b = ((), (emitFields struct object fields b).2) := rfl
  obtain ⟨code, σ, hcode, heq⟩ := storesCode_of_emitFields hrun
  rw [heq]
  exact grows_extend hcode.le

/-- An instance is made where each field has its value and the link is threaded if there is one. -/
theorem ends_emitInstance {aggregate : DeclId} {outer : Option ValueId} {fields : List ValueId} {l : Layout}
    (hl : n.layouts.layout? aggregate = some l) (hlen : l.fieldSlots.length = fields.length)
    (houter : l.outerSlot.isSome = outer.isSome) :
    (n.emitInstance aggregate outer fields).Ends b none fun _ b' => b.Grows b' := by
  unfold emitInstance
  refine ends_of_ok_bind (Layouts.getLayout_eq_ok.2 hl) ?_
  dsimp only
  split
  · rename_i hne
    exact absurd hlen hne
  refine (ends_produce .ptr _).bind fun object b₁ h₁ => ?_
  cases hos : l.outerSlot with
  | none =>
    obtain rfl : outer = none := by simpa [hos] using houter.symm
    exact (ends_emitFields _).bind fun _ _ h₂ => ends_pure (h₁.trans h₂)
  | some slot =>
    obtain ⟨link, rfl⟩ : ∃ link, outer = some link := Option.isSome_iff_exists.1 (by rw [← houter, hos]; rfl)
    exact ends_storeSlot fun b₂ h₂ =>
      (ends_emitFields _).bind fun _ _ h₃ => ends_pure (h₁.trans (h₂.trans h₃))

theorem ends_emitParams {l : Layout} {frame : ValueId} {arrived : List (VarId × ValueId)}
    (h : ∀ x ∈ arrived, n.captures.isCaptured x.1 = true → ∃ slot, l.slotOf? x.1 = some slot) :
    (n.emitParams l frame arrived).Ends b none fun _ b' => b.Grows b' := by
  induction arrived generalizing b with
  | nil => exact ends_pure (.refl _)
  | cons arrival arrived ih =>
    obtain ⟨x, value⟩ := arrival
    obtain ⟨hx, hrest⟩ := List.forall_mem_cons.1 h
    rw [emitParams]
    by_cases hcap : n.captures.isCaptured x = true
    · obtain ⟨slot, hslot⟩ := hx hcap
      simp only [hcap, if_true, hslot]
      exact ends_storeSlot fun b' hg => (ih hrest).imp fun _ _ h => hg.trans h
    · simp only [hcap, Bool.false_eq_true, if_false]
      exact (ih hrest).imp fun _ _ h => h

/-- A hidden argument is found in one way for calls and constructions. -/
theorem ends_context {context : ContextArgument} {defect : Defect} (hne : context ≠ .receiver)
    (hstart : ∀ chain, context = .chain chain → ∃ start, chainStart v chain.start = .ok start) :
    Ends (match context with
      | .none => return none
      | .null => some <$> (FunctionBuilder.null : Emit ValueId)
      | .chain chain => some <$> emitChain v chain
      | .receiver => throw defect) b none fun r b' => b.Grows b' ∧ (r = none ↔ context = .none) := by
  cases context with
  | none => exact ends_pure ⟨.refl _, by simp⟩
  | null => exact (ends_produce .ptr _).map fun _ _ h => ⟨h, by simp⟩
  | chain chain =>
    obtain ⟨start, hstart⟩ := hstart chain rfl
    exact (ends_emitChain hstart).map fun _ _ h => ⟨h, by simp⟩
  | receiver => exact absurd rfl hne

/-- The prologue runs through where the tables have what the function's frame needs. -/
theorem ends_enterFunction {decl : DeclId} {incoming : Option ValueId} {arrived : List (VarId × ValueId)}
    (h : n.captures.isFrameNeeded decl = true → ∃ l kind, n.layouts.layout? decl = some l ∧
      n.plan.kind? decl = some kind ∧ (l.parentSlot.isSome = true → incoming.isSome = true) ∧
      ∀ x ∈ arrived, n.captures.isCaptured x.1 = true → ∃ slot, l.slotOf? x.1 = some slot) :
    (n.enterFunction decl incoming arrived).Ends b none fun _ b' => b.Grows b' := by
  unfold enterFunction
  by_cases hf : n.captures.isFrameNeeded decl = true
  swap
  · simp only [hf, Bool.not_false, if_true]
    exact ends_pure (.refl _)
  obtain ⟨l, kind, hl, hk, hlinked, hslots⟩ := h hf
  simp only [hf, Bool.not_true, Bool.false_eq_true, if_false]
  refine ends_of_ok_bind (Layouts.getLayout_eq_ok.2 hl) ?_
  simp only [hk]
  refine (ends_produce .ptr _).bind fun frame b₁ h₁ => ?_
  have hrest : ∀ b₂, b₁.Grows b₂ → Ends (do
      n.emitParams l frame arrived
      return ({ decl, frame := some frame, incoming } : Vantage)) b₂ none fun _ b' => b.Grows b' :=
    fun b₂ h₂ => (ends_emitParams hslots).bind fun _ _ h₃ => ends_pure (h₁.trans (h₂.trans h₃))
  cases hps : l.parentSlot with
  | none => exact hrest b₁ (.refl _)
  | some slot =>
    obtain ⟨parent, rfl⟩ := Option.isSome_iff_exists.1 (hlinked (by rw [hps]; rfl))
    exact ends_storeSlot hrest

/-- A frame links to a context only if its function is nested. -/
theorem Built.isSome_parent_of_parentSlot {policy : FramePolicy} (hn : n.Built policy) {id : DeclId}
    {l : Layout} (hl : n.layouts.layout? id = some l) (hlink : l.parentSlot.isSome = true) :
    (n.program.parent? id).isSome = true := by
  have hof := hn.layout_of hl
  generalize l.struct = struct at hof
  cases hof with
  | @frame decl function summary slots hd =>
    cases hparent : decl.parent with
    | none => simp [hparent] at hlink
    | some parent => simp [Program.parent?, hd, hparent]
  | aggregate => cases hlink

/-- Every function with a frame has a place for it. -/
theorem Built.exists_kind {policy : FramePolicy} (hn : n.Built policy) {id : DeclId} {l : Layout}
    (hl : n.layouts.layout? id = some l) (hf : n.program.isFunction id = true) :
    ∃ kind, n.plan.kind? id = some kind := by
  have howner : id ∈ (n.layouts.layouts.toList.map Layout.owner).filter n.program.isFunction := by
    refine List.mem_filter.2 ⟨List.mem_map.2 ⟨l, ?_, (hn.layout_of hl).owner_eq⟩, hf⟩
    have := List.mem_of_find?_eq_some hl
    rwa [List.mem_reverse] at this
  unfold FramePlan.kind?
  rw [hn.plan_eq]
  cases hfind : (FramePlan.of n.program n.layouts policy).frames.find? (·.1 == id) with
  | some found => exact ⟨found.2, rfl⟩
  | none =>
    rw [List.find?_eq_none] at hfind
    refine absurd ?_ (hfind (id, FramePlan.kindOf n.program n.layouts policy id)
      (List.mem_map.2 ⟨id, List.mem_eraseDups.2 howner, rfl⟩))
    simp

end Nesting

/-! ## The prologue -/

/-- What arrives are parameters. -/
theorem ParamsCode.arrived {n : Nesting} {first index : Nat} {params : List VarId} {σ σ' : Regs}
    {code : List Inst} {arrived : List (VarId × ValueId)} {locals : List (VarId × LocalId)}
    (h : ParamsCode n first index params σ code arrived locals σ') : ∀ x ∈ arrived, x.1 ∈ params := by
  induction h with
  | nil => nofun
  | captured _ _ _ ih =>
    exact List.forall_mem_cons.2 ⟨List.mem_cons_self, fun x hx => List.mem_cons_of_mem _ (ih x hx)⟩
  | «local» _ _ ih => exact fun x hx => List.mem_cons_of_mem _ (ih x hx)

end StaticChain
