import StaticChain.Proofs.Rejection
import StaticChain.Proofs.WellFormed

/-!
# Where the body of a function begins

Before it comes to the body of a function, lowering has numbered the function, read its context and its captured
parameters, given the other variables their locals and made the frame. `Scope.Enters` says with which scope and
which builder the body is lowered then. The scope stays as it is until the function ends, so what is known of it
here is known wherever something of the body is lowered (`Scope.Enters.code`, `Scope.Enters.typed`).
-/

namespace StaticChain

open Lir (ValueId LocalId Inst Ty FunctionBuilder)
open Lir.Emit Lir.FunctionBuilder

namespace Scope

/-- Lowering of the function comes to the body, which it lowers in the scope and with the builder. -/
inductive Enters (s : Scope) (id : DeclId) : Scope → FunctionBuilder → Prop
  | mk {decl : Declaration} {function : FunctionDecl} {b₀ b₁ b₂ : FunctionBuilder} {incoming : Option ValueId}
      {arrived : List (VarId × ValueId)} {locals : List (VarId × LocalId)} {v : Vantage} :
      s.nesting.program.decl? id = some decl → decl.kind = .function function →
      s.reset.startFunction decl function = .ok b₀ →
      (s.reset.bindVariables decl function).Gives b₀ (incoming, arrived, locals) b₁ →
      (s.reset.nesting.enterFunction id incoming arrived).Gives b₁ v b₂ →
      Enters s id { s.reset with locals, current := some v } b₂

variable {s t : Scope} {id : DeclId} {b : FunctionBuilder} {policy : FramePolicy}

/-- A function is lowered by its prologue and then its body. -/
theorem Enters.lowerFunction_eq (h : s.Enters id t b) {function : FunctionDecl}
    (hf : s.nesting.program.function? id = some function) :
    s.lowerFunction id = match (t.lowerBody function).run b with
      | (.error defect, _) => (.error defect, t)
      | (.ok (), b') => (b'.finish, t) := by
  cases h with
  | @mk decl function' b₀ b₁ b₂ incoming arrived locals v hd hk hstart hbind henter =>
  obtain ⟨decl', hd', hk'⟩ := Program.function?_eq_some_iff.1 hf
  cases Option.some.inj (hd.symm.trans hd')
  cases hk.symm.trans hk'
  have hdecls : (do return (← s.nesting.program.getDecl id, ← s.nesting.program.getFunction id)) =
      (.ok (decl, function) : Except Defect _) :=
    bind_eq_ok.2 ⟨decl, Program.getDecl_eq_ok.2 hd, bind_eq_ok.2
      ⟨function, Program.getFunction_eq_ok.2 hf, rfl⟩⟩
  unfold Lir.Emit.Gives at hbind henter
  unfold lowerFunction
  rcases hbody : ({ s.reset with locals, current := some v }.lowerBody function).run b with ⟨_ | _, _⟩ <;>
    simp only [hdecls, hstart, hbind, henter, hbody]

theorem Enters.exists_function (h : s.Enters id t b) :
    ∃ function, s.nesting.program.function? id = some function := by
  cases h with | mk hd hk => exact ⟨_, Program.function?_eq_some_iff.2 ⟨_, hd, hk⟩⟩

/-- The scope of the body is the one that lowering leaves behind. -/
theorem Enters.snd_lowerFunction (h : s.Enters id t b) : (s.lowerFunction id).2 = t := by
  obtain ⟨function, hf⟩ := h.exists_function
  rw [h.lowerFunction_eq hf]
  split <;> rfl

/-- Lowering comes to the body of every function, if the tables are those of the program and all functions have
numbers. Then it has what the body asks for. -/
theorem exists_enters {function : FunctionDecl} (hn : s.nesting.Built policy)
    (hfunctions : ∀ {id}, s.nesting.program.isFunction id = true → ∃ target, s.function? id = some target)
    (hf : s.nesting.program.function? id = some function) :
    ∃ t b v, s.Enters id t b ∧ t.nesting = s.nesting ∧ t.Ready v b.function.locals.size ∧ v.decl = id := by
  obtain ⟨decl, hd, hk⟩ := Program.function?_eq_some_iff.1 hf
  obtain ⟨b₀, incoming, arrived, locals, b₁, v, b₂, hstart, hbind, henter, hready, hv, -⟩ :=
    exists_prologue (s := s.reset) hn hd hk hfunctions
  exact ⟨_, b₂, v, .mk hd hk hstart hbind henter, rfl, hready, hv⟩

/-- What is written before the body, piece by piece, and the registers that are there then. -/
theorem Enters.code (h : s.Enters id t b) : ∃ decl function params incoming arrived paramLocals bodyLocals v,
    ∃ σ₁ σ₂ σ₃ c₁ c₂ c₃, s.nesting.program.decl? id = some decl ∧ decl.kind = .function function ∧
      ParamTypes s.nesting.program function.params params ∧
      IncomingCode decl.parent.isSome
        ⟨#[], ((if decl.parent.isSome then [Ty.ptr] else []) ++ params).toArray⟩ c₁ incoming σ₁ ∧
      ParamsCode s.nesting decl.parent.isSome.toNat 0 function.params σ₁ c₂ arrived paramLocals σ₂ ∧
      LocalsBound s.nesting (decl.locals.drop function.params.length) σ₂ bodyLocals σ₃ ∧
      EnterCode s.nesting id incoming arrived σ₃ c₃ v b.regs ∧
      t = { s.reset with locals := paramLocals ++ bodyLocals, current := some v } := by
  cases h with
  | @mk decl function b₀ b₁ b₂ incoming arrived locals v hd hk hstart hbind henter =>
  obtain ⟨target, params, -, hparams, rfl⟩ := startFunction_eq_ok hstart
  obtain ⟨c₁, c₂, σ₁, σ₂, σ₃, paramLocals, bodyLocals, hc₁, hc₂, hσ₃, rfl, rfl⟩ := gives_bindVariables hbind
  obtain ⟨c₃, σ₄, hc₃, rfl⟩ := Nesting.enterCode_of_enterFunction hc₂.isCaptured henter
  exact ⟨decl, function, params, incoming, arrived, paramLocals, bodyLocals, v, σ₁, σ₂, σ₃, c₁, c₂, c₃, hd, hk,
    hparams, hc₁, hc₂, hσ₃, hc₃, rfl⟩

/-- The pointers that chains start at and the locals of variables have their types. -/
theorem Enters.typed (h : s.Enters id t b) : ∃ v, t.current = some v ∧ v.decl = id ∧ t.nesting = s.nesting ∧
    t.Typed s.nesting.program v b.regs := by
  obtain ⟨decl, function, params, incoming, arrived, paramLocals, bodyLocals, v, σ₁, σ₂, σ₃, c₁, c₂, c₃, hd, hk,
    hparams, hincoming, hparamsCode, hlocals, henter, rfl⟩ := h.code
  have hle₃ := henter.le
  have hle₂ := hlocals.le.trans hle₃
  have hle₁ := hparamsCode.le.trans hle₂
  have hfirst : (if decl.parent.isSome then [Ty.ptr] else []) ++ params <+: b.regs.locals.toList :=
    (hincoming.le.1.trans hle₁).locals_start
  obtain ⟨-, -, hparamLocals⟩ := hparamsCode.typed default none hle₂ fun i x hx =>
    localHolds_of_callParams hparams hfirst hx
  have hbodyLocals := hlocals.typed hle₃
  refine ⟨v, rfl, by cases henter <;> rfl, rfl, ?_, fun x l hx => ?_⟩
  · refine henter.vantage_typed (.refl _) (hincoming.typed default none hle₁ fun hsome => ?_).2
    have hget : ((if decl.parent.isSome then [Ty.ptr] else []) ++ params).toArray[0]? = some .ptr := by
      simp [hsome]
    exact Regs.getElem?_of_isPrefix hfirst hget
  · rcases List.mem_append.1 (mem_of_lookup hx) with hmem | hmem
    · exact hparamLocals x l hmem
    · exact hbodyLocals x l hmem

end Scope

end StaticChain
