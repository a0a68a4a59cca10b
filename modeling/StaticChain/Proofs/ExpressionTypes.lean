import StaticChain.Proofs.Prologue

/-!
# Lowering gives values of the inferred types

`Program.exprType` reads the type of an expression off declarations; lowering finds a value for it through
locals, slots, chains, closures and results of calls. Whatever tree the check accepts, type-correct or not, both
agree (`lowerExpr_typed`): there is a value just if the type has values, and the value is declared with the
storage of the type.

No induction is needed. What an expression gives back is read off its last instruction, and an operand that has
the wrong type does not change that.
-/

namespace StaticChain

open Lir (ValueId Inst Ty FunctionBuilder)

theorem ValueType.storage?_eq_none_iff {ty : ValueType} : ty.storage? = none ↔ ty = .unit := by
  cases ty <;> simp [storage?]

/-- The result is a value of the storage of the type; there is none if the type has no values. -/
def Regs.Carries (τ : Regs) (r : Option ValueId) (ty : ValueType) : Prop :=
  (r = none ↔ ty = .unit) ∧ ∀ value, r = some value → τ.values[value.index]? = ty.storage?

namespace Regs

variable {σ τ : Regs} {type : ValueType} {ty : Ty}

theorem HasValue.carries {r : ValueId} (h : τ.HasValue r ty) (hs : type.storage? = some ty) :
    τ.Carries (some r) type := by
  refine ⟨⟨nofun, ?_⟩, ?_⟩
  · rintro rfl
    cases hs
  · rintro _ ⟨⟩
    rw [hs]
    exact h

theorem Le.carries (h : (σ.value ty).Le τ) (hs : type.storage? = some ty) : τ.Carries (some σ.next) type :=
  h.next.carries hs

/-- The result of a call is a value just if the callee's result type has values. -/
theorem Le.carries_dest (h : (σ.result type.storage?).Le τ) : τ.Carries (σ.dest type.storage?) type := by
  cases hs : type.storage? with
  | none => exact ⟨⟨fun _ => ValueType.storage?_eq_none_iff.1 hs, fun _ => rfl⟩, nofun⟩
  | some ty =>
    rw [hs] at h
    exact Le.carries h hs

end Regs

theorem Scope.Typed.mono {s : Scope} {p : Program} {v : Vantage} {σ τ : Regs} (h : s.Typed p v σ)
    (hle : σ.Le τ) : s.Typed p v τ where
  vantage := ⟨fun r hr => hle.hasValue (h.vantage.frame r hr), fun r hr => hle.hasValue (h.vantage.incoming r hr)⟩
  locals x l hl ty hty := hle.hasLocal (h.locals x l hl ty hty)

section

variable {s : Scope} {v : Vantage} {policy : FramePolicy} {σ σ' τ : Regs} {code : List Inst}
  (hn : s.nesting.Built policy) (ht : s.Typed s.nesting.program v τ)
include hn

/-- The slot that is found for a variable has the storage type of the variable. -/
theorem Nesting.Built.storage_of_slotOf? {owner : DeclId} {l : Layout}
    (hl : s.nesting.layouts.layout? owner = some l) {x : VarId} {slot : Nat} (hslot : l.slotOf? x = some slot) :
    ∃ var ty, s.nesting.program.var? x = some var ∧ l.slotType? slot = some ty ∧ var.ty.storage? = some ty := by
  obtain ⟨found, hfound, hx⟩ := Layout.kind_of_slotOf? hslot
  obtain ⟨var, hv, hs⟩ := (hn.layout_of hl).storage_of_kind hfound hx
  exact ⟨var, found.ty, hv, by simp [Layout.slotType?, hfound], hs⟩

include ht

theorem ReadCode.carries {x : VarId} {r : ValueId} (h : ReadCode s v x σ code r σ') (hle : σ'.Le τ) :
    ∃ var, s.nesting.program.var? x = some var ∧ τ.Carries (some r) var.ty := by
  cases h with
  | «local» hres hx hty =>
    obtain ⟨rfl, var, hv, -⟩ := Nesting.resolve_eq_local hres
    obtain ⟨ty, hs⟩ := hn.checked.exists_storage hv
    cases (hle.of_value.hasLocal hty).unique (ht.locals _ _ hx ty ⟨var, hv, hs⟩)
    exact ⟨var, hv, hle.carries hs⟩
  | slot hres =>
    obtain ⟨_, l, -, -, hl, -, hslot, hty⟩ := Nesting.resolve_eq_slot hres
    obtain ⟨var, ty, hv, hty', hs⟩ := hn.storage_of_slotOf? hl hslot
    cases hty.symm.trans hty'
    exact ⟨var, hv, hle.carries hs⟩

/-- The value of an expression has the storage of the type that is inferred for it. -/
theorem ExprCode.carries {expr : Expr} {r : Option ValueId} (h : ExprCode s v expr σ code r σ') (hle : σ'.Le τ) :
    ∃ ty, s.nesting.program.exprType expr = .ok ty ∧ τ.Carries r ty := by
  have truth : ∀ (op : BinOp) (lhs rhs : Expr), ∃ ty, s.nesting.program.exprType (.binary op lhs rhs) = .ok ty ∧
      ty.storage? = some .i64 := by
    intro op lhs rhs
    obtain ⟨ty, hty⟩ : ∃ ty, s.nesting.program.HasType (.binary op lhs rhs) ty := ⟨_, rfl⟩
    exact ⟨ty, hty, (Program.isScalar_of_binary hty).storage?_eq⟩
  cases h with
  | int | bool => exact ⟨_, rfl, hle.carries rfl⟩
  | var hread =>
    obtain ⟨var, hv, hr⟩ := hread.carries hn ht hle
    exact ⟨var.ty, Program.hasType_var hv, hr⟩
  | @strict op _ lhs rhs =>
    obtain ⟨ty, hty, hs⟩ := truth op lhs rhs
    exact ⟨ty, hty, hle.carries hs⟩
  | @conjunction op lhs rhs _ _ _ _ _ _ _ _ _ hl hr hlocal =>
    obtain ⟨ty, hty, hs⟩ := truth op lhs rhs
    -- The local that the truth value goes through is the one that was added for it.
    cases ((hl.le.trans hr.le).nextLocal).unique hlocal
    exact ⟨ty, hty, hle.carries hs⟩
  | @disjunction op lhs rhs _ _ _ _ _ _ _ _ _ hl hr hlocal =>
    obtain ⟨ty, hty, hs⟩ := truth op lhs rhs
    cases ((hl.le.trans hr.le.of_value).nextLocal).unique hlocal
    exact ⟨ty, hty, hle.carries hs⟩
  | @unary op => cases op <;> exact ⟨_, rfl, hle.carries rfl⟩
  | call _ _ _ _ hdecl | methodCall _ _ _ hdecl =>
    exact ⟨_, bind_eq_ok.2 ⟨_, Program.getFunction_eq_ok.2 hdecl, rfl⟩, hle.carries_dest⟩
  | new _ _ _ hinstance =>
    cases hinstance with | mk _ _ _ hstores =>
    exact ⟨_, rfl, (hstores.le.trans hle).carries rfl⟩
  | fieldGet _ hslot =>
    obtain ⟨_, l, -, hl, -, hfield, rfl⟩ := Scope.fieldSlot_eq_ok hslot
    obtain ⟨var, ty, hv, hty, hs⟩ := hn.storage_of_slotOf? hl hfield
    refine ⟨var.ty, Program.hasType_fieldGet hv _, hle.carries ?_⟩
    rw [hs, hty, Option.getD_some]
  | this _ hchain => exact ⟨_, rfl, (hchain.typed default none hle ht.vantage).2.carries rfl⟩
  | functionRef hcontext =>
    obtain ⟨⟨function, hf⟩, -⟩ := Nesting.callContext_eq_ok hcontext
    exact ⟨_, hn.checked.functionValueType_eq hf, hle.carries rfl⟩
  | @callValue _ _ ty signature _ _ _ _ _ _ _ hty hsig =>
    cases ty with
    | function params ret =>
      obtain ⟨tys, -, hsig⟩ := bind_eq_ok.1 hsig
      cases pure_eq_ok.1 hsig
      exact ⟨ret, bind_eq_ok.2 ⟨_, hty, rfl⟩, hle.carries_dest⟩
    | _ => cases hsig

end

/-- While the body of a function of an accepted program is lowered, whatever was written of it before, the type of
an expression that is lowered can be inferred. The expression has no value just if its type is the unit type, and
otherwise a value that is declared with the storage of its type. -/
theorem lowerExpr_typed {p : Program} (hp : p.check = .ok ()) {policy : FramePolicy} {n : Nesting}
    (hn : Nesting.of p policy = .ok n) {id : DeclId} {s t : Scope} (hs : s.nesting = n) {b : FunctionBuilder}
    (hb : s.Enters id t b) {expr : Expr} {b₁ b₂ : FunctionBuilder} (hle : b.regs.Le b₁.regs) {r : Option ValueId}
    (h : (t.lowerExpr expr).Gives b₁ r b₂) :
    ∃ ty, p.exprType expr = .ok ty ∧ (r = none ↔ ty = .unit) ∧
      ∀ value, r = some value → b₂.function.valueTypes[value.index]? = ty.storage? := by
  subst hs
  obtain ⟨rfl, hbuilt⟩ := Nesting.built_of_eq_ok (Program.checked_of_check hp) hn
  obtain ⟨v, hv, -, hnesting, htyped⟩ := hb.typed
  obtain ⟨code, σ, hcode, rfl⟩ := Scope.exprCode_of_lowerExpr hv h
  rw [← hnesting] at hbuilt htyped
  rw [← hnesting]
  exact hcode.carries hbuilt (htyped.mono (hle.trans hcode.le)) (.refl _)

/-- The function that keeps the running total adds two to it, in a call whose value is an integer. -/
theorem lowerExpr_typed_tally : ∃ n t b r b', Nesting.of tally .escapeAnalysis = .ok n ∧
    n.scope.Enters ⟨0⟩ t b ∧ (t.lowerExpr (.call ⟨1⟩ [.int 2])).Gives b r b' ∧
      ∃ value, r = some value ∧ b'.function.valueTypes[value.index]? = some .i64 := by
  obtain ⟨n, hn⟩ := exists_of_isOk (show (Nesting.of tally .escapeAnalysis).isOk = true by decide +kernel)
  obtain ⟨hp, hbuilt⟩ := Nesting.built_of_eq_ok (Program.checked_of_check tally_check) hn
  have hnesting : n.scope.nesting.program = tally := by rw [n.scope_nesting, hp]
  obtain ⟨t, b, v, hb, ht, hready, hv⟩ := Scope.exists_enters (n.scope_nesting.symm ▸ hbuilt)
    (hbuilt.exists_function? (hp ▸ tally_childrenDistinct)) (show n.scope.nesting.program.function? ⟨0⟩ = some _ by
      rw [hnesting]; rfl)
  have hends := hready.endsExpr (ht.symm ▸ n.scope_nesting.symm ▸ hbuilt) (.call ⟨1⟩ [.int 2])
    (by rw [ht, hnesting]; rfl) (by rw [ht, hnesting, hv]; decide) b (Nat.le_refl _)
  rw [ht, hnesting, hv] at hends
  obtain ⟨r, b', h, -⟩ := hends
  obtain ⟨ty, hty, hnone, hvalue⟩ := lowerExpr_typed tally_check hn n.scope_nesting hb (.refl _) h
  cases hty
  obtain ⟨value, rfl⟩ : ∃ value, r = some value := Option.ne_none_iff_exists'.1 fun h => nomatch hnone.1 h
  exact ⟨n, t, b, _, b', hn, hb, h, value, rfl, hvalue value rfl⟩

end StaticChain
