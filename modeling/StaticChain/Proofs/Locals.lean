import StaticChain.Proofs.Regions

/-!
# The locals of a body

A variable that is not captured has a local. The caller of a function fills the first locals, with the context
and the arguments; parameters that are not captured stay there, captured ones are read into values
(`ParamsCode`), and every other variable that is not captured gets a local of its own (`LocalsBound`).
`BodyLocals` says where the variables are when the body starts.
-/

namespace StaticChain

open Lir (ValueId LocalId Inst Ty)

section

variable {n : Nesting} {σ σ' : Regs} {code : List Inst}

theorem IncomingCode.le {linked : Bool} {incoming : Option ValueId}
    (h : IncomingCode linked σ code incoming σ') : σ.Le σ' ∧ σ'.locals = σ.locals := by
  cases h with
  | none => exact ⟨.refl _, rfl⟩
  | some => exact ⟨σ.le_value _, rfl⟩

theorem ParamsCode.locals_eq {first index : Nat} {params : List VarId} {arrived : List (VarId × ValueId)}
    {locals : List (VarId × LocalId)} (h : ParamsCode n first index params σ code arrived locals σ') :
    σ'.locals = σ.locals := by
  induction h with
  | nil => rfl
  | captured _ _ _ ih => exact ih
  | «local» _ _ ih => exact ih

/-- A parameter is read into a value or keeps its local, and it keeps its place. -/
theorem ParamsCode.mem {first index : Nat} {params : List VarId} {arrived : List (VarId × ValueId)}
    {locals : List (VarId × LocalId)} (h : ParamsCode n first index params σ code arrived locals σ') :
    (∀ x l, (x, l) ∈ locals → n.captures.isCaptured x = false ∧
      ∃ i, params[i]? = some x ∧ l = ⟨index + i + first⟩) ∧
    ∀ x ∈ params, n.captures.isCaptured x = true → ∃ r, (x, r) ∈ arrived := by
  induction h with
  | nil => simp
  | @captured index param rest σ σ' ty code arrived locals hcaptured _ _ ih =>
    refine ⟨fun x l hmem => ?_, fun x hmem hx => ?_⟩
    · obtain ⟨hx, i, hi, rfl⟩ := ih.1 x l hmem
      exact ⟨hx, i + 1, hi, congrArg LocalId.mk (by omega)⟩
    · rcases List.mem_cons.1 hmem with rfl | hmem
      · exact ⟨_, List.mem_cons_self⟩
      · obtain ⟨r, hr⟩ := ih.2 x hmem hx
        exact ⟨r, List.mem_cons_of_mem _ hr⟩
  | @«local» index param rest σ σ' code arrived locals hcaptured _ ih =>
    refine ⟨fun x l hmem => ?_, fun x hmem hx => ?_⟩
    · rcases List.mem_cons.1 hmem with heq | hmem
      · cases heq
        exact ⟨hcaptured, 0, rfl, rfl⟩
      · obtain ⟨hx, i, hi, rfl⟩ := ih.1 x l hmem
        exact ⟨hx, i + 1, hi, congrArg LocalId.mk (by omega)⟩
    · rcases List.mem_cons.1 hmem with rfl | hmem
      · rw [hcaptured] at hx
        cases hx
      · exact ih.2 x hmem hx

/-- A parameter that is not captured keeps its local. -/
theorem ParamsCode.bound {first index : Nat} {params : List VarId} {arrived : List (VarId × ValueId)}
    {locals : List (VarId × LocalId)} (h : ParamsCode n first index params σ code arrived locals σ') {x : VarId} (hx : x ∈ params)
    (hcap : n.captures.isCaptured x = false) : ∃ l, (x, l) ∈ locals := by
  induction h with
  | nil => cases hx
  | captured hcaptured _ _ ih =>
    rcases List.mem_cons.1 hx with rfl | hx
    · simp [hcaptured] at hcap
    · exact ih hx
  | «local» _ _ ih =>
    rcases List.mem_cons.1 hx with rfl | hx
    · exact ⟨_, List.mem_cons_self⟩
    · exact (ih hx).imp fun _ h => List.mem_cons_of_mem _ h

/-- Variables that are not captured get new locals, each its own. -/
theorem LocalsBound.mem {xs : List VarId} {locals : List (VarId × LocalId)}
    (h : LocalsBound n xs σ locals σ') :
    (σ'.values = σ.values ∧ σ.locals.size ≤ σ'.locals.size) ∧
    (∀ x l, (x, l) ∈ locals → n.captures.isCaptured x = false ∧ x ∈ xs ∧
      σ.locals.size ≤ l.index ∧ l.index < σ'.locals.size) ∧
    ∀ x y l, (x, l) ∈ locals → (y, l) ∈ locals → x = y := by
  induction h with
  | nil => simp
  | @captured x rest σ σ' locals _ _ ih =>
    refine ⟨ih.1, fun y l hmem => ?_, ih.2.2⟩
    obtain ⟨hy, hmem, hlt⟩ := ih.2.1 y l hmem
    exact ⟨hy, List.mem_cons_of_mem _ hmem, hlt⟩
  | @«local» x rest σ σ' locals var ty hx _ _ _ ih =>
    obtain ⟨⟨hvalues, hle⟩, hmem, hinj⟩ := ih
    simp only [Regs.addLocal_values, Regs.addLocal_locals, Array.size_push] at hvalues hle hmem
    refine ⟨⟨hvalues, by omega⟩, ?_, ?_⟩
    · intro y l hy
      rcases List.mem_cons.1 hy with heq | hy
      · cases heq
        exact ⟨hx, by simp, Nat.le_refl _, by simp only [Regs.nextLocal]; omega⟩
      · obtain ⟨hcaptured, hrest, hge, hlt⟩ := hmem y l hy
        exact ⟨hcaptured, List.mem_cons_of_mem _ hrest, by omega, hlt⟩
    · intro y z l hy hz
      rcases List.mem_cons.1 hy with heq | hy <;> rcases List.mem_cons.1 hz with heq' | hz
      · cases heq
        cases heq'
        rfl
      · cases heq
        have := (hmem z _ hz).2.2.1
        simp only [Regs.nextLocal] at this
        omega
      · cases heq'
        have := (hmem y _ hy).2.2.1
        simp only [Regs.nextLocal] at this
        omega
      · exact hinj y z l hy hz

theorem LocalsBound.bound {xs : List VarId} {locals : List (VarId × LocalId)}
    (h : LocalsBound n xs σ locals σ') {x : VarId} (hx : x ∈ xs)
    (hcap : n.captures.isCaptured x = false) : ∃ l, (x, l) ∈ locals := by
  induction h with
  | nil => cases hx
  | captured hcaptured _ ih =>
    rcases List.mem_cons.1 hx with rfl | hx
    · simp [hcaptured] at hcap
    · exact ih hx
  | «local» _ _ _ _ ih =>
    rcases List.mem_cons.1 hx with rfl | hx
    · exact ⟨_, List.mem_cons_self⟩
    · exact (ih hx).imp fun _ h => List.mem_cons_of_mem _ h

end

theorem mem_of_lookup {locals : List (VarId × LocalId)} {x : VarId} {l : LocalId}
    (h : locals.lookup x = some l) : (x, l) ∈ locals := by
  obtain ⟨l₁, l₂, rfl, -⟩ := List.lookup_eq_some_iff.1 h
  simp

theorem exists_lookup_of_mem {locals : List (VarId × LocalId)} {x : VarId} {l : LocalId} (h : (x, l) ∈ locals) :
    ∃ l', locals.lookup x = some l' := by
  cases hl : locals.lookup x with
  | none => exact absurd (List.lookup_eq_none_iff.1 hl _ h) (by simp)
  | some l' => exact ⟨l', rfl⟩

/-- Where the variables of a body are that are not captured: the parameters stay where the caller puts them,
and each of the others has a local of its own after these. -/
structure BodyLocals (n : Nesting) (first : Nat) (params others : List VarId) (σ σ' : Regs)
    (locals : List (VarId × LocalId)) : Prop where
  size_eq : σ.locals.size = params.length + first
  le : σ.locals.size ≤ σ'.locals.size
  place : ∀ x l, (x, l) ∈ locals → n.captures.isCaptured x = false ∧
    ((∃ i, params[i]? = some x ∧ l = ⟨i + first⟩) ∨
      (x ∈ others ∧ σ.locals.size ≤ l.index ∧ l.index < σ'.locals.size))
  inj : ∀ x y l, (x, l) ∈ locals → (y, l) ∈ locals → x = y
  bound : ∀ x ∈ params ++ others, n.captures.isCaptured x = false → ∃ l, (x, l) ∈ locals

namespace BodyLocals

variable {n : Nesting} {first : Nat} {params others : List VarId} {σ σ' : Regs}
  {locals : List (VarId × LocalId)} {x : VarId} {l : LocalId}

theorem param_lt (h : BodyLocals n first params others σ σ' locals) {i : Nat}
    (hx : params[i]? = some x) : i + first < σ.locals.size := by
  have hi := (List.getElem?_eq_some_iff.1 hx).1
  rw [h.size_eq]
  omega

theorem lt (h : BodyLocals n first params others σ σ' locals) (hx : (x, l) ∈ locals) :
    l.index < σ'.locals.size := by
  rcases (h.place x l hx).2 with ⟨i, hi, rfl⟩ | ⟨-, -, hlt⟩
  · exact Nat.lt_of_lt_of_le (h.param_lt hi) h.le
  · exact hlt

theorem mem (h : BodyLocals n first params others σ σ' locals) (hx : (x, l) ∈ locals) :
    x ∈ params ++ others := by
  rcases (h.place x l hx).2 with ⟨i, hi, -⟩ | ⟨hmem, -⟩
  · exact List.mem_append_left _ (List.mem_of_getElem? hi)
  · exact List.mem_append_right _ hmem

/-- What is written before a body places its variables. -/
theorem of_prologue {p : Program} {linked : Bool} {tys : List Ty} {incoming : Option ValueId}
    {arrived : List (VarId × ValueId)} {paramLocals : List (VarId × LocalId)} {σ₁ : Regs} {c₁ c₂ : List Inst}
    (htys : ParamTypes p params tys)
    (hincoming : IncomingCode linked ⟨#[], ((if linked then [Ty.ptr] else []) ++ tys).toArray⟩ c₁ incoming σ₁)
    (hparams : ParamsCode n linked.toNat 0 params σ₁ c₂ arrived paramLocals σ)
    (hothers : LocalsBound n others σ locals σ') :
    BodyLocals n linked.toNat params others σ σ' (paramLocals ++ locals) := by
  have hsize : σ.locals.size = params.length + linked.toNat := by
    rw [hparams.locals_eq, hincoming.le.2, htys.length_eq]
    cases linked <;> simp
  obtain ⟨⟨-, hle⟩, hplace, hinj⟩ := hothers.mem
  have hparam : ∀ x l, (x, l) ∈ paramLocals → n.captures.isCaptured x = false ∧
      ∃ i, params[i]? = some x ∧ l = ⟨i + linked.toNat⟩ ∧ i + linked.toNat < σ.locals.size := by
    intro x l hx
    obtain ⟨hcaptured, i, hi, rfl⟩ := hparams.mem.1 x l hx
    have hlt := (List.getElem?_eq_some_iff.1 hi).1
    exact ⟨hcaptured, i, hi, by simp, by omega⟩
  refine ⟨hsize, hle, fun x l hx => ?_, fun x y l hx hy => ?_, fun x hx hcaptured => ?_⟩
  · rcases List.mem_append.1 hx with hx | hx
    · obtain ⟨hcaptured, i, hi, hl, -⟩ := hparam x l hx
      exact ⟨hcaptured, .inl ⟨i, hi, hl⟩⟩
    · obtain ⟨hcaptured, hplace⟩ := hplace x l hx
      exact ⟨hcaptured, .inr hplace⟩
  · rcases List.mem_append.1 hx with hx | hx <;> rcases List.mem_append.1 hy with hy | hy
    · obtain ⟨-, i, hi, rfl, -⟩ := hparam x l hx
      obtain ⟨-, j, hj, hij, -⟩ := hparam y _ hy
      obtain rfl : i = j := Nat.add_right_cancel (LocalId.mk.inj hij)
      exact Option.some.inj (hi.symm.trans hj)
    · obtain ⟨-, i, -, rfl, hlt⟩ := hparam x l hx
      exact absurd (hplace y _ hy).2.2.1 (Nat.not_le.2 hlt)
    · obtain ⟨-, i, -, rfl, hlt⟩ := hparam y l hy
      exact absurd (hplace x _ hx).2.2.1 (Nat.not_le.2 hlt)
    · exact hinj x y l hx hy
  · rcases List.mem_append.1 hx with hx | hx
    · exact (hparams.bound hx hcaptured).imp fun _ h => List.mem_append_left _ h
    · exact (hothers.bound hx hcaptured).imp fun _ h => List.mem_append_right _ h

end BodyLocals

end StaticChain
