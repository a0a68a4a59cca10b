import StaticChain.Proofs.Lowered
import StaticChain.Proofs.Roles

/-!
# Lowered code respects roles

Values and locals are numbered in the order in which they are written, so their roles can be chosen
one after the other: `Assigns σ σ' P` says that those from `σ` to `σ'` can be given roles such that
`P` holds whatever comes later. Each relation of `StaticChain.Proofs.Code` assigns roles that its code
respects, and together they give roles to a whole function (`FunctionCode.exists_roles`).
-/

namespace StaticChain

open Lir (ValueId LocalId FunctionId StructId AllocKind Inst Ty)

/-- The roles agree on the values and locals that there are so far. -/
def Roles.Agrees (σ : Regs) (Γ Δ : Roles) : Prop :=
  (∀ r : ValueId, r.index < σ.values.size → Γ.ofValue r = Δ.ofValue r) ∧
    ∀ x : LocalId, x.index < σ.locals.size → Γ.ofLocal x = Δ.ofLocal x

/-- Values and locals can be given roles such that something holds. -/
def Assigns (σ σ' : Regs) (P : Roles → Prop) : Prop :=
  σ.values.size ≤ σ'.values.size ∧ σ.locals.size ≤ σ'.locals.size ∧
    ∀ Γ : Roles, ∃ Γ' : Roles, Roles.Agrees σ Γ Γ' ∧ ∀ Δ, Roles.Agrees σ' Γ' Δ → P Δ

namespace Assigns

variable {σ σ₁ σ₂ : Regs} {P Q : Roles → Prop}

theorem done (h : ∀ Δ, P Δ) : Assigns σ σ P :=
  ⟨Nat.le_refl _, Nat.le_refl _, fun Γ => ⟨Γ, ⟨fun _ _ => rfl, fun _ _ => rfl⟩, fun Δ _ => h Δ⟩⟩

theorem imp (h : Assigns σ σ₁ P) (hPQ : ∀ Δ, P Δ → Q Δ) : Assigns σ σ₁ Q := by
  obtain ⟨hv, hl, h⟩ := h
  refine ⟨hv, hl, fun Γ => ?_⟩
  obtain ⟨Γ', hagree, hP⟩ := h Γ
  exact ⟨Γ', hagree, fun Δ hΔ => hPQ Δ (hP Δ hΔ)⟩

theorem andThen (h₁ : Assigns σ σ₁ P) (h₂ : Assigns σ₁ σ₂ Q) :
    Assigns σ σ₂ fun Δ => P Δ ∧ Q Δ := by
  obtain ⟨hv₁, hl₁, h₁⟩ := h₁
  obtain ⟨hv₂, hl₂, h₂⟩ := h₂
  refine ⟨Nat.le_trans hv₁ hv₂, Nat.le_trans hl₁ hl₂, fun Γ => ?_⟩
  obtain ⟨Γ₁, ⟨hav₁, hal₁⟩, hP⟩ := h₁ Γ
  obtain ⟨Γ₂, ⟨hav₂, hal₂⟩, hQ⟩ := h₂ Γ₁
  refine ⟨Γ₂, ⟨?_, ?_⟩, ?_⟩
  · intro r hr
    rw [hav₁ r hr, hav₂ r (by omega)]
  · intro x hx
    rw [hal₁ x hx, hal₂ x (by omega)]
  · rintro Δ ⟨hΔv, hΔl⟩
    refine ⟨hP Δ ⟨?_, ?_⟩, hQ Δ ⟨hΔv, hΔl⟩⟩
    · intro r hr
      rw [hav₂ r hr, hΔv r (by omega)]
    · intro x hx
      rw [hal₂ x hx, hΔl x (by omega)]

/-- A new value can be given any role. -/
theorem value (role : Role) (ty : Ty) :
    Assigns σ (σ.value ty) fun Δ => Δ.ofValue σ.next = role := by
  refine ⟨by simp, Nat.le_refl _, fun Γ => ?_⟩
  refine ⟨⟨Function.update Γ.ofValue σ.next role, Γ.ofLocal⟩, ⟨?_, fun _ _ => rfl⟩, ?_⟩
  · intro r hr
    have hne : r ≠ σ.next := by
      rintro rfl
      simp [Regs.next] at hr
    simp [hne]
  · rintro Δ ⟨hΔ, -⟩
    rw [← hΔ σ.next (by simp [Regs.next])]
    simp

/-- The result of a call can be given any role. -/
theorem result (role : Role) (ret : Option Ty) :
    Assigns σ (σ.result ret) fun Δ => ∀ d, σ.dest ret = some d → Δ.ofValue d = role := by
  cases ret with
  | none => exact done (by simp [Regs.dest])
  | some ty =>
    refine (value role ty).imp ?_
    intro Δ h d hd
    cases hd
    exact h

/-- A new local can be given any role. -/
theorem addLocal (role : Role) (ty : Ty) :
    Assigns σ (σ.addLocal ty) fun Δ => Δ.ofLocal σ.nextLocal = role := by
  refine ⟨Nat.le_refl _, by simp, fun Γ => ?_⟩
  refine ⟨⟨Γ.ofValue, Function.update Γ.ofLocal σ.nextLocal role⟩, ⟨fun _ _ => rfl, ?_⟩, ?_⟩
  · intro x hx
    have hne : x ≠ σ.nextLocal := by
      rintro rfl
      simp [Regs.nextLocal] at hx
    simp [hne]
  · rintro Δ ⟨-, hΔ⟩
    rw [← hΔ σ.nextLocal (by simp [Regs.nextLocal])]
    simp

end Assigns

/-- The frame and the context of an activation have their roles. -/
structure Vantage.Placed (n : Nesting) (v : Vantage) (Δ : Roles) : Prop where
  frame : ∀ r, v.frame = some r → Δ.ofValue r = .context (some v.decl)
  incoming : ∀ r, v.incoming = some r → Δ.ofValue r = .context (n.above v.decl)

/-- Where a chain starts has its role. -/
theorem Vantage.Placed.start {n : Nesting} {v : Vantage} {Δ : Roles} (h : v.Placed n Δ) {id : DeclId}
    (hid : v.decl = id) {start : Chain.Start} {r : ValueId}
    (hstart : Nesting.chainStart v start = .ok r) : Δ.ofValue r = .context (n.startOf id start) := by
  subst hid
  obtain ⟨rfl, hframe⟩ | ⟨rfl, hincoming⟩ := Nesting.chainStart_eq_ok.1 hstart
  · exact h.frame r hframe
  · exact h.incoming r hincoming

/-- What code finds when it starts has its roles: frame, context and the locals of variables. -/
structure Scope.Placed (n : Nesting) (s : Scope) (v : Vantage) (Δ : Roles) : Prop where
  vantage : v.Placed n Δ
  locals : ∀ id x, s.locals.lookup id = some x → Δ.ofLocal x = .value (n.program.varType id)

section

variable {n : Nesting} {policy : FramePolicy} (hn : n.Built policy) (strict : Prop)
  (ret : ValueType) {v : Vantage} {σ σ' : Regs} {code : List Inst}
include hn

/-! ## Chains and contexts -/

theorem HopsCode.assigns {carrier : Option DeclId} {hops : List Chain.Hop} {target : DeclId}
    {pointer r : ValueId} (ht : n.HopsTo carrier hops target)
    (h : HopsCode σ pointer hops code r σ') :
    Assigns σ σ' fun Δ => Δ.ofValue pointer = .context carrier →
      CodeOk n strict ret Δ code ∧ Δ.ofValue r = .context (some target) := by
  induction h generalizing carrier with
  | nil =>
    cases ht
    exact .done fun Δ hp => ⟨.nil, hp⟩
  | @cons σ σ' pointer r hop hops code _ ih =>
    cases ht with
    | @cons through _ _ _ hhop hrest =>
      obtain ⟨l, hl, hstruct, hlink⟩ := Nesting.hop_eq_ok hhop
      refine ((Assigns.value (.address through hop.slot) .ptr).andThen
        ((Assigns.value (.context (n.above through)) .ptr).andThen (ih hrest))).imp ?_
      rintro Δ ⟨haddr, hnext, hcode⟩ hp
      obtain ⟨hcode, hr⟩ := hcode hnext
      refine ⟨?_, hr⟩
      rw [hstruct]
      refine .inst (.fieldAddr hl ?_ haddr) (.inst (.load haddr (hn.slotRole?_link hl hlink)
        (hn.slotTy?_link hl hlink) hnext) hcode)
      rw [hp]
      exact .refl _

theorem ChainCode.assigns {chain : Chain} {target : DeclId} {r : ValueId}
    (hc : n.chainTo v.decl target = .ok chain) (h : ChainCode v chain σ code r σ') :
    Assigns σ σ' fun Δ => v.Placed n Δ →
      CodeOk n strict ret Δ code ∧ Δ.ofValue r = .context (some target) := by
  cases h with | mk hstart hhops
  refine (HopsCode.assigns hn strict ret (hn.hopsTo_of_chainTo hc) hhops).imp ?_
  intro Δ himp hv
  exact himp (hv.start rfl hstart)

theorem ContextCode.assigns {decl : DeclId} {context : ContextArgument} {hidden : Option ValueId}
    (hc : n.ContextFor v.decl decl context) (h : ContextCode v context σ code hidden σ') :
    Assigns σ σ' fun Δ => v.Placed n Δ → CodeOk n strict ret Δ code ∧
      ∃ r, hidden = some r ∧ Δ.ofValue r = .context (n.above decl) := by
  cases hc with
  | null habove =>
    cases h
    refine (Assigns.value (.context Option.none) .ptr).imp ?_
    intro Δ hr _
    exact ⟨.single (.null hr), _, rfl, by rw [hr, habove]⟩
  | chain habove hchain =>
    obtain ⟨⟩ | ⟨⟩ | hcode := h
    refine (ChainCode.assigns hn strict ret hchain hcode).imp ?_
    intro Δ himp hv
    obtain ⟨hok, hr⟩ := himp hv
    exact ⟨hok, _, rfl, by rw [hr, habove]⟩

/-- The hidden argument of a call has the role that the callee asks for. -/
theorem ContextCode.assigns_call {function : DeclId} {context : ContextArgument}
    {hidden : Option ValueId} (hc : n.callContext v.decl function = .ok context)
    (h : ContextCode v context σ code hidden σ') :
    Assigns σ σ' fun Δ => v.Placed n Δ → CodeOk n strict ret Δ code ∧
      List.Forall₂ (fun r role => (Δ.ofValue r).Fits n strict role) hidden.toList
        (if (n.program.parent? function).isSome then [.context (n.above function)] else []) := by
  obtain ⟨-, ⟨rfl, hpar⟩ | rfl | ⟨hpar, hfor⟩⟩ := Nesting.callContext_eq_ok hc
  · cases h
    exact .done fun _ _ => ⟨.nil, by simp [hpar]⟩
  · cases h
  · refine (h.assigns hn strict ret hfor).imp ?_
    intro Δ himp hplaced
    obtain ⟨hcode, r, rfl, hr⟩ := himp hplaced
    refine ⟨hcode, ?_⟩
    simp only [hpar, if_true, Option.toList_some]
    exact .cons (Or.inl hr) .nil

/-- What a new instance is linked to has the role of the context above it. -/
theorem ContextCode.assigns_construction {aggregate : DeclId} {context : ContextArgument}
    {outer : Option ValueId} (hc : n.constructionContext v.decl aggregate = .ok context)
    (h : ContextCode v context σ code outer σ') :
    Assigns σ σ' fun Δ => v.Placed n Δ → CodeOk n strict ret Δ code ∧
      ∀ r, outer = some r → Δ.ofValue r = .context (n.above aggregate) := by
  obtain ⟨_, -, ⟨rfl, -⟩ | ⟨-, hfor⟩⟩ := Nesting.constructionContext_eq_ok hc
  · cases h
    exact .done fun _ _ => ⟨.nil, by simp⟩
  · refine (h.assigns hn strict ret hfor).imp ?_
    intro Δ himp hplaced
    obtain ⟨hcode, r, rfl, hr⟩ := himp hplaced
    refine ⟨hcode, ?_⟩
    rintro _ ⟨⟩
    exact hr

theorem ClosureContextCode.assigns {function : DeclId} {context : ContextArgument} {r : ValueId}
    (hc : n.callContext v.decl function = .ok context)
    (h : ClosureContextCode v context σ code r σ') :
    Assigns σ σ' fun Δ => v.Placed n Δ → CodeOk n strict ret Δ code ∧
      Δ.ofValue r = .context (n.above function) := by
  have hnull : n.above function = Option.none →
      Assigns σ (σ.value .ptr) fun Δ => v.Placed n Δ →
        CodeOk n strict ret Δ [.null σ.next] ∧ Δ.ofValue σ.next = .context (n.above function) := by
    intro habove
    refine (Assigns.value (.context Option.none) .ptr).imp ?_
    intro Δ hr _
    exact ⟨.single (.null hr), by rw [hr, habove]⟩
  obtain ⟨-, ⟨rfl, hpar⟩ | rfl | ⟨-, hfor⟩⟩ := Nesting.callContext_eq_ok hc
  · cases h
    exact hnull (Nesting.Built.above_of_root hpar)
  · cases h
  · cases hfor with
    | null habove =>
      cases h
      exact hnull habove
    | chain habove hchain =>
      obtain ⟨⟩ | ⟨⟩ | hcode := h
      refine (ChainCode.assigns hn strict ret hchain hcode).imp ?_
      intro Δ himp hv
      rw [habove]
      exact himp hv

end

/-! ## Objects -/

section

variable {n : Nesting} {policy : FramePolicy} (hn : n.Built policy) (strict : Prop)
  (ret : ValueType) {v : Vantage} {σ σ' : Regs} {code : List Inst} {owner : DeclId} {l : Layout}

/-- The value of a store has the role of a variable's slot. -/
def SlotStore.Fits (n : Nesting) (strict : Prop) (Δ : Roles) (owner : DeclId) (s : SlotStore) : Prop :=
  ∃ ty, n.slotRole? owner s.slot = some (.value ty) ∧ n.slotTy? owner s.slot = some s.ty ∧
    (Δ.ofValue s.value).Fits n strict (.value ty)

theorem StoresCode.assigns {object : ValueId} {stores : List SlotStore}
    (hl : n.layouts.layout? owner = some l) (h : StoresCode l.struct object σ stores code σ') :
    Assigns σ σ' fun Δ => Δ.ofValue object = .context (some owner) →
      (∀ s ∈ stores, s.Fits n strict Δ owner) → CodeOk n strict ret Δ code := by
  induction h with
  | nil => exact .done fun _ _ _ => .nil
  | @cons σ σ' s stores code _ ih =>
    refine ((Assigns.value (.address owner s.slot) .ptr).andThen ih).imp ?_
    rintro Δ ⟨haddr, hcode⟩ hobject hstores
    obtain ⟨ty, hslot, hty, hfits⟩ := hstores s (by simp)
    refine .inst (.fieldAddr hl ?_ haddr) (.inst (.store haddr hslot hty hfits)
      (hcode hobject fun s hs => hstores s (List.mem_cons_of_mem _ hs)))
    rw [hobject]
    exact .refl _

/-- Code that allocates a carrier, stores its link and fills other slots. -/
theorem StoresCode.assigns_alloc {kind : AllocKind} {link : Option ValueId}
    {stores : List SlotStore} (hl : n.layouts.layout? owner = some l)
    (hkind : kind = .stack → n.plan.kind? owner = some .stack)
    (hlink : l.linkSlot?.isSome = true → link.isSome = true)
    (hheap : l.linkSlot?.isSome = true → kind = .heap → (Role.context (n.above owner)).OnHeap n)
    (h : StoresCode l.struct σ.next (σ.value .ptr) (linkStores l.linkSlot? link ++ stores) code σ') :
    Assigns σ σ' fun Δ => (∀ r, link = some r → Δ.ofValue r = .context (n.above owner)) →
      (∀ s ∈ stores, s.Fits n strict Δ owner) →
      CodeOk n strict ret Δ (.alloc σ.next l.struct kind :: code) ∧
        Δ.ofValue σ.next = .context (some owner) := by
  cases hslot : l.linkSlot? with
  | none =>
    rw [hslot] at h
    simp only [linkStores, List.nil_append] at h
    refine ((Assigns.value (.context (some owner)) .ptr).andThen (h.assigns strict ret hl)).imp ?_
    rintro Δ ⟨hobject, hcode⟩ - hstores
    exact ⟨.inst (.alloc hl hslot hobject hkind) (hcode hobject hstores), hobject⟩
  | some slot =>
    rw [hslot] at h hlink hheap
    obtain ⟨r, rfl⟩ := Option.isSome_iff_exists.1 (hlink rfl)
    simp only [linkStores, List.singleton_append] at h
    obtain ⟨⟩ | h := h
    refine ((Assigns.value (.context (some owner)) .ptr).andThen
      ((Assigns.value (.address owner slot) .ptr).andThen (h.assigns strict ret hl))).imp ?_
    rintro Δ ⟨hobject, haddr, hcode⟩ hr hstores
    exact ⟨.link ⟨hl, hslot, hkind, hobject, haddr, hr r rfl, hheap rfl⟩ (hcode hobject hstores),
      hobject⟩

theorem exists_of_mem_zip {α β γ : Type} {R : α → β → Prop} {S : γ → α → Prop} {xs : List α}
    {ys : List β} {zs : List γ} (hR : List.Forall₂ R xs ys) (hS : List.Forall₂ S zs xs) {y : β} {z : γ}
    (h : (y, z) ∈ ys.zip zs) : ∃ x, R x y ∧ S z x := by
  induction hR generalizing zs with
  | nil => simp at h
  | cons hxy _ ih =>
    obtain ⟨⟩ | ⟨hzx, hS⟩ := hS
    simp only [List.zip_cons_cons, List.mem_cons, Prod.mk.injEq] at h
    rcases h with ⟨rfl, rfl⟩ | h
    · exact ⟨_, hxy, hzx⟩
    · exact ih hS h

theorem InstanceCode.assigns {aggregate : DeclId} {decl : AggregateDecl} {outer : Option ValueId}
    {fields : List ValueId} {r : ValueId} (hn : n.Built policy)
    (ha : n.program.aggregate? aggregate = some decl)
    (hheap : ∀ l, n.layouts.layout? aggregate = some l → l.outerSlot.isSome = true →
      (Role.context (n.above aggregate)).OnHeap n)
    (h : InstanceCode n aggregate outer fields σ code r σ') :
    Assigns σ σ' fun Δ => (∀ r, outer = some r → Δ.ofValue r = .context (n.above aggregate)) →
      List.Forall₂ (fun value x => (Δ.ofValue value).Fits n strict (.value (n.program.varType x)))
        fields decl.fields →
      CodeOk n strict ret Δ code ∧ Δ.ofValue r = .context (some aggregate) := by
  cases h with
  | mk hl hcount houter hstores =>
    rename_i l code
    have hof := hn.layout_of hl
    have hlink := hof.linkSlot_of_isAggregate (Program.isAggregate_iff.2 ⟨decl, ha⟩)
    rw [← hlink] at hstores houter
    have hnot : AllocKind.heap = .stack → n.plan.kind? aggregate = some .stack := by simp
    refine (hstores.assigns_alloc strict ret hl hnot (by simp [houter]) ?_).imp ?_
    · intro hsome _
      exact hheap l hl (hlink ▸ hsome)
    · intro Δ himp hr hfields
      refine himp hr ?_
      intro s hs
      simp only [List.mem_map, Prod.exists] at hs
      obtain ⟨slot, index, value, hmem, rfl⟩ := hs
      obtain ⟨x, ⟨hslot, hkind⟩, hfits⟩ := exists_of_mem_zip (hof.fieldSlots_eq ha) hfields hmem
      simp only at hslot hkind
      refine ⟨_, Nesting.slotRole?_of_kind hl hslot (by rw [hkind]; rfl), ?_, hfits⟩
      simp [Nesting.slotTy?_eq hl, Layout.slotType?, hslot]

end

/-! ## Variables -/

/-- The scope of a function's body: the tables and the numbers of functions are those of the whole
program. -/
structure Scope.Within (n : Nesting) (s : Scope) : Prop where
  nesting_eq : s.nesting = n
  function_eq : ∀ id, s.function? id = n.scope.function? id

section

variable {n : Nesting} {policy : FramePolicy} (hn : n.Built policy) (strict : Prop)
  (ret : ValueType) {s : Scope} (hs : s.Within n) {v : Vantage} {σ σ' : Regs} {code : List Inst}
include hn hs

theorem ReadCode.assigns {id : VarId} {r : ValueId} (h : ReadCode s v id σ code r σ') :
    Assigns σ σ' fun Δ => s.Placed n v Δ →
      CodeOk n strict ret Δ code ∧ Δ.ofValue r = .value (n.program.varType id) := by
  obtain ⟨rfl, -⟩ := hs
  cases h with
  | «local» hres hx hty =>
    rename_i y x ty
    obtain ⟨rfl, -⟩ := Nesting.resolve_eq_local hres
    refine (Assigns.value (.value (s.nesting.program.varType y)) ty).imp ?_
    intro Δ hr hplaced
    refine ⟨.single (.localGet ?_), hr⟩
    rw [hr, hplaced.locals _ _ hx]
  | slot hres hchain =>
    rename_i chain struct slot ty σ₁ code₁ carrier
    obtain ⟨var, l, hv, hc, hl, rfl, hslot, hty⟩ := Nesting.resolve_eq_slot hres
    refine ((ChainCode.assigns hn strict ret hc hchain).andThen
      ((Assigns.value (.address var.owner slot) .ptr).andThen
        (Assigns.value (.value (s.nesting.program.varType id)) ty))).imp ?_
    rintro Δ ⟨hcode, haddr, hr⟩ hplaced
    obtain ⟨hcode, hcarrier⟩ := hcode hplaced.vantage
    refine ⟨hcode.append (.inst (.fieldAddr hl ?_ haddr) (.single (.load haddr
      (Nesting.slotRole?_of_slotOf? hl hslot) ((Nesting.slotTy?_eq hl slot).trans hty) hr))), hr⟩
    rw [hcarrier]
    exact .refl _

theorem WriteCode.assigns {id : VarId} {value : ValueId} (h : WriteCode s v value id σ code σ') :
    Assigns σ σ' fun Δ => s.Placed n v Δ →
      (Δ.ofValue value).Fits n strict (.value (n.program.varType id)) →
      CodeOk n strict ret Δ code := by
  obtain ⟨rfl, -⟩ := hs
  cases h with
  | «local» hres hx =>
    obtain ⟨rfl, -⟩ := Nesting.resolve_eq_local hres
    refine .done ?_
    intro Δ hplaced hfits
    refine .single (.localSet ?_)
    rwa [hplaced.locals _ _ hx]
  | slot hres hchain =>
    rename_i chain struct slot ty σ₁ code₁ carrier
    obtain ⟨var, l, hv, hc, hl, rfl, hslot, hty⟩ := Nesting.resolve_eq_slot hres
    refine ((ChainCode.assigns hn strict ret hc hchain).andThen
      (Assigns.value (.address var.owner slot) .ptr)).imp ?_
    rintro Δ ⟨hcode, haddr⟩ hplaced hfits
    obtain ⟨hcode, hcarrier⟩ := hcode hplaced.vantage
    refine hcode.append (.inst (.fieldAddr hl ?_ haddr) (.single (.store haddr
      (Nesting.slotRole?_of_slotOf? hl hslot) ((Nesting.slotTy?_eq hl slot).trans hty) hfits)))
    rw [hcarrier]
    exact .refl _

end

/-! ## Expressions -/

namespace Nesting

/-- No frame around the use site that the expression keeps is on the stack. -/
def ExprKept (n : Nesting) (useSite : DeclId) (expr : Expr) : Prop :=
  ∀ owner ∈ useSite :: n.program.ancestors useSite,
    expr.any (n.program.keepsFrame n.layouts owner) = true → n.plan.kind? owner ≠ some .stack

/-- No frame around the use site that one of the expressions keeps is on the stack. -/
def ExprsKept (n : Nesting) (useSite : DeclId) (exprs : List Expr) : Prop :=
  ∀ expr ∈ exprs, n.ExprKept useSite expr

variable {n : Nesting} {useSite : DeclId}

theorem ExprKept.of_any {whole part : Expr} (h : n.ExprKept useSite whole)
    (hpart : ∀ P, part.any P = true → whole.any P = true) : n.ExprKept useSite part :=
  fun owner ho hany => h owner ho (hpart _ hany)

theorem ExprKept.args {whole : Expr} {args : List Expr} (h : n.ExprKept useSite whole)
    (hargs : ∀ P, Expr.anyIn P args = true → whole.any P = true) : n.ExprsKept useSite args :=
  fun _ harg => h.of_any fun P hany => hargs P (Expr.anyIn_eq_true.2 ⟨_, harg, hany⟩)

/-- The context for something that keeps the frames around it is not on the stack. -/
theorem ExprKept.onHeap (hp : n.program.Checked) {expr : Expr} {decl : DeclId}
    {context : ContextArgument} (h : n.ExprKept useSite expr)
    (hc : n.ContextFor useSite decl context)
    (hkeeps : ∀ owner, owner ∈ n.program.ancestors decl →
      expr.any (n.program.keepsFrame n.layouts owner) = true) :
    (Role.context (n.above decl)).OnHeap n := by
  intro owner howner
  cases hc with
  | null habove => simp [habove] at howner
  | chain habove hchain =>
    rw [habove] at howner
    cases howner
    exact h _ (mem_of_chainTo hchain) (hkeeps _ (mem_of_above hp habove).1)

/-- What a new instance is linked to is not on the stack. -/
theorem ExprKept.onHeap_new (hp : n.program.Checked) {aggregate : DeclId} {args : List Expr}
    {context : ContextArgument} (h : n.ExprKept useSite (.new aggregate args))
    (hc : n.constructionContext useSite aggregate = .ok context) {l : Layout}
    (hl : n.layouts.layout? aggregate = some l) (hsome : l.outerSlot.isSome = true) :
    (Role.context (n.above aggregate)).OnHeap n := by
  obtain ⟨l', hl', hcases⟩ := constructionContext_eq_ok hc
  cases Option.some.inj (hl.symm.trans hl')
  rcases hcases with ⟨-, hnone⟩ | ⟨-, hfor⟩
  · simp [hnone] at hsome
  · refine h.onHeap hp hfor ?_
    intro owner howner
    simp [Expr.any, Program.keepsFrame, hl, hsome, (Program.isNestedBelow_iff hp).2 howner]

/-- What a function value keeps is not on the stack. -/
theorem ExprKept.onHeap_functionRef {policy : FramePolicy} (hn : n.Built policy) {function : DeclId}
    {context : ContextArgument} (h : n.ExprKept useSite (.functionRef function))
    (hc : n.callContext useSite function = .ok context) (hne : context ≠ .receiver) :
    (Role.context (n.above function)).OnHeap n := by
  obtain ⟨-, ⟨-, hpar⟩ | hreceiver | ⟨-, hfor⟩⟩ := callContext_eq_ok hc
  · simp [Built.above_of_root hpar, Role.OnHeap]
  · exact absurd hreceiver hne
  · refine h.onHeap hn.checked hfor ?_
    intro owner howner
    simp [Expr.any, Program.keepsFrame, (Program.isNestedBelow_iff hn.checked).2 howner]

end Nesting

/-- The value in a register is one of the expression. -/
def Roles.HoldsExpr (n : Nesting) (strict : Prop) (Δ : Roles) (expr : Expr) (r : ValueId) : Prop :=
  ∃ ty, (Δ.ofValue r).Fits n strict (.value ty) ∧ (strict → n.program.HasType expr ty)

namespace Roles.HoldsExpr

variable {n : Nesting} {strict : Prop} {Δ : Roles} {expr : Expr} {r : ValueId} {ty : ValueType}

/-- A value that has the role of the expression's type. -/
theorem of_role (hr : Δ.ofValue r = .value ty) (ht : n.program.HasType expr ty) :
    Δ.HoldsExpr n strict expr r :=
  ⟨ty, .inl hr, fun _ => ht⟩

/-- A pointer to an instance is a value of the instance's type. -/
theorem of_instance {aggregate : DeclId} (hr : Δ.ofValue r = .context (some aggregate))
    (ha : n.program.isAggregate aggregate = true)
    (ht : n.program.HasType expr (.instanceOf aggregate)) : Δ.HoldsExpr n strict expr r := by
  refine ⟨.instanceOf aggregate, ?_, fun _ => ht⟩
  rw [hr]
  exact Role.context_fits_value ha fun _ => rfl

/-- A value of an expression can be put where its type is asked for. -/
theorem fits (h : Δ.HoldsExpr n strict expr r) (ht : strict → n.program.HasType expr ty) :
    (Δ.ofValue r).Fits n strict (.value ty) := by
  obtain ⟨ty', hfits, hty⟩ := h
  exact hfits.value_of fun hst => .inl ((hty hst).unique (ht hst))

theorem fits_var {x : VarId} (h : Δ.HoldsExpr n strict expr r)
    (ht : strict → n.program.TypedAs expr x) :
    (Δ.ofValue r).Fits n strict (.value (n.program.varType x)) := by
  refine h.fits fun hst => ?_
  obtain ⟨var, hv, hty⟩ := ht hst
  rwa [Program.varType_eq hv]

/-- An operand can be taken for a truth value. -/
theorem fits_bool (h : Δ.HoldsExpr n strict expr r) (ht : strict → n.program.ScalarTyped expr) :
    (Δ.ofValue r).Fits n strict (.value .bool) := by
  obtain ⟨ty, hfits, hty⟩ := h
  refine hfits.value_of fun hst => .inr ⟨?_, .inr rfl⟩
  obtain ⟨ty', hty', hscalar⟩ := ht hst
  rwa [(hty hst).unique hty']

/-- An instance can be put where a pointer to its carrier is asked for. -/
theorem fits_context {aggregate : DeclId} (h : Δ.HoldsExpr n strict expr r)
    (ht : strict → n.program.HasType expr (.instanceOf aggregate)) :
    (Δ.ofValue r).Fits n strict (.context (some aggregate)) := by
  obtain ⟨ty, hfits, hty⟩ := h
  exact hfits.context_of fun hst => (hty hst).unique (ht hst)

end Roles.HoldsExpr

theorem Roles.fits_of_hasType {n : Nesting} {strict : Prop} {Δ : Roles} {args : List Expr}
    {rs : List ValueId} {tys : List ValueType} (h : List.Forall₂ (Δ.HoldsExpr n strict) args rs)
    (hlen : tys.length = args.length) (ht : strict → List.Forall₂ n.program.HasType args tys) :
    List.Forall₂ (fun r ty => (Δ.ofValue r).Fits n strict (.value ty)) rs tys := by
  induction h generalizing tys with
  | nil =>
    obtain rfl : tys = [] := by simpa using hlen
    exact .nil
  | cons he _ ih =>
    cases tys with
    | nil => simp at hlen
    | cons ty tys =>
      refine .cons (he.fits fun hst => ?_) (ih (by simpa using hlen) fun hst => ?_)
      · obtain ⟨⟩ | ⟨hty, -⟩ := ht hst
        exact hty
      · obtain ⟨⟩ | ⟨-, ht⟩ := ht hst
        exact ht

/-- An operator that may leave out its right operand gives a truth value. -/
theorem Program.hasType_of_shape (p : Program) {op : BinOp} (lhs rhs : Expr)
    (h : op.shape = .conjunction ∨ op.shape = .disjunction) : p.HasType (.binary op lhs rhs) .bool := by
  cases op <;> simp_all [BinOp.shape, HasType, exprType]

theorem Program.hasType_of_typedAs {p : Program} {args : List Expr} {xs : List VarId}
    (h : List.Forall₂ p.TypedAs args xs) : List.Forall₂ p.HasType args (xs.map p.varType) := by
  refine List.forall₂_map_right_iff.2 (h.imp ?_)
  rintro e x ⟨var, hv, hty⟩
  rwa [varType_eq hv]

/-- The values of arguments have the roles of the variables that they are for. -/
theorem Roles.fits_of_typedAs {n : Nesting} {strict : Prop} {Δ : Roles} {args : List Expr}
    {rs : List ValueId} {xs : List VarId} (h : List.Forall₂ (Δ.HoldsExpr n strict) args rs)
    (hlen : xs.length = args.length) (ht : strict → List.Forall₂ n.program.TypedAs args xs) :
    List.Forall₂ (fun r x => (Δ.ofValue r).Fits n strict (.value (n.program.varType x))) rs xs := by
  have hfits := Roles.fits_of_hasType h (by simpa using hlen) fun hst => Program.hasType_of_typedAs (ht hst)
  rwa [List.forall₂_map_right_iff] at hfits

/-- The code of the expression respects roles, and its result is a value of the expression. -/
def ExprAssigns (n : Nesting) (strict : Prop) (ret : ValueType) (s : Scope) (v : Vantage)
    (expr : Expr) : Prop :=
  ∀ {σ σ' code r}, ExprCode s v expr σ code r σ' → n.program.checkExpr expr = .ok () →
    n.ExprKept v.decl expr → (strict → n.program.ExprTyped expr) →
    Assigns σ σ' fun Δ => s.Placed n v Δ →
      CodeOk n strict ret Δ code ∧ ∀ x, r = some x → Δ.HoldsExpr n strict expr x

section

variable {n : Nesting} {policy : FramePolicy} (hn : n.Built policy) {strict : Prop}
  {ret : ValueType} {s : Scope} (hs : s.Within n) {v : Vantage}

theorem ExprsCode.assigns_of {args : List Expr} (ih : ∀ arg ∈ args, ExprAssigns n strict ret s v arg)
    {σ σ' : Regs} {code : List Inst} {rs : List ValueId} (h : ExprsCode s v args σ code rs σ')
    (hcheck : n.program.checkExprs args = .ok ()) (hkept : n.ExprsKept v.decl args)
    (htyped : strict → n.program.ExprsTyped args) :
    Assigns σ σ' fun Δ => s.Placed n v Δ → CodeOk n strict ret Δ code ∧
      List.Forall₂ (Δ.HoldsExpr n strict) args rs := by
  induction args generalizing σ code rs with
  | nil =>
    cases h
    exact .done fun _ _ => ⟨.nil, .nil⟩
  | cons arg args iha =>
    obtain ⟨⟩ | ⟨harg, hargs⟩ := h
    simp only [Program.checkExprs, then_eq_ok] at hcheck
    refine ((ih arg (by simp) harg hcheck.1 (hkept arg (by simp)) fun hstrict =>
      (htyped hstrict).1).andThen (iha (fun arg ha => ih arg (by simp [ha])) hargs hcheck.2
        (fun arg ha => hkept arg (by simp [ha])) fun hstrict => (htyped hstrict).2)).imp ?_
    rintro Δ ⟨h₁, h₂⟩ hplaced
    obtain ⟨hc₁, hr⟩ := h₁ hplaced
    obtain ⟨hc₂, hrs⟩ := h₂ hplaced
    exact ⟨hc₁.append hc₂, .cons (hr _ rfl) hrs⟩

/-- The arguments of a call have the roles that the callee asks for. -/
theorem Roles.forall₂_calleeRoles {Δ : Roles} {id : DeclId} {function : FunctionDecl}
    {hidden rs : List ValueId}
    (hh : List.Forall₂ (fun r role => (Δ.ofValue r).Fits n strict role) hidden
      (if (n.program.parent? id).isSome then [.context (n.above id)] else []))
    (hr : List.Forall₂ (fun r x => (Δ.ofValue r).Fits n strict (.value (n.program.varType x))) rs
      function.params) :
    List.Forall₂ (fun r role => (Δ.ofValue r).Fits n strict role) (hidden ++ rs)
      (n.calleeRoles id function) := by
  unfold Nesting.calleeRoles
  exact List.rel_append hh (List.forall₂_map_right_iff.2 hr)

namespace ExprAssigns

theorem int (value : Int64) : ExprAssigns n strict ret s v (.int value) := by
  intro σ σ' code r h _ _ _
  cases h
  refine (Assigns.value (.value .int) .i64).imp ?_
  intro Δ hr _
  refine ⟨.single (.const (.inl rfl) hr), ?_⟩
  rintro x ⟨⟩
  exact .of_role hr rfl

theorem bool (value : Bool) : ExprAssigns n strict ret s v (.bool value) := by
  intro σ σ' code r h _ _ _
  cases h
  refine (Assigns.value (.value .bool) .i64).imp ?_
  intro Δ hr _
  refine ⟨.single (.const (.inr rfl) hr), ?_⟩
  rintro x ⟨⟩
  exact .of_role hr rfl

/-! ### Operators -/

theorem unary (op : UnaryOp) {operand : Expr} (ih : ExprAssigns n strict ret s v operand) :
    ExprAssigns n strict ret s v (.unary op operand) := by
  intro σ σ' code r h hcheck hkept htyped
  cases h with | unary ho =>
  obtain ⟨ty, hscalar, hty⟩ := n.program.exists_hasType_unary op operand
  refine ((ih ho hcheck (hkept.of_any fun P hP => by simp [Expr.any, hP]) fun hst =>
    (htyped hst).1).andThen (Assigns.value (.value ty) .i64)).imp ?_
  rintro Δ ⟨h₁, hd⟩ hplaced
  refine ⟨(h₁ hplaced).1.append (.single (.unary hscalar hd)), ?_⟩
  rintro x ⟨⟩
  exact .of_role hd hty

theorem binary (op : BinOp) {lhs rhs : Expr} (ihl : ExprAssigns n strict ret s v lhs)
    (ihr : ExprAssigns n strict ret s v rhs) : ExprAssigns n strict ret s v (.binary op lhs rhs) := by
  intro σ σ' code r h hcheck hkept htyped
  simp only [Program.checkExpr, then_eq_ok] at hcheck
  have hkl : n.ExprKept v.decl lhs := hkept.of_any fun P hP => by simp [Expr.any, hP]
  have hkr : n.ExprKept v.decl rhs := hkept.of_any fun P hP => by simp [Expr.any, hP]
  have htl : strict → n.program.ExprTyped lhs := fun hst => (htyped hst).1
  have htr : strict → n.program.ExprTyped rhs := fun hst => (htyped hst).2.1
  have hsr : strict → n.program.ScalarTyped rhs := fun hst => (htyped hst).2.2.2
  -- The right operand of `and` and `or` goes through a local that holds a truth value.
  cases h with
  | strict _ hl hr =>
    obtain ⟨ty, hty⟩ : ∃ ty, n.program.HasType (.binary op lhs rhs) ty := ⟨_, rfl⟩
    refine ((ihl hl hcheck.1 hkl htl).andThen ((ihr hr hcheck.2 hkr htr).andThen
      (Assigns.value (.value ty) .i64))).imp ?_
    rintro Δ ⟨h₁, h₂, hd⟩ hplaced
    refine ⟨(h₁ hplaced).1.append ((h₂ hplaced).1.append
      (.single (.binary (Program.isScalar_of_binary hty) hd))), ?_⟩
    rintro x ⟨⟩
    exact .of_role hd hty
  | @conjunction _ _ _ _ _ _ _ _ _ y ty hop hl hr =>
    refine ((Assigns.addLocal (.value .bool) .i64).andThen ((ihl hl hcheck.1 hkl htl).andThen
      ((ihr hr hcheck.2 hkr htr).andThen ((Assigns.value (.value .bool) .i64).andThen
        (Assigns.value (.value .bool) ty))))).imp ?_
    rintro Δ ⟨hlocal, h₁, h₂, hzero, hd⟩ hplaced
    obtain ⟨hc₁, -⟩ := h₁ hplaced
    obtain ⟨hc₂, hy⟩ := h₂ hplaced
    refine ⟨hc₁.append (.branch ?_ ?_ (.single (.localGet (hd.trans hlocal.symm)))), ?_⟩
    · exact hc₂.append (.single (.localSet (hlocal ▸ (hy y rfl).fits_bool hsr)))
    · exact .inst (.const (.inr rfl) hzero) (.single (.localSet (Or.inl (hzero.trans hlocal.symm))))
    · rintro x ⟨⟩
      exact .of_role hd (n.program.hasType_of_shape lhs rhs (.inl hop))
  | @disjunction _ _ _ _ _ _ _ _ _ y ty hop hl hr =>
    refine ((Assigns.addLocal (.value .bool) .i64).andThen ((ihl hl hcheck.1 hkl htl).andThen
      ((Assigns.value (.value .bool) .i64).andThen ((ihr hr hcheck.2 hkr htr).andThen
        (Assigns.value (.value .bool) ty))))).imp ?_
    rintro Δ ⟨hlocal, h₁, hone, h₂, hd⟩ hplaced
    obtain ⟨hc₁, -⟩ := h₁ hplaced
    obtain ⟨hc₂, hy⟩ := h₂ hplaced
    refine ⟨hc₁.append (.branch ?_ ?_ (.single (.localGet (hd.trans hlocal.symm)))), ?_⟩
    · exact .inst (.const (.inr rfl) hone) (.single (.localSet (Or.inl (hone.trans hlocal.symm))))
    · exact hc₂.append (.single (.localSet (hlocal ▸ (hy y rfl).fits_bool hsr)))
    · rintro x ⟨⟩
      exact .of_role hd (n.program.hasType_of_shape lhs rhs (.inr hop))

section

include hn hs

/-! ### Variables and fields -/

theorem var (x : VarId) : ExprAssigns n strict ret s v (.var x) := by
  intro σ σ' code r h hcheck _ _
  cases h with | var hread =>
  refine (hread.assigns hn strict ret hs).imp ?_
  intro Δ himp hplaced
  obtain ⟨hcode, hr⟩ := himp hplaced
  refine ⟨hcode, ?_⟩
  rintro _ ⟨⟩
  obtain ⟨var, hv⟩ := Program.checkVar_eq_ok hcheck
  rw [Program.varType_eq hv] at hr
  exact .of_role hr (Program.hasType_var hv)

theorem fieldGet {base : Expr} (field : VarId) (ih : ExprAssigns n strict ret s v base) :
    ExprAssigns n strict ret s v (.fieldGet base field) := by
  intro σ σ' code r h hcheck hkept htyped
  simp only [Program.checkExpr, then_eq_ok] at hcheck
  cases h with | @fieldGet _ _ _ _ _ x _ slot _ hbase hslot =>
  obtain ⟨rfl, -⟩ := hs
  obtain ⟨var, l, hv, hl, rfl, hfield, rfl⟩ := Scope.fieldSlot_eq_ok hslot
  have hinstance : strict → s.nesting.program.HasType base (.instanceOf var.owner) := by
    intro hst
    obtain ⟨-, var', hv', hty⟩ := htyped hst
    cases Option.some.inj (hv.symm.trans hv')
    exact hty
  refine ((ih hbase hcheck.1 (hkept.of_any fun P hP => by simp [Expr.any, hP]) fun hst =>
    (htyped hst).1).andThen ((Assigns.value (.address var.owner slot) .ptr).andThen
      (Assigns.value (.value (s.nesting.program.varType field)) _))).imp ?_
  rintro Δ ⟨h₁, haddr, hd⟩ hplaced
  obtain ⟨hc₁, hx⟩ := h₁ hplaced
  refine ⟨hc₁.append (.inst (.fieldAddr hl ((hx x rfl).fits_context hinstance) haddr)
    (.single (.load haddr (Nesting.slotRole?_of_slotOf? hl hfield)
      (Nesting.slotTy?_of_slotOf? hl hfield) hd))), ?_⟩
  rintro _ ⟨⟩
  rw [Program.varType_eq hv] at hd
  exact .of_role hd (Program.hasType_fieldGet hv base)

/-! ### Instances and function values -/

theorem this (aggregate : DeclId) : ExprAssigns n strict ret s v (.this aggregate) := by
  intro σ σ' code r h hcheck _ _
  simp only [Program.checkExpr, Flaw.excludedBy_eq_ok] at hcheck
  cases h with | this hchain hcode =>
  obtain ⟨rfl, -⟩ := hs
  refine (hcode.assigns hn strict ret hchain).imp ?_
  intro Δ himp hplaced
  obtain ⟨hcode, hr⟩ := himp hplaced.vantage
  refine ⟨hcode, ?_⟩
  rintro _ ⟨⟩
  exact .of_instance hr hcheck rfl

theorem new (aggregate : DeclId) {args : List Expr}
    (ih : ∀ arg ∈ args, ExprAssigns n strict ret s v arg) :
    ExprAssigns n strict ret s v (.new aggregate args) := by
  intro σ σ' code r h hcheck hkept htyped
  simp only [Program.checkExpr, then_eq_ok] at hcheck
  obtain ⟨decl, hdecl, hlen⟩ := Program.checkNew_eq_ok hcheck.1
  cases h with | new hargs hcontext houter hinstance =>
  obtain ⟨rfl, -⟩ := hs
  have htypes : strict → List.Forall₂ s.nesting.program.TypedAs args decl.fields := by
    intro hst
    obtain ⟨-, decl', hdecl', htypes⟩ := htyped hst
    cases Option.some.inj (hdecl.symm.trans hdecl')
    exact htypes
  refine ((hargs.assigns_of ih hcheck.2 (hkept.args fun P hP => by simp [Expr.any, hP]) fun hst =>
    (htyped hst).1).andThen ((houter.assigns_construction hn strict ret hcontext).andThen
      (hinstance.assigns strict ret hn hdecl fun _ => hkept.onHeap_new hn.checked hcontext))).imp ?_
  rintro Δ ⟨h₁, h₂, h₃⟩ hplaced
  obtain ⟨hc₁, hrs⟩ := h₁ hplaced
  obtain ⟨hc₂, hr⟩ := h₂ hplaced.vantage
  obtain ⟨hc₃, hx⟩ := h₃ hr (Roles.fits_of_typedAs hrs hlen htypes)
  refine ⟨hc₁.append (hc₂.append hc₃), ?_⟩
  rintro _ ⟨⟩
  exact .of_instance hx (Program.isAggregate_iff.2 ⟨decl, hdecl⟩) rfl

theorem functionRef (function : DeclId) : ExprAssigns n strict ret s v (.functionRef function) := by
  intro σ σ' code r h _ hkept _
  cases h with | @functionRef _ context _ _ _ _ _ hcontext hcode htarget =>
  obtain ⟨rfl, hfun⟩ := hs
  rw [hfun] at htarget
  obtain ⟨⟨fn, hfn⟩, -⟩ := Nesting.callContext_eq_ok hcontext
  have hne : context ≠ .receiver := by
    rintro rfl
    cases hcode
  refine ((hcode.assigns hn strict ret hcontext).andThen (Assigns.value (.value
    (.function (fn.params.map s.nesting.program.varType) fn.returnType)) .closure)).imp ?_
  rintro Δ ⟨h₁, hd⟩ hplaced
  obtain ⟨hc₁, hx⟩ := h₁ hplaced.vantage
  refine ⟨hc₁.append (.single (.makeClosure htarget hfn hx
    (hkept.onHeap_functionRef hn hcontext hne) hd)), ?_⟩
  rintro _ ⟨⟩
  exact .of_role hd (hn.checked.functionValueType_eq hfn)

/-! ### Calls -/

theorem call (function : DeclId) {args : List Expr}
    (ih : ∀ arg ∈ args, ExprAssigns n strict ret s v arg) :
    ExprAssigns n strict ret s v (.call function args) := by
  intro σ σ' code r h hcheck hkept htyped
  simp only [Program.checkExpr, then_eq_ok] at hcheck
  obtain ⟨fn, hfn, -, hlen⟩ := Program.checkCallee_eq_ok hcheck.1
  cases h with | call hcontext hhidden hargs htarget hdecl =>
  obtain ⟨rfl, hfun⟩ := hs
  rw [hfun] at htarget
  cases Option.some.inj (hfn.symm.trans hdecl)
  have htypes : strict → List.Forall₂ s.nesting.program.TypedAs args fn.params := by
    intro hst
    obtain ⟨-, fn', hfn', htypes⟩ := htyped hst
    cases Option.some.inj (hfn.symm.trans hfn')
    exact htypes
  refine ((hhidden.assigns_call hn strict ret hcontext).andThen ((hargs.assigns_of ih hcheck.2
    (hkept.args fun P hP => by simp [Expr.any, hP]) fun hst => (htyped hst).1).andThen
      (Assigns.result (.value fn.returnType) _))).imp ?_
  rintro Δ ⟨h₁, h₂, hd⟩ hplaced
  obtain ⟨hc₁, hh⟩ := h₁ hplaced.vantage
  obtain ⟨hc₂, hrs⟩ := h₂ hplaced
  have hcall := Roles.forall₂_calleeRoles hh (Roles.fits_of_typedAs hrs hlen htypes)
  refine ⟨hc₁.append (hc₂.append (.single (.call htarget hfn hcall hd))), ?_⟩
  exact fun x hx => .of_role (hd x hx) (Program.hasType_call hfn args)

theorem methodCall {receiver : Expr} (method : DeclId) {args : List Expr}
    (ihr : ExprAssigns n strict ret s v receiver)
    (ih : ∀ arg ∈ args, ExprAssigns n strict ret s v arg) :
    ExprAssigns n strict ret s v (.methodCall receiver method args) := by
  intro σ σ' code r h hcheck hkept htyped
  simp only [Program.checkExpr, then_eq_ok] at hcheck
  obtain ⟨fn, hfn, hmethod, hlen⟩ := Program.checkCallee_eq_ok hcheck.2.1
  obtain ⟨parent, hpar, haggregate⟩ : ∃ parent, n.program.parent? method = some parent ∧
      n.program.isAggregate parent = true := by
    simp only [Program.isMethod, Bool.and_eq_true, Option.any_eq_true] at hmethod
    exact hmethod.2
  cases h with | @methodCall _ _ _ _ _ _ _ _ _ _ x rs hr hargs htarget hdecl =>
  obtain ⟨rfl, hfun⟩ := hs
  rw [hfun] at htarget
  cases Option.some.inj (hfn.symm.trans hdecl)
  have habove : s.nesting.above method = some parent := by
    rw [hn.above_of_parent hpar, if_pos]
    simp [Captures.isCarrier, haggregate]
  have htypes : strict → s.nesting.program.HasType receiver (.instanceOf parent) ∧
      List.Forall₂ s.nesting.program.TypedAs args fn.params := by
    intro hst
    obtain ⟨-, -, fn', parent', hfn', hpar', htypes⟩ := htyped hst
    cases Option.some.inj (hfn.symm.trans hfn')
    cases Option.some.inj (hpar.symm.trans hpar')
    exact htypes
  refine ((ihr hr hcheck.1 (hkept.of_any fun P hP => by simp [Expr.any, hP]) fun hst =>
    (htyped hst).1).andThen ((hargs.assigns_of ih hcheck.2.2
      (hkept.args fun P hP => by simp [Expr.any, hP]) fun hst => (htyped hst).2.1).andThen
        (Assigns.result (.value fn.returnType) _))).imp ?_
  rintro Δ ⟨h₁, h₂, hd⟩ hplaced
  obtain ⟨hc₁, hx⟩ := h₁ hplaced
  obtain ⟨hc₂, hrs⟩ := h₂ hplaced
  have hreceiver : List.Forall₂ (fun r role => (Δ.ofValue r).Fits s.nesting strict role) [x]
      (if (s.nesting.program.parent? method).isSome then
        [.context (s.nesting.above method)] else []) := by
    simpa [hpar, habove] using (hx x rfl).fits_context fun hst => (htypes hst).1
  have hcall := Roles.forall₂_calleeRoles hreceiver
    (Roles.fits_of_typedAs hrs hlen fun hst => (htypes hst).2)
  refine ⟨hc₁.append (hc₂.append (.single (.call htarget hfn hcall hd))), ?_⟩
  exact fun x hx => .of_role (hd x hx) (Program.hasType_methodCall hfn receiver args)

omit hn in
theorem callValue {callee : Expr} {args : List Expr} (ihc : ExprAssigns n strict ret s v callee)
    (ih : ∀ arg ∈ args, ExprAssigns n strict ret s v arg) :
    ExprAssigns n strict ret s v (.callValue callee args) := by
  intro σ σ' code r h hcheck hkept htyped
  simp only [Program.checkExpr, then_eq_ok] at hcheck
  cases h with
  | @callValue _ _ ty signature _ _ _ _ _ x rs hty hsig hcallee hargs =>
  obtain ⟨rfl, -⟩ := hs
  obtain ⟨params, result, rfl⟩ : ∃ params result, ty = .function params result := by
    cases ty with
    | function params result => exact ⟨params, result, rfl⟩
    | _ => simp [ValueType.signature] at hsig
  refine ((ihc hcallee hcheck.1 (hkept.of_any fun P hP => by simp [Expr.any, hP]) fun hst =>
    (htyped hst).1).andThen ((hargs.assigns_of ih hcheck.2
      (hkept.args fun P hP => by simp [Expr.any, hP]) fun hst => (htyped hst).2.1).andThen
        (Assigns.result (.value result) _))).imp ?_
  rintro Δ ⟨h₁, h₂, hd⟩ hplaced
  obtain ⟨hc₁, hx⟩ := h₁ hplaced
  obtain ⟨hc₂, hrs⟩ := h₂ hplaced
  have hclosure := (hx x rfl).fits fun _ => hty
  refine ⟨hc₁.append (hc₂.append (.single
    (.callClosure hclosure (fun _ => rfl) hsig ?_ (fun hst => ?_) hd))), ?_⟩
  · intro arg harg
    obtain ⟨i, hi, rfl⟩ := List.getElem_of_mem harg
    obtain ⟨t, ht, -⟩ := hrs.get (by rw [hrs.length_eq]; exact hi) hi
    exact ⟨t, ht⟩
  · obtain ⟨-, -, params', result', hfun, htypes⟩ := htyped hst
    cases hfun.unique hty
    exact Roles.fits_of_hasType hrs htypes.length_eq.symm fun _ => htypes
  · exact fun x hx => .of_role (hd x hx) (Program.hasType_callValue hty args)

end

end ExprAssigns

include hn hs

theorem exprAssigns (expr : Expr) : ExprAssigns n strict ret s v expr := by
  induction expr using Expr.ind with
  | int value => exact ExprAssigns.int value
  | bool value => exact ExprAssigns.bool value
  | var x => exact ExprAssigns.var hn hs x
  | binary op lhs rhs ihl ihr => exact ExprAssigns.binary op ihl ihr
  | unary op operand ih => exact ExprAssigns.unary op ih
  | call function args ih => exact ExprAssigns.call hn hs function ih
  | methodCall receiver method args ihr ih => exact ExprAssigns.methodCall hn hs method ihr ih
  | new aggregate args ih => exact ExprAssigns.new hn hs aggregate ih
  | fieldGet base field ih => exact ExprAssigns.fieldGet hn hs field ih
  | this aggregate => exact ExprAssigns.this hn hs aggregate
  | functionRef function => exact ExprAssigns.functionRef hn hs function
  | callValue callee args ihc ih => exact ExprAssigns.callValue hs ihc ih

end

/-! ## Statements -/

namespace Nesting

/-- No frame around the use site that the statement keeps is on the stack. -/
def StmtKept (n : Nesting) (useSite : DeclId) (stmt : Stmt) : Prop :=
  ∀ owner ∈ useSite :: n.program.ancestors useSite,
    stmt.any (n.program.keepsFrame n.layouts owner) = true → n.plan.kind? owner ≠ some .stack

/-- No frame around the use site that one of the statements keeps is on the stack. -/
def BlockKept (n : Nesting) (useSite : DeclId) (stmts : List Stmt) : Prop :=
  ∀ stmt ∈ stmts, n.StmtKept useSite stmt

variable {n : Nesting} {useSite : DeclId}

theorem StmtKept.expr {stmt : Stmt} {expr : Expr} (h : n.StmtKept useSite stmt)
    (hexpr : ∀ P, expr.any P = true → stmt.any P = true) : n.ExprKept useSite expr :=
  fun owner ho hany => h owner ho (hexpr _ hany)

theorem StmtKept.block {stmt : Stmt} {block : List Stmt} (h : n.StmtKept useSite stmt)
    (hblock : ∀ P, Stmt.anyIn P block = true → stmt.any P = true) : n.BlockKept useSite block :=
  fun _ hmem owner ho hany => h owner ho (hblock _ (Stmt.anyIn_eq_true.2 ⟨_, hmem, hany⟩))

end Nesting

/-- The code of the statement respects roles. -/
def StmtAssigns (n : Nesting) (strict : Prop) (ret : ValueType) (s : Scope) (v : Vantage)
    (stmt : Stmt) : Prop :=
  ∀ {σ σ' code}, StmtCode s v stmt σ code σ' → n.program.checkStmt v.decl stmt = .ok () →
    n.StmtKept v.decl stmt → (strict → n.program.StmtTyped ret stmt) →
    Assigns σ σ' fun Δ => s.Placed n v Δ → CodeOk n strict ret Δ code

section

variable {n : Nesting} {policy : FramePolicy} (hn : n.Built policy) {strict : Prop}
  {ret : ValueType} {s : Scope} (hs : s.Within n) {v : Vantage}

theorem BlockCode.assigns_of {block : List Stmt} (ih : ∀ stmt ∈ block, StmtAssigns n strict ret s v stmt)
    {σ σ' : Regs} {code : List Inst} (h : BlockCode s v block σ code σ')
    (hcheck : n.program.checkBlock v.decl block = .ok ()) (hkept : n.BlockKept v.decl block)
    (htyped : strict → n.program.BlockTyped ret block) :
    Assigns σ σ' fun Δ => s.Placed n v Δ → CodeOk n strict ret Δ code := by
  induction block generalizing σ code with
  | nil =>
    cases h
    exact .done fun _ _ => .nil
  | cons stmt block ihb =>
    obtain ⟨⟩ | ⟨hstmt, hblock⟩ := h
    simp only [Program.checkBlock, then_eq_ok] at hcheck
    refine ((ih stmt (by simp) hstmt hcheck.1 (hkept stmt (by simp)) fun hst =>
      (htyped hst).1).andThen (ihb (fun stmt hm => ih stmt (by simp [hm])) hblock hcheck.2
        (fun stmt hm => hkept stmt (by simp [hm])) fun hst => (htyped hst).2)).imp ?_
    rintro Δ ⟨h₁, h₂⟩ hplaced
    exact (h₁ hplaced).append (h₂ hplaced)

include hn hs

/-- Code that writes the value of an expression to a variable. -/
theorem WriteCode.assigns_expr {id : VarId} {expr : Expr} {σ σ₁ σ₂ : Regs} {c₁ c₂ : List Inst}
    {r : ValueId} (h : WriteCode s v r id σ₁ c₂ σ₂) (hexpr : ExprCode s v expr σ c₁ (some r) σ₁)
    (hcheck : n.program.checkExpr expr = .ok ()) (hkept : n.ExprKept v.decl expr)
    (htyped : strict → n.program.ExprTyped expr ∧ n.program.TypedAs expr id) :
    Assigns σ σ₂ fun Δ => s.Placed n v Δ → CodeOk n strict ret Δ (c₁ ++ c₂) := by
  have value : ExprAssigns n strict ret s v expr := exprAssigns hn hs expr
  refine ((value hexpr hcheck hkept fun hst => (htyped hst).1).andThen
    (h.assigns hn strict ret hs)).imp ?_
  rintro Δ ⟨h₁, h₂⟩ hplaced
  obtain ⟨hc₁, hr⟩ := h₁ hplaced
  exact hc₁.append (h₂ hplaced ((hr r rfl).fits_var fun hst => (htyped hst).2))

theorem stmtAssigns (stmt : Stmt) : StmtAssigns n strict ret s v stmt := by
  have value : ∀ expr : Expr, ExprAssigns n strict ret s v expr := exprAssigns hn hs
  induction stmt using Stmt.ind with
  | letVar id expr =>
    intro σ σ' code h hcheck hkept htyped
    simp only [Program.checkStmt, then_eq_ok] at hcheck
    cases h with
    | letVar hexpr hwrite =>
    exact hwrite.assigns_expr hn hs hexpr hcheck.2 (hkept.expr fun P hP => by simpa [Stmt.any] using hP)
      htyped
  | assign target expr =>
    intro σ σ' code h hcheck hkept htyped
    simp only [Program.checkStmt, then_eq_ok] at hcheck
    cases h with
    | assignVar hexpr hwrite =>
      exact hwrite.assigns_expr hn hs hexpr hcheck.2
        (hkept.expr fun P hP => by simpa [Stmt.any] using hP) htyped
    | @assignField base field _ _ σ₁ σ₂ c₁ c₂ o r struct slot ty hbase hexpr hslot =>
      obtain ⟨rfl, hfun⟩ := hs
      simp only [Program.checkPlace, then_eq_ok] at hcheck
      obtain ⟨var, l, hv, hl, rfl, hfield, rfl⟩ := Scope.fieldSlot_eq_ok hslot
      refine ((value base hbase hcheck.1.1 (hkept.expr fun P hP => by simp [Stmt.any, hP]) fun hst =>
        (htyped hst).1).andThen ((value expr hexpr hcheck.2 (hkept.expr fun P hP => by
          simp [Stmt.any, hP]) fun hst => (htyped hst).2.1).andThen
            (Assigns.value (.address var.owner slot) .ptr))).imp ?_
      rintro Δ ⟨h₁, h₂, haddr⟩ hplaced
      obtain ⟨hc₁, ho⟩ := h₁ hplaced
      obtain ⟨hc₂, hr⟩ := h₂ hplaced
      refine hc₁.append (hc₂.append (.inst (.fieldAddr hl ((ho o rfl).fits_context fun hst => ?_) haddr)
        (.single (.store haddr (Nesting.slotRole?_of_slotOf? hl hfield)
          (Nesting.slotTy?_of_slotOf? hl hfield) ((hr r rfl).fits_var fun hst => (htyped hst).2.2.2)))))
      obtain ⟨-, -, ⟨var', hv', hty⟩, -⟩ := htyped hst
      cases Option.some.inj (hv.symm.trans hv')
      exact hty
  | expr expr =>
    intro σ σ' code h hcheck hkept htyped
    cases h with
    | expr hexpr =>
    exact (value expr hexpr hcheck (hkept.expr fun P hP => by simpa [Stmt.any] using hP) htyped).imp
      fun Δ himp hplaced => (himp hplaced).1
  | branch condition thenBlock elseBlock iht ihe =>
    intro σ σ' code h hcheck hkept htyped
    simp only [Program.checkStmt, then_eq_ok] at hcheck
    cases h with
    | branch hcond hthen helse =>
    refine ((value condition hcond hcheck.1 (hkept.expr fun P hP => by simp [Stmt.any, hP]) fun hst =>
      (htyped hst).1).andThen ((hthen.assigns_of iht hcheck.2.1 (hkept.block fun P hP => by
        simp [Stmt.any, hP]) fun hst => (htyped hst).2.2.1).andThen (helse.assigns_of ihe hcheck.2.2
          (hkept.block fun P hP => by simp [Stmt.any, hP]) fun hst => (htyped hst).2.2.2))).imp ?_
    rintro Δ ⟨h₁, h₂, h₃⟩ hplaced
    exact (h₁ hplaced).1.append (.branch (h₂ hplaced) (h₃ hplaced) .nil)
  | loop condition body ih =>
    intro σ σ' code h hcheck hkept htyped
    simp only [Program.checkStmt, then_eq_ok] at hcheck
    cases h with
    | loop hcond hbody =>
    refine ((value condition hcond hcheck.1 (hkept.expr fun P hP => by simp [Stmt.any, hP]) fun hst =>
      (htyped hst).1).andThen (hbody.assigns_of ih hcheck.2 (hkept.block fun P hP => by
        simp [Stmt.any, hP]) fun hst => (htyped hst).2.2)).imp ?_
    rintro Δ ⟨h₁, h₂⟩ hplaced
    exact .loop (h₁ hplaced).1 (h₂ hplaced) .nil
  | ret expr =>
    intro σ σ' code h hcheck hkept htyped
    cases h with
    | retNone => exact .done fun _ _ => .single .retNone
    | @ret expr _ _ c₁ r hexpr =>
      refine (value expr hexpr hcheck (hkept.expr fun P hP => by simpa [Stmt.any] using hP) fun hst =>
        (htyped hst).1).imp ?_
      intro Δ himp hplaced
      obtain ⟨hc₁, hr⟩ := himp hplaced
      exact hc₁.append (.single (.ret ((hr r rfl).fits fun hst => (htyped hst).2)))

theorem BlockCode.assigns {block : List Stmt} {σ σ' : Regs} {code : List Inst}
    (h : BlockCode s v block σ code σ') (hcheck : n.program.checkBlock v.decl block = .ok ())
    (hkept : n.BlockKept v.decl block) (htyped : strict → n.program.BlockTyped ret block) :
    Assigns σ σ' fun Δ => s.Placed n v Δ → CodeOk n strict ret Δ code :=
  h.assigns_of (fun stmt _ => stmtAssigns hn hs stmt) hcheck hkept htyped

end

/-! ## Functions -/

section

variable {n : Nesting} {policy : FramePolicy} (strict : Prop) (ret : ValueType)
  {σ σ' : Regs} {code : List Inst}

theorem IncomingCode.assigns (id : DeclId) {linked : Bool} {incoming : Option ValueId}
    (h : IncomingCode linked σ code incoming σ') :
    Assigns σ σ' fun Δ => (linked = true → Δ.ofLocal ⟨0⟩ = .context (n.above id)) →
      CodeOk n strict ret Δ code ∧
        ∀ r, incoming = Option.some r → Δ.ofValue r = .context (n.above id) := by
  cases h with
  | none => exact .done fun _ _ => ⟨.nil, by simp⟩
  | some _ =>
    refine (Assigns.value (.context (n.above id)) _).imp ?_
    intro Δ hr hlocal
    refine ⟨.single (.localGet (hr.trans (hlocal rfl).symm)), ?_⟩
    rintro _ ⟨⟩
    exact hr

theorem ParamsCode.assigns {first index : Nat} {params : List VarId}
    {arrived : List (VarId × ValueId)} {locals : List (VarId × LocalId)}
    (h : ParamsCode n first index params σ code arrived locals σ') :
    Assigns σ σ' fun Δ =>
      (∀ i x, params[i]? = some x → Δ.ofLocal ⟨index + i + first⟩ = .value (n.program.varType x)) →
      CodeOk n strict ret Δ code ∧
        (∀ x r, (x, r) ∈ arrived → Δ.ofValue r = .value (n.program.varType x)) ∧
        ∀ x l, (x, l) ∈ locals → Δ.ofLocal l = .value (n.program.varType x) := by
  induction h with
  | nil => exact .done fun _ _ => ⟨.nil, by simp, by simp⟩
  | @captured index param rest σ σ' ty code arrived locals _ _ _ ih =>
    refine ((Assigns.value (.value (n.program.varType param)) ty).andThen ih).imp ?_
    rintro Δ ⟨hr, himp⟩ hparams
    have hfirst : Δ.ofLocal ⟨index + first⟩ = _ := hparams 0 param rfl
    obtain ⟨hcode, harrived, hlocals⟩ := himp fun i x hx => by
      have := hparams (i + 1) x (by simpa using hx)
      rwa [show index + (i + 1) + first = index + 1 + i + first by omega] at this
    refine ⟨.inst (.localGet (hr.trans hfirst.symm)) hcode, ?_, hlocals⟩
    intro x r hmem
    rcases List.mem_cons.1 hmem with heq | hmem
    · cases heq
      exact hr
    · exact harrived x r hmem
  | @«local» index param rest σ σ' code arrived locals _ _ ih =>
    refine ih.imp ?_
    intro Δ himp hparams
    have hfirst : Δ.ofLocal ⟨index + first⟩ = _ := hparams 0 param rfl
    obtain ⟨hcode, harrived, hlocals⟩ := himp fun i x hx => by
      have := hparams (i + 1) x (by simpa using hx)
      rwa [show index + (i + 1) + first = index + 1 + i + first by omega] at this
    refine ⟨hcode, harrived, ?_⟩
    intro x l hmem
    rcases List.mem_cons.1 hmem with heq | hmem
    · cases heq
      exact hfirst
    · exact hlocals x l hmem

theorem LocalsBound.assigns {xs : List VarId} {locals : List (VarId × LocalId)}
    (h : LocalsBound n xs σ locals σ') :
    Assigns σ σ' fun Δ => ∀ x l, (x, l) ∈ locals → Δ.ofLocal l = .value (n.program.varType x) := by
  induction h with
  | nil => exact .done fun _ => by simp
  | captured _ _ ih => exact ih
  | @«local» x rest σ σ' locals var ty _ _ _ _ ih =>
    refine ((Assigns.addLocal (.value (n.program.varType x)) ty).andThen ih).imp ?_
    rintro Δ ⟨hx, hlocals⟩ y l hmem
    rcases List.mem_cons.1 hmem with heq | hmem
    · cases heq
      exact hx
    · exact hlocals y l hmem

theorem ParamStores.fits {l : Layout} {owner : DeclId} {arrived : List (VarId × ValueId)}
    {stores : List SlotStore} {Δ : Roles} (hl : n.layouts.layout? owner = some l)
    (h : ParamStores l arrived stores)
    (ha : ∀ x r, (x, r) ∈ arrived → Δ.ofValue r = .value (n.program.varType x)) :
    ∀ s ∈ stores, s.Fits n strict Δ owner := by
  induction h with
  | nil => simp
  | @cons x value rest slot stores hslot _ ih =>
    intro s hs
    rcases List.mem_cons.1 hs with rfl | hs
    · exact ⟨_, Nesting.slotRole?_of_slotOf? hl hslot, Nesting.slotTy?_of_slotOf? hl hslot,
        Or.inl (ha x value (by simp))⟩
    · exact ih (fun x r hmem => ha x r (List.mem_cons_of_mem _ hmem)) s hs

theorem EnterCode.assigns (hn : n.Built policy) {decl : DeclId} {incoming : Option ValueId}
    {arrived : List (VarId × ValueId)} {v : Vantage}
    (h : EnterCode n decl incoming arrived σ code v σ') :
    v.decl = decl ∧ Assigns σ σ' fun Δ =>
      (∀ r, incoming = some r → Δ.ofValue r = .context (n.above decl)) →
      (∀ x r, (x, r) ∈ arrived → Δ.ofValue r = .value (n.program.varType x)) →
      CodeOk n strict ret Δ code ∧ v.Placed n Δ := by
  cases h with
  | frameless hneeded =>
    refine ⟨rfl, .done ?_⟩
    intro Δ hincoming _
    exact ⟨.nil, by simp, hincoming⟩
  | @framed l kind stores _ _ code hneeded hl hkind hparent hparams hstores =>
    refine ⟨rfl, ?_⟩
    have hlink := (hn.layout_of hl).linkSlot_of_isFunction (hn.isFunction_of_isFrameNeeded hneeded)
    rw [← hlink] at hstores hparent
    have hstack : kind = .stack → n.plan.kind? decl = some .stack := by
      rintro rfl
      exact hkind
    refine (hstores.assigns_alloc strict ret hl hstack hparent ?_).imp ?_
    · rintro - rfl
      exact fun carrier hcarrier => hn.not_stack_above hkind hcarrier
    · intro Δ himp hincoming harrived
      obtain ⟨hcode, hframe⟩ := himp hincoming (hparams.fits strict hl harrived)
      refine ⟨hcode, ?_, hincoming⟩
      rintro r ⟨⟩
      exact hframe

/-- The roles of a function: its code respects them, and what it is called with has the roles that
callers provide. -/
structure FunctionRoles (n : Nesting) (strict : Prop) (id : DeclId) (function : FunctionDecl)
    (v : Vantage) (f : Lir.Function) (Γ : Roles) : Prop where
  code : CodeOk n strict function.returnType Γ f.body
  args : ∀ i role, (n.calleeRoles id function)[i]? = some role → Γ.ofLocal ⟨i⟩ = role
  args_length : f.callParams.length = (n.calleeRoles id function).length
  args_le : (n.calleeRoles id function).length ≤ f.locals.size
  vantage_decl : v.decl = id
  vantage : v.Placed n Γ

/-- The values and locals of a lowered function have roles. -/
theorem FunctionCode.exists_roles (hn : n.Built policy) (hscope : n.scope.nesting = n)
    {id : DeclId} {v : Vantage} {f : Lir.Function} (h : FunctionCode n.scope id v f)
    (htyped : strict → n.program.TypeCorrect) :
    ∃ function Γ, n.program.function? id = some function ∧
      FunctionRoles n strict id function v f Γ := by
  cases h with
  | @mk decl function target params incoming arrived paramLocals locals _ σ₁ σ₂ σ₃ σ₄ σ₅ c₁ c₂ c₃ c₄
      hd hk htarget hparams hincoming hparamsCode hlocals henter hbody =>
  rw [hscope] at hd hparams hparamsCode hlocals henter
  have hf : n.program.function? id = some function :=
    Program.function?_eq_some_iff.2 ⟨decl, hd, hk⟩
  have hpar : n.program.parent? id = decl.parent := by simp [Program.parent?, hd]
  have hwithin : Scope.Within n
      { n.scope with locals := paramLocals ++ locals, current := some v } := ⟨hscope, fun _ => rfl⟩
  have hkept : n.BlockKept id function.body := fun stmt hstmt owner howner hany =>
    hn.not_stack_of_keepsFrame hf howner (Stmt.anyIn_eq_true.2 ⟨stmt, hstmt, hany⟩)
  obtain ⟨hdecl, henter⟩ := henter.assigns strict function.returnType hn
  have hblock := hbody.assigns hn hwithin (hdecl ▸ hn.checked.body hd hk) (hdecl ▸ hkept)
    fun hst => htyped hst id function hf
  have hin := hincoming.assigns (n := n) strict function.returnType id
  have hall := hin.andThen
    ((hparamsCode.assigns strict function.returnType).andThen (hlocals.assigns.andThen
      (henter.andThen hblock)))
  -- The locals that a caller fills are the first ones, so their roles can be fixed beforehand.
  obtain ⟨-, hsize, hall⟩ := hall
  obtain ⟨Γ, ⟨-, hlocal⟩, hall⟩ := hall
    ⟨fun _ => .context none, fun x => (n.calleeRoles id function)[x.index]?.getD (.context none)⟩
  obtain ⟨h₁, h₂, h₃, h₄, h₅⟩ := hall Γ ⟨fun _ _ => rfl, fun _ _ => rfl⟩
  have hlen : (n.calleeRoles id function).length =
      ((if decl.parent.isSome then [Ty.ptr] else []) ++ params).length := by
    simp only [Nesting.calleeRoles, hpar, List.length_append, List.length_map, hparams.length_eq]
    split <;> rfl
  have hargs : ∀ i role, (n.calleeRoles id function)[i]? = some role → Γ.ofLocal ⟨i⟩ = role := by
    intro i role hi
    obtain ⟨hlt, -⟩ := List.getElem?_eq_some_iff.1 hi
    rw [← hlocal ⟨i⟩ (by simpa [← hlen] using hlt)]
    simp [hi]
  obtain ⟨hc₁, hin⟩ := h₁ fun hsome => hargs 0 _ (by simp [Nesting.calleeRoles, hpar, hsome])
  obtain ⟨hc₂, harrived, hparamLocals⟩ := h₂ fun i x hx => hargs _ _ (by
    cases hsome : decl.parent.isSome <;> simp [Nesting.calleeRoles, hpar, hsome, hx])
  obtain ⟨hc₃, hplaced⟩ := h₄ hin harrived
  have hc₄ := h₅ ⟨hplaced, fun x l hx => ?_⟩
  · refine ⟨function, Γ, hf, ?_, hargs, ?_, ?_, hdecl, hplaced⟩
    · refine hc₁.append (hc₂.append (hc₃.append (hc₄.append ?_)))
      split
      · exact .single .retNone
      · exact .single .unreachable
    · rw [hlen]
      rfl
    · rw [hlen]
      simpa using hsize
  · obtain ⟨l₁, l₂, heq, -⟩ := List.lookup_eq_some_iff.1 hx
    have hmem : (x, l) ∈ paramLocals ++ locals := by
      have heq : paramLocals ++ locals = l₁ ++ (x, l) :: l₂ := heq
      simp [heq]
    rcases List.mem_append.1 hmem with hmem | hmem
    · exact hparamLocals x l hmem
    · exact h₃ x l hmem

end

end StaticChain
