import StaticChain.Proofs.Calls
import StaticChain.Proofs.Pointing

/-!
# The static chain at run time

Every context is the carrier that its function expects, and every carrier is linked to the next one. The
parts of the compiler that pass contexts on, make frames and instances and follow chains rely on each other
here; `Typed.step` shows that each instruction keeps up what the others assume.

The states that are meant are those that calls by name lead to (`Machine.Reaches`), after any calls before
(`Machine.Called`).
-/

namespace StaticChain

open Lir (ValueId LocalId FunctionId StructId AllocKind Inst Ty)
open Machine

variable {n : Nesting} {policy : FramePolicy} {m : Lir.Module} {Γ : Roles} {id : DeclId}
  {function : FunctionDecl} {a : Activation} {c : CallStack} {s : Store} {base : Nat}

/-! ## Activations -/

namespace ActivationTyped

theorem withBlocks (h : ActivationTyped n s Γ id function a) (blocks : List Block) :
    ActivationTyped n s Γ id function { a with blocks } :=
  ⟨h.lowered, h.roles, h.value, h.local, h.context⟩

theorem withOwned (h : ActivationTyped n s Γ id function a) (owned : List ObjectId) :
    ActivationTyped n s Γ id function { a with owned } :=
  ⟨h.lowered, h.roles, h.value, h.local, h.context⟩

theorem define (h : ActivationTyped n s Γ id function a) {dest : ValueId} {v : Value}
    (hv : InRole n s (Γ.ofValue dest) v) : ActivationTyped n s Γ id function (a.define dest v) := by
  refine ⟨h.lowered, h.roles, ?_, h.local, h.context⟩
  intro r w hw
  rcases Activation.value_define hw with ⟨rfl, rfl⟩ | hw
  · exact hv
  · exact h.value r w hw

theorem assign (h : ActivationTyped n s Γ id function a) {target : LocalId} {v : Value}
    (hv : InRole n s (Γ.ofLocal target) v) : ActivationTyped n s Γ id function (a.assign target v) := by
  refine ⟨h.lowered, h.roles, h.value, ?_, ?_⟩
  · intro x w hw
    rcases Activation.local_assign hw with ⟨rfl, rfl⟩ | hw
    · exact hv
    · exact h.local x w hw
  · intro hc
    obtain ⟨w, hw⟩ := h.context hc
    exact Activation.exists_local_assign hw

/-- A function that is called with what it asks for starts typed. -/
theorem of_enter (hm : n.Lowers policy m) (ht : n.program.TypeCorrect) {f : Lir.Function}
    (hf : n.LoweredTo id f) (hfun : n.program.function? id = some function) {args : List Value}
    {dest : Option ValueId} (he : Activation.enter f args dest = .ok a)
    (hargs : ∀ (i : Nat) v role, args[i]? = some v → (n.calleeRoles id function)[i]? = some role →
      InRole n s role v) :
    ∃ Γ, ActivationTyped n s Γ id function a ∧ BlocksOk n True function.returnType Γ a.blocks := by
  have hentered := Activation.entered_of_enter he
  obtain ⟨scope, v, hlower, hv, hcode⟩ := hf
  obtain ⟨function', Γ, hfun', hroles⟩ :=
    hcode.exists_roles True hm.built n.scope_nesting fun _ => ht
  rw [hfun] at hfun'
  cases hfun'
  have hfeq := hentered.function_eq
  subst hfeq
  refine ⟨Γ, ⟨⟨scope, v, hlower, hv, hcode⟩, ?_, ?_, ?_, ?_⟩, ?_⟩
  · intro scope' v' hlower' hv'
    rw [hlower] at hlower'
    cases hlower'
    rw [hv] at hv'
    cases hv'
    exact hroles
  · intro r w hw
    exact absurd hw (hentered.value_ne r w)
  · intro x w hw
    obtain ⟨harg, hrole⟩ := hroles.arg_of_entered hentered hw
    exact hargs x.index w _ harg hrole
  · intro hc
    have hlt : 0 < args.length := by
      rw [hentered.args_length]
      simp [Lir.Function.callParams, hc]
    have hsize : 0 < a.function.locals.size := by
      refine Nat.lt_of_lt_of_le ?_ hroles.args_le
      rw [← hroles.args_length, ← hentered.args_length]
      exact hlt
    refine ⟨args[0], Activation.local_eq_ok.2 ?_⟩
    rw [hentered.locals_eq 0 hsize, List.getElem?_eq_getElem hlt]
  · exact hroles.blocksOk hentered

/-- An address that is known to be one of a slot leads to the carrier of the slot. -/
theorem carrierAt (h : ActivationTyped n s Γ id function a) {addr : ValueId} {owner : DeclId} {slot k : Nat}
    {o : ObjectId} (hrole : Γ.ofValue addr = .address owner slot) (hv : a.value addr = .ok (.slot o k)) :
    k = slot ∧ ∃ l object, CarrierAt n s owner l o object := by
  have hin := h.value _ _ hv
  rw [hrole] at hin
  obtain ⟨o, l, object, heq, hat⟩ := hin
  cases heq
  exact ⟨rfl, l, object, hat⟩

end ActivationTyped

/-- An activation goes on with code. -/
theorem TypedBy.typed (h : TypedBy n s c.waiting Γ id function a) (hl : LinksSet n base s none)
    (hb : BlocksOk n True function.returnType Γ a.blocks) : Typed n base ⟨a, c, s⟩ :=
  ⟨Γ, id, function, h, .code hl hb⟩

namespace TypedBy

variable {waiting : List Activation}

theorem withBlocks (h : TypedBy n s waiting Γ id function a) (blocks : List Block) :
    TypedBy n s waiting Γ id function { a with blocks } :=
  ⟨h.filled, h.active.withBlocks blocks, h.waiting⟩

theorem define (h : TypedBy n s waiting Γ id function a) {dest : ValueId} {v : Value}
    (hv : InRole n s (Γ.ofValue dest) v) : TypedBy n s waiting Γ id function (a.define dest v) :=
  ⟨h.filled, h.active.define hv, h.waiting⟩

theorem assign (h : TypedBy n s waiting Γ id function a) {target : LocalId} {v : Value}
    (hv : InRole n s (Γ.ofLocal target) v) : TypedBy n s waiting Γ id function (a.assign target v) :=
  ⟨h.filled, h.active.assign hv, h.waiting⟩

/-- A slot is written with what its role says. -/
theorem write (h : TypedBy n s waiting Γ id function a) {o : ObjectId} {k : Nat} {v : Value}
    (hv : ∀ owner l object role, CarrierAt n s owner l o object → n.slotRole? owner k = some role →
      InRole n s role v) : TypedBy n (s.set o k v) waiting Γ id function a :=
  ⟨h.filled.set hv, h.active.grow (s.grows_set _ _ _), h.waiting.grow (s.grows_set _ _ _)⟩

/-- A carrier is allocated. -/
theorem allocate (hm : n.Lowers policy m) (h : TypedBy n s waiting Γ id function a) {owner : DeclId}
    {l : Layout} (hl : n.layouts.layout? owner = some l) (kind : AllocKind) {layout : Lir.StructType}
    (hlayout : m.struct? l.struct = some layout) {dest : ValueId}
    (hdest : Γ.ofValue dest = .context (some owner)) :
    TypedBy n (s.allocate l.struct kind layout.slots.length) waiting Γ id function
      (a.define dest (.object s.next)) := by
  have hgrow := s.grows_allocate l.struct kind layout.slots.length
  refine define ⟨h.filled.allocate hm kind hlayout, h.active.grow hgrow, h.waiting.grow hgrow⟩ ?_
  rw [hdest]
  exact ⟨s.next, l, _, rfl, Store.get?_next _ _ _, hl, rfl⟩

/-- A function is called. -/
theorem call (hm : n.Lowers policy m) (ht : n.program.TypeCorrect)
    (h : TypedBy n s c.waiting Γ id function a) (hl : LinksSet n base s none)
    (hb : BlocksOk n True function.returnType Γ a.blocks) {callee : DeclId} {decl : FunctionDecl}
    {f : Lir.Function} (hf : n.LoweredTo callee f) (hfun : n.program.function? callee = some decl)
    {args : List Value} {dest : Option ValueId} {b : Activation}
    (he : Activation.enter f args dest = .ok b)
    (hdest : ∀ d, dest = some d → Γ.ofValue d = .value decl.returnType)
    (hargs : ∀ (i : Nat) v role, args[i]? = some v → (n.calleeRoles callee decl)[i]? = some role →
      InRole n s role v) : Typed n base ⟨b, c.push a, s⟩ := by
  obtain ⟨Δ, hactive, hblocks⟩ := ActivationTyped.of_enter hm ht hf hfun he hargs
  have hentered := Activation.entered_of_enter he
  refine typed ⟨h.filled, hactive, Γ, id, function, h.active, hb, ?_, h.waiting⟩ hl hblocks
  intro d hd
  exact hdest d (hentered.dest_eq ▸ hd)

/-- The caller goes on. -/
theorem ret {caller : Activation} (h : TypedBy n s (caller :: waiting) Γ id function a) :
    ∃ Δ id' function', TypedBy n (s.releaseAll a.owned) waiting Δ id' function' caller ∧
      BlocksOk n True function'.returnType Δ caller.blocks ∧
      ∀ d, a.dest = some d → Δ.ofValue d = .value function.returnType := by
  have hgrow := s.grows_releaseAll a.owned
  obtain ⟨Δ, id', function', hcaller, hblocks, hdest, hrest⟩ := h.waiting
  exact ⟨Δ, id', function', ⟨h.filled.releaseAll _, hcaller.grow hgrow, hrest.grow hgrow⟩, hblocks,
    hdest⟩

end TypedBy

/-! ## Steps -/

/-- The context of a closure comes first if the function takes one, then the arguments. -/
theorem inRole_closureArgs {callee : DeclId} {decl : FunctionDecl} {f : Lir.Function}
    (hlowered : n.LoweredTo callee f) {target : FunctionId} (hf : m.function? target = some f)
    {context : Option ObjectId} (hcontext : PointsTo n s (n.above callee) (.ofContext context))
    {vs : List Value} (hvs : List.Forall₂ (fun v ty => InRole n s (.value ty) v) vs
      (decl.params.map n.program.varType)) :
    List.Forall₂ (fun v role => InRole n s role v)
      ((if (m.function? target).any Lir.Function.hasContext then [Value.ofContext context] else []) ++ vs)
      (n.calleeRoles callee decl) := by
  unfold Nesting.calleeRoles
  simp only [hf, Option.any_some, (hlowered.hasContext n.scope_nesting).2]
  refine List.rel_append ?_ ?_
  · split
    · exact .cons hcontext .nil
    · exact .nil
  · rw [List.forall₂_map_right_iff] at hvs ⊢
    exact hvs

/-- An instruction that respects roles keeps values in their roles. -/
theorem TypedBy.inst (hm : n.Lowers policy m) (ht : n.program.TypeCorrect)
    (h : TypedBy n s c.waiting Γ id function a) (hl : LinksSet n base s none)
    (hb : BlocksOk n True function.returnType Γ a.blocks) {inst : Inst}
    (hi : InstOk n True function.returnType Γ inst) {e : Effect} (he : a.Does m s inst e) {s' : State}
    (hs : State.Moves m ⟨a, c, s⟩ e s') : Typed n base s' := by
  cases hi with
  | const hty hrole =>
    cases he
    cases hs
    exact (h.define (hrole ▸ (ofType_of_isScalar hty).2 ⟨_, rfl⟩)).typed hl hb
  | null hrole =>
    cases he
    cases hs
    exact (h.define (hrole ▸ rfl)).typed hl hb
  | binary hty hrole =>
    cases he with | binary _ _ hv =>
    cases hs
    exact (h.define (hrole ▸ (ofType_of_isScalar hty).2 (binary_eq_ok hv))).typed hl hb
  | unary hty hrole =>
    cases he with | unary _ =>
    cases hs
    exact (h.define (hrole ▸ (ofType_of_isScalar hty).2 (unary_eq _ _))).typed hl hb
  | localGet hrole =>
    cases he with | localGet hv =>
    cases hs
    exact (h.define (hrole ▸ h.active.local _ _ hv)).typed hl hb
  | localSet hfits =>
    cases he with | localSet hv _ =>
    cases hs
    exact (h.assign ((h.active.value _ _ hv).of_fits hfits)).typed hl hb
  | alloc hlayout hlink hrole _ =>
    cases he with | alloc hstruct =>
    have hlinks := hl.allocate hm.built hlayout hlink
    have halloc := fun kind => h.allocate hm hlayout kind hstruct hrole
    cases hs with
    | allocateHeap => exact (halloc .heap).typed (hlinks .heap _) hb
    | allocateStack =>
      have := halloc .stack
      exact typed ⟨this.filled, this.active.withOwned _, this.waiting⟩ (hlinks .stack _) hb
  | fieldAddr hlayout hfits hrole =>
    cases he with | fieldAddr hv _ _ _ =>
    cases hs
    refine (h.define ?_).typed hl hb
    rw [hrole]
    obtain ⟨o, l, object, heq, hat⟩ := (h.active.value _ _ hv).of_fits hfits
    cases heq
    exact ⟨_, l, object, rfl, hat⟩
  | load haddr hslot _ hrole =>
    cases he with | load hv ho _ hk =>
    cases hs
    refine (h.define ?_).typed hl hb
    obtain ⟨rfl, l, object, hat⟩ := h.active.carrierAt haddr hv
    cases Option.some.inj (ho.symm.trans hat.object_eq)
    rw [hrole]
    exact h.filled.slot _ l _ _ _ _ _ hat hk hslot
  | store haddr hslot _ hfits =>
    cases he with | store hv hw _ _ _ =>
    cases hs
    refine (h.write ?_).typed hl.set hb
    intro owner' l' object' role hat' hrole
    obtain ⟨rfl, l, object, hat⟩ := h.active.carrierAt haddr hv
    obtain ⟨rfl, -, -⟩ := hat.unique hm.built hat'
    cases Option.some.inj (hslot.symm.trans hrole)
    exact (h.active.value _ _ hw).of_fits hfits
  | call hreg hfun hfits hdest =>
    cases he with | call hvs =>
    cases hs with | call _ hf henter =>
    obtain ⟨f, hf', hlowered⟩ := hm.function?_of_scope hreg
    cases Option.some.inj (hf.symm.trans hf')
    have hin := forall₂_through hvs hfits fun hv harg => (h.active.value _ _ hv).of_fits harg
    exact h.call hm ht hl hb hlowered hfun henter hdest fun i v role => rel_of_forall₂ hin
  | makeClosure hreg hfun hcontext _ hrole =>
    cases he with | makeClosure hv =>
    cases hs
    refine (h.define ?_).typed hl hb
    rw [hrole]
    have hin := h.active.value _ _ hv
    rw [hcontext] at hin
    exact ⟨_, _, _, _, rfl, hreg, hfun, rfl, rfl, hin⟩
  | callClosure hfits hty _ _ hargs hdest =>
    cases he with | @callClosure _ _ _ _ target context vs hv hvs =>
    cases hs with | call _ hf henter =>
    have hclosure := (h.active.value _ _ hv).of_fits hfits
    rw [hty trivial] at hclosure
    obtain ⟨target', context', callee, decl, heq, hreg, hfun, hparams, hret, hcontext⟩ := hclosure
    cases heq
    obtain ⟨f, hf', hlowered⟩ := hm.function?_of_scope hreg
    cases Option.some.inj (hf.symm.trans hf')
    have hvalues := forall₂_through hvs (hargs trivial) fun hv harg => (h.active.value _ _ hv).of_fits harg
    have hin := inRole_closureArgs hlowered hf hcontext (hparams ▸ hvalues)
    exact h.call hm ht hl hb hlowered hfun henter (fun d hd => hret ▸ hdest d hd) fun i v role =>
      rel_of_forall₂ hin
  | retNone =>
    cases he
    cases hs with | ret _ =>
    obtain ⟨Δ, id', function', htyped, hblocks, -⟩ := h.ret
    exact htyped.typed (hl.releaseAll _) hblocks
  | ret hfits =>
    cases he with | ret hv =>
    have hin := (h.active.value _ _ hv).of_fits hfits
    have hgrow := s.grows_releaseAll a.owned
    cases hs with
    | ret _ =>
      obtain ⟨Δ, id', function', htyped, hblocks, -⟩ := h.ret
      exact htyped.typed (hl.releaseAll _) hblocks
    | retValue hd =>
      obtain ⟨Δ, id', function', htyped, hblocks, hdest⟩ := h.ret
      refine (htyped.define ?_).typed (hl.releaseAll _) hblocks
      rw [hdest _ hd]
      exact hin.grow hgrow
  | unreachable => cases he

namespace Typed

/-- A carrier with a link is allocated: its link is stored next. -/
theorem allocate (hm : n.Lowers policy m) {owner : DeclId} {l : Layout} {kind : AllocKind} {slot : Nat}
    {object addr link : ValueId} {rest : List Inst} {blockKind : BlockKind} {outer : List Block}
    (h : TypedBy n s c.waiting Γ id function a) (hlinks : LinksSet n base s none)
    (hb : BlocksOk n True function.returnType Γ (⟨rest, blockKind⟩ :: outer))
    (hblocks : a.blocks = ⟨.fieldAddr addr object l.struct slot :: .store addr link .ptr :: rest,
      blockKind⟩ :: outer)
    (hl : LinkOk n True Γ owner l kind slot object addr link) {e : Effect}
    (he : a.Does m s (.alloc object l.struct kind) e) {s' : State}
    (hs : State.Moves m ⟨a, c, s⟩ e s') : Typed n base s' := by
  cases he with | alloc hstruct =>
  have halloc := h.allocate hm hl.layout_eq kind hstruct hl.object_role
  have hfresh := Fresh.allocate hlinks l.struct kind
  cases hs with
  | allocateHeap =>
    refine ⟨Γ, id, function, halloc, ?_⟩
    change Doing n True function.returnType Γ _ _ _ a.blocks
    rw [hblocks]
    exact .addressing hl (fun v hv => Activation.eq_of_value_define hv) (hfresh _) hb
  | allocateStack =>
    refine ⟨Γ, id, function, ⟨halloc.filled, halloc.active.withOwned _, halloc.waiting⟩, ?_⟩
    change Doing n True function.returnType Γ _ _ _ a.blocks
    rw [hblocks]
    exact .addressing hl (fun v hv => Activation.eq_of_value_define hv) (hfresh _) hb

/-- The slot for the link of a new carrier is addressed. -/
theorem address {owner : DeclId} {l : Layout} {kind : AllocKind} {slot : Nat}
    {object addr link : ValueId} {o : ObjectId} {rest : List Inst} {blockKind : BlockKind}
    {outer : List Block} (h : TypedBy n s c.waiting Γ id function a)
    (hb : BlocksOk n True function.returnType Γ (⟨rest, blockKind⟩ :: outer))
    (hblocks : a.blocks = ⟨.store addr link .ptr :: rest, blockKind⟩ :: outer)
    (hl : LinkOk n True Γ owner l kind slot object addr link)
    (hobj : ∀ v, a.value object = .ok v → v = .object o) (hfresh : Fresh n base s l.struct o)
    {e : Effect}
    (he : a.Does m s (.fieldAddr addr object l.struct slot) e) {s' : State}
    (hs : State.Moves m ⟨a, c, s⟩ e s') : Typed n base s' := by
  cases he with | fieldAddr hv _ _ _ =>
  cases hobj _ hv
  cases hs
  refine ⟨Γ, id, function, h.define ?_, ?_⟩
  · have hin := h.active.value _ _ hv
    rw [hl.object_role] at hin
    obtain ⟨o', l', object', heq, hat⟩ := hin
    cases heq
    rw [hl.addr_role]
    exact ⟨o, l', object', rfl, hat⟩
  · change Doing n True function.returnType Γ _ _ _ a.blocks
    rw [hblocks]
    exact .linking hl (fun v hv => Activation.eq_of_value_define hv) hfresh hb

/-- The link of a new carrier is stored. -/
theorem link (hn : n.Built policy) {owner : DeclId} {l : Layout} {kind : AllocKind} {slot : Nat}
    {object addr link : ValueId} {o : ObjectId} (h : TypedBy n s c.waiting Γ id function a)
    (hb : BlocksOk n True function.returnType Γ a.blocks)
    (hl : LinkOk n True Γ owner l kind slot object addr link)
    (haddr : ∀ v, a.value addr = .ok v → v = .slot o slot) (hfresh : Fresh n base s l.struct o)
    {e : Effect}
    (he : a.Does m s (.store addr link .ptr) e) {s' : State} (hs : State.Moves m ⟨a, c, s⟩ e s') :
    Typed n base s' := by
  cases he with | store hv hw ho _ hlt =>
  cases haddr _ hv
  cases hs
  obtain ⟨-, l', object', hat⟩ := h.active.carrierAt hl.addr_role hv
  cases Option.some.inj (ho.symm.trans hat.object_eq)
  cases Option.some.inj (hl.layout_eq.symm.trans hat.layout_eq)
  refine (h.write ?_).typed (hfresh.set hn hat hl.link_eq hlt _) hb
  intro owner' l' object' role hat' hrole
  obtain ⟨rfl, -, -⟩ := hat.unique hn hat'
  rw [hn.slotRole?_link hl.layout_eq hl.link_eq] at hrole
  cases hrole
  have hlink := h.active.value _ _ hw
  rw [hl.link_role] at hlink
  exact hlink

/-- Every step keeps values in their roles and links in their slots. -/
theorem step (hm : n.Lowers policy m) (ht : n.program.TypeCorrect) {s s' : State}
    (h : Typed n base s) (hs : s.Step m s') : Typed n base s' := by
  obtain ⟨inst, blocks, hsettle, hstep⟩ := hs
  obtain ⟨Γ, id, function, htyped, hdoing⟩ := h
  obtain ⟨a, c, store⟩ := s
  obtain ⟨e, he, hs⟩ := State.step_eq_running hstep
  have htyped : TypedBy n store c.waiting Γ id function { a with blocks } := htyped.withBlocks blocks
  cases hdoing.taking hsettle with
  | code hlinks hnext =>
    obtain ⟨rest, kind, outer, rfl, hcode, hkind, houter⟩ := hnext
    cases hcode with
    | inst hi hrest =>
      exact htyped.inst hm ht hlinks (blocksOk_cons.2 ⟨⟨hrest, hkind⟩, houter⟩) hi he hs
    | branch hthen helse hrest =>
      cases he
      cases hs
      refine (htyped.withBlocks _).typed hlinks
        (blocksOk_cons.2 ⟨⟨?_, trivial⟩, blocksOk_cons.2 ⟨⟨hrest, hkind⟩, houter⟩⟩)
      simp only
      split
      · exact helse
      · exact hthen
    | loop hheader hbody hrest =>
      cases he
      cases hs
      exact (htyped.withBlocks _).typed hlinks
        (blocksOk_cons.2 ⟨⟨hheader, hheader, hbody⟩, blocksOk_cons.2 ⟨⟨hrest, hkind⟩, houter⟩⟩)
    | link hl hrest =>
      exact allocate hm htyped hlinks (blocksOk_cons.2 ⟨⟨hrest, hkind⟩, houter⟩) rfl hl he hs
  | addressing hl hobj hfresh hb => exact address htyped hb rfl hl hobj hfresh he hs
  | linking hl haddr hfresh hb => exact link hm.built htyped hb hl haddr hfresh he hs

end Typed

/-! ## Calls -/

/-- A call by name starts typed. -/
theorem Machine.Enters.typed {machine : Machine} (hm : n.Lowers policy machine.module)
    (ht : n.program.TypeCorrect) (hf : Filled n machine.store) {name : String} {args : List Int64}
    {s : State} (h : machine.Enters name args s) : Typed n machine.store.objects.size s := by
  obtain ⟨a, c, store⟩ := s
  obtain ⟨hfound, hfree, hints, hentered, rfl, rfl⟩ := h
  obtain ⟨id, -, hlowered⟩ := hm.exists_code (hm.function?_of_findFunction? hfound)
  have hcontext := (hlowered.hasContext n.scope_nesting).2
  obtain ⟨function, hfun, hparams⟩ : ∃ function, n.program.function? id = some function ∧
      ParamTypes n.program function.params a.function.params := by
    obtain ⟨_, _, _, _, hcode⟩ := hlowered
    revert hcode
    generalize a.function = f
    intro hcode
    cases hcode with | mk hd hk _ hparams =>
    rw [n.scope_nesting] at hd hparams
    exact ⟨_, Program.function?_eq_some_iff.2 ⟨_, hd, hk⟩, hparams⟩
  have hargs : ∀ (i : Nat) v role, (args.map Value.int)[i]? = some v →
      (n.calleeRoles id function)[i]? = some role → InRole n machine.store role v := by
    intro i v role hv hrole
    obtain ⟨x, -, rfl⟩ := List.mem_map.1 (List.mem_of_getElem? hv)
    have hnone : (n.program.parent? id).isSome = false := hcontext.symm.trans hfree
    simp only [Nesting.calleeRoles, hnone, Bool.false_eq_true, if_false, List.nil_append] at hrole
    obtain ⟨y, hy, rfl⟩ := List.mem_map.1 (List.mem_of_getElem? hrole)
    obtain ⟨k, hk⟩ := List.getElem?_of_mem hy
    obtain ⟨ty, hty, var, hvar, hstorage⟩ := exists_getElem?_of_forall₂ hparams hk
    cases hints ty (List.mem_of_getElem? hty)
    change OfType n machine.store (n.program.varType _) _
    rw [Program.varType_eq hvar]
    cases hvt : var.ty with
    | int => exact ⟨x, rfl⟩
    | bool => exact ⟨x, rfl⟩
    | _ => simp [hvt, ValueType.storage?] at hstorage
  obtain ⟨Γ, hactive, hblocks⟩ := ActivationTyped.of_enter hm ht hlowered hfun hentered hargs
  refine TypedBy.typed ⟨hf, hactive, trivial⟩ ?_ hblocks
  intro owner l o object k hbase _ hat _
  have := (Array.getElem?_eq_some_iff.1 hat.object_eq).1
  omega

/-- Whatever way a call ends, slots hold what their roles say. -/
theorem Typed.filled_run (hm : n.Lowers policy m) (ht : n.program.TypeCorrect) (maxSteps left steps : Nat)
    {s : State} (h : Typed n base s) : Filled n (run m maxSteps left s steps).store := by
  have hunwind : ∀ {s : State} (blocks : List Block), Typed n base s → Filled n (s.take blocks).unwind := by
    rintro s blocks ⟨Γ, id, function, htyped, -⟩
    rw [State.unwind_eq]
    exact htyped.filled.releaseAll _
  induction left generalizing s steps with
  | zero =>
    unfold run
    split
    · exact hunwind s.active.blocks h
    · exact hunwind s.active.blocks h
    · exact hunwind s.active.blocks h
  | succ left ih =>
    unfold run
    split
    · exact hunwind s.active.blocks h
    · exact hunwind s.active.blocks h
    · rename_i inst blocks hsettle
      simp only
      split
      · rename_i hstep
        rw [State.store_of_stopped hstep]
        exact hunwind blocks h
      · rename_i hstep
        exact ih _ (h.step hm ht ⟨inst, blocks, hsettle, hstep⟩)

theorem Machine.Called.filled {machine : Machine} {maxSteps : Nat} (hm : n.Lowers policy m)
    (ht : n.program.TypeCorrect) (h : Called m maxSteps machine) : Filled n machine.store := by
  induction h with
  | boot =>
    constructor
    · intro owner l o object hat
      have := hat.object_eq
      simp [Machine.boot, Store.empty] at this
    · intro owner l o object k v role hat
      have := hat.object_eq
      simp [Machine.boot, Store.empty] at this
  | @call machine name args hcalled ih =>
    have hlowers : n.Lowers policy machine.module := (hcalled.module_eq hm).1 ▸ hm
    rcases callByName_cases hlowers name args with ⟨cause, heq⟩ | ⟨s, henters, -, heq⟩
    · rw [heq]
      exact ih
    · rw [heq]
      exact (henters.typed hlowers ht ih).filled_run hlowers ht _ _ _

/-- The states that calls lead to are typed. -/
theorem Machine.Reaches.typed {machine : Machine} (hm : n.Lowers policy machine.module)
    (ht : n.program.TypeCorrect) (hf : Filled n machine.store) {s : State} (h : machine.Reaches s) :
    Typed n machine.store.objects.size s := by
  induction h with
  | enter henters => exact henters.typed hm ht hf
  | step _ hs ih => exact ih.step hm ht hs

/-! ## Chains that are followed -/

/-- Code that follows some links leads from carrier to carrier. -/
theorem Filled.pointsTo_of_hops (hn : n.Built policy) {carrier : Option DeclId} {hops : List Chain.Hop}
    {target : DeclId} (hto : n.HopsTo carrier hops target) {σ σ' : Regs} {pointer r : ValueId}
    {code rest : List Inst} (hcode : HopsCode σ pointer hops code r σ') {kind : BlockKind}
    {outer : List Block} {s s' : State} (hf : Filled n s.store)
    (hp : ∀ w, s.active.value pointer = .ok w → PointsTo n s.store carrier w)
    (hb : s.active.blocks = ⟨code ++ rest, kind⟩ :: outer) (hs : State.Steps m code.length s s') :
    (∀ w, s'.active.value r = .ok w → PointsTo n s'.store (some target) w) ∧
      (code ≠ [] → r.index < s.active.values.size → ∃ w, s'.active.value r = .ok w) := by
  induction hcode generalizing carrier s with
  | nil =>
    cases hto
    cases hs
    exact ⟨hp, fun h => absurd rfl h⟩
  | @cons σ σ' pointer r hop hops code hrest ih =>
    cases hto with | @cons through _ _ _ hhop hto =>
    obtain ⟨l, hl, hstruct, hlink⟩ := Nesting.hop_eq_ok hhop
    cases hs with | @head _ _ s₁ _ hs₁ hs =>
    cases hs with | @head _ _ s₂ _ hs₂ hs =>
    obtain ⟨e₁, he₁, hm₁⟩ := State.moves_of_step hs₁ hb
    cases he₁ with | fieldAddr hv _ _ _ =>
    have heq₁ := hm₁.define_eq
    subst heq₁
    obtain ⟨e₂, he₂, hm₂⟩ := State.moves_of_step hs₂ rfl
    cases he₂ with | load hv₂ ho₂ _ hk =>
    cases Activation.eq_of_value_define hv₂
    -- The slot that is read is the link of the carrier that the pointer leads to.
    obtain ⟨o, l', object, heq, hat⟩ := hp _ hv
    cases heq
    have hobj := hat.object_eq
    rw [ho₂] at hobj
    cases hobj
    have hpoints := hf.slot _ _ _ _ _ _ _ hat hk (hn.slotRole?_link hl hlink)
    have heq₂ := hm₂.define_eq
    obtain ⟨hval, hdef⟩ := ih (s := s₂) hto (by rw [heq₂]; exact hf) (fun w hw => by
      rw [heq₂] at hw ⊢
      rw [Activation.eq_of_value_define hw]
      exact hpoints) (by rw [heq₂]; rfl) hs
    have hsize : s₂.active.values.size = s.active.values.size := by
      simp [heq₂, Activation.define]
    refine ⟨hval, fun _ hlt => ?_⟩
    by_cases hnil : code = []
    · subst hnil
      cases hrest
      cases hs
      exact ⟨_, by rw [heq₂]; exact Activation.value_define_self (by simpa [Activation.define] using hlt)⟩
    · exact hdef hnil (hsize ▸ hlt)

/-- Code that follows a chain leads to the carrier of its target. -/
theorem TypedBy.pointsTo_of_chain (hn : n.Built policy) {s s' : State}
    (h : TypedBy n s.store s.callers.waiting Γ id function s.active) {scope : Scope} {v : Vantage}
    (hlower : n.scope.lowerFunction id = (.ok s.active.function, scope)) (hv : scope.current = some v)
    {target : DeclId} {chain : Chain} (hchain : n.chainTo id target = .ok chain) {σ σ' : Regs}
    {code rest : List Inst} {r : ValueId} (hcode : ChainCode v chain σ code r σ') {kind : BlockKind}
    {outer : List Block} (hb : s.active.blocks = ⟨code ++ rest, kind⟩ :: outer)
    (hs : State.Steps m code.length s s') :
    (∀ w, s'.active.value r = .ok w → PointsTo n s'.store (some target) w) ∧
      (code ≠ [] → r.index < s.active.values.size → ∃ w, s'.active.value r = .ok w) := by
  have hroles := h.active.roles scope v hlower hv
  cases hcode with | mk hstart hhops =>
  refine h.filled.pointsTo_of_hops hn (hn.hopsTo_of_chainTo hchain) hhops ?_ hb hs
  intro w hw
  have hin := h.active.value _ _ hw
  have hrole := hroles.vantage.start hroles.vantage_decl hstart
  rw [hrole] at hin
  exact hin

/-! ## The invariant -/

/-- The newest object is made: its link, in the given slot, is addressed or stored next. -/
def Machine.State.Linking (s : State) (l : Layout) (slot : Nat) (o : ObjectId) : Prop :=
  o.index + 1 = s.store.objects.size ∧
    ∃ addr object link rest kind outer,
      s.active.blocks =
          ⟨.fieldAddr addr object l.struct slot :: .store addr link .ptr :: rest, kind⟩ :: outer ∨
        s.active.blocks = ⟨.store addr link .ptr :: rest, kind⟩ :: outer

/-- The static chain in a state of a call. Objects of earlier calls end at `base`. -/
structure StaticChainAt (n : Nesting) (m : Lir.Module) (base : Nat) (s : State) : Prop where
  /-- The context of every activation is the nearest carrier around its function. -/
  contexts : ∀ a ∈ s.active :: s.callers.waiting, ∀ parent,
    n.program.parent? a.function.decl = some parent → ∃ v, a.local ⟨0⟩ = .ok v ∧
      PointsTo n s.store (n.captures.nearestCarrier? n.program parent) v
  /-- The link of every carrier leads to the nearest carrier around its owner. It is set from the store
  after the allocation on; only a call that was stopped in between leaves it open. -/
  links : ∀ owner l o object slot, CarrierAt n s.store owner l o object → l.linkSlot? = some slot →
    ∃ content, object.slots[slot]? = some content ∧
      (∀ v, content = some v → PointsTo n s.store (n.above owner) v) ∧
      (content = none → o.index < base ∨ s.Linking l slot o)
  /-- A link that is set is not written again. -/
  writes : ∀ owner l o object slot inst blocks v, CarrierAt n s.store owner l o object →
    l.linkSlot? = some slot → s.active.settle s.active.blocks = .next inst blocks →
    (s.take blocks).active.effect m s.store inst = .ok (.write o slot v) →
    object.slots[slot]? = some none
  /-- Code that was written for a chain leads to the carrier of the chain's target. -/
  chains : ∀ useSite scope v target chain b r b' code rest kind outer s',
    n.scope.lowerFunction useSite = (.ok s.active.function, scope) → scope.current = some v →
    n.chainTo useSite target = .ok chain → (Nesting.emitChain v chain).Gives b r b' →
    b'.block = b.block ++ List.toArray code →
    s.active.blocks = ⟨code ++ rest, kind⟩ :: outer → State.Steps m code.length s s' →
    (∀ w, s'.active.value r = .ok w → PointsTo n s'.store (some target) w) ∧
      (code ≠ [] → r.index < s.active.values.size → ∃ w, s'.active.value r = .ok w)

theorem WaitingTyped.exists_typed {dest : Option ValueId} {ret : ValueType} {waiting : List Activation}
    (h : WaitingTyped n s dest ret waiting) {a : Activation} (ha : a ∈ waiting) :
    ∃ Γ id function, ActivationTyped n s Γ id function a := by
  induction waiting generalizing dest ret with
  | nil => simp at ha
  | cons b rest ih =>
    obtain ⟨Γ, id, function, hb, -, -, hrest⟩ := h
    rcases List.mem_cons.1 ha with rfl | ha
    · exact ⟨Γ, id, function, hb⟩
    · exact ih hrest ha

/-- The context of a typed activation. -/
theorem ActivationTyped.pointsTo_context (hs : n.scope.nesting = n)
    (h : ActivationTyped n s Γ id function a) {parent : DeclId}
    (hp : n.program.parent? a.function.decl = some parent) :
    ∃ v, a.local ⟨0⟩ = .ok v ∧ PointsTo n s (n.captures.nearestCarrier? n.program parent) v := by
  obtain ⟨hdecl, hcontext⟩ := h.lowered.hasContext hs
  rw [hdecl] at hp
  obtain ⟨v, hv⟩ := h.context (by rw [hcontext, hp]; rfl)
  refine ⟨v, hv, ?_⟩
  obtain ⟨scope, vantage, hlower, hvantage, -⟩ := h.lowered
  have hrole := (h.roles scope vantage hlower hvantage).args 0 (.context (n.above id))
    (by simp [Nesting.calleeRoles, hp])
  have hin := h.local _ _ hv
  have habove : n.above id = n.captures.nearestCarrier? n.program parent := by
    simp [Nesting.above, hp]
  rw [hrole] at hin
  rw [← habove]
  exact hin

/-- An instruction that respects roles writes no link. -/
theorem InstOk.not_link (hn : n.Built policy) (h : TypedBy n s c.waiting Γ id function a) {inst : Inst}
    (hi : InstOk n True function.returnType Γ inst) {owner : DeclId} {l : Layout} {o : ObjectId}
    {object : Object} {slot : Nat} {v : Value} (hat : CarrierAt n s owner l o object)
    (hl : l.linkSlot? = some slot) : ¬a.Does m s inst (.write o slot v) := by
  intro he
  cases he with | store hv _ _ _ _ =>
  cases hi with | store haddr hslot _ _ =>
  obtain ⟨rfl, l', object', hat'⟩ := h.active.carrierAt haddr hv
  obtain ⟨rfl, -, -⟩ := hat.unique hn hat'
  rw [hn.slotRole?_link hat.layout_eq hl] at hslot
  cases hslot

/-- The link of a carrier is one of its slots. -/
theorem Filled.link_lt (hn : n.Built policy) (h : Filled n s) {owner : DeclId} {l : Layout} {o : ObjectId}
    {object : Object} (hat : CarrierAt n s owner l o object) {slot : Nat}
    (hlink : l.linkSlot? = some slot) : slot < object.slots.size := by
  obtain ⟨_, hslot, -⟩ := (hn.layout_of hat.layout_eq).kind_linkSlot hlink
  rw [h.size _ _ _ _ hat]
  exact (List.getElem?_eq_some_iff.1 hslot).1

/-- A carrier whose link is not set is the one that is being made. -/
theorem Typed.linking (hn : n.Built policy) {s : State} (h : Typed n base s) {owner : DeclId} {l : Layout}
    {o : ObjectId} {object : Object} (hat : CarrierAt n s.store owner l o object) {slot : Nat}
    (hlink : l.linkSlot? = some slot) (hbase : base ≤ o.index)
    (hunset : ¬∃ v, object.slots[slot]? = some (some v)) : s.Linking l slot o := by
  obtain ⟨Γ, id, function, htyped, hdoing⟩ := h
  have hmaking : ∀ {struct o'}, Fresh n base s.store struct o' → o = o' ∧ struct = l.struct := by
    intro struct o' hfresh
    have heq : o = o' := Classical.byContradiction fun hne =>
      hunset (hfresh.links owner l o object slot hbase (by simpa using Ne.symm hne) hat hlink)
    subst heq
    exact ⟨rfl, (hfresh.struct_eq object hat.object_eq).symm.trans hat.struct_eq⟩
  generalize hblocks : s.active.blocks = blocks at hdoing
  cases hdoing with
  | code hset _ => exact absurd (hset owner l o object slot hbase (by simp) hat hlink) hunset
  | @addressing owner' l' kind slot' object' addr link o' rest blockKind outer hl _ hfresh _ =>
    obtain ⟨rfl, hstruct⟩ := hmaking hfresh
    obtain ⟨rfl, -⟩ := hn.layout_eq_of_struct_eq hl.layout_eq hat.layout_eq hstruct
    have hslot := hl.link_eq
    rw [hlink] at hslot
    cases hslot
    exact ⟨hfresh.newest, addr, object', link, rest, blockKind, outer, .inl hblocks⟩
  | @linking owner' l' kind slot' object' addr link o' rest blockKind outer hl _ hfresh _ =>
    obtain ⟨rfl, -⟩ := hmaking hfresh
    exact ⟨hfresh.newest, addr, object', link, rest, blockKind, outer, .inr hblocks⟩

theorem Typed.staticChainAt (hm : n.Lowers policy m) {s : State} (h : Typed n base s) :
    StaticChainAt n m base s := by
  have hstate := h
  obtain ⟨Γ, id, function, htyped, hdoing⟩ := h
  refine ⟨?_, ?_, ?_, ?_⟩
  · intro a ha parent hp
    obtain ⟨Δ, id', function', ha⟩ : ∃ Δ id' function', ActivationTyped n s.store Δ id' function' a := by
      rcases List.mem_cons.1 ha with rfl | ha
      · exact ⟨Γ, id, function, htyped.active⟩
      · exact htyped.waiting.exists_typed ha
    exact ha.pointsTo_context n.scope_nesting hp
  · intro owner l o object slot hat hlink
    have hlt := htyped.filled.link_lt hm.built hat hlink
    refine ⟨object.slots[slot], Array.getElem?_eq_getElem hlt, ?_, ?_⟩
    · intro v hv
      have hv : object.slots[slot]? = some (some v) := by rw [Array.getElem?_eq_getElem hlt, hv]
      exact htyped.filled.slot _ _ _ _ _ _ _ hat hv (hm.built.slotRole?_link hat.layout_eq hlink)
    · intro hnone
      by_cases hbase : o.index < base
      · exact .inl hbase
      · refine .inr (hstate.linking hm.built hat hlink (Nat.le_of_not_lt hbase) ?_)
        rintro ⟨v, hv⟩
        rw [Array.getElem?_eq_getElem hlt, hnone] at hv
        cases hv
  · intro owner l o object slot inst blocks v hat hlink hsettle heffect
    have he := Activation.Does.of_effect heffect
    cases hdoing.taking hsettle with
    | code _ hnext =>
      obtain ⟨rest, kind, outer, rfl, hcode, -, -⟩ := hnext
      cases hcode with
      | inst hi _ => exact absurd he (hi.not_link hm.built (htyped.withBlocks _) hat hlink)
      | branch => cases he
      | loop => cases he
      | link => cases he
    | addressing => cases he
    | linking hl haddr hfresh _ =>
      cases he with | store hv _ _ _ _ =>
      cases haddr _ hv
      have hlt := htyped.filled.link_lt hm.built hat hlink
      rcases hcontent : object.slots[slot]? with _ | _ | w
      · exact absurd hlt (Nat.not_lt.2 (Array.getElem?_eq_none_iff.1 hcontent))
      · rfl
      · exact absurd hcontent (hfresh.unset object slot w hat.object_eq)
  · intro useSite scope v target chain b r b' code rest kind outer s' hlower hv hchain hemit hblock hb hs
    obtain ⟨code', σ', hcode, rfl⟩ := Nesting.chainCode_of_emitChain hemit
    have hcode_eq : code = code' := by
      have hlist := congrArg Array.toList hblock
      simpa [Lir.FunctionBuilder.extend] using hlist.symm
    subst hcode_eq
    have hid : useSite = id := by
      obtain ⟨hdecl, -⟩ := htyped.active.lowered.hasContext n.scope_nesting
      obtain ⟨v', hv', hcode'⟩ := Scope.functionCode_of_lowerFunction
        (by rw [n.scope_nesting]; exact hm.built.checked) hlower
      obtain ⟨hdecl', -⟩ := Nesting.LoweredTo.hasContext ⟨scope, v', hlower, hv', hcode'⟩ n.scope_nesting
      exact hdecl'.symm.trans hdecl
    subst hid
    exact htyped.pointsTo_of_chain hm.built hlower hv hchain hcode hb hs

/-- The static chain is sound at run time. In every state that any sequence of calls by name leads to,
under either allocation policy, contexts and links lead to the carriers that chains were resolved with, and
code that follows a chain ends at its target. -/
theorem staticChainAt_of_reaches {p : Program} (hp : p.check = .ok ()) (hc : p.ChildrenDistinct)
    (ht : p.TypeCorrect) {settings : Settings} {u : CompiledUnit} (hu : settings.compile p = .ok u) :
    ∃ n, Nesting.of p settings.frames = .ok n ∧ ∀ maxSteps machine s,
      Called u.lir maxSteps machine → machine.Reaches s →
        StaticChainAt n u.lir machine.store.objects.size s := by
  obtain ⟨n, hn, hlower⟩ := Nesting.exists_of_compile hu
  obtain ⟨rfl, hbuilt⟩ := Nesting.built_of_eq_ok (Program.checked_of_check hp) hn
  have hm := Nesting.lowers_of_lower hbuilt hc hlower
  refine ⟨n, hn, fun maxSteps machine s hcalled hreaches => ?_⟩
  have hmodule := (hcalled.module_eq hm).1
  have hm' : n.Lowers settings.frames machine.module := hmodule ▸ hm
  rw [← hmodule]
  exact (hreaches.typed hm' ht (hcalled.filled hm ht)).staticChainAt hm'

/-- In the scene a frame and a shape are linked to the frame around them, which is the context of the active
function too. -/
theorem staticChainAt_of_reaches_scene : ∃ u n s, ({} : Settings).compile scene = .ok u ∧
    Nesting.of scene .escapeAnalysis = .ok n ∧ (boot u.lir 60).Reaches s ∧
    s.active.locals = #[some (.object ⟨0⟩), some (.int 2)] ∧ s.store.objects = sceneObjects ∧
    (n.layouts.layout? ⟨3⟩).map (fun l => (l.struct, l.linkSlot?)) = some (⟨2⟩, some 1) ∧
    (n.layouts.layout? ⟨1⟩).map (fun l => (l.struct, l.linkSlot?)) = some (⟨1⟩, some 1) ∧
    n.above ⟨3⟩ = some ⟨0⟩ ∧ n.above ⟨1⟩ = some ⟨0⟩ ∧ StaticChainAt n u.lir 0 s := by
  obtain ⟨u, n, s, hu, hn, -, hreaches, hlocals, hobjects⟩ := exists_reaches_scene
  obtain ⟨n', hn', hall⟩ := staticChainAt_of_reaches scene_check scene_childrenDistinct scene_typeCorrect hu
  obtain rfl : n' = n := Except.ok.inj (hn'.symm.trans hn)
  have hlinks : (Nesting.of scene .escapeAnalysis).toOption.any (fun n =>
      (n.layouts.layout? ⟨3⟩).map (fun l => (l.struct, l.linkSlot?)) = some (⟨2⟩, some 1) ∧
      (n.layouts.layout? ⟨1⟩).map (fun l => (l.struct, l.linkSlot?)) = some (⟨1⟩, some 1) ∧
      n.above ⟨3⟩ = some ⟨0⟩ ∧ n.above ⟨1⟩ = some ⟨0⟩) = true := by
    decide +kernel
  simp only [hn, Except.toOption, Option.any_some, decide_eq_true_eq] at hlinks
  obtain ⟨hframe, hshape, habove, habove'⟩ := hlinks
  exact ⟨u, n', s, hu, hn, hreaches, hlocals, hobjects, hframe, hshape, habove, habove',
    hall 60 _ s .boot hreaches⟩

end StaticChain
