import StaticChain.Proofs.Ownership

/-!
# Every step respects ownership

`Owned` holds at the start of a call (`owned_of_enter`), is preserved by every step (`Owned.step`), and
implies that no value leads to a released object (`Owned.live`). When a call is over, only objects on the
heap are live, and they lead to nothing but the heap (`Owned.heapOk_unwind`).
-/

namespace StaticChain

open Lir (ValueId LocalId FunctionId StructId AllocKind Inst Ty)
open Machine

variable {n : Nesting} {policy : FramePolicy} {m : Lir.Module} {ret : ValueType} {Γ : Roles}
  {a : Activation} {c : CallStack} {s : Store}

namespace OwnedBy

/-- What is loaded from a slot may be in the role of the slot. -/
theorem held_of_slot {waiting : List Activation} (hn : n.Built policy) (h : OwnedBy n s waiting Γ a)
    {owner : DeclId} {o : ObjectId} {object : Object} {k : Nat} {v : Value} {role : Role}
    (ho : s.objects[o.index]? = some object) (hk : object.slots[k]? = some (some v))
    (hat : s.OnHeapAt o ∨ FrameAt n s (reachOf (a :: waiting)) owner o)
    (hrole : n.slotRole? owner k = some role) : Held n s (reachOf (a :: waiting)) role v := by
  rcases hat with ⟨object', ho', hkind⟩ | hat
  · rw [ho] at ho'
    cases ho'
    exact ((h.heap o _ ho hkind).2 k v hk).held (not_isAddress_of_slotRole? hrole)
  · obtain ⟨owner', hat', hheld⟩ := h.frameOk_of_mem hat.mem
    obtain ⟨object₁, l₁, ho₁, -, -, hl₁, hs₁⟩ := hat.object
    obtain ⟨object₂, l₂, ho₂, -, -, hl₂, hs₂⟩ := hat'.object
    rw [ho₁] at ho₂
    cases ho₂
    obtain ⟨-, rfl⟩ := hn.layout_eq_of_struct_eq hl₁ hl₂ (hs₁.symm.trans hs₂)
    exact hheld object k v role ho hk hrole

/-- The context that a closure holds and the arguments of its call are all lasting. -/
theorem lasting_closureArgs {waiting : List Activation} (hn : n.Built policy) (h : OwnedBy n s waiting Γ a)
    {closure : ValueId} {ty : ValueType} (hfits : (Γ.ofValue closure).Fits n False (.value ty))
    {target : FunctionId} {context : Option ObjectId} (hv : a.value closure = .ok (.closure target context))
    {args : List ValueId} (hargs : ∀ arg ∈ args, ∃ ty, (Γ.ofValue arg).Fits n False (.value ty))
    {vs : List Value} (hvs : List.Forall₂ (fun r v => a.value r = .ok v) args vs) {takesContext : Bool} :
    ∀ v ∈ (if takesContext then [Value.ofContext context] else []) ++ vs, v.Lasting s := by
  intro v hmem
  rcases List.mem_append.1 hmem with hmem | hmem
  · have hclosure := (h.values.value _ _ hv).of_fits hn hfits
    split at hmem
    · rw [List.mem_singleton.1 hmem]
      cases context with
      | none => trivial
      | some o => exact hclosure
    · simp at hmem
  · obtain ⟨r, hr, hval⟩ := exists_of_forall₂ hvs hmem
    obtain ⟨ty, hfits⟩ := hargs r hr
    exact (h.values.value _ _ hval).of_fits hn hfits

/-- A function is called. -/
theorem call (hm : n.Lowers policy m) (h : OwnedBy n s c.waiting Γ a)
    (hb : BlocksOk n False ret Γ a.blocks) {id : DeclId} {f : Lir.Function} (hf : n.LoweredTo id f)
    {args : List Value} {dest : Option ValueId} {callee : Activation}
    (he : Activation.enter f args dest = .ok callee)
    (hdest : ∀ d, dest = some d → ∃ ty, Γ.ofValue d = .value ty)
    (hargs : ∀ function (i : Nat) v role, n.program.function? id = some function → args[i]? = some v →
      (n.calleeRoles id function)[i]? = some role →
        Held n s (reachOf (a :: c.waiting)) role v) :
    Owned n ⟨callee, c.push a, s⟩ := by
  obtain ⟨Δ, ret', hvalues, hblocks⟩ := valuesHeld_of_enter hm hf he hargs
  have hentered := Activation.entered_of_enter he
  have hreach : reachOf (callee :: a :: c.waiting) = reachOf (a :: c.waiting) := by
    simp [hentered.owned_eq]
  refine ⟨Δ, ret', ⟨h.heap, ?_, ?_, ?_, ?_, h.frames, h.waiting⟩, .code trivial hblocks⟩
  · exact hreach ▸ h.nodup
  · exact hreach ▸ hvalues
  · intro o ho
    simp [hentered.owned_eq] at ho
  · exact ⟨Γ, ret, h.values, hb, fun d hd => hdest d (hentered.dest_eq ▸ hd)⟩

end OwnedBy

/-- An activation goes on with code. -/
theorem OwnedBy.owned (h : OwnedBy n s c.waiting Γ a) (hb : BlocksOk n False ret Γ a.blocks) :
    Owned n ⟨a, c, s⟩ :=
  ⟨Γ, ret, h, .code trivial hb⟩

/-- An instruction that respects roles keeps the discipline. -/
theorem OwnedBy.inst (hm : n.Lowers policy m) (h : OwnedBy n s c.waiting Γ a)
    (hb : BlocksOk n False ret Γ a.blocks) {inst : Inst} (hi : InstOk n False ret Γ inst) {e : Effect}
    (he : a.Does m s inst e) {s' : State} (hs : State.Moves m ⟨a, c, s⟩ e s') : Owned n s' := by
  cases hi with
  | const _ hrole =>
    cases he
    cases hs
    exact (h.define (hrole ▸ trivial)).owned hb
  | null hrole =>
    cases he
    cases hs
    exact (h.define (hrole ▸ .inl trivial)).owned hb
  | binary _ hrole =>
    cases he with | binary _ _ hv =>
    obtain ⟨z, rfl⟩ := binary_eq_ok hv
    cases hs
    exact (h.define (hrole ▸ trivial)).owned hb
  | @unary dest operand op ty _ hrole =>
    cases he with | @unary _ _ _ x hx =>
    obtain ⟨z, hz⟩ := unary_eq op x
    cases hs
    exact (h.define (hrole ▸ hz ▸ trivial)).owned hb
  | localGet hrole =>
    cases he with | localGet hv =>
    cases hs
    exact (h.define (hrole ▸ h.values.local _ _ hv)).owned hb
  | localSet hfits =>
    cases he with | localSet hv _ =>
    cases hs
    exact (h.assign ((h.values.value _ _ hv).of_fits hm.built hfits)).owned hb
  | alloc hl _ hrole hplan =>
    cases he with | alloc _ =>
    cases hs with
    | allocateHeap =>
      exact (h.allocateHeap _ _ (by rw [hrole]; exact id)).owned hb
    | allocateStack => exact (h.allocateStack _ hl (hplan rfl) hrole).owned hb
  | fieldAddr hl hfits hrole =>
    cases he with | @fieldAddr _ _ _ _ o _ hv ho _ _ =>
    cases hs
    refine (h.define ?_).owned hb
    rw [hrole]
    have hbase := (h.values.value _ _ hv).of_fits hm.built hfits
    rcases hbase with hlasting | ⟨owner', o', hc, hv', hat⟩
    · exact ⟨o, rfl, .inl hlasting⟩
    · cases hc
      cases hv'
      exact ⟨o, rfl, .inr hat⟩
  | load haddr hslot _ hrole =>
    cases he with | load hv ho _ hk =>
    cases hs
    refine (h.define ?_).owned hb
    have hheld := h.values.value _ _ hv
    rw [haddr] at hheld
    obtain ⟨o', hv', hat⟩ := hheld
    cases hv'
    rw [hrole]
    exact h.held_of_slot hm.built ho hk hat hslot
  | store _ _ _ hfits =>
    cases he with | store _ hv _ _ _ =>
    cases hs
    have hlasting := (h.values.value _ _ hv).of_fits hm.built hfits
    exact (h.write (.inl hlasting)).owned hb
  | call hreg hfun hfits hdest =>
    cases he with | call hvs =>
    cases hs with | call _ hf henter =>
    obtain ⟨f, hf', hlowered⟩ := hm.function?_of_scope hreg
    cases Option.some.inj (hf.symm.trans hf')
    refine h.call hm hb hlowered henter (fun d hd => ⟨_, hdest d hd⟩) ?_
    intro function' i v role hfun' hv hrole
    cases Option.some.inj (hfun.symm.trans hfun')
    have hheld := forall₂_through hvs hfits fun hv harg => (h.values.value _ _ hv).of_fits hm.built harg
    exact rel_of_forall₂ hheld hv hrole
  | makeClosure _ _ hcontext hheap hrole =>
    cases he with | @makeClosure _ _ _ context hv =>
    cases hs
    refine (h.define ?_).owned hb
    rw [hrole]
    have hheld := h.values.value _ _ hv
    rw [hcontext] at hheld
    have hlasting := OwnedBy.lasting_of_onHeap hheld hheap
    cases context with
    | none => trivial
    | some o => exact hlasting
  | callClosure hfits _ _ hargs _ hdest =>
    cases he with | @callClosure _ _ _ _ target context vs hv hvs =>
    cases hs with | call _ hf henter =>
    obtain ⟨id, -, hlowered⟩ := hm.exists_code hf
    refine h.call hm hb hlowered henter (fun d hd => ⟨_, hdest d hd⟩) ?_
    intro function' i v role _ hv' hrole
    have hlasting := h.lasting_closureArgs hm.built hfits hv hargs hvs _ (List.mem_of_getElem? hv')
    exact hlasting.held (not_isAddress_of_calleeRoles (List.mem_of_getElem? hrole))
  | retNone =>
    cases he
    cases hs with | ret _ =>
    obtain ⟨Δ, ret', howned, hblocks, -⟩ := h.ret
    exact howned.owned hblocks
  | ret hfits =>
    cases he with | ret hv =>
    have hlasting := (h.values.value _ _ hv).of_fits hm.built hfits
    cases hs with
    | ret _ =>
      obtain ⟨Δ, ret', howned, hblocks, -⟩ := h.ret
      exact howned.owned hblocks
    | retValue hd =>
      have hkeeps := h.keeps_release
      obtain ⟨Δ, ret', howned, hblocks, hdest⟩ := h.ret
      obtain ⟨ty, hty⟩ := hdest _ hd
      refine (howned.define ?_).owned hblocks
      rw [hty]
      exact Value.Lasting.keep hlasting hkeeps
  | unreachable => cases he

/-! ## Whole steps -/

namespace Owned

/-- The link of a new carrier is stored. -/
theorem link {owner : DeclId} {l : Layout} {kind : AllocKind} {slot : Nat} {object addr link : ValueId}
    {o : ObjectId} (hn : n.Built policy) (h : OwnedBy n s c.waiting Γ a)
    (hb : BlocksOk n False ret Γ a.blocks)
    (hl : LinkOk n False Γ owner l kind slot object addr link)
    (haddr : ∀ v, a.value addr = .ok v → v = .slot o slot) (hfresh : OwnFresh s a l.struct kind o)
    {e : Effect}
    (he : a.Does m s (.store addr link .ptr) e) {s' : State} (hs : State.Moves m ⟨a, c, s⟩ e s') :
    Owned n s' := by
  cases he with | store haddr' hv _ _ _ =>
  cases haddr _ haddr'
  cases hs
  have hheld := h.values.value _ _ hv
  rw [hl.link_role] at hheld
  refine (h.write ?_).owned hb
  cases kind with
  | heap => exact .inl (OwnedBy.lasting_of_onHeap hheld (hl.link_heap rfl))
  | stack =>
    refine .inr ⟨hfresh, fun owner' role hat hrole => ?_⟩
    have haddr := h.values.value _ _ haddr'
    rw [hl.addr_role] at haddr
    obtain ⟨o', heq, hat'⟩ := haddr
    cases heq
    obtain ⟨object₁, l₁, ho₁, hkind₁, -, hl₁, hs₁⟩ := hat.object
    rcases hat' with ⟨object₂, ho₂, hkind₂⟩ | hat'
    · rw [ho₁] at ho₂
      cases ho₂
      rw [hkind₁] at hkind₂
      cases hkind₂
    · obtain ⟨object₂, l₂, ho₂, -, -, hl₂, hs₂⟩ := hat'.object
      rw [ho₁] at ho₂
      cases ho₂
      obtain ⟨-, rfl⟩ := hn.layout_eq_of_struct_eq hl₁ hl₂ (hs₁.symm.trans hs₂)
      rw [hn.slotRole?_link hl.layout_eq hl.link_eq] at hrole
      cases hrole
      exact hheld

/-- A carrier with a link is allocated: its link is stored next. -/
theorem allocate {owner : DeclId} {l : Layout} {kind : AllocKind} {slot : Nat}
    {object addr link : ValueId} {rest : List Inst} {blockKind : BlockKind} {outer : List Block}
    (h : OwnedBy n s c.waiting Γ a)
    (hb : BlocksOk n False ret Γ (⟨rest, blockKind⟩ :: outer))
    (hblocks : a.blocks = ⟨.fieldAddr addr object l.struct slot :: .store addr link .ptr :: rest,
      blockKind⟩ :: outer)
    (hl : LinkOk n False Γ owner l kind slot object addr link) {e : Effect}
    (he : a.Does m s (.alloc object l.struct kind) e) {s' : State}
    (hs : State.Moves m ⟨a, c, s⟩ e s') : Owned n s' := by
  cases he with | alloc _ =>
  cases hs with
  | allocateHeap =>
    refine ⟨Γ, ret, h.allocateHeap _ _ (by rw [hl.object_role]; exact id), ?_⟩
    change Doing n False ret Γ _ _ _ a.blocks
    rw [hblocks]
    exact .addressing hl (fun v hv => Activation.eq_of_value_define hv)
      ⟨_, Store.get?_next l.struct .heap _, rfl⟩ hb
  | allocateStack =>
    refine ⟨Γ, ret, h.allocateStack _ hl.layout_eq (hl.kind_eq rfl) hl.object_role, ?_⟩
    change Doing n False ret Γ _ _ _ a.blocks
    rw [hblocks]
    exact .addressing hl (fun v hv => Activation.eq_of_value_define hv)
      (List.mem_cons_self : s.next ∈ s.next :: a.owned) hb

/-- The slot for the link of a new carrier is addressed. -/
theorem address {owner : DeclId} {l : Layout} {kind : AllocKind} {slot : Nat}
    {object addr link : ValueId} {o : ObjectId} {rest : List Inst} {blockKind : BlockKind}
    {outer : List Block} (h : OwnedBy n s c.waiting Γ a)
    (hb : BlocksOk n False ret Γ (⟨rest, blockKind⟩ :: outer))
    (hblocks : a.blocks = ⟨.store addr link .ptr :: rest, blockKind⟩ :: outer)
    (hl : LinkOk n False Γ owner l kind slot object addr link)
    (hobj : ∀ v, a.value object = .ok v → v = .object o) (hfresh : OwnFresh s a l.struct kind o)
    {e : Effect} (he : a.Does m s (.fieldAddr addr object l.struct slot) e) {s' : State}
    (hs : State.Moves m ⟨a, c, s⟩ e s') : Owned n s' := by
  cases he with | fieldAddr hv ho _ _ =>
  cases hobj _ hv
  cases hs
  have hheld := h.values.value _ _ hv
  rw [hl.object_role] at hheld
  refine ⟨Γ, ret, h.define ?_, ?_⟩
  · rw [hl.addr_role]
    rcases hheld with hlasting | ⟨owner', o', hc, hv', hat⟩
    · exact ⟨o, rfl, .inl hlasting⟩
    · cases hc
      cases hv'
      exact ⟨o, rfl, .inr hat⟩
  · change Doing n False ret Γ _ _ _ a.blocks
    rw [hblocks]
    refine .linking hl (fun v hv => Activation.eq_of_value_define hv) ?_ hb
    cases kind <;> exact hfresh

/-- Every step respects ownership. -/
theorem step (hm : n.Lowers policy m) {s s' : State} (h : Owned n s) (hs : s.Step m s') :
    Owned n s' := by
  obtain ⟨inst, blocks, hsettle, hstep⟩ := hs
  obtain ⟨Γ, ret, howned, hdoing⟩ := h
  obtain ⟨a, c, store⟩ := s
  obtain ⟨e, he, hs⟩ := State.step_eq_running hstep
  have howned : OwnedBy n store c.waiting Γ { a with blocks } := howned.withBlocks blocks
  cases hdoing.taking hsettle with
  | code _ hnext =>
    obtain ⟨rest, kind, outer, rfl, hcode, hkind, houter⟩ := hnext
    cases hcode with
    | inst hi hrest => exact howned.inst hm (blocksOk_cons.2 ⟨⟨hrest, hkind⟩, houter⟩) hi he hs
    | branch ht hel hrest =>
      cases he
      cases hs
      refine (howned.withBlocks _).owned
        (blocksOk_cons.2 ⟨⟨?_, trivial⟩, blocksOk_cons.2 ⟨⟨hrest, hkind⟩, houter⟩⟩)
      simp only
      split
      · exact hel
      · exact ht
    | loop hh hbody hrest =>
      cases he
      cases hs
      exact (howned.withBlocks _).owned
        (blocksOk_cons.2 ⟨⟨hh, hh, hbody⟩, blocksOk_cons.2 ⟨⟨hrest, hkind⟩, houter⟩⟩)
    | link hl hrest => exact allocate howned (blocksOk_cons.2 ⟨⟨hrest, hkind⟩, houter⟩) rfl hl he hs
  | addressing hl hobj hfresh hb =>
    refine address howned hb rfl hl hobj ?_ he hs
    rename_i kind _ _ _ _ _ _ _ _
    cases kind <;> exact hfresh
  | linking hl haddr hfresh hb =>
    refine link hm.built howned hb hl haddr ?_ he hs
    rename_i kind _ _ _ _ _ _ _ _
    cases kind <;> exact hfresh

/-- No value of the active activation leads to a released object. -/
theorem live {s : State} (h : Owned n s) (blocks : List Block) :
    (s.take blocks).active.Live (s.take blocks).store := by
  obtain ⟨Γ, ret, howned, -⟩ := h
  obtain ⟨a, c, store⟩ := s
  have hheap : ∀ {o : ObjectId} {object : Object}, store.objects[o.index]? = some object →
      store.OnHeapAt o → object.live = true := by
    rintro o object ho ⟨object', ho', hkind⟩
    rw [ho] at ho'
    cases ho'
    exact (howned.heap o _ ho hkind).1
  have hframe : ∀ {o : ObjectId} {object : Object} {owner : DeclId},
      store.objects[o.index]? = some object →
      FrameAt n store (reachOf (a :: c.waiting)) owner o → object.live = true := by
    intro o object owner ho hat
    obtain ⟨object', -, ho', -, hlive, -⟩ := hat.object
    rw [ho] at ho'
    cases ho'
    exact hlive
  intro r v target hv ht object ho
  have hheld := howned.values.value r v hv
  cases hrole : Γ.ofValue r with
  | value ty =>
    rw [hrole] at hheld
    cases v <;> cases ht
    · exact hheap ho hheld
    · exact absurd hheld id
  | context carrier =>
    rw [hrole] at hheld
    rcases hheld with hheld | ⟨owner, o, -, rfl, hat⟩
    · cases v <;> cases ht
      · exact hheap ho hheld
      · exact absurd hheld id
    · cases ht
      exact hframe ho hat
  | address owner slot =>
    rw [hrole] at hheld
    obtain ⟨o, rfl, hat | hat⟩ := hheld
    · cases ht
      exact hheap ho hat
    · cases ht
      exact hframe ho hat

end Owned

/-! ## The ends of a call -/

/-- A call from outside starts without any frame. -/
theorem owned_of_enter (hm : n.Lowers policy m) (hs : HeapOk s) {target : FunctionId}
    {f : Lir.Function} (hf : m.function? target = some f) {args : List Int64} {a : Activation}
    (he : Activation.enter f (args.map .int) none = .ok a) : Owned n ⟨a, .empty, s⟩ := by
  obtain ⟨id, -, hlowered⟩ := hm.exists_code hf
  have hentered := Activation.entered_of_enter he
  have hargs : ∀ function (i : Nat) v role, n.program.function? id = some function →
      (args.map Value.int)[i]? = some v → (n.calleeRoles id function)[i]? = some role →
      Held n s (reachOf [a]) role v := by
    intro function i v role _ hv hrole
    refine Value.Lasting.held ?_ (not_isAddress_of_calleeRoles (List.mem_of_getElem? hrole))
    obtain ⟨x, -, rfl⟩ := List.mem_map.1 (List.mem_of_getElem? hv)
    trivial
  obtain ⟨Γ, ret, hvalues, hblocks⟩ := valuesHeld_of_enter hm hlowered he hargs
  refine OwnedBy.owned ⟨hs, ?_, hvalues, ?_, trivial⟩ hblocks
  · simp [reachOf, hentered.owned_eq, CallStack.empty]
  · intro o ho
    simp [hentered.owned_eq] at ho

/-- Whatever way a call ends, nothing on the heap leads elsewhere. -/
theorem Owned.heapOk_unwind {s : State} (h : Owned n s) : HeapOk s.unwind := by
  obtain ⟨Γ, ret, howned, -⟩ := h
  rw [State.unwind_eq]
  exact howned.heap.releaseAll fun o ho => howned.stack_of_mem ho

end StaticChain
