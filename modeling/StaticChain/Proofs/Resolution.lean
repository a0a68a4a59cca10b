import StaticChain.Proofs.Code

/-!
# What names resolve to

The answers of `Nesting.resolve`, `Nesting.callContext`, `Nesting.constructionContext` and
`Scope.fieldSlot`, read as facts about layouts and chains. A context that is passed on is the carrier
above what it is passed to (`Nesting.ContextFor`).
-/

namespace StaticChain

open Lir (StructId Ty)

/-- The type that a variable is declared with. -/
def Program.varType (p : Program) (x : VarId) : ValueType := ((p.var? x).map Variable.ty).getD .unit

theorem Program.varType_eq {p : Program} {x : VarId} {var : Variable} (h : p.var? x = some var) :
    p.varType x = var.ty := by
  simp [varType, h]

theorem Program.varType_eq_of_ok {p : Program} {x : VarId} {ty : ValueType}
    (h : (do return (← p.getVar x).ty) = (.ok ty : Except Defect ValueType)) : p.varType x = ty := by
  obtain ⟨var, hv, h⟩ := bind_eq_ok.1 h
  rw [varType_eq (getVar_eq_ok.1 hv)]
  exact pure_eq_ok.1 h

theorem Program.Checked.exists_param {p : Program} (hp : p.Checked) {id : DeclId}
    {function : FunctionDecl} (hf : p.function? id = some function) {x : VarId}
    (hx : x ∈ function.params) : ∃ var, p.var? x = some var ∧ var.owner = id := by
  obtain ⟨decl, hd, hk⟩ := Program.function?_eq_some_iff.1 hf
  exact hp.local_owner hd ((hp.params_prefix hd hk).subset hx)

theorem Program.Checked.functionValueType_eq {p : Program} (hp : p.Checked) {id : DeclId}
    {function : FunctionDecl} (hf : p.function? id = some function) :
    p.functionValueType id =
      .ok (.function (function.params.map p.varType) function.returnType) := by
  have hparams : (function.params.mapM fun param => do return (← p.getVar param).ty) =
      (.ok (function.params.map p.varType) : Except Defect (List ValueType)) := by
    rw [mapM_eq_ok, List.forall₂_map_right_iff, List.forall₂_same]
    intro x hx
    obtain ⟨var, hv, -⟩ := hp.exists_param hf hx
    rw [Program.getVar_eq_ok.2 hv, Program.varType_eq hv]
    rfl
  unfold functionValueType
  exact bind_eq_ok.2 ⟨_, Program.getFunction_eq_ok.2 hf, bind_eq_ok.2 ⟨_, hparams, rfl⟩⟩

namespace Layout

variable {p : Program} {c : Captures} {struct : StructId} {id : DeclId} {l : Layout}

/-- A link is the `parent` slot of a frame or the `outer` slot of an instance. -/
theorem Of.kind_linkSlot (h : Of p c struct id l) {k : Nat} (hk : l.linkSlot? = some k) :
    ∃ slot, l.slots[k]? = some slot ∧ (slot.kind = .parent ∨ slot.kind = .outer) := by
  unfold linkSlot? at hk
  cases hps : l.parentSlot with
  | some i =>
    obtain rfl : i = k := by simpa [hps] using hk
    obtain ⟨slot, hslot, hkind⟩ := h.kind_parentSlot hps
    exact ⟨slot, hslot, .inl hkind⟩
  | none =>
    have hos : l.outerSlot = some k := by simpa [hps] using hk
    obtain ⟨slot, hslot, hkind⟩ := h.kind_outerSlot hos
    exact ⟨slot, hslot, .inr hkind⟩

theorem Of.slotType_linkSlot (h : Of p c struct id l) {k : Nat} (hk : l.linkSlot? = some k) :
    l.slots[k]?.map Slot.ty = some .ptr := by
  cases h with
  | @frame decl _ _ slots hd hkind hs needed hslots =>
    cases hparent : decl.parent.isSome with
    | false => simp [linkSlot?, hparent] at hk
    | true =>
      obtain rfl : slots.length = k := by simpa [linkSlot?, hparent] using hk
      simp
  | @aggregate _ _ summary slots hd hkind hs hslots =>
    cases houter : summary.needsOuter with
    | false => simp [linkSlot?, houter] at hk
    | true =>
      obtain rfl : slots.length = k := by simpa [linkSlot?, houter] using hk
      simp

/-- The slot of a variable stores values of its type. -/
theorem Of.storage_of_kind (h : Of p c struct id l) {k : Nat} {slot : Slot} {x : VarId}
    (hk : l.slots[k]? = some slot) (hx : slot.kind.var? = some x) :
    ∃ var, p.var? x = some var ∧ var.ty.storage? = some slot.ty := by
  have key : ∀ (kind : VarId → SlotKind) (vars : List VarId) (slots : List Slot) (b : Bool)
      (link : Slot), (∀ x, (kind x).var? = some x) → link.kind.var? = none →
      List.Forall₂ (fun x slot => slotFor p kind x = .ok slot) vars slots →
      (slots ++ if b then [link] else [])[k]? = some slot →
      ∃ var, p.var? x = some var ∧ var.ty.storage? = some slot.ty := by
    intro kind vars slots b link hvar hlink hslots hget
    rw [List.getElem?_append] at hget
    split at hget
    · obtain ⟨y, var, -, hv, hkind, hty⟩ := kind_of_lt hslots hget
      rw [hkind, hvar] at hx
      cases hx
      exact ⟨var, hv, hty⟩
    · cases b with
      | false => simp at hget
      | true =>
        have hmem := List.mem_of_getElem? hget
        simp only [if_true, List.mem_singleton] at hmem
        rw [hmem, hlink] at hx
        cases hx
  cases h with
  | frame hd hkind hs needed hslots => exact key _ _ _ _ _ (fun _ => rfl) rfl hslots hk
  | aggregate hd hkind hs hslots => exact key _ _ _ _ _ (fun _ => rfl) rfl hslots hk

/-- The slot after those of the variables is the only link. -/
theorem Of.linkSlot_of_kind (h : Of p c struct id l) {k : Nat} {slot : Slot}
    (hk : l.slots[k]? = some slot) (hkind : slot.kind.var? = none) : l.linkSlot? = some k := by
  have key : ∀ (kind : VarId → SlotKind) (vars : List VarId) (slots : List Slot) (b : Bool)
      (link : Slot), (∀ x, (kind x).var? = some x) →
      List.Forall₂ (fun x slot => slotFor p kind x = .ok slot) vars slots →
      (slots ++ if b then [link] else [])[k]? = some slot →
      b = true ∧ slots.length = k := by
    intro kind vars slots b link hvar hslots hget
    rw [List.getElem?_append] at hget
    split at hget
    · obtain ⟨x, var, -, -, hx, -⟩ := kind_of_lt hslots hget
      simp [hx, hvar] at hkind
    · rename_i hle
      cases b with
      | false => simp at hget
      | true =>
        obtain ⟨hlt, -⟩ := List.getElem?_eq_some_iff.1 hget
        simp only [if_true, List.length_singleton] at hlt
        exact ⟨rfl, by omega⟩
  cases h with
  | frame hd hkf hs needed hslots =>
    obtain ⟨hb, hlen⟩ := key _ _ _ _ _ (fun _ => rfl) hslots hk
    simp [linkSlot?, hb, hlen]
  | aggregate hd hka hs hslots =>
    obtain ⟨hb, hlen⟩ := key _ _ _ _ _ (fun _ => rfl) hslots hk
    simp [linkSlot?, hb, hlen]

theorem Of.linkSlot_of_isFunction (h : Of p c struct id l) (hf : p.isFunction id = true) :
    l.linkSlot? = l.parentSlot := by
  cases h with
  | frame hd hk hs needed hslots => simp [linkSlot?]
  | aggregate hd hk hs hslots =>
    obtain ⟨f, hf⟩ := Program.isFunction_iff.1 hf
    obtain ⟨decl, hd', hk'⟩ := Program.function?_eq_some_iff.1 hf
    simp_all

theorem Of.linkSlot_of_isAggregate (h : Of p c struct id l) (ha : p.isAggregate id = true) :
    l.linkSlot? = l.outerSlot := by
  cases h with
  | frame hd hk hs needed hslots =>
    rw [Program.isAggregate_of_function (Program.function?_eq_some_iff.2 ⟨_, hd, hk⟩)] at ha
    cases ha
  | aggregate hd hk hs hslots => simp [linkSlot?]

/-- The fields of an aggregate have one slot each, in order. -/
theorem Of.fieldSlots_eq (h : Of p c struct id l) {aggregate : AggregateDecl}
    (ha : p.aggregate? id = some aggregate) :
    List.Forall₂ (fun x s => l.slots[s.2]? = some s.1 ∧ s.1.kind = .field x)
      aggregate.fields l.fieldSlots := by
  obtain ⟨decl, hd, hk⟩ := Program.aggregate?_eq_some_iff.1 ha
  cases h with
  | frame hd' hk' =>
    rw [hd] at hd'
    cases hd'
    rw [hk] at hk'
    cases hk'
  | @aggregate decl' aggregate' summary slots hd' hk' hs hslots =>
    rw [hd] at hd'
    cases hd'
    rw [hk] at hk'
    cases hk'
    have hfield : ∀ slot ∈ slots, ∃ x, slot.kind = .field x := by
      intro slot hslot
      obtain ⟨i, hi⟩ := List.getElem?_of_mem hslot
      obtain ⟨x, var, -, -, hx, -⟩ := kind_of_lt hslots hi
      exact ⟨x, hx⟩
    generalize hl : Layout.mk .. = l
    have hslotsOf : l.slots = slots ++ if summary.needsOuter then [⟨.outer, "outer", .ptr⟩] else [] := by
      rw [← hl]
    have heq : l.fieldSlots = slots.zipIdx := by
      unfold fieldSlots
      rw [hslotsOf, List.zipIdx_append, List.filter_append, List.filter_eq_self.2,
        List.filter_eq_nil_iff.2, List.append_nil]
      · intro s hs
        cases hb : summary.needsOuter <;> simp [hb] at hs
        simp [hs]
      · intro s hs
        obtain ⟨hlt, -, heq⟩ := List.mem_zipIdx hs
        obtain ⟨x, hx⟩ := hfield s.1 (heq ▸ List.getElem_mem _)
        simp [hx]
    rw [heq]
    rw [List.forall₂_iff_get]
    refine ⟨by simp [hslots.length_eq], ?_⟩
    intro i hi hi'
    have hlt : i < slots.length := by simpa using hi'
    obtain ⟨var, hv, hkind, hty⟩ := slotFor_eq_ok (hslots.get hi hlt)
    simp only [List.get_eq_getElem, List.getElem_zipIdx, Nat.zero_add]
    exact ⟨by simp [hslotsOf, List.getElem?_append_left hlt], by simpa using hkind⟩

end Layout

namespace Nesting

variable {n : Nesting}

theorem mem_of_chainTo {useSite target : DeclId} {chain : Chain}
    (h : n.chainTo useSite target = .ok chain) :
    target ∈ useSite :: n.program.ancestors useSite := by
  obtain ⟨-, ⟨rfl, -⟩ | ⟨carriers, hcs, -⟩⟩ := Built.chainTo_eq_ok h
  · simp
  · unfold carriersTo at hcs
    simp only [Option.ite_none_right_eq_some, List.contains_iff_mem] at hcs
    exact List.mem_cons_of_mem _ (List.mem_of_mem_filter hcs.1)

/-- The context for a declaration is the carrier above it, as seen from the use site. -/
inductive ContextFor (n : Nesting) (useSite decl : DeclId) : ContextArgument → Prop
  | null : n.above decl = none → ContextFor n useSite decl .null
  | chain {target : DeclId} {chain : Chain} : n.above decl = some target →
      n.chainTo useSite target = .ok chain → ContextFor n useSite decl (.chain chain)

theorem contextFor_of_contextBelow {useSite decl parent : DeclId} {context : ContextArgument}
    (hpar : n.program.parent? decl = some parent)
    (h : n.contextBelow useSite parent = .ok context) : n.ContextFor useSite decl context := by
  have habove : n.above decl = n.captures.nearestCarrier? n.program parent := by
    simp [above, hpar]
  unfold contextBelow at h
  cases hc : n.captures.nearestCarrier? n.program parent with
  | none =>
    simp only [hc] at h
    cases h
    exact .null (habove.trans hc)
  | some carrier =>
    simp only [hc] at h
    obtain ⟨chain, hchain, h⟩ := bind_eq_ok.1 h
    cases h
    exact .chain (habove.trans hc) hchain

/-- A call passes no context, the carrier above the callee, or the receiver. -/
theorem callContext_eq_ok {useSite callee : DeclId} {context : ContextArgument}
    (h : n.callContext useSite callee = .ok context) :
    (∃ function, n.program.function? callee = some function) ∧
      ((context = .none ∧ n.program.parent? callee = none) ∨ context = .receiver ∨
        ((n.program.parent? callee).isSome = true ∧ n.ContextFor useSite callee context)) := by
  unfold callContext at h
  obtain ⟨function, hf, h⟩ := bind_eq_ok.1 h
  refine ⟨⟨function, Program.getFunction_eq_ok.1 hf⟩, ?_⟩
  cases hpar : n.program.parent? callee with
  | none =>
    simp only [hpar] at h
    cases h
    exact .inl ⟨rfl, rfl⟩
  | some parent =>
    simp only [hpar] at h
    split at h
    · cases h
      exact .inr (.inl rfl)
    · exact .inr (.inr ⟨rfl, contextFor_of_contextBelow hpar h⟩)

/-- An instance takes a context if and only if it has an `outer` link. -/
theorem constructionContext_eq_ok {useSite aggregate : DeclId} {context : ContextArgument}
    (h : n.constructionContext useSite aggregate = .ok context) :
    ∃ l, n.layouts.layout? aggregate = some l ∧
      ((context = .none ∧ l.outerSlot = none) ∨
        (l.outerSlot.isSome = true ∧ n.ContextFor useSite aggregate context)) := by
  unfold constructionContext at h
  obtain ⟨l, hl, h⟩ := bind_eq_ok.1 h
  refine ⟨l, Layouts.getLayout_eq_ok.1 hl, ?_⟩
  cases hos : l.outerSlot with
  | none =>
    simp only [hos, Option.isNone_none, if_true] at h
    cases h
    exact .inl ⟨rfl, rfl⟩
  | some slot =>
    simp only [hos, Option.isNone_some, Bool.false_eq_true, if_false] at h
    refine .inr ⟨rfl, ?_⟩
    cases hpar : n.program.parent? aggregate with
    | none =>
      simp only [hpar] at h
      cases h
      exact .null (Built.above_of_root hpar)
    | some parent =>
      simp only [hpar] at h
      exact contextFor_of_contextBelow hpar h

theorem resolve_eq_local {useSite : DeclId} {x y : VarId}
    (h : n.resolve useSite x = .ok (.local y)) :
    y = x ∧ ∃ var, n.program.var? x = some var ∧ var.owner = useSite ∧
      n.captures.isCaptured x = false := by
  unfold resolve at h
  obtain ⟨var, hv, h⟩ := bind_eq_ok.1 h
  simp only at h
  split at h
  · rename_i hlocal
    cases h
    exact ⟨rfl, var, Program.getVar_eq_ok.1 hv, hlocal.1, by simpa using hlocal.2⟩
  · split at h
    · exact absurd h throw_bind_ne_ok
    · obtain ⟨chain, -, h⟩ := bind_eq_ok.1 h
      obtain ⟨l, -, h⟩ := bind_eq_ok.1 h
      split at h
      · exact absurd h throw_ne_ok
      · split at h
        · exact absurd h throw_ne_ok
        · cases h

theorem resolve_eq_slot {useSite : DeclId} {x : VarId} {chain : Chain} {struct : StructId}
    {slot : Nat} {ty : Ty} (h : n.resolve useSite x = .ok (.slot chain struct slot ty)) :
    ∃ var l, n.program.var? x = some var ∧ n.chainTo useSite var.owner = .ok chain ∧
      n.layouts.layout? var.owner = some l ∧ struct = l.struct ∧ l.slotOf? x = some slot ∧
      l.slotType? slot = some ty := by
  unfold resolve at h
  obtain ⟨var, hv, h⟩ := bind_eq_ok.1 h
  simp only at h
  split at h
  · cases h
  · split at h
    · exact absurd h throw_bind_ne_ok
    · obtain ⟨chain', hchain, h⟩ := bind_eq_ok.1 h
      obtain ⟨l, hl, h⟩ := bind_eq_ok.1 h
      split at h
      · exact absurd h throw_ne_ok
      · rename_i slot' hslot
        split at h
        · exact absurd h throw_ne_ok
        · rename_i ty' hty
          cases h
          exact ⟨var, l, Program.getVar_eq_ok.1 hv, hchain, Layouts.getLayout_eq_ok.1 hl, rfl, hslot,
            hty⟩

end Nesting

theorem Scope.fieldSlot_eq_ok {s : Scope} {field : VarId} {struct : StructId} {slot : Nat} {ty : Ty}
    (h : s.fieldSlot field = .ok (struct, slot, ty)) :
    ∃ var l, s.nesting.program.var? field = some var ∧
      s.nesting.layouts.layout? var.owner = some l ∧ struct = l.struct ∧
      l.slotOf? field = some slot ∧ ty = (l.slotType? slot).getD .ptr := by
  unfold fieldSlot at h
  obtain ⟨var, hv, h⟩ := bind_eq_ok.1 h
  obtain ⟨l, hl, h⟩ := bind_eq_ok.1 h
  split at h
  · exact absurd h throw_ne_ok
  · rename_i slot' hslot
    cases h
    exact ⟨var, l, Program.getVar_eq_ok.1 hv, Layouts.getLayout_eq_ok.1 hl, rfl, hslot, rfl⟩

end StaticChain
