import StaticChain.Proofs.Wasm.Instructions

/-!
# Calls and returns in generated code

Arguments are passed on the operand stack and become the first locals of the callee. A closure is called by
comparing the number of its function with those of all functions that it may be. A function that may have
stack objects keeps the stack pointer of its start and sets it back before it returns: what then lies above
the stack pointer are the objects of the activations that wait.
-/

namespace StaticChain.Wasm

open Lir (ValueId LocalId FunctionId StructId AllocKind Inst Ty)
open Machine (Activation Block CallStack Value Object ObjectId Store reachOf)

/-! ## Arguments -/

section

variable {host : Host} {m : Module} {P : State → Prop} {locals : List Val} {arity : Nat}
  {callers : List Frame} {inst : Instance}

/-- Arguments are put on the operand stack, in order. -/
theorem State.Comes.gets {s : Site} {args : List ValueId} {xs stack : List Val} {code : List Instr}
    {labels : List Label} (h : List.Forall₂ (fun r x => locals[s.value r]? = some x) args xs)
    (k : State.Comes host m P ⟨⟨locals, xs.reverse ++ stack, code, labels, arity⟩, callers, inst⟩) :
    State.Comes host m P ⟨⟨locals, stack, args.map s.get ++ code, labels, arity⟩, callers, inst⟩ := by
  induction h generalizing stack with
  | nil => exact k
  | cons hx _ ih => exact .localGet hx (ih (by simpa using k))

end

theorem LocalsShow.gets {lir : Lir.Module} {w : Module} (hw : Ready lir w) {A : AddressMap} {a : Activation}
    {locals : List Val} (h : LocalsShow lir A a locals) {args : List ValueId} {vs : List Value}
    (hvs : List.Forall₂ (fun r v => a.value r = .ok v) args vs) :
    ∃ xs, List.Forall₂ (fun r x => locals[(siteOf lir a.function).value r]? = some x) args xs ∧
      List.Forall₂ (Shows A) vs xs := by
  induction hvs with
  | nil => exact ⟨[], .nil, .nil⟩
  | cons hv _ ih =>
    obtain ⟨xs, hxs, hshows⟩ := ih
    obtain ⟨x, hx, hshow⟩ := h.get hw hv
    exact ⟨x :: xs, .cons hx hxs, .cons hshow hshows⟩

/-! ## Entering a function -/

section

variable {lir : Lir.Module} {w : Module} (hw : Ready lir w) {host : Host} {A : AddressMap} {heap stack : Nat}
  {c : CallStack} {s : Store} {inst : Instance}

theorem functionIndex_eq (hw : Ready lir w) {target : FunctionId} {f : Lir.Function}
    (hf : lir.function? target = some f) : functionIndex target = target.index + 1 := by
  have hlt : target.index < lir.functions.size := (Array.getElem?_eq_some_iff.1 hf).1
  have := hw.generated.functions_lt
  exact Nat.mod_eq_of_lt (by omega)

/-- The locals of a function that starts are its arguments and zeros. -/
theorem LocalsShow.of_enter (hw : Ready lir w) {target : FunctionId} {f : Lir.Function}
    (hf : lir.function? target = some f) {vs : List Value} {dest : Option ValueId} {callee : Activation}
    (he : Activation.Entered f vs dest callee) {xs zeros : List Val} (hargs : List.Forall₂ (Shows A) vs xs)
    (hlen : f.callParams.length + zeros.length = (siteOf lir f).localCount) :
    LocalsShow lir A callee (xs ++ zeros) := by
  have hfun := he.function_eq
  refine ⟨?_, ?_, ?_, ?_, ?_, ?_⟩
  · rw [hfun, hw.id_eq _ _ hf]
    exact hf
  · rw [hfun, ← hlen, ← he.args_length, hargs.length_eq, List.length_append]
  · rw [he.values_eq, hfun]
    simp
  · rw [he.locals_size, hfun]
  · exact fun r v hv => absurd hv (he.value_ne r v)
  · intro l v hl
    have harg := he.local_eq hl
    obtain ⟨x, hx, hshows⟩ := exists_getElem?_of_forall₂ hargs harg
    exact ⟨x, by rw [List.getElem?_append_left (List.getElem?_eq_some_iff.1 hx).1, hx], hshows⟩

include hw in
/-- A function keeps the stack pointer at its start, if it may have stack objects. -/
theorem Placed.comes_body (h : Placed lir A s inst heap stack) {target : FunctionId} {f : Lir.Function}
    (hf : lir.function? target = some f) {vs : List Value} {dest : Option ValueId} {callee : Activation}
    (he : Activation.Entered f vs dest callee) {xs : List Val} (hargs : List.Forall₂ (Shows A) vs xs)
    {frames : List Frame} (hcallers : Waiting lir A stack dest f.ret.isSome c.waiting frames)
    (howned : ∀ (o : ObjectId) object, s.objects[o.index]? = some object → object.live = true →
      object.kind = .stack → o ∈ reachOf c.waiting)
    {entry : Module.Callee} (hentry : w.callee? (target.index + 1) = some entry) :
    State.Comes host w (Sim lir ⟨callee, c, s⟩) ⟨entry.frame xs, frames, inst⟩ := by
  obtain ⟨zeros, body, hbody, hlen, hcallee⟩ := hw.generated.function target.index f hf
  rw [hentry] at hcallee
  cases hcallee
  have hshows := LocalsShow.of_enter hw hf he hargs hlen
  have hfun := he.function_eq
  have hstack := h.bounds.stack_le
  have hblocks : BlocksCode (siteOf lir callee.function) callee.blocks body [] := by
    rw [he.blocks_eq, hfun]
    exact .outermost ⟨Covers.body f, hbody⟩
  have hcallers : Waiting lir A stack callee.dest callee.function.ret.isSome c.waiting frames := by
    rw [he.dest_eq, hfun]
    exact hcallers
  have howned : ∀ (o : ObjectId) object, s.objects[o.index]? = some object → object.live = true →
      object.kind = .stack → o ∈ reachOf (callee :: c.waiting) := by
    simpa [he.owned_eq] using howned
  have harity : (signature f).results.length = callee.function.ret.toList.length := by
    simp [signature, hfun]
  have hnone : ∀ o ∈ callee.owned, ∃ p, A.objects[o.index]? = some p ∧ stack ≤ p := by
    simp [he.owned_eq]
  cases hsaved : (siteOf lir f).saved? with
  | none =>
    simp only [Module.Callee.frame, harity]
    refine .here (.mk ⟨h, hshows, ⟨Nat.le_refl _, hstack, hnone, ?_, fun _ => rfl⟩, hcallers, howned⟩ hblocks)
    rw [hfun, hsaved]
    simp
  | some i =>
    obtain ⟨hi, hlt⟩ := Site.saved?_eq hw (hfun ▸ hshows.function_eq) hsaved
    have hlt' : i < (xs ++ zeros).length := by
      rw [hshows.length_eq, hfun]
      exact hlt
    simp only [Module.Callee.frame, harity, Option.elim_some]
    refine .globalGet (by rw [h.bounds.globals_eq]; rfl) (.localSet hlt' (.here ?_))
    refine .mk ⟨h, ?_, ⟨Nat.le_refl _, hstack, hnone, ?_, ?_⟩, hcallers, howned⟩ hblocks
    · rw [hi, ← hfun]
      exact hshows.setSaved _
    · intro j hj
      rw [hfun, hsaved] at hj
      cases hj
      exact List.getElem?_set_self hlt'
    · rw [hfun, hsaved]
      simp

include hw in
/-- A function is called with the arguments on top of the operand stack. -/
theorem Placed.comes_enter (h : Placed lir A s inst heap stack) {target : FunctionId} {f : Lir.Function}
    (hf : lir.function? target = some f) {vs : List Value} {dest : Option ValueId} {callee : Activation}
    (he : Activation.enter f vs dest = .ok callee) {xs : List Val} (hargs : List.Forall₂ (Shows A) vs xs)
    {locals operands : List Val} {code : List Instr} {labels : List Label} {arity : Nat} {frames : List Frame}
    (hcallers : Waiting lir A stack dest f.ret.isSome c.waiting
      (⟨locals, operands, code, labels, arity⟩ :: frames))
    (howned : ∀ (o : ObjectId) object, s.objects[o.index]? = some object → object.live = true →
      object.kind = .stack → o ∈ reachOf c.waiting) :
    State.Comes host w (Sim lir ⟨callee, c, s⟩)
      ⟨⟨locals, xs.reverse ++ operands, .plain (.call (functionIndex target)) :: code, labels, arity⟩, frames,
        inst⟩ := by
  have hentered := Activation.entered_of_enter he
  obtain ⟨zeros, body, -, -, hcallee⟩ := hw.generated.function target.index f hf
  rw [functionIndex_eq hw hf]
  refine .call hcallee ?_ (h.comes_body hw hf hentered hargs hcallers howned hcallee)
  simp [signature, ← hentered.args_length, hargs.length_eq]

end

/-! ## Calls -/

/-- Closures are made of functions of the module. -/
theorem closureTargets_subset {lir : Lir.Module} {f : Lir.Function} (h : f ∈ closureTargets lir) :
    ∃ id, lir.function? id = some f := by
  obtain ⟨⟨f, i⟩, hmem, rfl⟩ := List.mem_map.1 h
  have := List.mem_zipIdx_iff_getElem?.1 (List.mem_filter.1 hmem).1
  exact ⟨⟨i⟩, by simpa [Lir.Module.function?] using this⟩

section

variable {lir : Lir.Module} {w : Module} (hw : Ready lir w) {host : Host} {A : AddressMap}
  {heap stack start : Nat} {a : Activation} {c : CallStack} {s : Store} {locals : List Val}
  {frames : List Frame} {inst : Instance} {code : List Instr} {labels : List Label}
  (h : Shown lir A heap stack start a c.waiting s locals frames inst)
  (hb : BlocksCode (siteOf lir a.function) a.blocks code labels)
include hw h hb

/-- A function is called by its number. -/
theorem Shown.comes_call {dest : Option ValueId} {target : FunctionId} {f : Lir.Function}
    (hf : lir.function? target = some f) (hd : ∀ d, dest = some d → d.index < a.function.valueTypes.size)
    {args : List ValueId} {vs : List Value} (hvs : List.Forall₂ (fun r v => a.value r = .ok v) args vs)
    {callee : Activation} (he : Activation.enter f vs dest = .ok callee) :
    State.Comes host w (Sim lir ⟨callee, c.push a, s⟩)
      ⟨⟨locals, [], args.map (siteOf lir a.function).get ++ [.plain (.call (functionIndex target))] ++
        (siteOf lir a.function).finishCall dest f.ret.isSome ++ code, labels, a.function.ret.toList.length⟩,
        frames, inst⟩ := by
  obtain ⟨xs, hxs, hshows⟩ := h.shows.gets hw hvs
  simp only [List.append_assoc]
  exact .gets hxs (h.placed.comes_enter hw hf he hshows
    (.cons h.shows h.keeps (.direct hb) hd h.callers) h.owned)

omit hb in
/-- The number of a function is compared with that of a closure. -/
theorem Shown.comes_test {cell : Cell} (hcell : cell ∈ A.cells) {closure : ValueId}
    (hclosure : locals[(siteOf lir a.function).value closure]? = some (.i32 (BitVec.ofNat 32 cell.address)))
    {target g : Lir.Function} (hg : lir.function? cell.function = some g)
    (htarget : lir.function? target.id = some target) {P : State → Prop} {thenCode rest : List Instr}
    {labels : List Label}
    (hthen : target = g → State.Comes host w P ⟨⟨locals, [], thenCode, ⟨0, [], rest, []⟩ :: labels,
      a.function.ret.toList.length⟩, frames, inst⟩)
    (helse : target ≠ g → State.Comes host w P ⟨⟨locals, [], rest, labels, a.function.ret.toList.length⟩, frames,
      inst⟩) :
    State.Comes host w P ⟨⟨locals, [], [(siteOf lir a.function).get closure,
      .plain (.load .w32 Memory.closureFunction), .plain (.const32 (Int32.ofNat target.id.index)),
      .plain (.rel .w32 .eq), .cond .empty thenCode []] ++ rest, labels, a.function.ret.toList.length⟩, frames,
      inst⟩ := by
  obtain ⟨hpart, hfunction, -, -⟩ := h.placed.cell cell hcell
  have hheap := h.placed.bounds.heap_le
  have haddress := toNat_ofNat32 (n := cell.address) (by
    have := h.placed.bounds.heap_lt
    simp only [UInt32.size]
    omega)
  have hid : target = g ↔ cell.function.index = target.id.index := by
    constructor
    · rintro rfl
      rw [hw.id_eq _ _ hg]
    · intro heq
      have : cell.function = target.id := congrArg FunctionId.mk heq
      rw [this, htarget] at hg
      exact Option.some.inj hg
  have hlt : ∀ {id : FunctionId} {f : Lir.Function}, lir.function? id = some f → id.index < UInt32.size := by
    intro id f hf
    have hlt : id.index < lir.functions.size := (Array.getElem?_eq_some_iff.1 hf).1
    have := hw.generated.functions_lt
    omega
  have htest : IntRel.eval .eq (BitVec.ofNat 32 cell.function.index) (Int32.ofNat target.id.index).toBitVec =
      decide (cell.function.index = target.id.index) := by
    change (BitVec.ofNat 32 _ == BitVec.ofNat 32 _) = _
    rw [Bool.eq_iff_iff, beq_iff_eq, decide_eq_true_iff, ← BitVec.toNat_inj, toNat_ofNat32 (hlt hg),
      toNat_ofNat32 (hlt htarget)]
  refine .localGet hclosure (.load32 ?_ ?_)
  · rw [haddress]
    change cell.address + 4 ≤ _
    omega
  rw [haddress, show inst.memory.read 4 (cell.address + Memory.closureFunction.offset) = _ from hfunction]
  refine .const32 (.rel32 htest (.cond ?_))
  by_cases heq : cell.function.index = target.id.index
  · rw [decide_eq_true heq]
    exact hthen (hid.2 heq)
  · rw [decide_eq_false heq]
    exact .close (helse fun h => heq (hid.1 h))

/-- The function of a closure is called, with the context that the closure keeps. -/
theorem Shown.comes_target {cell : Cell} (hcell : cell ∈ A.cells) {closure : ValueId}
    (hclosure : locals[(siteOf lir a.function).value closure]? = some (.i32 (BitVec.ofNat 32 cell.address)))
    {g : Lir.Function} (hg : lir.function? g.id = some g) {dest : Option ValueId}
    (hd : ∀ d, dest = some d → d.index < a.function.valueTypes.size) {args : List ValueId} {vs : List Value}
    (hvs : List.Forall₂ (fun r v => a.value r = .ok v) args vs) {callee : Activation}
    (he : Activation.enter g ((if g.hasContext then [.ofContext cell.context] else []) ++ vs) dest = .ok callee)
    {label : Label} :
    State.Comes host w (Sim lir ⟨callee, c.push a, s⟩)
      ⟨⟨locals, [], (if g.hasContext then [(siteOf lir a.function).get closure,
          .plain (.load .w32 Memory.closureContext)] else []) ++ args.map (siteOf lir a.function).get ++
          [.plain (.call (functionIndex g.id))] ++ (siteOf lir a.function).finishCall dest g.ret.isSome ++
          [.plain (.br 1)], label :: ⟨0, [], code, []⟩ :: labels, a.function.ret.toList.length⟩, frames,
        inst⟩ := by
  obtain ⟨xs, hxs, hshows⟩ := h.shows.gets hw hvs
  obtain ⟨hpart, -, ⟨x, hx, hcontext⟩, -⟩ := h.placed.cell cell hcell
  obtain ⟨bits, rfl⟩ := hx.exists_ofContext
  have hheap := h.placed.bounds.heap_le
  have haddress := toNat_ofNat32 (n := cell.address) (by
    have := h.placed.bounds.heap_lt
    simp only [UInt32.size]
    omega)
  have hcallers : Waiting lir A stack dest g.ret.isSome (c.push a).waiting
      (⟨locals, [], (siteOf lir a.function).finishCall dest g.ret.isSome ++ [.plain (.br 1)],
        label :: ⟨0, [], code, []⟩ :: labels, a.function.ret.toList.length⟩ :: frames) :=
    .cons h.shows h.keeps (.closure hb) hd h.callers
  simp only [List.append_assoc]
  cases hflag : g.hasContext with
  | false =>
    rw [hflag] at he
    exact .gets hxs (h.placed.comes_enter hw hg he hshows hcallers h.owned)
  | true =>
    rw [hflag] at he
    refine .localGet hclosure (.load32 ?_ ?_)
    · rw [haddress]
      change cell.address + 4 + 4 ≤ _
      omega
    rw [haddress, show inst.memory.read 4 (cell.address + Memory.closureContext.offset) = bits from hcontext]
    refine .gets hxs ?_
    have hargs : List.Forall₂ (Shows A) ([.ofContext cell.context] ++ vs) (.i32 bits :: xs) := .cons hx hshows
    rw [show xs.reverse ++ [Val.i32 bits] = (Val.i32 bits :: xs).reverse ++ [] by simp]
    exact h.placed.comes_enter hw hg he hargs hcallers h.owned

/-- A closure is called: its function is among those that are tried, and nothing is called before it. -/
theorem Shown.comes_targets {cell : Cell} (hcell : cell ∈ A.cells) {closure : ValueId}
    (hclosure : locals[(siteOf lir a.function).value closure]? = some (.i32 (BitVec.ofNat 32 cell.address)))
    {g : Lir.Function} (hg : lir.function? cell.function = some g) {dest : Option ValueId}
    (hd : ∀ d, dest = some d → d.index < a.function.valueTypes.size) {args : List ValueId} {vs : List Value}
    (hvs : List.Forall₂ (fun r v => a.value r = .ok v) args vs) {callee : Activation}
    (he : Activation.enter g ((if g.hasContext then [.ofContext cell.context] else []) ++ vs) dest = .ok callee)
    {targets : List Lir.Function} (htargets : ∀ f ∈ targets, lir.function? f.id = some f) (hmem : g ∈ targets)
    {more : List Instr} :
    State.Comes host w (Sim lir ⟨callee, c.push a, s⟩)
      ⟨⟨locals, [], targets.flatMap ((siteOf lir a.function).callTarget dest closure args) ++ more,
        ⟨0, [], code, []⟩ :: labels, a.function.ret.toList.length⟩, frames, inst⟩ := by
  induction targets with
  | nil => simp at hmem
  | cons target targets ih =>
    rw [List.flatMap_cons, List.append_assoc]
    refine h.comes_test hw hcell hclosure hg (htargets target List.mem_cons_self) ?_ ?_
    · rintro rfl
      exact h.comes_target hw hb hcell hclosure (htargets target List.mem_cons_self) hd hvs he
    · intro hne
      exact ih (fun f hf => htargets f (List.mem_cons_of_mem _ hf)) ((List.mem_cons.1 hmem).resolve_left (Ne.symm hne))

/-- A closure is called. -/
theorem Shown.comes_callClosure {closure : ValueId} {f : FunctionId} {o : Option ObjectId}
    (hv : a.value closure = .ok (.closure f o)) {g : Lir.Function} (hg : lir.function? f = some g)
    {signature : Lir.Signature} (hparams : g.params = signature.params) (hret : g.ret = signature.ret)
    {dest : Option ValueId} (hd : ∀ d, dest = some d → d.index < a.function.valueTypes.size)
    {args : List ValueId} {vs : List Value} (hvs : List.Forall₂ (fun r v => a.value r = .ok v) args vs)
    {callee : Activation}
    (he : Activation.enter g ((if g.hasContext then [.ofContext o] else []) ++ vs) dest = .ok callee) :
    State.Comes host w (Sim lir ⟨callee, c.push a, s⟩)
      ⟨⟨locals, [], (siteOf lir a.function).callClosure dest closure args signature ++ code, labels,
        a.function.ret.toList.length⟩, frames, inst⟩ := by
  obtain ⟨x, hget, hx⟩ := h.shows.get hw hv
  cases hx with | @closure cell hcell =>
  obtain ⟨g', htarget, hg'⟩ := (h.placed.cell cell hcell).target
  rw [hg] at hg'
  cases hg'
  refine .block (h.comes_targets hw hb hcell hget hg hd hvs he ?_ ?_)
  · intro f hf
    obtain ⟨i, hi⟩ := closureTargets_subset (List.mem_filter.1 hf).1
    rw [hw.id_eq _ _ hi]
    exact hi
  · exact List.mem_filter.2 ⟨htarget, by simp [hparams, hret]⟩

end

/-! ## Returns -/

section

variable {lir : Lir.Module} {w : Module} (hw : Ready lir w) {host : Host} {A : AddressMap}
  {heap stack start : Nat} {a caller : Activation} {waiting : List Activation} {c : CallStack} {s : Store}
  {locals : List Val} {frames : List Frame} {inst inst' : Instance} {code : List Instr} {labels : List Label}

/-- The stack pointer is set back to where it was at the start. -/
theorem Shown.comes_restore (h : Shown lir A heap stack start a waiting s locals frames inst)
    {P : State → Prop} {arity : Nat}
    (k : ∀ inst', Bounds inst' heap start → inst'.memory = inst.memory →
      State.Comes host w P ⟨⟨locals, [], code, labels, arity⟩, frames, inst'⟩) :
    State.Comes host w P ⟨⟨locals, [], (siteOf lir a.function).saved?.elim []
      (siteOf lir a.function).memory.restoreStack ++ code, labels, arity⟩, frames, inst⟩ := by
  have hb := h.placed.bounds
  have hle := h.keeps.le
  cases hsaved : (siteOf lir a.function).saved? with
  | none =>
    rw [h.keeps.unsaved hsaved] at k
    exact k inst hb rfl
  | some i =>
    refine .localGet (h.keeps.saved i hsaved) (.globalSet (by simp [hb.globals_eq, siteOf]) (k _ ?_ rfl))
    have hge := hb.stack_ge
    exact ⟨by rw [hb.globals_eq]; rfl, hb.limit_eq, hb.pages_le, hb.heap_ge, hb.heap_le, by omega,
      h.keeps.start_le⟩

/-- The objects of an activation that ends are released, and its caller is active. -/
theorem Shown.exists_caller (h : Shown lir A heap stack start a (caller :: waiting) s locals frames inst)
    (hbounds : Bounds inst' heap start) (hmemory : inst'.memory = inst.memory) :
    ∃ locals' code labels frames' start',
      frames = ⟨locals', [], (siteOf lir caller.function).finishCall a.dest a.function.ret.isSome ++ code, labels,
        caller.function.ret.toList.length⟩ :: frames' ∧
      Resumes (siteOf lir caller.function) caller.blocks code labels ∧
      (∀ d, a.dest = some d → d.index < caller.function.valueTypes.size) ∧
      Shown lir A heap start start' caller waiting (s.releaseAll a.owned) locals' frames' inst' := by
  have hcallers := h.callers
  cases hcallers with | cons hshows hkeeps hresumes hdest hrest =>
  refine ⟨_, _, _, _, _, rfl, hresumes, hdest, ?_, hshows, hkeeps, hrest, ?_⟩
  · refine h.placed.release hbounds hmemory _ fun o object p hat hnot hkind => ?_
    have hreach := h.owned o object hat.found hat.live hkind
    rw [Machine.reachOf_cons, List.mem_append] at hreach
    exact h.callers.low_le (hreach.resolve_left hnot) hat.address
  · intro o object ho hlive hkind
    rw [Store.get?_releaseAll] at ho
    split at ho
    · obtain ⟨old, -, rfl⟩ := Option.map_eq_some_iff.1 ho
      cases hlive
    · rename_i hnot
      have hreach := h.owned o object ho hlive hkind
      rw [Machine.reachOf_cons, List.mem_append] at hreach
      exact hreach.resolve_left hnot

/-- A function returns to its caller without a result. -/
theorem Shown.comes_retNone (h : Shown lir A heap stack start a (c.push caller).waiting s locals frames inst)
    (hret : a.function.ret.isSome = false) :
    State.Comes host w (Sim lir ⟨caller, c, s.releaseAll a.owned⟩)
      ⟨⟨locals, [], (siteOf lir a.function).leave none ++ code, labels, a.function.ret.toList.length⟩, frames,
        inst⟩ := by
  have harity : 0 = a.function.ret.toList.length := by
    rw [Option.isSome_eq_false_iff, Option.isNone_iff_eq_none] at hret
    simp [hret]
  simp only [Site.leave, List.append_assoc]
  refine h.comes_restore fun inst' hbounds hmemory => ?_
  obtain ⟨locals', code', labels', frames', start', rfl, hresumes, -, hshown⟩ := h.exists_caller hbounds hmemory
  rw [hret]
  have hfinish : (siteOf lir caller.function).finishCall a.dest false = [] := by
    cases a.dest <;> rfl
  rw [hfinish]
  change State.Comes host w _ ⟨⟨locals, [] ++ [], _, _, _⟩, _, _⟩
  exact .ret harity (hresumes.comes fun code labels hb => .here (.mk hshown hb))

include hw in
/-- A function returns a result to its caller. -/
theorem Shown.comes_ret (h : Shown lir A heap stack start a (c.push caller).waiting s locals frames inst)
    (hret : a.function.ret.isSome = true) {r : ValueId} {v : Value} (hv : a.value r = .ok v) {b : Activation}
    (hresult : a.dest.elim caller (caller.define · v) = b) :
    State.Comes host w (Sim lir ⟨b, c, s.releaseAll a.owned⟩)
      ⟨⟨locals, [], (siteOf lir a.function).leave (some r) ++ code, labels, a.function.ret.toList.length⟩, frames,
        inst⟩ := by
  have harity : 1 = a.function.ret.toList.length := by
    obtain ⟨ty, hty⟩ := Option.isSome_iff_exists.1 hret
    simp [hty]
  obtain ⟨x, hget, hx⟩ := h.shows.get hw hv
  simp only [Site.leave, List.append_assoc]
  refine h.comes_restore fun inst' hbounds hmemory => .localGet hget ?_
  obtain ⟨locals', code', labels', frames', start', rfl, hresumes, hdest, hshown⟩ :=
    h.exists_caller hbounds hmemory
  rw [hret]
  change State.Comes host w _ ⟨⟨locals, [x] ++ [], _, _, _⟩, _, _⟩
  refine .ret harity ?_
  subst hresult
  cases hd : a.dest with
  | none => exact .drop (hresumes.comes fun code labels hb => .here (.mk hshown hb))
  | some d =>
    have hlt := hdest d hd
    refine .localSet ?_ (hresumes.comes fun code labels hb => .here (.mk (hshown.define hw hlt hx) hb))
    rw [hshown.shows.length_eq, Site.value_eq hw hshown.shows.function_eq hlt]
    exact Site.value_lt lir hlt

/-- The outermost function returns no result. -/
theorem Shown.comes_lastNone (h : Shown lir A heap stack start a [] s locals frames inst)
    (hret : a.function.ret.isSome = false) :
    State.Comes host w (fun t => ∃ inst, t.step host w = .returned [] inst)
      ⟨⟨locals, [], (siteOf lir a.function).leave none ++ code, labels, a.function.ret.toList.length⟩, frames,
        inst⟩ := by
  have harity : 0 = a.function.ret.toList.length := by
    rw [Option.isSome_eq_false_iff, Option.isNone_iff_eq_none] at hret
    simp [hret]
  have hcallers := h.callers
  cases hcallers
  simp only [Site.leave, List.append_assoc]
  exact h.comes_restore fun inst' _ _ => .here ⟨inst', State.step_ret harity⟩

include hw in
/-- The outermost function returns a number. -/
theorem Shown.comes_last (h : Shown lir A heap stack start a [] s locals frames inst)
    (hret : a.function.ret.isSome = true) {r : ValueId} {x : Int64} (hv : a.value r = .ok (.int x)) :
    State.Comes host w (fun t => ∃ inst, t.step host w = .returned [.i64 x.toBitVec] inst)
      ⟨⟨locals, [], (siteOf lir a.function).leave (some r) ++ code, labels, a.function.ret.toList.length⟩, frames,
        inst⟩ := by
  have harity : 1 = a.function.ret.toList.length := by
    obtain ⟨ty, hty⟩ := Option.isSome_iff_exists.1 hret
    simp [hty]
  have hcallers := h.callers
  cases hcallers
  obtain ⟨y, hget, hx⟩ := h.shows.get hw hv
  cases hx
  simp only [Site.leave, List.append_assoc]
  exact h.comes_restore fun inst' _ _ => .localGet hget (.here ⟨inst', State.step_ret harity⟩)

end

end StaticChain.Wasm
