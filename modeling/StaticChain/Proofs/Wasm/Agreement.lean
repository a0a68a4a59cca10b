import StaticChain.Proofs.ChainInvariant
import StaticChain.Proofs.Preorder
import StaticChain.Proofs.Wasm.Simulating
import StaticChain.Proofs.Wasm.Straight

/-!
# Generated code agrees with the machine

Typed states suit generated code (`Typed.suits`): slots and closures hold what their roles say, so they are
loaded and called in the way that code was generated for. What a machine returns is therefore what a call of
the exported function returns, unless it uses up its memory (`invoke_agrees`).
-/

namespace StaticChain

open Lir (ValueId FunctionId StructId Inst Ty)
open Machine (Activation Block CallStack Value Object ObjectId Store)
open Wasm (Stored Suits)

/-! ## Typed states -/

section

variable {n : Nesting} {policy : FramePolicy} {m : Lir.Module} {Γ : Roles} {id : DeclId}
  {function : FunctionDecl} {a : Activation} {s : Store} {waiting : List Activation} {v : Value}

theorem OfType.stored {ty : ValueType} (h : OfType n s ty v) {storage : Ty} (hs : ty.storage? = some storage) :
    Stored storage v := by
  cases ty with
  | unit => cases hs
  | int =>
    cases hs
    exact h
  | bool =>
    cases hs
    exact h
  | instanceOf aggregate =>
    cases hs
    obtain ⟨o, _, _, rfl, -⟩ := h
    exact ⟨some o, rfl⟩
  | function params ret =>
    cases hs
    obtain ⟨target, context, _, _, rfl, -⟩ := h
    exact ⟨target, context, rfl⟩

theorem PointsTo.stored {carrier : Option DeclId} (h : PointsTo n s carrier v) : Stored .ptr v := by
  cases carrier with
  | none => exact ⟨none, h⟩
  | some owner =>
    obtain ⟨o, _, _, rfl, -⟩ := h
    exact ⟨some o, rfl⟩

/-- What is in a slot is of its storage type. -/
theorem InRole.stored (hn : n.Built policy) {owner : DeclId} {slot : Nat} {role : Role} {ty : Ty}
    (hrole : n.slotRole? owner slot = some role) (hty : n.slotTy? owner slot = some ty)
    (h : InRole n s role v) : Stored ty v := by
  cases role with
  | value valueTy => exact OfType.stored h (hn.storage?_of_slotTy? hrole hty)
  | context carrier =>
    obtain ⟨l, hl, hslot⟩ := Option.bind_eq_some_iff.1 hrole
    obtain ⟨k, hk, hkind⟩ := Option.map_eq_some_iff.1 hslot
    have hlink : l.linkSlot? = some slot := by
      refine (hn.layout_of hl).linkSlot_of_kind hk ?_
      cases hx : k.kind.var? with
      | none => rfl
      | some x => simp [hx] at hkind
    rw [hn.slotTy?_link hl hlink] at hty
    cases hty
    exact PointsTo.stored h
  | address owner' slot' =>
    obtain ⟨l, hl, hslot⟩ := Option.bind_eq_some_iff.1 hrole
    obtain ⟨k, hk, hkind⟩ := Option.map_eq_some_iff.1 hslot
    split at hkind <;> cases hkind

/-- The parameters of a function as a value are those of its low-level function. -/
theorem ParamTypes.mapM_storage {p : Program} {params : List VarId} {tys : List Ty} (h : ParamTypes p params tys) :
    (params.map p.varType).mapM ValueType.storage = .ok tys := by
  rw [mapM_eq_ok, List.forall₂_map_left_iff]
  refine h.imp fun x ty hx => ?_
  obtain ⟨var, hvar, hty⟩ := hx
  rw [Program.varType_eq hvar, ValueType.storage, hty]

/-- The function of a closure has the signature of the closure's type. -/
theorem Nesting.Lowers.signature_eq (hm : n.Lowers policy m) {target : FunctionId}
    (htarget : n.scope.function? id = some target) (hf : n.program.function? id = some function)
    {signature : Lir.Signature}
    (hs : (ValueType.function (function.params.map n.program.varType) function.returnType).signature =
      .ok signature) :
    ∃ g, m.function? target = some g ∧ g.params = signature.params ∧ g.ret = signature.ret := by
  obtain ⟨g, hg, hlowered⟩ := hm.function?_of_scope htarget
  obtain ⟨scope, v, -, -, hcode⟩ := hlowered
  cases hcode with | mk hd hk _ hparams =>
  rw [n.scope_nesting] at hd hparams
  rw [Program.function?_eq_some_iff.2 ⟨_, hd, hk⟩] at hf
  cases hf
  simp only [ValueType.signature, hparams.mapM_storage] at hs
  cases hs
  exact ⟨_, hg, rfl, rfl⟩

/-- Instructions that respect roles suit generated code. -/
theorem TypedBy.suits (hm : n.Lowers policy m) (h : TypedBy n s waiting Γ id function a) {inst : Inst}
    (hi : InstOk n True function.returnType Γ inst)
    (hdiv : ∀ dest lhs rhs, inst = .binary dest .div lhs rhs →
      ¬(a.value lhs = .ok (.int Int64.minValue) ∧ a.value rhs = .ok (.int (-1)))) :
    Suits m a s inst := by
  cases hi with
  | @binary dest lhs rhs op _ _ _ =>
    cases op with
    | div => exact hdiv dest lhs rhs rfl
    | _ => trivial
  | load haddr hrole hty _ =>
    intro o object k v hslot ho hv
    have haddress := h.active.value _ _ hslot
    rw [haddr] at haddress
    obtain ⟨_, l, object', hvalue, hat⟩ := haddress
    cases hvalue
    have hobj := hat.object_eq
    rw [ho] at hobj
    cases hobj
    exact (h.filled.slot _ _ _ _ _ _ _ hat hv hrole).stored hm.built hrole hty
  | store haddr hrole hty hfits =>
    intro v hv
    exact ((h.active.value _ _ hv).of_fits hfits).stored hm.built hrole hty
  | makeClosure htarget _ hcontext _ hdest =>
    obtain ⟨f, hf, -⟩ := hm.function?_of_scope htarget
    refine ⟨?_, by rw [hf]; rfl⟩
    rintro rfl
    rw [hcontext] at hdest
    cases hdest
  | callClosure hclosure hty hsignature _ _ _ =>
    intro f c hv
    have htyped := (h.active.value _ _ hv).of_fits hclosure
    rw [hty trivial] at htyped
    obtain ⟨target, context, id', function', heq, htarget, hf, rfl, rfl, -⟩ := htyped
    cases heq
    exact hm.signature_eq htarget hf hsignature
  | _ => trivial

end

/-- The machine is about to divide the least integer by minus one. -/
def Machine.State.dividesLeast (s : Machine.State) : Bool :=
  match s.active.settle s.active.blocks with
  | .next (.binary _ .div lhs rhs) _ =>
    match s.active.value lhs, s.active.value rhs with
    | .ok (.int x), .ok (.int y) => x == Int64.minValue && y == -1
    | _, _ => false
  | _ => false

/-- The machine comes to an end in so many steps, and does not divide the least integer by minus one
before. -/
def Machine.State.neverDividesLeast (m : Lir.Module) : Nat → Machine.State → Bool
  | 0, _ => false
  | left + 1, s =>
    !s.dividesLeast &&
      match s.active.settle s.active.blocks with
      | .next inst blocks =>
        match (s.take blocks).step m inst with
        | .running s => neverDividesLeast m left s
        | .stopped _ _ => true
      | _ => true

theorem Machine.State.dividesLeast_of_never {m : Lir.Module} {left k : Nat} {s s' : Machine.State}
    (h : neverDividesLeast m left s = true) (hs : Steps m k s s') : s'.dividesLeast = false := by
  induction left generalizing k s with
  | zero => cases h
  | succ left ih =>
    simp only [neverDividesLeast, Bool.and_eq_true, Bool.not_eq_true'] at h
    cases hs with
    | refl => exact h.1
    | head hstep hsteps =>
      obtain ⟨inst, blocks, hsettle, hrunning⟩ := hstep
      have hnext := h.2
      simp only [hsettle, hrunning] at hnext
      exact ih hnext hsteps

/-- Typed states suit generated code. -/
theorem Typed.suits {n : Nesting} {policy : FramePolicy} {m : Lir.Module} {base : Nat} {s : Machine.State}
    (hm : n.Lowers policy m) (h : Typed n base s) (hdiv : s.dividesLeast = false) {i : Inst} {blocks : List Block}
    (hsettle : s.active.settle s.active.blocks = .next i blocks) : Suits m s.active s.store i := by
  obtain ⟨Γ, id, function, htyped, hdoing⟩ := h
  cases hdoing.taking hsettle with
  | code _ hnext =>
    obtain ⟨rest, kind, outer, rfl, hcode, -, -⟩ := hnext
    cases hcode with
    | inst hi _ =>
      refine htyped.suits hm hi fun dest lhs rhs heq hvalues => ?_
      subst heq
      simp [Machine.State.dividesLeast, hsettle, hvalues] at hdiv
    | branch _ _ _ => trivial
    | loop _ _ _ => trivial
    | link _ _ => trivial
  | addressing _ _ _ _ => trivial
  | linking hl _ _ _ =>
    intro v hv
    have hlink := htyped.active.value _ _ hv
    rw [hl.link_role] at hlink
    exact PointsTo.stored hlink

theorem Typed.steps {n : Nesting} {policy : FramePolicy} {m : Lir.Module} {base k : Nat}
    {s s' : Machine.State} (hm : n.Lowers policy m) (ht : n.program.TypeCorrect) (h : Typed n base s)
    (hs : Machine.State.Steps m k s s') : Typed n base s' := by
  induction hs with
  | refl => exact h
  | head hstep _ ih => exact ih (h.step hm ht hstep)

namespace Wasm

/-! ## Compiled units -/

/-- Code generated of lowered functions can rely on what they are. -/
theorem ready_of_lowers {n : Nesting} {policy : FramePolicy} {m : Lir.Module} (hm : n.Lowers policy m)
    (hr : n.program.ReturnsMatch) {w : Module} (hw : generate m = .ok w)
    (hsmall : ∀ id layout, m.struct? id = some layout → layout.slots.length ≤ 128) : Ready m w := by
  refine ⟨generated_of_generate hw, ?_, ?_, hsmall⟩
  · intro id f hf
    exact hm.functions_eq.2 id.index f hf
  · intro id f hf
    obtain ⟨_, -, _, _, -, -, hcode⟩ := hm.exists_code hf
    exact hcode.closed (n.scope_nesting.symm ▸ hr)

/-- A new instance has no objects and no closures. -/
theorem placed_fresh (lir : Lir.Module) : Placed lir .empty .empty
    ⟨[.i32 65536, .i32 65536], ⟨fun _ => 0, 2, some 1024⟩, 0⟩ 65536 65536 := by
  have hno : ∀ {o : ObjectId} {object : Object} {p : Nat}, ¬LiveAt .empty .empty o object p := by
    intro o object p hat
    simpa [Store.empty] using hat.found
  have hempty : ∀ {cell : Cell}, cell ∉ AddressMap.empty.cells := List.not_mem_nil
  exact ⟨⟨rfl, rfl, by decide, by decide, by decide, by decide, by decide⟩, rfl,
    fun _ _ _ hat => absurd hat hno, fun _ _ _ _ _ _ hat => absurd hat hno,
    fun _ _ _ _ _ hat => absurd hat hno, fun _ hcell => absurd hcell hempty,
    fun _ hcell => absurd hcell hempty⟩

/-- An exported function is called in a new instance as the machine enters it. -/
theorem exists_invoke {lir : Lir.Module} {w : Module} (hw : Ready lir w) {maxSteps : Nat} {name : String}
    {args : List Int64} {s : Machine.State} (h : (Machine.boot lir maxSteps).Enters name args s) (host : Host) :
    ∃ t, w.invoke? name (args.map fun x => .i64 x.toBitVec) = some t ∧ State.Comes host w (Sim lir s) t := by
  obtain ⟨a, c, store⟩ := s
  obtain ⟨hfound, hfree, hints, hentered, rfl, rfl⟩ := h
  simp only [Machine.boot] at hfound hfree hints hentered
  have hmem : a.function ∈ lir.functions := Array.mem_of_find?_eq_some hfound
  obtain ⟨i, hi, hget⟩ := Array.getElem_of_mem hmem
  have hf : lir.function? ⟨i⟩ = some a.function := by simp [Lir.Module.function?, hi, hget]
  have hname : a.function.name = name := by simpa using Array.find?_some hfound
  obtain ⟨zeros, body, -, -, hcallee⟩ := hw.generated.function i _ hf
  have hargs : List.Forall₂ (Shows .empty) (args.map Value.int) (args.map fun x => .i64 x.toBitVec) := by
    rw [List.forall₂_map_left_iff, List.forall₂_map_right_iff, List.forall₂_same]
    exact fun x _ => .int x
  have hexported := hw.generated.exported _ hmem hfree
  rw [hname, hw.id_eq _ _ hf, functionIndex_eq hw hf] at hexported
  have hparams : (args.map fun x => Val.i64 x.toBitVec).map Val.type = (signature a.function).params := by
    have hlen := (Activation.entered_of_enter hentered).args_length
    simp only [signature, Lir.Function.callParams, hfree, Bool.false_eq_true, if_false, List.nil_append,
      List.length_map] at hlen ⊢
    refine List.ext_getElem (by simpa using hlen) fun k _ hk => ?_
    simp only [List.length_map] at hk
    simp [Val.type, hints _ (List.getElem_mem hk), ofTy]
  refine ⟨_, ?_, (placed_fresh lir).comes_body hw hf (Activation.entered_of_enter hentered) hargs .nil ?_ hcallee⟩
  · refine Option.bind_eq_some_iff.2 ⟨_, hw.generated.fresh, Option.bind_eq_some_iff.2 ⟨_, hexported,
      Option.bind_eq_some_iff.2 ⟨_, hcallee, Option.bind_eq_some_iff.2 ⟨(), ?_, rfl⟩⟩⟩⟩
    exact if_pos (beq_iff_eq.2 hparams)
  · intro o object ho
    simp [Store.empty] at ho

/-- Generated code agrees with the machine. Where a call by name returns a number or nothing and divides no
least integer by minus one on the way, a call of the exported function in a new instance returns the same,
or it traps because its stack or its memory is used up. -/
theorem invoke_agrees {p : Program} (hp : p.check = .ok ()) (hc : p.ChildrenDistinct) (ht : p.TypeCorrect)
    (hr : p.ReturnsMatch) {settings : Settings} {u : CompiledUnit} (hu : settings.compile p = .ok u) {w : Module}
    (hw : generate u.lir = .ok w)
    (hsmall : ∀ id layout, u.lir.struct? id = some layout → layout.slots.length ≤ 128) {maxSteps : Nat}
    {name : String} {args : List Int64} {result : Option Int64}
    (hcall : ((Machine.boot u.lir maxSteps).callByName name args).1 = .returned (result.map .int))
    (hdiv : ∀ s k s', (Machine.boot u.lir maxSteps).Enters name args s →
      Machine.State.Steps u.lir k s s' → s'.dividesLeast = false) (host : Host) :
    ∃ t steps, w.invoke? name (args.map fun x => .i64 x.toBitVec) = some t ∧
      ((∃ inst, ∀ fuel, steps ≤ fuel → t.run host w fuel =
          .returned (result.map fun x => Val.i64 x.toBitVec).toList inst) ∨
        ∃ t', t'.inst.Exhausted ∧ ∀ fuel, steps ≤ fuel → t.run host w fuel = .trapped .unreachable t') := by
  obtain ⟨n, rfl, hm⟩ := Nesting.lowers_of_compile hp hc hu
  have hready := ready_of_lowers hm hr hw hsmall
  have hmachine : n.Lowers settings.frames (Machine.boot u.lir maxSteps).module := hm
  rcases Machine.callByName_cases hmachine name args with ⟨cause, heq⟩ | ⟨s, henters, hrun, -⟩
  · rw [heq] at hcall
    cases hcall
  rw [hrun] at hcall
  have htyped : Typed n 0 s := henters.typed hm ht (Machine.Called.boot.filled hm ht)
  obtain ⟨t, hinvoke, hcomes⟩ := exists_invoke hready henters host
  have hends := hcomes.bind fun t' hsim => hsim.run hready hcall fun k s' i blocks hsteps hsettle =>
    (htyped.steps hm ht hsteps).suits hm (hdiv s k s' henters hsteps) hsettle
  obtain ⟨steps, hall⟩ := hends.exists_run
  exact ⟨t, steps, hinvoke, hall⟩

/-- Generated code of the running total returns it, also where a host gives no more memory. -/
theorem invoke_agrees_tally : ∃ (u : CompiledUnit) (w : Module) (t : State) (steps : Nat),
    ({} : Settings).compile tally = .ok u ∧ generate u.lir = .ok w ∧
    w.invoke? "main" [.i64 5] = some t ∧
      ∃ inst, ∀ fuel, steps ≤ fuel → t.run (fun _ => false) w fuel = .returned [.i64 21] inst := by
  obtain ⟨u, hu⟩ := exists_of_isOk (show (({} : Settings).compile tally).isOk = true by decide +kernel)
  have hknown : (({} : Settings).compile tally).toOption.any (fun u => (generate u.lir).isOk &&
      u.lir.structs.all (·.slots.length ≤ 128) &&
      (u.lir.findFunction? "main").any (fun f => (Activation.enter f [.int 5] none).toOption.any fun a =>
        Machine.State.neverDividesLeast u.lir 60 ⟨a, .empty, .empty⟩) &&
      decide (((Machine.boot u.lir 60).callByName "main" [5]).1 = .returned (some (.int 21)))) = true := by
    decide +kernel
  simp only [hu, Except.toOption, Option.any_some, Bool.and_eq_true, decide_eq_true_eq] at hknown
  obtain ⟨⟨⟨hgenerate, hsmall⟩, hnever⟩, hcall⟩ := hknown
  obtain ⟨w, hw⟩ := exists_of_isOk hgenerate
  have hreturned : ((Machine.boot u.lir 60).callByName "main" [5]).1 = .returned ((some 21).map .int) := hcall
  have hstructs : ∀ id layout, u.lir.struct? id = some layout → layout.slots.length ≤ 128 := by
    intro id layout hlayout
    simpa using Array.all_eq_true_iff_forall_mem.1 hsmall layout (Array.mem_of_getElem? hlayout)
  have hdiv : ∀ s k s', (Machine.boot u.lir 60).Enters "main" [5] s → Machine.State.Steps u.lir k s s' →
      s'.dividesLeast = false := by
    rintro ⟨a, c, store⟩ k s' ⟨hfound, -, -, hentered, rfl, rfl⟩ hsteps
    simp only [Machine.boot, List.map_cons, List.map_nil] at hfound hentered
    rw [hfound, Option.any_some, hentered] at hnever
    exact Machine.State.dividesLeast_of_never hnever hsteps
  obtain ⟨t, steps, hinvoke, hends⟩ := invoke_agrees tally_check tally_childrenDistinct tally_typeCorrect
    tally_returnsMatch hu hw hstructs hreturned hdiv fun _ => false
  refine ⟨u, w, t, steps, hu, hw, hinvoke, hends.resolve_right ?_⟩
  rintro ⟨t', -, htrapped⟩
  -- Four hundred steps are enough to return, so the memory is not used up.
  have hover : (({} : Settings).compile tally).toOption.any (fun u => (generate u.lir).toOption.any fun w =>
      (w.invoke? "main" [.i64 5]).any fun t => (t.run (fun _ => false) w 400).results?.isSome) = true := by
    decide +kernel
  have hstart : w.invoke? "main" [.i64 5] = some t := hinvoke
  simp only [hu, hw, hstart, Except.toOption, Option.any_some] at hover
  obtain ⟨results, hresults⟩ := Option.isSome_iff_exists.1 hover
  obtain ⟨inst, hreturned⟩ := Next.exists_of_results? hresults
  cases State.run_unique hreturned (htrapped steps (Nat.le_refl _)) (by simp) (by simp)

end Wasm

end StaticChain
