import StaticChain.Proofs.Locals
import StaticChain.Proofs.Statements

/-!
# From a call to its return

The code of a function reads its context and its captured parameters, makes its frame and goes on with its
body. At the start of the body the activation holds what the evaluator has in the record of the call
(`FunctionCode.exists_site`), so the machine that was called comes to an instruction that returns
(`FunctionCode.follows`). What calls do is then known at any depth (`handled`): the handler of the evaluator
stops where the machine has no room for one more activation.
-/

namespace StaticChain

open Lir (ValueId LocalId FunctionId Inst Ty)
open Machine

/-! ## Context and parameters -/

section

variable {n : Nesting} {m : Lir.Module} {σ σ' : Regs} {code : List Inst} {a : Activation} {c : CallStack}
  {cont : Cont} {store : Store}

variable (m c cont store) in
/-- Reading a local into a value, whatever locals there are. -/
theorem leads_localGet {ty : Ty} (hfits : a.Fits (σ.value ty)) {x : LocalId} {v : Value}
    (hx : a.locals[x.index]? = some (some v)) (L : Array Ty) :
    State.Leads m 1 ⟨a.resume (cont.before [.localGet σ.next x]), c, store⟩
        ⟨(a.define σ.next v).resume cont, c, store⟩ ∧
      a.Keeps ⟨σ.values, L⟩ (a.define σ.next v) ∧ (a.define σ.next v).value σ.next = .ok v := by
  refine ⟨State.leads_of_define (.localGet (Activation.local_eq_ok.2 hx)), ?_, hfits.value_define v⟩
  exact (Activation.Keeps.refl ⟨σ.values, L⟩ a).define (.refl ⟨σ.values, L⟩) v

variable (m c cont store) in
/-- The context is read, where there is one. -/
theorem IncomingCode.leads {linked : Bool} {incoming : Option ValueId}
    (h : IncomingCode linked σ code incoming σ') (hfits : a.Fits σ') (context : Option ObjectId)
    (hcontext : linked = true → a.locals[0]? = Option.some (Option.some (.ofContext context))) (L : Array Ty) :
    ∃ a', State.Leads m code.length ⟨a.resume (cont.before code), c, store⟩ ⟨a'.resume cont, c, store⟩ ∧
      a.Keeps ⟨σ.values, L⟩ a' ∧ a'.locals = a.locals ∧ ∀ r, incoming = Option.some r →
        a'.value r = .ok (.ofContext context) ∧ r.index < σ'.values.size := by
  cases h with
  | none => exact ⟨a, .refl _, .refl _ a, rfl, by simp⟩
  | some hty =>
    obtain ⟨hleads, hkeeps, hv⟩ := leads_localGet m c cont store hfits
      (x := ⟨0⟩) (hcontext rfl) L
    refine ⟨_, hleads, hkeeps, rfl, ?_⟩
    rintro _ ⟨⟩
    exact ⟨hv, by simp [Regs.next]⟩

variable (m c cont store) in
/-- The captured parameters are read. -/
theorem ParamsCode.leads {first index : Nat} {params : List VarId} {arrived : List (VarId × ValueId)}
    {locals : List (VarId × LocalId)} (h : ParamsCode n first index params σ code arrived locals σ')
    (hfits : a.Fits σ')
    (hargs : ∀ i x, params[i]? = some x → ∃ v, a.locals[index + i + first]? = some (some v))
    (L : Array Ty) :
    ∃ a', State.Leads m code.length ⟨a.resume (cont.before code), c, store⟩ ⟨a'.resume cont, c, store⟩ ∧
      a.Keeps ⟨σ.values, L⟩ a' ∧ a'.locals = a.locals ∧ ∀ x r, (x, r) ∈ arrived →
        ∃ i v, params[i]? = some x ∧ a.locals[index + i + first]? = some (some v) ∧
          a'.value r = .ok v ∧ r.index < σ'.values.size := by
  induction h generalizing a with
  | nil => exact ⟨a, .refl _, .refl _ a, rfl, by simp⟩
  | @captured index param rest σ σ' ty code arrived locals hcaptured hty h ih =>
    obtain ⟨v, hv⟩ := hargs 0 param rfl
    have hfits₁ : a.Fits (σ.value ty) := hfits.of_le h.le
    obtain ⟨hleads, hkeeps, hvalue⟩ := leads_localGet m c (cont.before code) store hfits₁ hv L
    obtain ⟨a', hleads', hkeeps', hlocals, harrived⟩ := ih (hfits.keep hkeeps) fun i x hx => by
      obtain ⟨w, hw⟩ := hargs (i + 1) x (by simpa using hx)
      exact ⟨w, by rw [show index + 1 + i + first = index + (i + 1) + first by omega]; exact hw⟩
    have hless : Regs.Le ⟨σ.values, L⟩ ⟨(σ.value ty).values, L⟩ :=
      ⟨by simp, List.prefix_refl _⟩
    refine ⟨a', ?_, hkeeps.trans hkeeps' hless, hlocals, ?_⟩
    · rw [Cont.before_cons, List.length_cons, Nat.add_comm]
      exact hleads.trans hleads'
    · intro x r hmem
      rcases List.mem_cons.1 hmem with heq | hmem
      · cases heq
        refine ⟨0, v, rfl, hv, ?_, Nat.lt_of_lt_of_le (by simp [Regs.next]) h.le.values⟩
        rw [hkeeps'.value _ (by simp [Regs.next])]
        exact hvalue
      · obtain ⟨i, w, hi, hw, hr, hlt⟩ := harrived x r hmem
        refine ⟨i + 1, w, hi, ?_, hr, hlt⟩
        rw [show index + (i + 1) + first = index + 1 + i + first by omega]
        exact hw
  | @«local» index param rest σ σ' code arrived locals hcaptured h ih =>
    obtain ⟨a', hleads, hkeeps, hlocals, harrived⟩ := ih hfits fun i x hx => by
      obtain ⟨w, hw⟩ := hargs (i + 1) x (by simpa using hx)
      exact ⟨w, by rw [show index + 1 + i + first = index + (i + 1) + first by omega]; exact hw⟩
    refine ⟨a', hleads, hkeeps, hlocals, ?_⟩
    intro x r hmem
    obtain ⟨i, w, hi, hw, hr, hlt⟩ := harrived x r hmem
    refine ⟨i + 1, w, hi, ?_, hr, hlt⟩
    rw [show index + (i + 1) + first = index + 1 + i + first by omega]
    exact hw

end

/-- What the body of a function knows of the static chain. -/
theorem EnterCode.vantage_eq {n : Nesting} {decl : DeclId} {incoming : Option ValueId}
    {arrived : List (VarId × ValueId)} {σ σ' : Regs} {code : List Inst} {v : Vantage}
    (h : EnterCode n decl incoming arrived σ code v σ') :
    v.decl = decl ∧ v.incoming = incoming ∧ v.frame.isSome = n.captures.isFrameNeeded decl := by
  cases h with
  | frameless h => exact ⟨rfl, rfl, by simp [h]⟩
  | framed h => exact ⟨rfl, rfl, by simp [h]⟩

theorem getElem?_hiddenArgs_append {n : Nesting} {id : DeclId} {context : Option ObjectId} {vs : List Value}
    (i : Nat) : (n.hiddenArgs id context ++ vs)[i + (n.program.parent? id).isSome.toNat]? = vs[i]? := by
  unfold Nesting.hiddenArgs
  cases (n.program.parent? id).isSome <;> simp

/-- The locals that a caller fills hold the context and the arguments, and the others hold nothing. -/
structure Takes (n : Nesting) (W : Placement) (id : DeclId) (params : List VarId) (context : Option ObjectId)
    (ds : List Datum) (a : Activation) : Prop where
  context : (n.program.parent? id).isSome = true → a.locals[0]? = some (some (.ofContext context))
  param : ∀ i x, params[i]? = some x → ∃ d w, ds[i]? = some d ∧ Represents n W (n.program.varType x) d w ∧
    a.locals[i + (n.program.parent? id).isSome.toNat]? = some (some w)
  unset : ∀ i, params.length + (n.program.parent? id).isSome.toNat ≤ i → i < a.locals.size →
    a.locals[i]? = some none

theorem takes_of_entered {n : Nesting} {W : Placement} {id : DeclId} {params : List VarId}
    {context : Option ObjectId} {ds : List Datum} {vs : List Value} {f : Lir.Function} {dest : Option ValueId}
    {a : Activation} (ha : Activation.Entered f (n.hiddenArgs id context ++ vs) dest a)
    (hds : RepresentsAll n W (params.map n.program.varType) ds vs)
    (hsize : params.length + (n.program.parent? id).isSome.toNat ≤ f.locals.size) :
    Takes n W id params context ds a := by
  have hlen : vs.length = params.length := by
    rw [← hds.length_eq, List.length_map]
  refine ⟨fun hlinked => ?_, fun i x hx => ?_, fun i hle hlt => ?_⟩
  · rw [hlinked, Bool.toNat_true] at hsize
    rw [ha.locals_eq 0 (by omega), Nesting.hiddenArgs, hlinked]
    rfl
  · obtain ⟨d, w, hd, hw, hrep⟩ := hds.get
      (show (params.map n.program.varType)[i]? = some (n.program.varType x) by simp [hx])
    have hi : i < params.length := (List.getElem?_eq_some_iff.1 hx).1
    refine ⟨d, w, hd, hrep, ?_⟩
    rw [ha.locals_eq _ (by omega), getElem?_hiddenArgs_append, hw]
  · obtain ⟨j, rfl⟩ := Nat.exists_eq_add_of_le' (Nat.le_trans (Nat.le_add_left _ _) hle)
    rw [ha.locals_eq _ (ha.locals_size ▸ hlt), getElem?_hiddenArgs_append, List.getElem?_eq_none (by omega)]

/-! ## Bodies -/

section

variable {n : Nesting} {m : Lir.Module} (hm : n.Lowers .alwaysHeap m) {id : DeclId} {v : Vantage}
  {f : Lir.Function} {function : FunctionDecl} {W : Placement} {memory : Memory} {store : Store} {env : Env}
  {context : Option ObjectId} {ds : List Datum} {vs : List Value} {dest : Option ValueId} {a : Activation}
  {c : CallStack}

/-- The last instruction of a function's code. -/
def FunctionDecl.lastInst (function : FunctionDecl) : Inst :=
  if function.returnType.isUnit then .ret none else .unreachable

include hm in
/-- The variables of a function that are not captured are private to its activations. -/
theorem Nesting.Lowers.isPrivate_of_mem {decl : Declaration} (hd : n.program.decl? id = some decl)
    (hk : decl.kind = .function function) {x : VarId} (hx : x ∈ decl.locals)
    (hcaptured : n.captures.isCaptured x = false) : n.IsPrivate x := by
  refine ⟨hcaptured, fun var hv hfield => ?_⟩
  have hkind := hm.built.checked.function_local_kind hd hk hx hv
  rw [hfield] at hkind
  split at hkind <;> cases hkind

include hm in
/-- The context and the captured parameters are read, and the frame is made. -/
theorem leads_prologue {linked : Bool} (hlinked : (n.program.parent? id).isSome = linked) {tys : Array Ty}
    {others : List VarId} {incoming : Option ValueId} {arrived : List (VarId × ValueId)}
    {paramLocals locals : List (VarId × LocalId)} {σ₁ σ₂ σ₃ σ₄ : Regs} {c₁ c₂ c₃ : List Inst}
    (hincoming : IncomingCode linked ⟨#[], tys⟩ c₁ incoming σ₁)
    (hparams : ParamsCode n linked.toNat 0 function.params σ₁ c₂ arrived paramLocals σ₂)
    (hlocals : LocalsBound n others σ₂ locals σ₃) (henter : EnterCode n id incoming arrived σ₃ c₃ v σ₄)
    (hf : n.program.function? id = some function) (hd : Depicts n W memory store) (hlive : store.AllLive)
    (ha : Takes n W id function.params context ds a) (hfits : a.Fits σ₄) (cont : Cont) :
    ∃ (k : Nat) (a' : Activation) (W' : Placement) (store' : Store),
      State.Leads m k ⟨a.resume (((cont.before c₃).before c₂).before c₁), c, store⟩ ⟨a'.resume cont, c, store'⟩ ∧
      a.Keeps ⟨#[], σ₃.locals⟩ a' ∧ W.Extends W' ∧ store'.AllLive ∧
      Depicts n W' (memory.add (Program.initial function.params ds)) store' ∧
      (∀ r, v.incoming = some r → a'.value r = .ok (.ofContext context) ∧ r.index < σ₄.values.size) ∧
      ∀ r, v.frame = some r → r.index < σ₄.values.size ∧
        ∃ o, a'.value r = .ok (.object o) ∧ W' memory.next = some ⟨id, o, context⟩ := by
  subst hlinked
  have hn := hm.built
  obtain ⟨decl, hdecl, hk⟩ := Program.function?_eq_some_iff.1 hf
  have hleading := hn.checked.params_prefix hdecl hk
  have hnodup : function.params.Nodup := (hn.checked.locals_nodup_of hdecl).sublist hleading.sublist
  have hle₃ : σ₂.Le σ₃ := hlocals.le
  have hfits₂ : a.Fits σ₂ := hfits.of_le (hle₃.trans henter.le)
  obtain ⟨a₁, hleads₁, hkeeps₁, hlocals₁, hin⟩ := hincoming.leads m c (((cont.before c₃).before c₂)) store
    (hfits₂.of_le hparams.le) context ha.context σ₃.locals
  obtain ⟨a₂, hleads₂, hkeeps₂, -, harrived⟩ := hparams.leads m c (cont.before c₃) store
    (hfits₂.keep hkeeps₁) (fun i x hx => by
      obtain ⟨_, w, -, -, hw⟩ := ha.param i x hx
      exact ⟨w, by rw [hlocals₁, Nat.zero_add]; exact hw⟩) σ₃.locals
  have hin₂ : ∀ r, incoming = some r → a₂.value r = .ok (.ofContext context) ∧ r.index < σ₃.values.size := by
    intro r hr
    obtain ⟨hv, hlt⟩ := hin r hr
    exact ⟨(hkeeps₂.value r hlt).trans hv, Nat.lt_of_lt_of_le hlt (hparams.le.trans hle₃).values⟩
  obtain ⟨a₃, W', store', hleads₃, hkeeps₃, hgrown, hlive', hd', hframe⟩ := henter.leads c cont hm hd hlive
    ((hfits.keep hkeeps₁).keep hkeeps₂) hin₂ (Program.initial function.params ds)
    (fun x r hx => by
      obtain ⟨i, w, hi, hw, hr, hlt⟩ := harrived x r hx
      obtain ⟨d, w', hd, hrep, hw'⟩ := ha.param i x hi
      rw [hlocals₁, Nat.zero_add, hw'] at hw
      cases hw
      exact ⟨d, w, Program.initial_eq_some hnodup hi hd, hrep, hr, Nat.lt_of_lt_of_le hlt hle₃.values⟩)
    (fun l x i hl hx hnot => by
      refine Program.initial_eq_none ds fun hmem => ?_
      have hcaptured : n.captures.isCaptured x = true := by
        refine Bool.of_not_eq_false fun hfalse => hn.not_isPrivate hl hx ?_
        exact hm.isPrivate_of_mem hdecl hk (hleading.subset hmem) hfalse
      obtain ⟨r, hr⟩ := hparams.mem.2 x hmem hcaptured
      exact hnot r hr)
  refine ⟨c₁.length + (c₂.length + c₃.length), a₃, W', store', hleads₁.trans (hleads₂.trans hleads₃), ?_,
    hgrown, hlive', hd', fun r hr => ?_, hframe⟩
  · have hkeeps₂₃ := hkeeps₂.trans hkeeps₃ ⟨(hparams.le.trans hle₃).values_start, List.prefix_refl _⟩
    exact hkeeps₁.trans hkeeps₂₃ ⟨List.nil_prefix, List.prefix_refl _⟩
  · obtain ⟨hv, hlt⟩ := hin₂ r (henter.vantage_eq.2.1 ▸ hr)
    exact ⟨(hkeeps₃.value r hlt).trans hv, Nat.lt_of_lt_of_le hlt henter.le.values⟩

/-- The locals of a body hold what the evaluator has at its start: the arguments, and nothing else. -/
theorem BodyLocals.cellHolds {others : List VarId} {σ σ' : Regs} {locals : List (VarId × LocalId)}
    (h : BodyLocals n (n.program.parent? id).isSome.toNat function.params others σ σ' locals)
    (hnodup : (function.params ++ others).Nodup) (ha : Takes n W id function.params context ds a)
    (hfits : σ'.locals.size ≤ a.locals.size) {x : VarId} {l : LocalId} (hx : (x, l) ∈ locals) :
    CellHolds n W (n.program.varType x) (Program.initial function.params ds x) a.locals[l.index]? := by
  obtain ⟨hparams, -, hdisjoint⟩ := List.nodup_append.1 hnodup
  rcases (h.place x l hx).2 with ⟨i, hi, rfl⟩ | ⟨hother, hge, hlt⟩
  · obtain ⟨d, w, hd, hrep, hw⟩ := ha.param i x hi
    rw [hw, Program.initial_eq_some hparams hi hd]
    exact .set hrep
  · have hnot : x ∉ function.params := fun hmem => hdisjoint x hmem x hother rfl
    rw [Program.initial_eq_none ds hnot, ha.unset _ (h.size_eq ▸ hge) (Nat.lt_of_lt_of_le hlt hfits)]
    exact .unset

include hm in
/-- The code before a body leads to a site that holds what the evaluator has at the start of the body. -/
theorem FunctionCode.exists_site (h : FunctionCode n.scope id v f)
    (hf : n.program.function? id = some function) (hd : Depicts n W memory store) (hlive : store.AllLive)
    (haround : Around n W (n.program.parent? id) env context)
    (hds : RepresentsAll n W (function.params.map n.program.varType) ds vs)
    (ha : Activation.Entered f (n.hiddenArgs id context ++ vs) dest a) :
    ∃ (site : Site n) (σ' : Regs) (code : List Inst) (k : Nat) (W' : Placement) (a' : Activation)
      (store' : Store), site.decl = id ∧
      BlockCode site.scope site.vantage function.body site.regs code σ' ∧
      State.Leads m k ⟨a, c, store⟩
        ⟨a'.resume ((⟨[function.lastInst], .straight, []⟩ : Cont).before code), c, store'⟩ ∧
      W.Extends W' ∧ site.Ready memory.next env context site.regs σ' W'
        (memory.add (Program.initial function.params ds)) a' store' ∧ a'.owned = [] ∧ a'.dest = dest := by
  have hn := hm.built
  cases h with
  | @mk decl function' target params incoming arrived paramLocals locals _ σ₁ σ₂ σ₃ σ₄ σ₅ c₁ c₂ c₃ c₄
      hdecl hk htarget hparams hincoming hparamsCode hlocals henter hbody =>
  rw [n.scope_nesting] at hdecl hparams hparamsCode hlocals henter
  obtain rfl : function = function' :=
    Option.some.inj (hf.symm.trans (Program.function?_eq_some_iff.2 ⟨decl, hdecl, hk⟩))
  have hpar : n.program.parent? id = decl.parent := by simp [Program.parent?, hdecl]
  rw [← hpar] at hincoming hparamsCode
  have hplaces := BodyLocals.of_prologue hparams hincoming hparamsCode hlocals
  have hle : σ₃.Le σ₅ := henter.le.trans hbody.le
  have htakes : Takes n W id function.params context ds a :=
    takes_of_entered ha hds (hplaces.size_eq ▸ (hlocals.le.trans hle).locals)
  have hall : function.params ++ decl.locals.drop function.params.length = decl.locals := by
    obtain ⟨rest, hrest⟩ := hn.checked.params_prefix hdecl hk
    rw [← hrest, List.drop_left]
  have hfits : a.Fits σ₅ := ⟨by simp [ha.values_eq], by simp [ha.locals_size]⟩
  obtain ⟨k, a', W', store', hleads, hkeeps, hgrown, hlive', hd', hin, hframe⟩ :=
    leads_prologue (c := c) hm rfl hincoming hparamsCode hlocals henter hf hd hlive htakes
      (hfits.of_le hbody.le) ((⟨[function.lastInst], .straight, []⟩ : Cont).before c₄)
  obtain ⟨hvdecl, -, hvframe⟩ := henter.vantage_eq
  let site : Site n := {
    scope := { n.scope with locals := paramLocals ++ locals, current := some v }
    vantage := v
    regs := σ₄
    within := ⟨n.scope_nesting, fun _ => rfl⟩
    isFunction := hvdecl ▸ Program.isFunction_iff.2 ⟨_, hf⟩
    frame_iff := by rw [hvframe, hvdecl]
    frame_lt := fun r hr => (hframe r hr).1
    incoming_lt := fun r hr => (hin r hr).2
    local_lt := fun x l hx => Nat.lt_of_lt_of_le (hplaces.lt (mem_of_lookup hx)) henter.le.locals
    local_inj := fun x y l hx hy => hplaces.inj x y l (mem_of_lookup hx) (mem_of_lookup hy)
    isPrivate := fun x l hx =>
      hm.isPrivate_of_mem hdecl hk (hall ▸ hplaces.mem (mem_of_lookup hx)) (hplaces.place x l (mem_of_lookup hx)).1 }
  have hholds : site.Holds memory.next env context W' (memory.add (Program.initial function.params ds)) a' := by
    refine ⟨by simp, ?_, ?_, fun r hr => (hin r hr).1, fun r hr => ?_, fun x l hx => ?_⟩
    · have : Around n W' (n.program.parent? id) env context := haround.extend hgrown
      rwa [← hvdecl] at this
    · rw [hkeeps.function_eq, ha.function_eq]
      simp only [n.scope_nesting]
      exact congrArg _ hvdecl.symm
    · obtain ⟨-, o, ho, hW⟩ := hframe r hr
      exact ⟨o, ho, by rw [hW]; exact congrArg some (congrArg (Carrier.mk · o context) hvdecl.symm)⟩
    · have hx := mem_of_lookup hx
      rw [memory.add_cells_next, hkeeps.local _ (hplaces.lt hx)]
      exact (hplaces.cellHolds (hall.symm ▸ hn.checked.locals_nodup_of hdecl) htakes
        (Nat.le_trans hle.locals hfits.locals) hx).extend hgrown
  have hstart : a = a.resume (((((⟨[function.lastInst], .straight, []⟩ : Cont).before c₄).before c₃).before
      c₂).before c₁) := by
    have hblocks := ha.blocks_eq
    cases a
    simpa [Activation.resume, Cont.before, Cont.blocks, FunctionDecl.lastInst] using hblocks
  refine ⟨site, σ₅, c₄, k, W', a', store', hvdecl, hbody, ?_, hgrown,
    ⟨.refl _, hfits.keep hkeeps, hholds, hd', hlive'⟩, hkeeps.owned_eq.trans ha.owned_eq,
    hkeeps.dest_eq.trans ha.dest_eq⟩
  rw [hstart]
  exact hleads

/-- An activation comes to an instruction that returns what the evaluation gives. -/
def Finishes (n : Nesting) (W : Placement) (memory : Memory) (dest : Option ValueId) (c : CallStack)
    (ty : ValueType) (res : Option Datum) (memory' : Memory) (s : State) : Prop :=
  ∃ (W' : Placement) (a' : Activation) (store' : Store) (cont : Cont) (r : Option ValueId),
    s = ⟨a'.resume (cont.before [.ret r]), c, store'⟩ ∧ W.Extends W' ∧
    memory.Keeps n none memory' ∧ Depicts n W' memory' store' ∧ store'.AllLive ∧ Returns n W' a' ty res r ∧
    a'.owned = [] ∧ a'.dest = dest

include hm in
/-- What is known of the body of a function. -/
theorem Nesting.Lowers.blockOk (ht : n.program.TypeCorrect) (hr : n.program.ReturnsMatch)
    (hf : n.program.function? id = some function) :
    BlockOk n.program id function.returnType function.body := by
  have hn := hm.built
  obtain ⟨decl, hd, hk⟩ := Program.function?_eq_some_iff.1 hf
  refine ⟨hn.checked.body hd hk, ht id function hf, ?_, hr id function hf⟩
  intro r hmem
  exact hn.enclosed (hn.checked.mem_preorder hd) (by simpa [Program.references, hf] using hmem)

variable (ht : n.program.TypeCorrect) (hr : n.program.ReturnsMatch)
include hm ht hr

/-- A machine that was called comes to a return, as the evaluation of the call does. -/
theorem FunctionCode.follows {limit depth : Nat} (hcall : Handled n m limit c (n.program.evalCall limit depth))
    (h : FunctionCode n.scope id v f) (hf : n.program.function? id = some function)
    (hd : Depicts n W memory store) (hlive : store.AllLive)
    (haround : Around n W (n.program.parent? id) env context)
    (hds : RepresentsAll n W (function.params.map n.program.varType) ds vs)
    (ha : Activation.Entered f (n.hiddenArgs id context ++ vs) dest a) :
    Follows m n.Causes 0 limit ⟨a, c, store⟩ (n.program.evalCall limit (depth + 1) id env ds) memory
      (Finishes n W memory dest c function.returnType) := by
  rw [Program.evalCall, hf]
  obtain ⟨site, σ', code, k, W₁, a₁, store₁, rfl, hbody, hleads, hgrown, hready, howned, hdest⟩ :=
    h.exists_site (c := c) hm hf hd hlive haround hds ha
  refine .after hleads (.bind_ok rfl ?_)
  refine (blockFollows hm hcall function.body hbody (hm.blockOk ht hr hf) hready).andThen ?_
  rintro flow memory₂ s (hmoved | ⟨hmoved, hret⟩)
  · -- The end of the body: the last instruction returns, or there is no result.
    rename_i W₂ a₂ store₂
    by_cases hunit : function.returnType.isUnit = true
    · simp only [hunit, if_true, FunctionDecl.lastInst]
      exact .of_ok rfl ⟨W₂, a₂, store₂, ⟨[], .straight, []⟩, none, rfl, hgrown.trans hmoved.grown,
        hmoved.kept.call, hmoved.depicts, hmoved.live, .none hunit, hmoved.keeps.owned_eq.trans howned,
        hmoved.keeps.dest_eq.trans hdest⟩
    · simp only [hunit, FunctionDecl.lastInst]
      have hcause : n.Causes (.resultMissing site.decl) (.resultMissing a₂.function.name) := by
        rw [hmoved.holds.name_eq]
        exact .resultMissing hf (Bool.of_not_eq_true hunit)
      exact .of_fails rfl hcause nofun
        (show State.Fails m 1 ⟨a₂.resume ((⟨[], .straight, []⟩ : Cont).before [.unreachable]), c, store₂⟩ _ from
          State.fails_of_effect rfl)
  · exact .of_ok rfl ⟨_, _, _, _, _, rfl, hgrown.trans hmoved.grown, hmoved.kept.call, hmoved.depicts,
      hmoved.live, hret, hmoved.keeps.owned_eq.trans howned, hmoved.keeps.dest_eq.trans hdest⟩

end

/-! ## Calls -/

section

variable {n : Nesting} {m : Lir.Module}

/-- A return gives its value back to the caller. -/
theorem Finishes.leads {W : Placement} {memory memory' : Memory} {dest : Option ValueId} {c : CallStack}
    {caller : Activation} {ty : ValueType} {res : Option Datum} {s : State}
    (h : Finishes n W memory dest (c.push caller) ty res memory' s) (hdest : dest.isSome = !ty.isUnit) :
    ∃ W' a' store', s.Leads m 1 ⟨a', c, store'⟩ ∧ W.Extends W' ∧ memory.Keeps n none memory' ∧
      Depicts n W' memory' store' ∧ store'.AllLive ∧ Gives n W' caller ty dest res a' := by
  obtain ⟨W', a', store', cont, r, rfl, hgrown, hkept, hd, hlive, hret, howned, hdest'⟩ := h
  have hrelease : store'.releaseAll a'.owned = store' := by rw [howned]; rfl
  cases hret with
  | value hrep hr =>
    cases dest with
    | none =>
      have := hrep.ne_unit
      simp [this] at hdest
    | some dest =>
      refine ⟨W', _, _, State.leads_of_moves (.ret hr) (.retValue (by exact hdest')), hgrown, hkept, ?_, ?_,
        .value hrep⟩
      · exact (congrArg (Depicts n W' memory') hrelease).mpr hd
      · exact (congrArg Store.AllLive hrelease).mpr hlive
  | none hunit =>
    obtain rfl : dest = none := by
      rw [hunit] at hdest
      simpa using hdest
    refine ⟨W', _, _, State.leads_of_moves .retNone (.ret (.inr rfl)), hgrown, hkept, ?_, ?_, .none⟩
    · exact (congrArg (Depicts n W' memory') hrelease).mpr hd
    · exact (congrArg Store.AllLive hrelease).mpr hlive

/-- A function can be entered with the arguments that its declaration takes. -/
theorem FunctionCode.exists_enter {id : DeclId} {v : Vantage} {f : Lir.Function}
    (h : FunctionCode n.scope id v f) {function : FunctionDecl}
    (hf : n.program.function? id = some function) {vs : List Value}
    (hlen : vs.length = function.params.length) (context : Option ObjectId) (dest : Option ValueId) :
    ∃ a, Activation.enter f (n.hiddenArgs id context ++ vs) dest = .ok a := by
  cases h with | @mk decl function' target params _ _ _ _ _ _ _ _ _ _ _ _ _ _ hdecl hk _ hparams =>
  rw [n.scope_nesting] at hdecl hparams
  have hfun := Program.function?_eq_some_iff.2 ⟨decl, hdecl, hk⟩
  rw [hf] at hfun
  cases hfun
  have hpar : n.program.parent? id = decl.parent := by simp [Program.parent?, hdecl]
  have hcount : (n.hiddenArgs id context ++ vs).length =
      ((if decl.parent.isSome then [Ty.ptr] else []) ++ params).length := by
    simp only [Nesting.hiddenArgs, hpar, List.length_append, hlen, hparams.length_eq]
    split <;> rfl
  exact ⟨_, if_pos hcount⟩

/-- Whatever is called with so many activations around it, the machine follows the evaluator. -/
theorem handled (hm : n.Lowers .alwaysHeap m) (ht : n.program.TypeCorrect) (hr : n.program.ReturnsMatch)
    (limit : Nat) {depth : Nat} {c : CallStack} (hdepth : c.depth + 1 + depth = maxDepth) :
    Handled n m limit c (n.program.evalCall limit depth) := by
  induction depth generalizing c with
  | zero =>
    intro W memory store a cont inst dest target id function env context ds vs hd hlive hinst htarget hf
      hdest haround hds
    have hfails : State.Fails m 1 ⟨a.resume (cont.before [inst]), c, store⟩
        (.depthExceeded a.function.name) := by
      have heffect := hinst.effect_eq
      have hstep : State.step m ⟨a.resume cont, c, store⟩ inst =
          State.fail ⟨a.resume cont, c, store⟩ (.depthExceeded a.function.name) := by
        simp only [State.step, heffect, State.apply, State.call, ge_iff_le,
          show maxDepth ≤ c.depth + 1 by omega, if_true]
        rfl
      refine ⟨fun maxSteps left steps hle => ?_, State.exhausts_before⟩
      rw [State.run_of_stopped hstep hle]
    exact .of_fails rfl .depthExceeded (by simp) hfails
  | succ depth ih =>
    intro W memory store a cont inst dest target id function env context ds vs hd hlive hinst htarget hf
      hdest haround hds
    obtain ⟨f, hfun, _, v, -, -, hcode⟩ := hm.function?_of_scope htarget
    obtain ⟨callee, henter⟩ := hcode.exists_enter hf
      (show vs.length = function.params.length by simp [← hds.length_eq]) context dest
    have hleads := State.leads_of_moves (c := c) hinst (.call (by omega) hfun henter)
    have hcallee := hcode.follows hm ht hr (ih (c := c.push (a.resume cont))
      (by simp only [CallStack.push]; omega)) hf hd hlive haround hds (Activation.entered_of_enter henter)
    refine .first hleads (Nat.le_refl 1) (hcallee.further ?_)
    intro res memory' s hfinishes
    obtain ⟨W', a', store', hret, hgrown, hkept, hd', hlive', hgives⟩ := hfinishes.leads (m := m) hdest
    cases hgives with
    | value hrep => exact ⟨1, _, hret, W', _, store', rfl, hgrown, hkept, hd', hlive', .value hrep⟩
    | none => exact ⟨1, _, hret, W', _, store', rfl, hgrown, hkept, hd', hlive', .none⟩

end

end StaticChain
