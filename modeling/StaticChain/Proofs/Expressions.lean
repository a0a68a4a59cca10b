import StaticChain.Proofs.Making

/-!
# The code of expressions follows their evaluation

For every expression of a body, the machine that executes its code follows the evaluator
(`exprFollows`): at the end, the value that the code names stands for the result, what the body knew before
is still so, and the store depicts the memory. The proof goes by induction over expressions. What it needs of
calls is that the machine follows the handler for them (`Handled`).
-/

namespace StaticChain

open Lir (ValueId LocalId FunctionId Inst Ty)
open Machine

/-- The fault that a machine ends with where an evaluation stops. A variable that is not set lives in a
local of its function or in a slot of its frame. -/
inductive Nesting.Causes (n : Nesting) : Stop → Fault → Prop
  | divisionByZero : Causes n .divisionByZero .divisionByZero
  | localUnset {x : VarId} {var : Variable} {id : LocalId} : n.program.var? x = some var →
      Causes n (.unset x) (.localUnset id (n.program.qualifiedName var.owner))
  | slotUnset {x : VarId} {l : Layout} {i : Nat} {slot : Layout.Slot} {o : ObjectId} :
      n.layouts.byStruct? l.struct = some l → l.slots[i]? = some slot → slot.kind = .captured x →
      Causes n (.unset x) (.slotUnset i o l.struct)
  | resultMissing {id : DeclId} {function : FunctionDecl} : n.program.function? id = some function →
      function.returnType.isUnit = false → Causes n (.resultMissing id) (.resultMissing (n.program.qualifiedName id))
  | depthExceeded {function : String} : Causes n .depthExceeded (.depthExceeded function)

/-- Code leaves control after it, with what was there kept and something new. -/
def Leaves {α : Type} (n : Nesting) (σ : Regs) (W : Placement) (memory : Memory) (a : Activation)
    (c : CallStack) (cont : Cont) (P : Placement → Activation → α → Prop) (x : α) (memory' : Memory)
    (s : State) : Prop :=
  ∃ W' a' store', s = ⟨a'.resume cont, c, store'⟩ ∧ Onward n σ W memory a W' memory' a' store' ∧ P W' a' x

/-- The value stands for the result, where there is one. -/
inductive ResultIn (n : Nesting) (W : Placement) (a : Activation) (σ : Regs) (ty : ValueType) :
    Option Datum → Option ValueId → Prop
  | value {d : Datum} {v : Value} {r : ValueId} : Represents n W ty d v → a.value r = .ok v →
      r.index < σ.values.size → ResultIn n W a σ ty (some d) (some r)
  | none : ResultIn n W a σ ty none none

/-- The values stand for the results of some expressions. -/
def ResultsIn (n : Nesting) (W : Placement) (a : Activation) (σ : Regs) (tys : List ValueType)
    (ds : List Datum) (rs : List ValueId) : Prop :=
  ∃ vs, RepresentsAll n W tys ds vs ∧
    List.Forall₂ (fun r v => a.value r = .ok v ∧ r.index < σ.values.size) rs vs

/-- The code from one point of a body to another one can be executed. -/
structure Site.Ready {n : Nesting} (site : Site n) (record : Nat) (rest : Env)
    (context : Option ObjectId) (σ σ' : Regs) (W : Placement) (memory : Memory) (a : Activation)
    (store : Store) : Prop where
  le : site.regs.Le σ
  fits : a.Fits σ'
  holds : site.Holds record rest context W memory a
  depicts : Depicts n W memory store
  live : store.AllLive

namespace Site.Ready

variable {n : Nesting} {site : Site n} {record : Nat} {rest : Env} {context : Option ObjectId}
  {σ σ₁ σ' : Regs} {W W' : Placement} {memory memory' : Memory} {a a' : Activation} {store store' : Store}

theorem shorten (h : site.Ready record rest context σ σ' W memory a store) (hle : σ₁.Le σ') :
    site.Ready record rest context σ σ₁ W memory a store :=
  ⟨h.le, h.fits.of_le hle, h.holds, h.depicts, h.live⟩

theorem onward (h : site.Ready record rest context σ σ' W memory a store)
    (ho : Onward n σ W memory a W' memory' a' store') (hle : σ.Le σ₁) :
    site.Ready record rest context σ₁ σ' W' memory' a' store' :=
  ⟨h.le.trans hle, h.fits.keep ho.keeps, h.holds.onward ho h.le, ho.depicts, ho.live⟩

theorem refl (h : site.Ready record rest context σ σ' W memory a store) :
    Onward n σ W memory a W memory a store := .refl σ a h.depicts h.live

/-- Values are written that were not there. -/
theorem keeps (h : site.Ready record rest context σ σ' W memory a store) (hk : a.Keeps σ a') :
    Onward n σ W memory a W memory a' store :=
  ⟨W.extends_refl, .refl memory, h.depicts, h.live, hk⟩

end Site.Ready

section

variable {n : Nesting} {m : Lir.Module} {σ σ₁ : Regs} {W W₁ : Placement} {memory memory₁ : Memory}
  {a a₁ : Activation} {store₁ : Store} {c : CallStack} {cont : Cont} {α : Type}
  {P : Placement → Activation → α → Prop}

/-- What is left from a later point on is left from an earlier one. -/
theorem Follows.onward {least need : Nat} {s : State} {x : Eval α} {memory' : Memory}
    (h : Follows m n.Causes least need s x memory' (Leaves n σ₁ W₁ memory₁ a₁ c cont P))
    (ho : Onward n σ W memory a W₁ memory₁ a₁ store₁) (hle : σ.Le σ₁) :
    Follows m n.Causes least need s x memory' (Leaves n σ W memory a c cont P) := by
  refine h.imp ?_
  rintro x memory'' s' ⟨W', a', store', rfl, ho', hx⟩
  exact ⟨W', a', store', rfl, ho.trans ho' hle, hx⟩

end

/-! ## Variables -/

/-- The slots of a frame that hold variables hold captured ones. -/
theorem Layout.Of.kind_of_isFunction {p : Program} {captures : Captures} {struct : Lir.StructId}
    {id : DeclId} {l : Layout} (h : Layout.Of p captures struct id l) (ha : p.isAggregate id ≠ true)
    {i : Nat} {slot : Layout.Slot} {x : VarId} (hslot : l.slots[i]? = some slot)
    (hx : slot.kind.var? = some x) : slot.kind = .captured x := by
  cases h with
  | frame hd hk hs needed hslots =>
    rw [List.getElem?_append] at hslot
    split at hslot
    · obtain ⟨y, var, -, -, hkind, -⟩ := kind_of_lt hslots hslot
      rw [hkind] at hx
      cases hx
      exact hkind
    · split at hslot
      · obtain ⟨_, rfl⟩ := List.getElem?_eq_some_iff.1 hslot
        simp [SlotKind.var?] at hx
      · simp at hslot
  | aggregate hd hk hs hslots =>
    exact absurd (Program.isAggregate_iff.2 ⟨_, Program.aggregate?_eq_some_iff.2 ⟨_, hd, hk⟩⟩) ha

section

variable {n : Nesting} {policy : FramePolicy} {m : Lir.Module} {limit : Nat} {W : Placement}
  {memory : Memory} {store : Store} {σ : Regs} {a : Activation} {c : CallStack} {cont : Cont}

/-- Reading a slot of a carrier reads the cell of its record. -/
theorem follows_load (hn : n.Built policy) (hd : Depicts n W memory store) (hlive : store.AllLive)
    {r : Nat} {k : Carrier} (hr : W r = some k) {l : Layout} (hl : n.layouts.layout? k.decl = some l)
    {x : VarId} {i : Nat} (hx : l.slotOf? x = some i) {base : ValueId}
    (hbase : a.value base = .ok (.object k.object)) {ty : Ty}
    (hfits : a.Fits ((σ.value .ptr).value ty)) :
    Follows m n.Causes 1 limit ⟨a.resume (cont.before
        [.fieldAddr σ.next base l.struct i, .load (σ.value .ptr).next σ.next ty]), c, store⟩
      (do return some (← Eval.read r x)) memory
      (Leaves n σ W memory a c cont fun W' a' res =>
        ResultIn n W' a' ((σ.value .ptr).value ty) (n.program.varType x) res
          (some (σ.value .ptr).next)) := by
  obtain ⟨object, hobj, hstruct, hholds⟩ := hd.exists_object hr hl
  have hfits₁ : a.Fits (σ.value .ptr) := hfits.of_le (Regs.le_value _ _)
  have hkeeps : a.Keeps σ (a.define σ.next (.slot k.object i)) :=
    (Activation.Keeps.refl σ a).define (.refl σ) _
  have haddr : (a.define σ.next (.slot k.object i)).value σ.next = .ok (.slot k.object i) :=
    hfits₁.value_define _
  have hobject := hlive k.object object hobj
  rw [Cont.before_cons]
  refine .first (State.leads_of_define (.fieldAddr hbase hobj hobject hstruct)) (Nat.le_refl 1) ?_
  have hcell := hholds.slot x i hx
  cases hc : memory.cells r x with
  | none =>
    -- Only a captured variable can be unset: instances are made with all their fields.
    rw [hc] at hcell
    generalize hs : object.slots[i]? = place at hcell
    cases hcell
    have hagg : n.program.isAggregate k.decl ≠ true := fun ha => hholds.fields ha x i hx hc
    obtain ⟨slot, hslot, hkind⟩ := Layout.kind_of_slotOf? hx
    have hcause : n.Causes (.unset x) (.slotUnset i k.object l.struct) :=
      .slotUnset (hn.byStruct?_eq hl) hslot ((hn.layout_of hl).kind_of_isFunction hagg hslot hkind)
    refine Follows.bind_fails (Eval.read_eq_error hc) hcause nofun (State.fails_of_effect ?_)
    have hread : store.read k.object i = .error (.slotUnset i k.object l.struct) := by
      simp [Store.read, Store.object, hobj, hobject, hs, hstruct, bind, Except.bind, throw, throwThe,
        MonadExceptOf.throw]
    exact bind_eq_error.2 (.inr ⟨_, haddr, bind_eq_error.2 (.inr ⟨_, rfl,
      bind_eq_error.2 (.inl hread)⟩)⟩)
  | some d =>
    rw [hc] at hcell
    generalize hs : object.slots[i]? = place at hcell
    cases hcell with | @set _ v hrep =>
    refine Follows.bind_ok (Eval.read_eq_ok hc) ?_
    refine .after (State.leads_of_define (.load haddr hobj hobject hs)) (.of_ok rfl ?_)
    refine ⟨W, _, store, rfl, ⟨W.extends_refl, .refl memory, hd, hlive,
      hkeeps.define (σ.le_value .ptr) v⟩, .value hrep ?_ (by simp [Regs.next])⟩
    exact (hfits.keep hkeeps).value_define v

variable {site : Site n} {record : Nat} {rest : Env} {context : Option ObjectId} {σ' : Regs}
  {code : List Inst}

/-- The end of a chain, with the record that the evaluator walks up to. -/
theorem Site.Ready.leads_chain (hn : n.Built policy)
    (h : site.Ready record rest context σ σ' W memory a store) {target : DeclId} {chain : Chain}
    (hchain : n.chainTo site.decl target = .ok chain) {r : ValueId}
    (hcode : ChainCode site.vantage chain σ code r σ') :
    ∃ a' o, State.Leads m code.length ⟨a.resume (cont.before code), c, store⟩
        ⟨a'.resume cont, c, store⟩ ∧ Onward n σ W memory a W memory a' store ∧
      a'.value r = .ok (.object o) ∧ r.index < σ'.values.size ∧
      Around n W (some target) (Env.upTo ((site.decl, record) :: rest) target) (some o) := by
  obtain ⟨a', o, hleads, hkeeps, hr, haround⟩ :=
    h.holds.leads_chain hn h.depicts h.live hchain hcode h.fits
  exact ⟨a', o, hleads, h.keeps hkeeps, hr, site.chain_lt h.le hcode, haround⟩

/-- Code that reads a variable. -/
theorem ReadCode.follows (hn : n.Built policy) {x : VarId} {r : ValueId}
    (h : ReadCode site.scope site.vantage x σ code r σ')
    (hready : site.Ready record rest context σ σ' W memory a store) :
    Follows m n.Causes 1 limit ⟨a.resume (cont.before code), c, store⟩
      (do return some (← Eval.read (← n.program.recordOf ((site.decl, record) :: rest) x) x)) memory
      (Leaves n σ W memory a c cont fun W' a' res =>
        ResultIn n W' a' σ' (n.program.varType x) res (some r)) := by
  have hfits := hready.fits
  cases h with
  | «local» hres hl hty =>
    rename_i y l ty
    rw [site.within.nesting_eq] at hres
    obtain ⟨rfl, var, hv, howner, -⟩ := Nesting.resolve_eq_local hres
    have henv : Env.upTo ((site.decl, record) :: rest) var.owner = (var.owner, record) :: rest := by
      rw [howner]
      simp [Env.upTo, Site.decl]
    refine .bind_ok (Program.recordOf_eq_ok hv henv memory) ?_
    have hcell := hready.holds.local _ l hl
    cases hc : memory.cells record y with
    | none =>
      rw [hc] at hcell
      generalize hs : a.locals[l.index]? = place at hcell
      cases hcell
      have hcause : n.Causes (.unset y) (.localUnset l a.function.name) := by
        rw [hready.holds.name_eq, Site.decl, ← howner]
        exact .localUnset hv
      refine .bind_fails (Eval.read_eq_error hc) hcause (by simp) (State.fails_of_effect ?_)
      have hunset : (a.resume cont).local l = .error (.localUnset l a.function.name) := by
        change a.local l = _
        rw [Activation.local, hs]
      exact bind_eq_error.2 (.inl hunset)
    | some d =>
      rw [hc] at hcell
      generalize hs : a.locals[l.index]? = place at hcell
      cases hcell with | @set _ v hrep =>
      refine .bind_ok (Eval.read_eq_ok hc) ?_
      refine .first (State.leads_of_define (.localGet (Activation.local_eq_ok.2 hs))) (Nat.le_refl 1)
        (.of_ok rfl ?_)
      exact ⟨W, _, store, rfl, hready.refl.define (.refl σ) v, .value hrep (hfits.value_define v)
        (by simp [Regs.next])⟩
  | slot hres hchain =>
    rw [site.within.nesting_eq] at hres
    obtain ⟨var, l, hv, hc, hl, rfl, hslot, -⟩ := Nesting.resolve_eq_slot hres
    obtain ⟨a₁, o, hleads, ho, hcarrier, -, haround⟩ :=
      (hready.shorten ((Regs.le_value _ _).trans (Regs.le_value _ _))).leads_chain hn hc hchain
    obtain ⟨r', rest', o', link, henv, heq, hW, -⟩ := haround.exists_carrier (hn.isCarrier_of_layout hl)
    cases heq
    rw [Cont.before_append]
    refine .after hleads (.bind_ok (Program.recordOf_eq_ok hv henv memory) ?_)
    exact (follows_load hn ho.depicts ho.live hW hl hslot hcarrier (hfits.keep ho.keeps)).onward ho
      hchain.le

end

/-! ## Calls -/

/-- What a call leaves in the activation that made it. -/
inductive Gives (n : Nesting) (W : Placement) (a : Activation) (ty : ValueType) :
    Option ValueId → Option Datum → Activation → Prop
  | value {r : ValueId} {d : Datum} {v : Value} : Represents n W ty d v →
      Gives n W a ty (some r) (some d) (a.define r v)
  | none : Gives n W a ty none none a

/-- Whatever an instruction calls, the machine follows the handler. -/
def Handled (n : Nesting) (m : Lir.Module) (limit : Nat) (c : CallStack) (handler : Handler) : Prop :=
  ∀ {W : Placement} {memory : Memory} {store : Store} {a : Activation} {cont : Cont} {inst : Inst}
    {dest : Option ValueId} {target : FunctionId} {id : DeclId} {function : FunctionDecl} {env : Env}
    {context : Option ObjectId} {ds : List Datum} {vs : List Value},
    Depicts n W memory store → store.AllLive →
    (a.resume cont).Does m store inst (.call dest target (n.hiddenArgs id context ++ vs)) →
    n.scope.function? id = some target → n.program.function? id = some function →
    dest.isSome = !function.returnType.isUnit → Around n W (n.program.parent? id) env context →
    RepresentsAll n W (function.params.map n.program.varType) ds vs →
    Follows m n.Causes 1 limit ⟨a.resume (cont.before [inst]), c, store⟩ (handler id env ds) memory
      fun res memory' s => ∃ W' a' store', s = ⟨a'.resume cont, c, store'⟩ ∧ W.Extends W' ∧
        memory.Keeps n none memory' ∧ Depicts n W' memory' store' ∧ store'.AllLive ∧
        Gives n W' a function.returnType dest res a'

section

variable {n : Nesting} {m : Lir.Module} {limit : Nat} {W : Placement} {memory : Memory} {store : Store}
  {σ : Regs} {a : Activation} {c : CallStack} {cont : Cont} {handler : Handler}

/-- An instruction that calls a function, once its context and its arguments are there, leaves the result
where its code says. -/
theorem Handled.follows (hcall : Handled n m limit c handler) {σ₂ : Regs} {W₂ : Placement} {memory₂ : Memory}
    {store₂ : Store} {a₂ : Activation} (ho : Onward n σ W memory a W₂ memory₂ a₂ store₂) (hle : σ.Le σ₂)
    {id : DeclId} {function : FunctionDecl} {target : FunctionId} {inst : Inst} {env : Env}
    {passed : Option ObjectId} {ds : List Datum} {vs : List Value} {ret : Option Ty}
    (hret : ret = function.returnType.storage?) (hfits : a₂.Fits (σ₂.result ret))
    (hinst : (a₂.resume cont).Does m store₂ inst
      (.call (σ₂.dest ret) target (n.hiddenArgs id passed ++ vs)))
    (htarget : n.scope.function? id = some target) (hf : n.program.function? id = some function)
    (haround : Around n W₂ (n.program.parent? id) env passed)
    (hds : RepresentsAll n W₂ (function.params.map n.program.varType) ds vs) {P : ValueType → Prop}
    (hP : ∀ ty, P ty → function.returnType = ty) :
    Follows m n.Causes 1 limit ⟨a₂.resume (cont.before [inst]), c, store₂⟩ (handler id env ds) memory₂
      (Leaves n σ W memory a c cont fun W' a' res =>
        ∀ ty, P ty → ResultIn n W' a' (σ₂.result ret) ty res (σ₂.dest ret)) := by
  have hdest : (σ₂.dest ret).isSome = !function.returnType.isUnit := by
    rw [← ValueType.isSome_storage?, hret]
    simp [Regs.dest]
  refine (hcall ho.depicts ho.live hinst htarget hf hdest haround hds).imp ?_
  rintro res memory' s ⟨W', a', store', rfl, hgrown, hkept, hd', hlive', hgives⟩
  cases ret with
  | none =>
    cases hgives
    exact ⟨W', a₂, store', rfl, ⟨ho.grown.trans hgrown, ho.kept.trans hkept, hd', hlive', ho.keeps⟩,
      fun _ _ => .none⟩
  | some lty =>
    cases hgives with | value hrep =>
    refine ⟨W', _, store', rfl, ⟨ho.grown.trans hgrown, ho.kept.trans hkept, hd', hlive',
      ho.keeps.define hle _⟩, fun ty hty => ?_⟩
    rw [← hP ty hty]
    exact .value hrep (hfits.value_define _) (by simp [Regs.next, Regs.result])

end

/-! ## Expressions -/

/-- What is known of an expression of a body. -/
structure ExprOk (p : Program) (useSite : DeclId) (expr : Expr) : Prop where
  check : p.checkExpr expr = .ok ()
  typed : p.ExprTyped expr
  enclosed : ∀ r ∈ p.exprReferences expr, r.Enclosed p useSite

/-- What is known of the arguments of a call. -/
structure ExprsOk (p : Program) (useSite : DeclId) (exprs : List Expr) : Prop where
  check : p.checkExprs exprs = .ok ()
  typed : p.ExprsTyped exprs
  enclosed : ∀ r ∈ p.exprsReferences exprs, r.Enclosed p useSite

theorem ExprsOk.cons {p : Program} {useSite : DeclId} {expr : Expr} {rest : List Expr}
    (h : ExprsOk p useSite (expr :: rest)) : ExprOk p useSite expr ∧ ExprsOk p useSite rest := by
  obtain ⟨hcheck, htyped, henclosed⟩ := h
  simp only [Program.checkExprs, then_eq_ok] at hcheck
  simp only [Program.exprsReferences, List.mem_append, or_imp, forall_and] at henclosed
  exact ⟨⟨hcheck.1, htyped.1, henclosed.1⟩, ⟨hcheck.2, htyped.2, henclosed.2⟩⟩

/-- A function that is called or named has its parent around the place. -/
theorem parent_mem_of_enclosed {p : Program} {useSite decl : DeclId}
    (h : ∀ r ∈ p.parentReference decl, r.Enclosed p useSite) {parent : DeclId}
    (hp : p.parent? decl = some parent) : parent ∈ useSite :: p.ancestors useSite :=
  h (.context parent) (by simp [Program.parentReference, hp])

section

variable {n : Nesting} (m : Lir.Module) (limit : Nat) (site : Site n) (record : Nat) (rest : Env)
  (context : Option ObjectId) (c : CallStack) (handler : Handler)

/-- The machine that executes the code of the expression follows its evaluation. -/
def ExprFollows (expr : Expr) : Prop :=
  ∀ {σ σ' : Regs} {code : List Inst} {r : Option ValueId} {W : Placement} {memory : Memory}
    {store : Store} {a : Activation} {cont : Cont},
    ExprCode site.scope site.vantage expr σ code r σ' → ExprOk n.program site.decl expr →
    site.Ready record rest context σ σ' W memory a store →
    Follows m n.Causes (min 1 code.length) limit ⟨a.resume (cont.before code), c, store⟩
      (n.program.evalExpr handler ((site.decl, record) :: rest) expr) memory
      (Leaves n σ W memory a c cont fun W' a' res =>
        ∀ ty, n.program.HasType expr ty → ResultIn n W' a' σ' ty res r)

end

namespace ExprFollows

variable {n : Nesting} {policy : FramePolicy} {m : Lir.Module} {limit : Nat} {site : Site n} {record : Nat} {rest : Env}
  {context : Option ObjectId} {c : CallStack} {handler : Handler}

/-- Where the code takes a step, it takes enough. -/
theorem of_one {s : State} {α : Type} {x : Eval α} {memory : Memory}
    {Fits : α → Memory → State → Prop} {code : List Inst}
    (h : Follows m n.Causes 1 limit s x memory Fits) :
    Follows m n.Causes (min 1 code.length) limit s x memory Fits :=
  h.mono (Nat.min_le_left _ _) (Nat.le_refl _)

/-- A value that the code writes in one step. -/
theorem define {σ : Regs} {W : Placement} {memory : Memory} {store : Store} {a : Activation} {cont : Cont}
    {inst : Inst} {v : Value} {d : Datum} {lty : Ty} {P : ValueType → Prop}
    (hd : Depicts n W memory store) (hlive : store.AllLive) (hfits : a.Fits (σ.value lty))
    (hinst : (a.resume cont).Does m store inst (.define σ.next v))
    (hrep : ∀ ty, P ty → Represents n W ty d v) :
    Follows m n.Causes 1 limit ⟨a.resume (cont.before [inst]), c, store⟩ (pure (some d)) memory
      (Leaves n σ W memory a c cont fun W' a' res =>
        ∀ ty, P ty → ResultIn n W' a' (σ.value lty) ty res (some σ.next)) := by
  refine .first (State.leads_of_define hinst) (Nat.le_refl 1) (.of_ok rfl ?_)
  refine ⟨W, _, store, rfl, ⟨W.extends_refl, .refl memory, hd, hlive,
    (Activation.Keeps.refl σ a).define (.refl σ) v⟩, ?_⟩
  intro ty hty
  exact .value (hrep ty hty) (hfits.value_define v) (by simp [Regs.next])

theorem int (x : Int64) : ExprFollows m limit site record rest context c handler (.int x) := by
  intro σ σ' code r W memory store a cont h _ hready
  cases h
  refine of_one ?_
  rw [Program.evalExpr]
  refine define hready.depicts hready.live hready.fits .const ?_
  rintro _ ⟨⟩
  exact .int (.inl rfl)

theorem bool (x : Bool) : ExprFollows m limit site record rest context c handler (.bool x) := by
  intro σ σ' code r W memory store a cont h _ hready
  cases h
  refine of_one ?_
  rw [Program.evalExpr]
  refine define hready.depicts hready.live hready.fits .const ?_
  rintro _ ⟨⟩
  exact .int (.inr rfl)

theorem var (hn : n.Built policy) (x : VarId) :
    ExprFollows m limit site record rest context c handler (.var x) := by
  intro σ σ' code r W memory store a cont h hok hready
  cases h with | var hread =>
  rw [Program.evalExpr]
  refine of_one ((hread.follows hn hready).imp ?_)
  rintro res memory' s ⟨W', a', store', rfl, ho, hres⟩
  refine ⟨W', a', store', rfl, ho, fun ty hty => ?_⟩
  rw [← Program.varType_eq_of_ok hty]
  exact hres

/-- The operand of an operator is an integer. -/
theorem int_of_scalarTyped {expr : Expr} {W : Placement} {a : Activation} {σ : Regs}
    {res : Option Datum} {r : ValueId} (ht : n.program.ScalarTyped expr)
    (h : ∀ ty, n.program.HasType expr ty → ResultIn n W a σ ty res (some r)) :
    ∃ x, res = some (.int x) ∧ a.value r = .ok (.int x) ∧ r.index < σ.values.size := by
  obtain ⟨ty, hty, hscalar⟩ := ht
  cases h ty hty with
  | value hrep hv hlt =>
    obtain ⟨x, rfl, rfl⟩ := hrep.int_of_isScalar hscalar
    exact ⟨x, rfl, hv, hlt⟩

theorem unary (op : UnaryOp) {operand : Expr}
    (ih : ExprFollows m limit site record rest context c handler operand) :
    ExprFollows m limit site record rest context c handler (.unary op operand) := by
  intro σ σ' code r W memory store a cont h hok hready
  cases h with | @unary _ _ _ σ₁ code r hoperand =>
  have hok' : ExprOk n.program site.decl operand := ⟨hok.check, hok.typed.1, hok.enclosed⟩
  rw [Program.evalExpr, Cont.before_append]
  refine of_one ((ih hoperand hok' (hready.shorten (σ₁.le_value _))).andThen ?_)
  rintro res memory' s ⟨W', a', store', rfl, ho, hres⟩
  obtain ⟨x, rfl, hv, -⟩ := int_of_scalarTyped hok.typed.2 hres
  refine .bind_ok rfl ?_
  refine (define ho.depicts ho.live (hready.fits.keep ho.keeps) (.unary hv) ?_).onward ho hoperand.le
  intro ty hty
  cases op with
  | neg =>
    cases hty
    exact .int (.inl rfl)
  | not =>
    cases hty
    simp only [UnaryOp.lower, Machine.unary, Value.ofBool, beq_iff_eq]
    exact .int (.inr rfl)

/-! ### Operators with two operands -/

/-- An operator that evaluates both operands does the same on the machine. -/
theorem binary_of_shape {op : BinOp} {o : Lir.BinOp} (h : op.shape = .strict o) (x y : Int64) :
    op.decided x = none ∧ ((∃ z, op.value x y = .ok z ∧ Machine.binary o x y = .ok (.int z)) ∨
      (op.value x y = .error .divisionByZero ∧ Machine.binary o x y = .error .divisionByZero)) := by
  have hdiv : ∀ (z : Int64) (k : Int64), (∃ w, (if z = 0 then .error .divisionByZero else .ok k :
      Except Stop Int64) = .ok w ∧ (if z = 0 then .error .divisionByZero else .ok (.int k) :
      Except Fault Value) = .ok (.int w)) ∨ ((if z = 0 then .error .divisionByZero else .ok k :
      Except Stop Int64) = .error .divisionByZero ∧ (if z = 0 then .error .divisionByZero
      else .ok (.int k) : Except Fault Value) = .error .divisionByZero) := by
    intro z k
    by_cases hz : z = 0 <;> simp [hz]
  cases op <;> cases h <;> refine ⟨rfl, ?_⟩
  case div => exact hdiv y (x / y)
  case rem => exact hdiv y (x % y)
  all_goals
    refine .inl ⟨_, rfl, ?_⟩
    simp [Machine.binary, Value.ofBool]

theorem operands {op : BinOp} {lhs rhs : Expr} (h : ExprOk n.program site.decl (.binary op lhs rhs)) :
    ExprOk n.program site.decl lhs ∧ ExprOk n.program site.decl rhs := by
  obtain ⟨hcheck, htyped, henclosed⟩ := h
  simp only [Program.checkExpr, then_eq_ok] at hcheck
  simp only [Program.exprReferences, List.mem_append, or_imp, forall_and] at henclosed
  exact ⟨⟨hcheck.1, htyped.1, henclosed.1⟩, ⟨hcheck.2, htyped.2.1, henclosed.2⟩⟩

theorem strict {op : BinOp} {o : Lir.BinOp} (hop : op.shape = .strict o) {lhs rhs : Expr}
    (ihl : ExprFollows m limit site record rest context c handler lhs)
    (ihr : ExprFollows m limit site record rest context c handler rhs)
    {σ σ₁ σ₂ : Regs} {c₁ c₂ : List Inst} {l r : ValueId}
    (hl : ExprCode site.scope site.vantage lhs σ c₁ (some l) σ₁)
    (hr : ExprCode site.scope site.vantage rhs σ₁ c₂ (some r) σ₂)
    (hok : ExprOk n.program site.decl (.binary op lhs rhs)) {W : Placement} {memory : Memory}
    {store : Store} {a : Activation} {cont : Cont}
    (hready : site.Ready record rest context σ (σ₂.value .i64) W memory a store) :
    Follows m n.Causes 1 limit
      ⟨a.resume (cont.before (c₁ ++ (c₂ ++ [.binary σ₂.next o l r]))), c, store⟩
      (n.program.evalExpr handler ((site.decl, record) :: rest) (.binary op lhs rhs)) memory
      (Leaves n σ W memory a c cont fun W' a' res => ∀ ty,
        n.program.HasType (.binary op lhs rhs) ty → ResultIn n W' a' (σ₂.value .i64) ty res
          (some σ₂.next)) := by
  obtain ⟨hokl, hokr⟩ := operands hok
  have hle₂ := σ₂.le_value .i64
  rw [Program.evalExpr, Cont.before_append, Cont.before_append]
  refine (ihl hl hokl (hready.shorten (hr.le.trans hle₂))).andThen ?_
  rintro res memory₁ s ⟨W₁, a₁, store₁, rfl, ho₁, hres⟩
  obtain ⟨x, rfl, hx, hlt⟩ := int_of_scalarTyped hok.typed.2.2.1 hres
  refine .bind_ok rfl ?_
  rw [(binary_of_shape hop x 0).1]
  have hready₁ := hready.onward ho₁ hl.le
  refine (ihr hr hokr (hready₁.shorten hle₂)).andThen ?_
  rintro res memory₂ s ⟨W₂, a₂, store₂, rfl, ho₂, hres⟩
  obtain ⟨y, rfl, hy, -⟩ := int_of_scalarTyped hok.typed.2.2.2 hres
  refine .bind_ok rfl ?_
  have hx' : a₂.value l = .ok (.int x) := by rw [ho₂.keeps.value l hlt, hx]
  rcases (binary_of_shape hop x y).2 with ⟨z, hz, hbinary⟩ | ⟨hz, hbinary⟩
  · rw [hz]
    refine .bind_ok rfl ?_
    refine ((define ho₂.depicts ho₂.live (hready₁.fits.keep ho₂.keeps) (.binary hx' hy hbinary)
      ?_).onward ho₂ hr.le).onward ho₁ hl.le
    intro ty hty
    exact .int (Program.isScalar_of_binary hty)
  · rw [hz]
    refine .bind_fails rfl .divisionByZero (by simp) (State.fails_of_effect ?_)
    refine bind_eq_error.2 (.inr ⟨_, Activation.int_eq_ok.2 hx', bind_eq_error.2 (.inr
      ⟨_, Activation.int_eq_ok.2 hy, bind_eq_error.2 (.inl hbinary)⟩)⟩)

/-- A branch of an operator that decides early ends with its value in the local of the operator. -/
theorem decided {op : BinOp} {lhs rhs : Expr} {σ σ' : Regs} {W W' : Placement} {memory memory' : Memory}
    {store' : Store} {a a' : Activation} {cont : Cont} {r : ValueId} {x : Int64} {lty : Ty}
    (ho : Onward n σ W memory a W' memory' a' store') (hr : a'.value r = .ok (.int x))
    (hle : (σ.addLocal .i64).Le σ') (hfits : a'.Fits (σ'.value lty)) :
    Follows m n.Causes 1 limit ⟨a'.resume (((cont.before [.localGet σ'.next σ.nextLocal]).inside
        .straight).before [.localSet σ.nextLocal r]), c, store'⟩
      (pure (some (.int x))) memory'
      (Leaves n σ W memory a c cont fun W' a' res => ∀ ty,
        n.program.HasType (.binary op lhs rhs) ty → ResultIn n W' a' (σ'.value lty) ty res
          (some σ'.next)) := by
  have hlt : σ.nextLocal.index < a'.locals.size := by
    have hlocals := hle.locals
    have hroom := hfits.locals
    simp only [Regs.addLocal_locals, Array.size_push, Regs.value_locals] at hlocals hroom
    simp only [Regs.nextLocal]
    omega
  have hkeeps : a.Keeps σ (a'.assign σ.nextLocal (.int x)) := ho.keeps.assign (Nat.le_refl _) _
  refine .first (State.leads_of_assign (.localSet hr hlt)) (Nat.le_refl 1) ?_
  refine .after State.leads_straight ?_
  have hget : (a'.assign σ.nextLocal (.int x)).local σ.nextLocal = .ok (.int x) :=
    Activation.local_assign_self hlt
  refine .after (State.leads_of_define (.localGet hget)) (.of_ok rfl ?_)
  refine ⟨W', _, store', rfl, ⟨ho.grown, ho.kept, ho.depicts, ho.live,
    hkeeps.define (((Regs.Le.refl σ).addLocal .i64).trans hle) _⟩, fun ty hty => ?_⟩
  have hfits' : (a'.assign σ.nextLocal (.int x)).Fits (σ'.value lty) :=
    ⟨hfits.values, by simpa [Activation.assign] using hfits.locals⟩
  exact .value (.int (Program.isScalar_of_binary hty)) (hfits'.value_define _) (by simp [Regs.next])

theorem conjunction {op : BinOp} (hop : op.shape = .conjunction) {lhs rhs : Expr}
    (ihl : ExprFollows m limit site record rest context c handler lhs)
    (ihr : ExprFollows m limit site record rest context c handler rhs)
    {σ σ₁ σ₂ : Regs} {c₁ c₂ : List Inst} {l r : ValueId} {lty : Ty}
    (hl : ExprCode site.scope site.vantage lhs (σ.addLocal .i64) c₁ (some l) σ₁)
    (hr : ExprCode site.scope site.vantage rhs σ₁ c₂ (some r) σ₂)
    (hok : ExprOk n.program site.decl (.binary op lhs rhs)) {W : Placement} {memory : Memory}
    {store : Store} {a : Activation} {cont : Cont}
    (hready : site.Ready record rest context σ ((σ₂.value .i64).value lty) W memory a store) :
    Follows m n.Causes 1 limit
      ⟨a.resume (cont.before (c₁ ++ [.branch l (c₂ ++ [.localSet σ.nextLocal r])
            [.const σ₂.next 0, .localSet σ.nextLocal σ₂.next],
          .localGet (σ₂.value .i64).next σ.nextLocal])), c, store⟩
      (n.program.evalExpr handler ((site.decl, record) :: rest) (.binary op lhs rhs)) memory
      (Leaves n σ W memory a c cont fun W' a' res => ∀ ty,
        n.program.HasType (.binary op lhs rhs) ty →
          ResultIn n W' a' ((σ₂.value .i64).value lty) ty res (some (σ₂.value .i64).next)) := by
  obtain ⟨hokl, hokr⟩ := operands hok
  have hσ : σ.Le (σ.addLocal .i64) := (Regs.Le.refl σ).addLocal .i64
  have hle₂ : σ₂.Le ((σ₂.value .i64).value lty) := (σ₂.le_value _).trans (Regs.le_value _ _)
  have hready₀ := hready.onward hready.refl hσ
  rw [Program.evalExpr, Cont.before_append]
  refine (ihl hl hokl (hready₀.shorten (hr.le.trans hle₂))).andThen ?_
  rintro res memory₁ s ⟨W₁, a₁, store₁, rfl, ho₁, hres⟩
  obtain ⟨x, rfl, hx, -⟩ := int_of_scalarTyped hok.typed.2.2.1 hres
  refine .bind_ok rfl ?_
  rw [Cont.before_cons]
  refine .first (State.leads_branch hx) (Nat.le_refl 1) (.mono ?_ (Nat.zero_le 1) (Nat.le_refl _))
  have hready₁ := hready₀.onward ho₁ hl.le
  by_cases hzero : x = 0
  · have hdecided : op.decided x = some 0 := by
      subst hzero
      cases op <;> cases hop
      rfl
    rw [if_pos hzero, hdecided, Cont.before_cons]
    refine .after (State.leads_of_define .const) ?_
    exact decided ((ho₁.of_le hσ).define ((hσ.trans hl.le).trans hr.le) _)
      ((hready₁.fits.of_le (Regs.le_value _ _)).value_define _)
      ((hl.le.trans hr.le).value _) (hready.fits.keep (ho₁.define (hl.le.trans hr.le) _).keeps)
  · have hdecided : op.decided x = none ∧ ∀ y, op.value x y = .ok y := by
      cases op <;> cases hop
      exact ⟨if_neg hzero, fun _ => rfl⟩
    rw [if_neg hzero, hdecided.1, Cont.before_append]
    refine (ihr hr hokr (hready₁.shorten hle₂)).andThen ?_
    rintro res memory₂ s ⟨W₂, a₂, store₂, rfl, ho₂, hres⟩
    obtain ⟨y, rfl, hy, -⟩ := int_of_scalarTyped hok.typed.2.2.2 hres
    refine .bind_ok rfl ?_
    rw [hdecided.2]
    exact decided ((ho₁.trans ho₂ hl.le).of_le hσ) hy ((hl.le.trans hr.le).value _)
      (hready₁.fits.keep ho₂.keeps)

theorem disjunction {op : BinOp} (hop : op.shape = .disjunction) {lhs rhs : Expr}
    (ihl : ExprFollows m limit site record rest context c handler lhs)
    (ihr : ExprFollows m limit site record rest context c handler rhs)
    {σ σ₁ σ₂ : Regs} {c₁ c₂ : List Inst} {l r : ValueId} {lty : Ty}
    (hl : ExprCode site.scope site.vantage lhs (σ.addLocal .i64) c₁ (some l) σ₁)
    (hr : ExprCode site.scope site.vantage rhs (σ₁.value .i64) c₂ (some r) σ₂)
    (hok : ExprOk n.program site.decl (.binary op lhs rhs)) {W : Placement} {memory : Memory}
    {store : Store} {a : Activation} {cont : Cont}
    (hready : site.Ready record rest context σ (σ₂.value lty) W memory a store) :
    Follows m n.Causes 1 limit
      ⟨a.resume (cont.before (c₁ ++ [.branch l [.const σ₁.next 1, .localSet σ.nextLocal σ₁.next]
            (c₂ ++ [.localSet σ.nextLocal r]),
          .localGet σ₂.next σ.nextLocal])), c, store⟩
      (n.program.evalExpr handler ((site.decl, record) :: rest) (.binary op lhs rhs)) memory
      (Leaves n σ W memory a c cont fun W' a' res => ∀ ty,
        n.program.HasType (.binary op lhs rhs) ty →
          ResultIn n W' a' (σ₂.value lty) ty res (some σ₂.next)) := by
  obtain ⟨hokl, hokr⟩ := operands hok
  have hσ : σ.Le (σ.addLocal .i64) := (Regs.Le.refl σ).addLocal .i64
  have hle₁ : σ₁.Le σ₂ := (σ₁.le_value _).trans hr.le
  have hle₂ : σ₂.Le (σ₂.value lty) := σ₂.le_value lty
  have hready₀ := hready.onward hready.refl hσ
  rw [Program.evalExpr, Cont.before_append]
  refine (ihl hl hokl (hready₀.shorten (hle₁.trans hle₂))).andThen ?_
  rintro res memory₁ s ⟨W₁, a₁, store₁, rfl, ho₁, hres⟩
  obtain ⟨x, rfl, hx, -⟩ := int_of_scalarTyped hok.typed.2.2.1 hres
  refine .bind_ok rfl ?_
  rw [Cont.before_cons]
  refine .first (State.leads_branch hx) (Nat.le_refl 1) (.mono ?_ (Nat.zero_le 1) (Nat.le_refl _))
  have hready₁ := hready₀.onward ho₁ (hl.le.trans (σ₁.le_value .i64))
  by_cases hzero : x = 0
  · have hdecided : op.decided x = none ∧ ∀ y, op.value x y = .ok y := by
      cases op <;> cases hop
      exact ⟨if_pos hzero, fun _ => rfl⟩
    rw [if_pos hzero, hdecided.1, Cont.before_append]
    refine (ihr hr hokr (hready₁.shorten hle₂)).andThen ?_
    rintro res memory₂ s ⟨W₂, a₂, store₂, rfl, ho₂, hres⟩
    obtain ⟨y, rfl, hy, -⟩ := int_of_scalarTyped hok.typed.2.2.2 hres
    refine .bind_ok rfl ?_
    rw [hdecided.2]
    exact decided ((ho₁.trans ho₂ (hl.le.trans (σ₁.le_value .i64))).of_le hσ) hy (hl.le.trans hle₁)
      (hready₁.fits.keep ho₂.keeps)
  · have hdecided : op.decided x = some 1 := by
      cases op <;> cases hop
      exact if_neg hzero
    rw [if_neg hzero, hdecided, Cont.before_cons]
    refine .after (State.leads_of_define .const) ?_
    exact decided ((ho₁.of_le hσ).define (hσ.trans hl.le) _)
      ((hready₁.fits.of_le (hr.le.trans hle₂)).value_define _) (hl.le.trans hle₁)
      (hready.fits.keep (ho₁.define hl.le _).keeps)

theorem binary {op : BinOp} {lhs rhs : Expr}
    (ihl : ExprFollows m limit site record rest context c handler lhs)
    (ihr : ExprFollows m limit site record rest context c handler rhs) :
    ExprFollows m limit site record rest context c handler (.binary op lhs rhs) := by
  intro σ σ' code r W memory store a cont h hok hready
  cases h with
  | strict hop hl hr => exact of_one (strict hop ihl ihr hl hr hok hready)
  | conjunction hop hl hr _ => exact of_one (conjunction hop ihl ihr hl hr hok hready)
  | disjunction hop hl hr _ => exact of_one (disjunction hop ihl ihr hl hr hok hready)

/-! ### Instances and function values -/

theorem this (hn : n.Built policy) (aggregate : DeclId) :
    ExprFollows m limit site record rest context c handler (.this aggregate) := by
  intro σ σ' code r W memory store a cont h hok hready
  cases h with | this hchain hcode =>
  rw [site.within.nesting_eq] at hchain
  rw [Program.evalExpr]
  obtain ⟨a', o, hleads, ho, hr, hlt, haround⟩ := hready.leads_chain hn hchain hcode
  refine .first hleads (Nat.min_le_right _ _) (.of_ok rfl ⟨W, a', store, rfl, ho, ?_⟩)
  rintro _ ⟨⟩
  exact .value (.instance (Flaw.excludedBy_eq_ok.1 hok.check) haround) hr hlt

theorem functionRef (hn : n.Built policy) (function : DeclId) :
    ExprFollows m limit site record rest context c handler (.functionRef function) := by
  intro σ σ' code r W memory store a cont h hok hready
  cases h with | @functionRef _ argument target _ σ₁ code r hcontext hcode htarget =>
  rw [site.within.nesting_eq] at hcontext
  rw [site.within.function_eq] at htarget
  rw [Program.evalExpr, Cont.before_append]
  obtain ⟨⟨decl, hf⟩, -⟩ := Nesting.callContext_eq_ok hcontext
  obtain ⟨a₁, passed, hleads, hkeeps, hr, haround⟩ := hready.holds.leads_closureContext hn hready.depicts
    hready.live hcontext hcode (hready.fits.of_le (σ₁.le_value _))
    (fun parent => parent_mem_of_enclosed hok.enclosed)
  have ho := hready.keeps hkeeps
  refine of_one (.after hleads ?_)
  refine (define ho.depicts ho.live (hready.fits.keep hkeeps) (.makeClosure hr) ?_).onward ho hcode.le
  intro ty hty
  cases (hn.checked.functionValueType_eq hf).symm.trans hty
  exact .closure htarget hf haround

theorem fieldGet (hn : n.Built policy) {base : Expr} (field : VarId)
    (ih : ExprFollows m limit site record rest context c handler base) :
    ExprFollows m limit site record rest context c handler (.fieldGet base field) := by
  intro σ σ' code r W memory store a cont h hok hready
  cases h with | @fieldGet _ _ _ σ₁ code r struct slot lty hbase hslot =>
  obtain ⟨var, l, hv, hl, rfl, hx, -⟩ := Scope.fieldSlot_eq_ok hslot
  rw [site.within.nesting_eq] at hv hl
  obtain ⟨hbasetyped, var', hv', hty⟩ := hok.typed
  rw [hv] at hv'
  cases hv'
  have hok' : ExprOk n.program site.decl base :=
    ⟨(then_eq_ok.1 hok.check).1, hbasetyped, hok.enclosed⟩
  rw [Program.evalExpr, Cont.before_append]
  refine of_one ((ih hbase hok' (hready.shorten ((σ₁.le_value _).trans (Regs.le_value _ _)))).andThen ?_)
  rintro res memory' s ⟨W', a', store', rfl, ho, hres⟩
  cases hres _ hty with | value hrep hr =>
  obtain ⟨env, o, rfl, rfl, haround⟩ := hrep.exists_instance
  obtain ⟨r', rest', o', link, rfl, heq, hW, -⟩ := haround.exists_carrier (hn.isCarrier_of_layout hl)
  cases heq
  refine .bind_ok rfl (.bind_ok rfl ?_)
  refine ((follows_load hn ho.depicts ho.live hW hl hx hr (hready.fits.keep ho.keeps)).onward ho
    hbase.le).imp ?_
  rintro res memory'' s ⟨W'', a'', store'', rfl, ho', hres⟩
  refine ⟨W'', a'', store'', rfl, ho', fun ty hty => ?_⟩
  rw [← Program.varType_eq_of_ok hty]
  exact hres

/-! ### Calls -/

/-- Arguments are evaluated from left to right, and their values stay. -/
theorem args {args : List Expr} (ih : ∀ arg ∈ args, ExprFollows m limit site record rest context c handler arg)
    {σ σ' : Regs} {code : List Inst} {rs : List ValueId} {W : Placement} {memory : Memory} {store : Store}
    {a : Activation} {cont : Cont} (h : ExprsCode site.scope site.vantage args σ code rs σ')
    (hok : ExprsOk n.program site.decl args)
    (hready : site.Ready record rest context σ σ' W memory a store) {tys : List ValueType}
    (htys : List.Forall₂ n.program.HasType args tys) :
    Follows m n.Causes 0 limit ⟨a.resume (cont.before code), c, store⟩
      (n.program.evalExprs handler ((site.decl, record) :: rest) args) memory
      (Leaves n σ W memory a c cont fun W' a' ds => ResultsIn n W' a' σ' tys ds rs) := by
  induction args generalizing σ code rs W memory store a tys with
  | nil =>
    cases h
    cases htys
    rw [Program.evalExprs]
    exact .of_ok rfl ⟨W, a, store, rfl, hready.refl, [], .nil, .nil⟩
  | cons arg args ihs =>
    cases h with | @cons _ _ _ σ₁ _ c₁ c₂ r rs hc hcs =>
    obtain ⟨⟩ | ⟨hty, htys⟩ := htys
    obtain ⟨hok₁, hoks⟩ := hok.cons
    rw [Program.evalExprs, Cont.before_append]
    refine ((ih arg (by simp)) hc hok₁ (hready.shorten hcs.le)).andThen ?_
    rintro res memory₁ s ⟨W₁, a₁, store₁, rfl, ho₁, hres⟩
    cases hres _ hty with | @value d v _ hrep hv hlt =>
    refine .bind_ok rfl ?_
    refine (ihs (fun arg harg => ih arg (by simp [harg])) hcs hoks (hready.onward ho₁ hc.le) htys).andThen ?_
    rintro ds memory₂ s ⟨W₂, a₂, store₂, rfl, ho₂, vs, hreps, hvs⟩
    refine .of_ok rfl ⟨W₂, a₂, store₂, rfl, ho₁.trans ho₂ hc.le, v :: vs,
      .cons (hrep.extend ho₂.grown) hreps, .cons ⟨?_, Nat.lt_of_lt_of_le hlt hcs.le.values⟩ hvs⟩
    rw [ho₂.keeps.value r hlt, hv]

theorem call (hn : n.Built policy) (hcall : Handled n m limit c handler) (function : DeclId) {args : List Expr}
    (ih : ∀ arg ∈ args, ExprFollows m limit site record rest context c handler arg) :
    ExprFollows m limit site record rest context c handler (.call function args) := by
  intro σ σ' code r W memory store a cont h hok hready
  cases h with
  | @call _ _ argument target decl _ σ₁ σ₂ c₁ c₂ hidden rs hcontext hcode hargs htarget hf =>
  rw [site.within.nesting_eq] at hcontext hf
  rw [site.within.function_eq] at htarget
  obtain ⟨htyped, decl', hf', htys⟩ := hok.typed
  rw [hf] at hf'
  cases hf'
  have henclosed := hok.enclosed
  simp only [Program.exprReferences, List.mem_append, or_imp, forall_and] at henclosed
  have hoks : ExprsOk n.program site.decl args := ⟨(then_eq_ok.1 hok.check).2, htyped, henclosed.2⟩
  have hle₂ := σ₂.le_result decl.returnType.storage?
  rw [Program.evalExpr, Cont.before_append, Cont.before_append]
  -- The context first, then the arguments.
  obtain ⟨a₁, passed, hleads, hkeeps, hhidden, haround⟩ := hready.holds.leads_callContext hn
    hready.depicts hready.live hcontext hcode hready.le (hready.fits.of_le (hargs.le.trans hle₂))
    (fun parent => parent_mem_of_enclosed henclosed.1)
  have ho₁ := hready.keeps hkeeps
  have hready₁ := hready.onward ho₁ hcode.le
  refine of_one (.after hleads ?_)
  refine (ExprFollows.args ih hargs hoks (hready₁.shorten hle₂) (Program.hasType_of_typedAs htys)).andThen ?_
  rintro ds memory₂ s ⟨W₂, a₂, store₂, rfl, ho₂, vs, hreps, hvs⟩
  have hhidden' : List.Forall₂ (fun r v => a₂.value r = .ok v) hidden.toList
      (n.hiddenArgs function passed) :=
    hhidden.imp fun r v h => by rw [ho₂.keeps.value r h.2, h.1]
  exact hcall.follows (ho₁.trans ho₂ hcode.le) (hcode.le.trans hargs.le) rfl
    (hready₁.fits.keep ho₂.keeps) (.call (List.rel_append hhidden' (hvs.imp fun _ _ h => h.1))) htarget hf
    (haround.extend ho₂.grown) hreps fun ty hty => (Program.hasType_call hf args).unique hty

theorem methodCall (hcall : Handled n m limit c handler) {receiver : Expr} (method : DeclId)
    {args : List Expr} (ihr : ExprFollows m limit site record rest context c handler receiver)
    (ih : ∀ arg ∈ args, ExprFollows m limit site record rest context c handler arg) :
    ExprFollows m limit site record rest context c handler (.methodCall receiver method args) := by
  intro σ σ' code r W memory store a cont h hok hready
  cases h with
  | @methodCall _ _ _ target decl _ σ₁ σ₂ c₁ c₂ r rs hreceiver hargs htarget hf =>
  rw [site.within.nesting_eq] at hf
  rw [site.within.function_eq] at htarget
  obtain ⟨htypedr, htyped, decl', parent, hf', hpar, hty, htys⟩ := hok.typed
  rw [hf] at hf'
  cases hf'
  have henclosed := hok.enclosed
  have hcheck := hok.check
  simp only [Program.exprReferences, List.mem_append, or_imp, forall_and] at henclosed
  simp only [Program.checkExpr, then_eq_ok] at hcheck
  have hokr : ExprOk n.program site.decl receiver := ⟨hcheck.1, htypedr, henclosed.1⟩
  have hoks : ExprsOk n.program site.decl args := ⟨hcheck.2.2, htyped, henclosed.2⟩
  have hle₂ := σ₂.le_result decl.returnType.storage?
  rw [Program.evalExpr, Cont.before_append, Cont.before_append]
  refine of_one ((ihr hreceiver hokr (hready.shorten (hargs.le.trans hle₂))).andThen ?_)
  rintro res memory₁ s ⟨W₁, a₁, store₁, rfl, ho₁, hres⟩
  cases hres _ hty with | value hrep hr hlt =>
  obtain ⟨env, o, rfl, rfl, haround⟩ := hrep.exists_instance
  refine .bind_ok rfl ?_
  have hready₁ := hready.onward ho₁ hreceiver.le
  refine (ExprFollows.args ih hargs hoks (hready₁.shorten hle₂) (Program.hasType_of_typedAs htys)).andThen ?_
  rintro ds memory₂ s ⟨W₂, a₂, store₂, rfl, ho₂, vs, hreps, hvs⟩
  -- The receiver is the context of the method.
  have hinst : (a₂.resume cont).Does m store₂
      (.call (σ₂.dest decl.returnType.storage?) target (r :: rs))
      (.call (σ₂.dest decl.returnType.storage?) target (n.hiddenArgs method (some o) ++ vs)) := by
    simp only [Nesting.hiddenArgs, hpar, Option.isSome_some, if_true]
    refine .call (.cons ?_ (hvs.imp fun _ _ h => h.1))
    exact (ho₂.keeps.value r hlt).trans hr
  rw [← hpar] at haround
  exact hcall.follows (ho₁.trans ho₂ hreceiver.le) (hreceiver.le.trans hargs.le) rfl
    (hready₁.fits.keep ho₂.keeps) hinst htarget hf (haround.extend ho₂.grown) hreps
    fun ty hty => (Program.hasType_methodCall hf receiver args).unique hty

theorem callValue (hm : n.Lowers policy m) (hcall : Handled n m limit c handler) {callee : Expr}
    {args : List Expr} (ihc : ExprFollows m limit site record rest context c handler callee)
    (ih : ∀ arg ∈ args, ExprFollows m limit site record rest context c handler arg) :
    ExprFollows m limit site record rest context c handler (.callValue callee args) := by
  intro σ σ' code r W memory store a cont h hok hready
  cases h with
  | @callValue _ _ ty signature _ σ₁ σ₂ c₁ c₂ r rs hty hsignature hcallee hargs =>
  rw [site.within.nesting_eq] at hty
  obtain ⟨htypedc, htyped, params, ret, hty', htys⟩ := hok.typed
  obtain rfl : .function params ret = ty := hty'.unique hty
  have hret : signature.ret = ret.storage? := by
    obtain ⟨_, -, h⟩ := bind_eq_ok.1 hsignature
    cases h
    rfl
  have henclosed := hok.enclosed
  simp only [Program.exprReferences, List.mem_append, or_imp, forall_and] at henclosed
  obtain ⟨hcheckc, hcheck⟩ := then_eq_ok.1 hok.check
  have hokc : ExprOk n.program site.decl callee := ⟨hcheckc, htypedc, henclosed.1⟩
  have hoks : ExprsOk n.program site.decl args := ⟨hcheck, htyped, henclosed.2⟩
  have hle₂ := σ₂.le_result signature.ret
  rw [Program.evalExpr, Cont.before_append, Cont.before_append]
  refine of_one ((ihc hcallee hokc (hready.shorten (hargs.le.trans hle₂))).andThen ?_)
  rintro res memory₁ s ⟨W₁, a₁, store₁, rfl, ho₁, hres⟩
  cases hres _ hty with | value hrep hr hlt =>
  obtain ⟨id, function, target, env, passed, rfl, rfl, htarget, hf, haround, rfl, rfl⟩ :=
    hrep.exists_closure
  have hready₁ := hready.onward ho₁ hcallee.le
  refine (ExprFollows.args ih hargs hoks (hready₁.shorten hle₂) htys).andThen ?_
  rintro ds memory₂ s ⟨W₂, a₂, store₂, rfl, ho₂, vs, hreps, hvs⟩
  -- A closure holds its context, which is passed if the function takes one.
  obtain ⟨f, hfun, hlowered⟩ := hm.function?_of_scope htarget
  have hhidden : (if (m.function? target).any Lir.Function.hasContext then [Value.ofContext passed] else []) =
      n.hiddenArgs id passed := by
    simp [Nesting.hiddenArgs, hfun, (hlowered.hasContext n.scope_nesting).2]
  have hinst : (a₂.resume cont).Does m store₂ (.callClosure (σ₂.dest signature.ret) r rs signature)
      (.call (σ₂.dest signature.ret) target (n.hiddenArgs id passed ++ vs)) := by
    rw [← hhidden]
    exact .callClosure ((ho₂.keeps.value r hlt).trans hr) (hvs.imp fun _ _ h => h.1)
  refine hcall.follows (ho₁.trans ho₂ hcallee.le) (hcallee.le.trans hargs.le) hret
    (hready₁.fits.keep ho₂.keeps) hinst htarget hf (haround.extend ho₂.grown) hreps ?_
  exact fun ty hty' => (Program.hasType_callValue hty args).unique hty'

theorem new (hm : n.Lowers policy m) (aggregate : DeclId) {args : List Expr}
    (ih : ∀ arg ∈ args, ExprFollows m limit site record rest context c handler arg) :
    ExprFollows m limit site record rest context c handler (.new aggregate args) := by
  intro σ σ' code r W memory store a cont h hok hready
  cases h with
  | @new _ _ argument _ σ₁ σ₂ _ c₁ c₂ c₃ rs outer r hargs hcontext hcode hinstance =>
  rw [site.within.nesting_eq] at hcontext hinstance
  obtain ⟨htyped, decl, ha, htys⟩ := hok.typed
  have henclosed := hok.enclosed
  simp only [Program.exprReferences, List.mem_append, or_imp, forall_and] at henclosed
  have hoks : ExprsOk n.program site.decl args := ⟨(then_eq_ok.1 hok.check).2, htyped, henclosed.2⟩
  rw [Program.evalExpr, Cont.before_append, Cont.before_append]
  refine of_one (.andThen (ExprFollows.args ih hargs hoks (hready.shorten (hcode.le.trans hinstance.le))
    (Program.hasType_of_typedAs htys)) ?_)
  rintro ds memory₁ s ⟨W₁, a₁, store₁, rfl, ho₁, vs, hreps, hvs⟩
  have hready₁ := hready.onward ho₁ hargs.le
  obtain ⟨a₂, passed, hleads, hkeeps, houter, haround⟩ := hready₁.holds.leads_constructionContext hm.built
    hready₁.depicts hready₁.live hcontext hcode hready₁.le (hready₁.fits.of_le hinstance.le)
    (fun parent => parent_mem_of_enclosed henclosed.1)
  have hvs' : List.Forall₂ (fun r v => a₂.value r = .ok v ∧ r.index < σ₂.values.size) rs vs := by
    refine hvs.imp ?_
    rintro r v ⟨hv, hlt⟩
    exact ⟨by rw [hkeeps.value r hlt, hv], Nat.lt_of_lt_of_le hlt hcode.le.values⟩
  obtain ⟨a₃, store₃, hmake, hkeeps', hr, hlive, hd⟩ := hinstance.leads hm hready₁.depicts hready₁.live ha
    (hready₁.fits.keep hkeeps) houter hreps hvs'
  have hpos : 1 ≤ c₃.length := by
    cases hinstance
    simp
  refine .after hleads ?_
  rw [ha]
  refine .bind_ok rfl (.first hmake hpos (.of_ok rfl ?_))
  have hgrown := hready₁.depicts.extends_update ⟨aggregate, store₁.next, passed⟩
  have hinstances : n.program.isAggregate aggregate = true := Program.isAggregate_iff.2 ⟨decl, ha⟩
  refine ⟨_, a₃, store₃, rfl, ⟨ho₁.grown.trans hgrown, ho₁.kept.trans (.add _), hd, hlive,
    ho₁.keeps.trans (hkeeps.trans hkeeps' hcode.le) hargs.le⟩, ?_⟩
  rintro _ ⟨⟩
  exact .value (.instance hinstances (.carrier (by simp [Captures.isCarrier, hinstances])
    (haround.extend hgrown) (Function.update_self ..))) hr hinstance.lt

end ExprFollows

/-- The machine follows the evaluation of every expression of a body. -/
theorem exprFollows {n : Nesting} {policy : FramePolicy} {m : Lir.Module} (hm : n.Lowers policy m)
    {limit : Nat} {c : CallStack} {handler : Handler} (hcall : Handled n m limit c handler) (site : Site n)
    (record : Nat) (rest : Env) (context : Option ObjectId) (expr : Expr) :
    ExprFollows m limit site record rest context c handler expr := by
  have hn := hm.built
  induction expr using Expr.ind with
  | int x => exact ExprFollows.int x
  | bool x => exact ExprFollows.bool x
  | var x => exact ExprFollows.var hn x
  | binary op lhs rhs ihl ihr => exact ExprFollows.binary ihl ihr
  | unary op operand ih => exact ExprFollows.unary op ih
  | call function args ih => exact ExprFollows.call hn hcall function ih
  | methodCall receiver method args ihr ih => exact ExprFollows.methodCall hcall method ihr ih
  | new aggregate args ih => exact ExprFollows.new hm aggregate ih
  | fieldGet base field ih => exact ExprFollows.fieldGet hn field ih
  | this aggregate => exact ExprFollows.this hn aggregate
  | functionRef function => exact ExprFollows.functionRef hn function
  | callValue callee args ihc ih => exact ExprFollows.callValue hm hcall ihc ih

end StaticChain
