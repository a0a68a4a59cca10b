import StaticChain.Proofs.Expressions

/-!
# The code of statements follows their execution

Statements write variables, so what a body knows changes with them: the site holds again afterwards
(`Site.Moved`), but locals need not be what they were. Control comes to the end of the statement's code or to
an instruction that returns (`Site.Arrives`), and a loop makes a step or more in every round, so one that has
more rounds than the limit makes more steps than the limit too (`StmtFollows.rounds`).
-/

namespace StaticChain

open Lir (ValueId LocalId Inst Ty)
open Machine

/-- After statements of a body, its site holds again. -/
structure Site.Moved {n : Nesting} (site : Site n) (record : Nat) (rest : Env) (context : Option ObjectId)
    (W : Placement) (memory : Memory) (a : Activation) (W' : Placement) (memory' : Memory)
    (a' : Activation) (store' : Store) : Prop where
  grown : W.Extends W'
  kept : memory.Keeps n (some record) memory'
  depicts : Depicts n W' memory' store'
  live : store'.AllLive
  holds : site.Holds record rest context W' memory' a'
  keeps : a.Keeps ⟨#[], #[]⟩ a'

/-- What a function returns, with the value that stands for it. -/
inductive Returns (n : Nesting) (W : Placement) (a : Activation) (ty : ValueType) :
    Option Datum → Option ValueId → Prop
  | value {d : Datum} {v : Value} {r : ValueId} : Represents n W ty d v → a.value r = .ok v →
      Returns n W a ty (some d) (some r)
  | none : ty.isUnit = true → Returns n W a ty none none

/-- Where control comes to with a statement. -/
inductive Site.Arrives {n : Nesting} (site : Site n) (record : Nat) (rest : Env)
    (context : Option ObjectId) (W : Placement) (memory : Memory) (a : Activation) (c : CallStack)
    (cont : Cont) (ret : ValueType) : Flow → Memory → State → Prop
  | next {W' : Placement} {memory' : Memory} {a' : Activation} {store' : Store} :
      site.Moved record rest context W memory a W' memory' a' store' →
      Arrives site record rest context W memory a c cont ret .next memory' ⟨a'.resume cont, c, store'⟩
  | returned {W' : Placement} {memory' : Memory} {a' : Activation} {store' : Store} {cont' : Cont}
      {res : Option Datum} {r : Option ValueId} :
      site.Moved record rest context W memory a W' memory' a' store' → Returns n W' a' ret res r →
      Arrives site record rest context W memory a c cont ret (.returned res) memory'
        ⟨a'.resume (cont'.before [.ret r]), c, store'⟩

section

variable {n : Nesting} {policy : FramePolicy} {m : Lir.Module} {limit : Nat} {site : Site n} {record : Nat}
  {rest : Env} {context : Option ObjectId} {σ σ₁ σ' : Regs} {W W' W'' : Placement}
  {memory memory' memory'' : Memory} {a a' a'' : Activation} {store store' store'' : Store} {c : CallStack}
  {cont : Cont} {ret : ValueType} {code : List Inst}

theorem Regs.empty_le (σ : Regs) : Regs.Le ⟨#[], #[]⟩ σ :=
  ⟨List.nil_prefix, List.nil_prefix⟩

namespace Site

/-- Code that writes no variable of the body. -/
theorem Ready.moved (h : site.Ready record rest context σ σ' W memory a store)
    (ho : Onward n σ W memory a W' memory' a' store') :
    site.Moved record rest context W memory a W' memory' a' store' :=
  ⟨ho.grown, ho.kept.but_of_none, ho.depicts, ho.live, h.holds.onward ho h.le,
    ho.keeps.of_le (Regs.empty_le σ)⟩

namespace Moved

theorem trans (h : site.Moved record rest context W memory a W' memory' a' store')
    (h' : site.Moved record rest context W' memory' a' W'' memory'' a'' store'') :
    site.Moved record rest context W memory a W'' memory'' a'' store'' :=
  ⟨h.grown.trans h'.grown, h.kept.trans h'.kept, h'.depicts, h'.live, h'.holds,
    h.keeps.trans h'.keeps (.refl _)⟩

/-- The code that comes next can be executed. -/
theorem ready (h : site.Moved record rest context W memory a W' memory' a' store')
    (hready : site.Ready record rest context σ σ' W memory a store) (hle : σ.Le σ₁) :
    site.Ready record rest context σ₁ σ' W' memory' a' store' :=
  ⟨hready.le.trans hle, hready.fits.keep h.keeps, h.holds, h.depicts, h.live⟩

/-- What comes after a part of a body comes after the whole. -/
theorem arrives (h : site.Moved record rest context W memory a W' memory' a' store') {flow : Flow}
    {s : State} (h' : site.Arrives record rest context W' memory' a' c cont ret flow memory'' s) :
    site.Arrives record rest context W memory a c cont ret flow memory'' s := by
  cases h' with
  | next hmoved => exact .next (h.trans hmoved)
  | returned hmoved hret => exact .returned (h.trans hmoved) hret

end Moved

/-- The end of a block that is entered once. -/
theorem follows_straight {least : Nat} {s : State} {x : Eval Flow}
    (h : Follows m n.Causes least limit s x memory'
      (site.Arrives record rest context W memory a c (cont.inside .straight) ret)) :
    Follows m n.Causes least limit s x memory'
      (site.Arrives record rest context W memory a c cont ret) := by
  refine h.further ?_
  rintro _ memory'' _ (hmoved | ⟨hmoved, hret⟩)
  · exact ⟨0, _, State.leads_straight, .next hmoved⟩
  · exact ⟨0, _, .refl _, .returned hmoved hret⟩

end Site

/-! ## Writing -/

/-- Writing a slot of a carrier writes the cell of its record. -/
theorem leads_store (hn : n.Built policy) (hd : Depicts n W memory store) (hlive : store.AllLive)
    {r : Nat} {k : Carrier} (hr : W r = some k) {l : Layout} (hl : n.layouts.layout? k.decl = some l)
    {x : VarId} {i : Nat} (hx : l.slotOf? x = some i) {base value : ValueId}
    (hbase : a.value base = .ok (.object k.object)) {d : Datum} {v : Value} (hv : a.value value = .ok v)
    (hlt : value.index < σ.values.size) (hrep : Represents n W (n.program.varType x) d v) {ty : Ty}
    (hfits : a.Fits (σ.value .ptr)) :
    ∃ a' store', State.Leads m 2 ⟨a.resume (cont.before
        [.fieldAddr σ.next base l.struct i, .store σ.next value ty]), c, store⟩
        ⟨a'.resume cont, c, store'⟩ ∧ Onward n σ W memory a W (memory.set r x d) a' store' := by
  obtain ⟨object, hobj, hstruct, hholds⟩ := hd.exists_object hr hl
  have hobject := hlive k.object object hobj
  have hkeeps : a.Keeps σ (a.define σ.next (.slot k.object i)) :=
    (Activation.Keeps.refl σ a).define (.refl σ) _
  refine ⟨a.define σ.next (.slot k.object i), store.set k.object i v, ?_, W.extends_refl, ?_,
    hd.set hn hr hl hx hrep, ?_, hkeeps⟩
  · rw [Cont.before_cons]
    refine State.Leads.trans (State.leads_of_define (.fieldAddr hbase hobj hobject hstruct))
      (State.leads_of_moves (.store (hfits.value_define _) ?_ hobj hobject (hholds.slot x i hx).lt_size)
        .write)
    exact (hkeeps.value value hlt).trans hv
  · exact .set (fun hprivate => absurd hprivate (hn.not_isPrivate hl hx)) d
  · intro id object' hobj'
    rw [Store.get?_set] at hobj'
    split at hobj'
    · obtain ⟨old, hold, rfl⟩ := Option.map_eq_some_iff.1 hobj'
      exact hlive id old hold
    · exact hlive id object' hobj'

/-- Writing a local of the body writes the cell of its record. -/
theorem Site.Ready.moved_assign (hn : n.Built policy)
    (hready : site.Ready record rest context σ σ' W memory a store) {x : VarId} {l : LocalId}
    (hl : site.scope.locals.lookup x = some l) {d : Datum} {v : Value}
    (hrep : Represents n W (n.program.varType x) d v) :
    site.Moved record rest context W memory a W (memory.set record x d) (a.assign l v) store := by
  have hholds := hready.holds
  refine ⟨W.extends_refl, .set (fun _ => rfl) d, hready.depicts.setPrivate hn (site.isPrivate x l hl) record d,
    hready.live, ⟨hholds.made, hholds.around, hholds.name_eq, hholds.incoming, hholds.frame, ?_⟩,
    (Activation.Keeps.refl _ a).assign (Nat.zero_le _) v⟩
  intro y l' hy
  have hcell := hholds.local y l' hy
  by_cases heq : y = x
  · subst heq
    rw [hl] at hy
    cases hy
    have hlt := hcell.lt_size
    simpa [Activation.assign, hlt] using CellHolds.set hrep
  · have hne : l.index ≠ l'.index := by
      intro hidx
      refine heq (site.local_inj y x l ?_ hl)
      rw [hy]
      exact congrArg some (congrArg LocalId.mk hidx.symm)
    rw [memory.set_cells_of_ne d (.inr heq)]
    simpa [Activation.assign, hne] using hcell

variable (ret) in
/-- Code that writes a variable. -/
theorem WriteCode.follows (hn : n.Built policy) {x : VarId} {r : ValueId}
    (h : WriteCode site.scope site.vantage r x σ code σ')
    (hready : site.Ready record rest context σ σ' W memory a store) {d : Datum} {v : Value}
    (hr : a.value r = .ok v) (hlt : r.index < σ.values.size)
    (hrep : Represents n W (n.program.varType x) d v) :
    Follows m n.Causes 0 limit ⟨a.resume (cont.before code), c, store⟩
      (do
        Eval.write (← n.program.recordOf ((site.decl, record) :: rest) x) x d
        return Flow.next) memory
      (site.Arrives record rest context W memory a c cont ret) := by
  cases h with
  | «local» hres hl =>
    rw [site.within.nesting_eq] at hres
    obtain ⟨rfl, var, hv, howner, -⟩ := Nesting.resolve_eq_local hres
    have henv : Env.upTo ((site.decl, record) :: rest) var.owner = (var.owner, record) :: rest := by
      rw [howner]
      simp [Env.upTo, Site.decl]
    have hsize := (hready.holds.local _ _ hl).lt_size
    refine .bind_ok (Program.recordOf_eq_ok hv henv memory) ?_
    exact .after (State.leads_of_assign (.localSet hr hsize))
      (.of_ok rfl (.next (hready.moved_assign hn hl hrep)))
  | slot hres hchain =>
    rw [site.within.nesting_eq] at hres
    obtain ⟨var, l, hv, hc, hl, rfl, hslot, -⟩ := Nesting.resolve_eq_slot hres
    obtain ⟨a₁, o, hleads, ho, hcarrier, -, haround⟩ :=
      (hready.shorten (Regs.le_value _ _)).leads_chain hn hc hchain
    obtain ⟨r', rest', o', link, henv, heq, hW, -⟩ := haround.exists_carrier (hn.isCarrier_of_layout hl)
    cases heq
    obtain ⟨a₂, store₂, hstore, ho'⟩ := leads_store hn ho.depicts ho.live hW hl hslot hcarrier
      ((ho.keeps.value r hlt).trans hr) (Nat.lt_of_lt_of_le hlt hchain.le.values) hrep
      (hready.fits.keep ho.keeps)
    rw [Cont.before_append]
    refine .after hleads (.bind_ok (Program.recordOf_eq_ok hv henv memory) (.after hstore ?_))
    exact .of_ok rfl (.next (hready.moved (ho.trans ho' hchain.le)))

end

/-- The code of an operand or a condition is not empty: what can be had without code is a context. -/
theorem ExprCode.ne_nil_of_scalarTyped {n : Nesting} {site : Site n} {expr : Expr} {σ σ' : Regs}
    {code : List Inst} {r : Option ValueId} (h : ExprCode site.scope site.vantage expr σ code r σ')
    (ht : n.program.ScalarTyped expr) : code ≠ [] := by
  cases h with
  | var h => cases h <;> simp
  | new _ _ _ h => cases h; simp
  | this =>
    obtain ⟨ty, hty, hscalar⟩ := ht
    cases hty
    rcases hscalar with hscalar | hscalar <;> cases hscalar
  | _ => simp

/-! ## Statements -/

/-- What is known of a statement of a body. -/
structure StmtOk (p : Program) (useSite : DeclId) (ret : ValueType) (stmt : Stmt) : Prop where
  check : p.checkStmt useSite stmt = .ok ()
  typed : p.StmtTyped ret stmt
  enclosed : ∀ r ∈ p.stmtReferences stmt, r.Enclosed p useSite
  returns : stmt.ReturnsValue !ret.isUnit

/-- What is known of a block of a body. -/
structure BlockOk (p : Program) (useSite : DeclId) (ret : ValueType) (block : List Stmt) : Prop where
  check : p.checkBlock useSite block = .ok ()
  typed : p.BlockTyped ret block
  enclosed : ∀ r ∈ p.blockReferences block, r.Enclosed p useSite
  returns : Stmt.BlockReturnsValue (!ret.isUnit) block

theorem BlockOk.cons {p : Program} {useSite : DeclId} {ret : ValueType} {stmt : Stmt} {rest : List Stmt}
    (h : BlockOk p useSite ret (stmt :: rest)) : StmtOk p useSite ret stmt ∧ BlockOk p useSite ret rest := by
  obtain ⟨hcheck, htyped, henclosed, hreturns⟩ := h
  simp only [Program.checkBlock, then_eq_ok] at hcheck
  simp only [Program.blockReferences, List.mem_append, or_imp, forall_and] at henclosed
  exact ⟨⟨hcheck.1, htyped.1, henclosed.1, hreturns.1⟩, ⟨hcheck.2, htyped.2, henclosed.2, hreturns.2⟩⟩

section

variable {n : Nesting} (m : Lir.Module) (limit : Nat) (site : Site n) (record : Nat) (rest : Env)
  (context : Option ObjectId) (c : CallStack) (handler : Handler) (ret : ValueType)

/-- The machine that executes the code of the statement follows its execution. -/
def StmtFollows (stmt : Stmt) : Prop :=
  ∀ {σ σ' : Regs} {code : List Inst} {W : Placement} {memory : Memory} {store : Store} {a : Activation}
    {cont : Cont}, StmtCode site.scope site.vantage stmt σ code σ' → StmtOk n.program site.decl ret stmt →
    site.Ready record rest context σ σ' W memory a store →
    Follows m n.Causes 0 limit ⟨a.resume (cont.before code), c, store⟩
      (n.program.evalStmt handler ((site.decl, record) :: rest) limit stmt) memory
      (site.Arrives record rest context W memory a c cont ret)

/-- The machine that executes the code of the block follows its execution. -/
def BlockFollows (block : List Stmt) : Prop :=
  ∀ {σ σ' : Regs} {code : List Inst} {W : Placement} {memory : Memory} {store : Store} {a : Activation}
    {cont : Cont}, BlockCode site.scope site.vantage block σ code σ' →
    BlockOk n.program site.decl ret block → site.Ready record rest context σ σ' W memory a store →
    Follows m n.Causes 0 limit ⟨a.resume (cont.before code), c, store⟩
      (n.program.evalBlock handler ((site.decl, record) :: rest) limit block) memory
      (site.Arrives record rest context W memory a c cont ret)

end

section

variable {n : Nesting} {policy : FramePolicy} {m : Lir.Module} {limit : Nat} {site : Site n} {record : Nat}
  {rest : Env} {context : Option ObjectId} {c : CallStack} {handler : Handler} {ret : ValueType}

/-- Statements are executed until one returns. -/
theorem BlockFollows.of_stmts {block : List Stmt}
    (ih : ∀ stmt ∈ block, StmtFollows m limit site record rest context c handler ret stmt) :
    BlockFollows m limit site record rest context c handler ret block := by
  induction block with
  | nil =>
    intro σ σ' code W memory store a cont h hok hready
    cases h
    rw [Program.evalBlock]
    exact .of_ok rfl (.next (hready.moved hready.refl))
  | cons stmt block ihs =>
    intro σ σ' code W memory store a cont h hok hready
    cases h with | cons hstmt hblock =>
    obtain ⟨hok₁, hoks⟩ := hok.cons
    rw [Program.evalBlock, Cont.before_append]
    refine (ih stmt (by simp) hstmt hok₁ (hready.shorten hblock.le)).andThen ?_
    rintro flow memory₁ s (hmoved | ⟨hmoved, hret⟩)
    · have hblocks : BlockFollows m limit site record rest context c handler ret block :=
        ihs fun stmt hmem => ih stmt (by simp [hmem])
      refine (hblocks hblock hoks (hmoved.ready hready hstmt.le)).imp ?_
      exact fun flow memory' s harrives => hmoved.arrives harrives
    · exact .of_ok rfl (.returned hmoved hret)

namespace StmtFollows

variable (hm : n.Lowers policy m) (hcall : Handled n m limit c handler)
include hm hcall

/-- A value is computed and written into a variable. -/
theorem write {x : VarId} {value : Expr} {σ σ₁ σ' : Regs} {c₁ c₂ : List Inst} {r : ValueId} {W : Placement}
    {memory : Memory} {store : Store} {a : Activation} {cont : Cont}
    (hvalue : ExprCode site.scope site.vantage value σ c₁ (some r) σ₁)
    (hwrite : WriteCode site.scope site.vantage r x σ₁ c₂ σ') (hok : ExprOk n.program site.decl value)
    (hty : n.program.TypedAs value x) (hready : site.Ready record rest context σ σ' W memory a store) :
    Follows m n.Causes 0 limit ⟨a.resume (cont.before (c₁ ++ c₂)), c, store⟩
      (do
        let value ← Eval.valued (← n.program.evalExpr handler ((site.decl, record) :: rest) value)
        Eval.write (← n.program.recordOf ((site.decl, record) :: rest) x) x value
        return Flow.next) memory
      (site.Arrives record rest context W memory a c cont ret) := by
  obtain ⟨var, hv, hty⟩ := hty
  rw [Cont.before_append]
  refine (exprFollows hm hcall site record rest context value hvalue hok
    (hready.shorten hwrite.le)).andThen ?_
  rintro res memory₁ s ⟨W₁, a₁, store₁, rfl, ho, hres⟩
  cases hres _ hty with | value hrep hr hlt =>
  rw [← Program.varType_eq hv] at hrep
  refine .bind_ok rfl ?_
  refine (hwrite.follows ret hm.built (hready.onward ho hvalue.le) hr hlt hrep).imp ?_
  exact fun flow memory' s harrives => (hready.moved ho).arrives harrives

theorem letVar (x : VarId) (value : Expr) :
    StmtFollows m limit site record rest context c handler ret (.letVar x value) := by
  intro σ σ' code W memory store a cont h hok hready
  cases h with | letVar hvalue hwrite =>
  obtain ⟨hcheck, ⟨htyped, hty⟩, henclosed, -⟩ := hok
  simp only [Program.checkStmt, then_eq_ok] at hcheck
  simp only [Program.stmtReferences, List.mem_append, or_imp, forall_and] at henclosed
  rw [Program.evalStmt]
  exact write hm hcall hvalue hwrite ⟨hcheck.2, htyped, henclosed.1⟩ hty hready

theorem assignVar (x : VarId) (value : Expr) :
    StmtFollows m limit site record rest context c handler ret (.assign (.var x) value) := by
  intro σ σ' code W memory store a cont h hok hready
  cases h with | assignVar hvalue hwrite =>
  obtain ⟨hcheck, ⟨htyped, hty⟩, henclosed, -⟩ := hok
  simp only [Program.checkStmt, then_eq_ok] at hcheck
  simp only [Program.stmtReferences, List.mem_append, or_imp, forall_and] at henclosed
  rw [Program.evalStmt]
  exact write hm hcall hvalue hwrite ⟨hcheck.2, htyped, henclosed.2⟩ hty hready

theorem assignField (base : Expr) (field : VarId) (value : Expr) :
    StmtFollows m limit site record rest context c handler ret (.assign (.field base field) value) := by
  intro σ σ' code W memory store a cont h hok hready
  cases h with | @assignField _ _ _ _ σ₁ σ₂ c₁ c₂ base r struct slot lty hbase hvalue hslot =>
  obtain ⟨var, l, hv, hl, rfl, hx, -⟩ := Scope.fieldSlot_eq_ok hslot
  rw [site.within.nesting_eq] at hv hl
  obtain ⟨hcheck, ⟨htypedb, htypedv, ⟨var', hv', htyb⟩, var'', hv'', htyv⟩, henclosed, -⟩ := hok
  rw [hv] at hv' hv''
  cases hv'
  cases hv''
  simp only [Program.checkStmt, Program.checkPlace, then_eq_ok] at hcheck
  simp only [Program.stmtReferences, Program.placeReferences, List.mem_append, or_imp,
    forall_and] at henclosed
  rw [Program.evalStmt, Cont.before_append, Cont.before_append]
  -- The base, then the value; the instance is found in the base's value again.
  refine (exprFollows hm hcall site record rest context _ hbase ⟨hcheck.1.1, htypedb, henclosed.1⟩
    (hready.shorten (hvalue.le.trans (σ₂.le_value _)))).andThen ?_
  rintro res memory₁ s ⟨W₁, a₁, store₁, rfl, ho₁, hres⟩
  cases hres _ htyb with | value hrep hr hlt =>
  obtain ⟨env, o, rfl, rfl, haround⟩ := hrep.exists_instance
  obtain ⟨r', rest', o', link, rfl, heq, hW, -⟩ := haround.exists_carrier (hm.built.isCarrier_of_layout hl)
  cases heq
  refine .bind_ok rfl (.bind_ok rfl ?_)
  have hready₁ := hready.onward ho₁ hbase.le
  refine (exprFollows hm hcall site record rest context _ hvalue ⟨hcheck.2, htypedv, henclosed.2⟩
    (hready₁.shorten (σ₂.le_value _))).andThen ?_
  rintro res memory₂ s ⟨W₂, a₂, store₂, rfl, ho₂, hres⟩
  cases hres _ htyv with | value hrep' hr' hlt' =>
  rw [← Program.varType_eq hv] at hrep'
  obtain ⟨a₃, store₃, hstore, ho₃⟩ := leads_store hm.built ho₂.depicts ho₂.live (ho₂.grown _ _ hW) hl hx
    ((ho₂.keeps.value _ hlt).trans hr) hr' hlt' hrep' (hready₁.fits.keep ho₂.keeps)
  have ho := (ho₁.trans ho₂ hbase.le).trans ho₃ (hbase.le.trans hvalue.le)
  exact .bind_ok rfl (.after hstore (.of_ok rfl (.next (hready.moved ho))))

theorem expr (value : Expr) :
    StmtFollows m limit site record rest context c handler ret (.expr value) := by
  intro σ σ' code W memory store a cont h hok hready
  cases h with | expr hvalue =>
  rw [Program.evalStmt]
  refine (exprFollows hm hcall site record rest context value hvalue ⟨hok.check, hok.typed, hok.enclosed⟩
    hready).andThen ?_
  rintro res memory₁ s ⟨W₁, a₁, store₁, rfl, ho, -⟩
  exact .of_ok rfl (.next (hready.moved ho))

omit hm hcall in
theorem retNone : StmtFollows m limit site record rest context c handler ret (.ret none) := by
  intro σ σ' code W memory store a cont h hok hready
  cases h
  rw [Program.evalStmt]
  exact .of_ok rfl (.returned (hready.moved hready.refl) (.none (by simpa [Stmt.ReturnsValue] using hok.returns)))

theorem retValue (value : Expr) :
    StmtFollows m limit site record rest context c handler ret (.ret (some value)) := by
  intro σ σ' code W memory store a cont h hok hready
  cases h with | ret hvalue =>
  rw [Program.evalStmt, Cont.before_append]
  refine (exprFollows hm hcall site record rest context value hvalue
    ⟨hok.check, hok.typed.1, hok.enclosed⟩ hready).andThen ?_
  rintro res memory₁ s ⟨W₁, a₁, store₁, rfl, ho, hres⟩
  cases hres _ hok.typed.2 with | value hrep hr hlt =>
  refine .bind_ok rfl (.of_ok rfl (.returned (hready.moved ho) (.value hrep hr)))

/-- The condition of a branch or a loop. -/
theorem condition {condition : Expr} {σ σ' : Regs} {code : List Inst} {r : ValueId} {W : Placement}
    {memory : Memory} {store : Store} {a : Activation} (cont : Cont)
    (h : ExprCode site.scope site.vantage condition σ code (some r) σ')
    (hok : ExprOk n.program site.decl condition) (hscalar : n.program.ScalarTyped condition)
    (hready : site.Ready record rest context σ σ' W memory a store) :
    Follows m n.Causes (min 1 code.length) limit ⟨a.resume (cont.before code), c, store⟩
      (do Eval.int (← n.program.evalExpr handler ((site.decl, record) :: rest) condition)) memory
      (Leaves n σ W memory a c cont fun _ a' x => a'.value r = .ok (.int x)) := by
  refine Follows.bind 0 limit (exprFollows hm hcall site record rest context condition h hok hready) ?_
    (by omega)
  rintro res memory₁ s ⟨W₁, a₁, store₁, rfl, ho, hres⟩
  obtain ⟨x, rfl, hv, -⟩ := ExprFollows.int_of_scalarTyped hscalar hres
  exact .of_ok rfl ⟨W₁, a₁, store₁, rfl, ho, hv⟩

theorem branch {condition : Expr} {thenBlock elseBlock : List Stmt}
    (iht : BlockFollows m limit site record rest context c handler ret thenBlock)
    (ihe : BlockFollows m limit site record rest context c handler ret elseBlock) :
    StmtFollows m limit site record rest context c handler ret (.branch condition thenBlock elseBlock) := by
  intro σ σ' code W memory store a cont h hok hready
  cases h with | @branch _ _ _ _ σ₁ σ₂ _ c₁ c₂ c₃ r hcondition hthen helse =>
  obtain ⟨hcheck, ⟨htyped, hscalar, htypedt, htypede⟩, henclosed, hreturns⟩ := hok
  simp only [Program.checkStmt, then_eq_ok] at hcheck
  simp only [Program.stmtReferences, List.mem_append, or_imp, forall_and] at henclosed
  have hok₁ : ExprOk n.program site.decl condition := ⟨hcheck.1, htyped, henclosed.1.1⟩
  have hokt : BlockOk n.program site.decl ret thenBlock :=
    ⟨hcheck.2.1, htypedt, henclosed.1.2, hreturns.1⟩
  have hoke : BlockOk n.program site.decl ret elseBlock :=
    ⟨hcheck.2.2, htypede, henclosed.2, hreturns.2⟩
  rw [Program.evalStmt, Cont.before_append, ← bind_assoc]
  refine (StmtFollows.condition hm hcall _ hcondition hok₁ hscalar
    (hready.shorten (hthen.le.trans helse.le))).andThen ?_
  rintro x memory₁ s ⟨W₁, a₁, store₁, rfl, ho, hx⟩
  refine .after (State.leads_branch hx) (Site.follows_straight ?_)
  have hready₁ := hready.onward ho hcondition.le
  by_cases hzero : x = 0
  · rw [if_pos hzero, if_pos hzero]
    refine (ihe helse hoke ((hready.onward ho (hcondition.le.trans hthen.le)))).imp ?_
    exact fun flow memory' s harrives => (hready.moved ho).arrives harrives
  · rw [if_neg hzero, if_neg hzero]
    refine (iht hthen hokt (hready₁.shorten helse.le)).imp ?_
    exact fun flow memory' s harrives => (hready.moved ho).arrives harrives

/-- A loop has as many rounds on the machine as in the evaluation, and each takes a step or more. -/
theorem rounds {condition : Expr} {body : List Stmt}
    (ih : BlockFollows m limit site record rest context c handler ret body) {σ σ₁ σ' : Regs}
    {header code : List Inst} {r : ValueId}
    (hcondition : ExprCode site.scope site.vantage condition σ header (some r) σ₁)
    (hbody : BlockCode site.scope site.vantage body σ₁ code σ')
    (hok : ExprOk n.program site.decl condition) (hscalar : n.program.ScalarTyped condition)
    (hokb : BlockOk n.program site.decl ret body) {cont : Cont} {k : Nat} (hk : k ≤ limit)
    {W : Placement} {memory : Memory} {store : Store} {a : Activation}
    (hready : site.Ready record rest context σ σ' W memory a store) :
    Follows m n.Causes 0 k
      ⟨a.resume ((cont.inside (.header ⟨header, r, code⟩)).before header), c, store⟩
      (Program.evalLoop (do Eval.int (← n.program.evalExpr handler ((site.decl, record) :: rest) condition))
        (n.program.evalBlock handler ((site.decl, record) :: rest) limit body) k) memory
      (site.Arrives record rest context W memory a c cont ret) := by
  have hheader := hcondition.ne_nil_of_scalarTyped hscalar
  induction k generalizing W memory store a with
  | zero => exact State.exhausts_zero _
  | succ k ihk =>
    have hlen : 1 ≤ min 1 header.length := by
      have := List.length_pos_iff.2 hheader
      omega
    have htest := (StmtFollows.condition hm hcall (cont.inside (.header ⟨header, r, code⟩)) hcondition
      hok hscalar (hready.shorten hbody.le)).mono hlen hk
    rw [Program.evalLoop]
    refine (Follows.bind 0 k htest ?_ (by omega)).mono (Nat.zero_le _) (Nat.le_refl _)
    rintro x memory₁ s ⟨W₁, a₁, store₁, rfl, ho, hx⟩
    have hmoved := hready.moved ho
    by_cases hzero : x = 0
    · subst hzero
      exact .after (State.leads_leave hx) (.of_ok rfl (.next hmoved))
    · rw [if_neg hzero]
      refine .after (State.leads_round hx hzero hheader) ?_
      refine ((ih hbody hokb (hready.onward ho hcondition.le)).mono (Nat.le_refl _)
        (Nat.le_of_succ_le hk)).andThen ?_
      rintro flow memory₂ s (hmoved₂ | ⟨hmoved₂, hret⟩)
      · refine .after (State.leads_again hheader) ?_
        refine (ihk (Nat.le_of_succ_le hk) ((hmoved.trans hmoved₂).ready hready (.refl _))).imp ?_
        exact fun flow memory' s harrives => (hmoved.trans hmoved₂).arrives harrives
      · exact .of_ok rfl (.returned (hmoved.trans hmoved₂) hret)

theorem loop {condition : Expr} {body : List Stmt}
    (ih : BlockFollows m limit site record rest context c handler ret body) :
    StmtFollows m limit site record rest context c handler ret (.loop condition body) := by
  intro σ σ' code W memory store a cont h hok hready
  cases h with | loop hcondition hbody =>
  obtain ⟨hcheck, ⟨htyped, hscalar, htypedb⟩, henclosed, hreturns⟩ := hok
  simp only [Program.checkStmt, then_eq_ok] at hcheck
  simp only [Program.stmtReferences, List.mem_append, or_imp, forall_and] at henclosed
  rw [Program.evalStmt]
  exact .after State.leads_loop (rounds hm hcall ih hcondition hbody ⟨hcheck.1, htyped, henclosed.1⟩ hscalar
    ⟨hcheck.2, htypedb, henclosed.2, hreturns⟩ (Nat.le_refl _) hready)

end StmtFollows

/-- The machine follows the execution of every statement of a body. -/
theorem stmtFollows (hm : n.Lowers policy m) (hcall : Handled n m limit c handler) (stmt : Stmt) :
    StmtFollows m limit site record rest context c handler ret stmt := by
  induction stmt using Stmt.ind with
  | letVar x value => exact StmtFollows.letVar hm hcall x value
  | assign target value =>
    cases target with
    | var x => exact StmtFollows.assignVar hm hcall x value
    | field base field => exact StmtFollows.assignField hm hcall base field value
  | expr value => exact StmtFollows.expr hm hcall value
  | branch condition thenBlock elseBlock iht ihe =>
    exact StmtFollows.branch hm hcall (BlockFollows.of_stmts iht) (BlockFollows.of_stmts ihe)
  | loop condition body ih => exact StmtFollows.loop hm hcall (BlockFollows.of_stmts ih)
  | ret value =>
    cases value with
    | none => exact StmtFollows.retNone
    | some value => exact StmtFollows.retValue hm hcall value

/-- The machine follows the execution of every block of a body. -/
theorem blockFollows (hm : n.Lowers policy m) (hcall : Handled n m limit c handler) (block : List Stmt) :
    BlockFollows m limit site record rest context c handler ret block :=
  BlockFollows.of_stmts fun stmt _ => stmtFollows hm hcall stmt

end

end StaticChain
