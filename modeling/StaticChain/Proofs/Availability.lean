import StaticChain.Proofs.Capturing
import StaticChain.Proofs.Escape
import StaticChain.Proofs.Resolution
import StaticChain.Proofs.Typing

/-!
# Nothing that lowering asks for is missing

Lowering asks the tables for the place of every variable that a body names, for the context of every function
that it calls or names and of every instance that it makes, and for the chain to every `this`. Where capture
analysis succeeds the tables can be made and every such question has an answer (`nesting_answers`): the links
that a chain goes over are there because the same reference marked them.
-/

namespace StaticChain

/-! ## Expressions in a body -/

namespace Program

variable {p : Program} {P : Expr → Bool}

theorem checkExprs_eq_ok {exprs : List Expr} :
    p.checkExprs exprs = .ok () ↔ ∀ e ∈ exprs, p.checkExpr e = .ok () := by
  induction exprs with
  | nil => simp [checkExprs]
  | cons e exprs ih => simp [checkExprs, then_eq_ok, ih]

theorem mem_exprsReferences {exprs : List Expr} {r : Reference} :
    r ∈ p.exprsReferences exprs ↔ ∃ e ∈ exprs, r ∈ p.exprReferences e := by
  induction exprs with
  | nil => simp [exprsReferences]
  | cons e exprs ih => simp [exprsReferences, ih]

/-- Among expressions with these references there is a checked one with the property. -/
def Finds (p : Program) (P : Expr → Bool) (refs : List Reference) : Prop :=
  ∃ e, P e = true ∧ p.checkExpr e = .ok () ∧ ∀ r ∈ p.exprReferences e, r ∈ refs

theorem Finds.mono {refs refs' : List Reference} (h : p.Finds P refs) (hsub : ∀ r ∈ refs, r ∈ refs') :
    p.Finds P refs' := by
  obtain ⟨e, he, hcheck, hrefs⟩ := h
  exact ⟨e, he, hcheck, fun r hr => hsub r (hrefs r hr)⟩

theorem Finds.self {e : Expr} (hP : P e = true) (hcheck : p.checkExpr e = .ok ()) :
    p.Finds P (p.exprReferences e) :=
  ⟨e, hP, hcheck, fun _ hr => hr⟩

theorem Finds.exprs {exprs : List Expr}
    (ih : ∀ e ∈ exprs, e.any P = true → p.checkExpr e = .ok () → p.Finds P (p.exprReferences e))
    (h : Expr.anyIn P exprs = true) (hcheck : p.checkExprs exprs = .ok ()) :
    p.Finds P (p.exprsReferences exprs) := by
  obtain ⟨e, he, hany⟩ := Expr.anyIn_eq_true.1 h
  exact (ih e he hany (checkExprs_eq_ok.1 hcheck e he)).mono fun r hr => mem_exprsReferences.2 ⟨e, he, hr⟩

/-- An expression inside a checked one is checked, and its references are among those of the whole. -/
theorem finds_of_any (e : Expr) :
    e.any P = true → p.checkExpr e = .ok () → p.Finds P (p.exprReferences e) := by
  induction e using Expr.ind with
  | int | bool | var | this | functionRef =>
    intro h hcheck
    simp only [Expr.any, Bool.or_false] at h
    exact .self h hcheck
  | binary op lhs rhs hl hr =>
    intro h hcheck
    simp only [Expr.any, Bool.or_eq_true] at h
    rcases h with h | h | h
    · exact .self h hcheck
    all_goals simp only [checkExpr, then_eq_ok] at hcheck
    · exact (hl h hcheck.1).mono (by simp +contextual [exprReferences])
    · exact (hr h hcheck.2).mono (by simp +contextual [exprReferences])
  | unary op operand ih =>
    intro h hcheck
    simp only [Expr.any, Bool.or_eq_true] at h
    rcases h with h | h
    · exact .self h hcheck
    · exact ih h hcheck
  | call function exprs ih =>
    intro h hcheck
    simp only [Expr.any, Bool.or_eq_true] at h
    rcases h with h | h
    · exact .self h hcheck
    · simp only [checkExpr, then_eq_ok] at hcheck
      exact (Finds.exprs ih h hcheck.2).mono (by simp +contextual [exprReferences])
  | methodCall receiver method exprs hrec ih =>
    intro h hcheck
    simp only [Expr.any, Bool.or_eq_true] at h
    rcases h with h | h | h
    · exact .self h hcheck
    all_goals simp only [checkExpr, then_eq_ok] at hcheck
    · exact (hrec h hcheck.1).mono (by simp +contextual [exprReferences])
    · exact (Finds.exprs ih h hcheck.2.2).mono (by simp +contextual [exprReferences])
  | new aggregate exprs ih =>
    intro h hcheck
    simp only [Expr.any, Bool.or_eq_true] at h
    rcases h with h | h
    · exact .self h hcheck
    · simp only [checkExpr, then_eq_ok] at hcheck
      exact (Finds.exprs ih h hcheck.2).mono (by simp +contextual [exprReferences])
  | fieldGet base field ih =>
    intro h hcheck
    simp only [Expr.any, Bool.or_eq_true] at h
    rcases h with h | h
    · exact .self h hcheck
    · simp only [checkExpr, then_eq_ok] at hcheck
      exact ih h hcheck.1
  | callValue callee exprs hcallee ih =>
    intro h hcheck
    simp only [Expr.any, Bool.or_eq_true] at h
    rcases h with h | h | h
    · exact .self h hcheck
    all_goals simp only [checkExpr, then_eq_ok] at hcheck
    · exact (hcallee h hcheck.1).mono (by simp +contextual [exprReferences])
    · exact (Finds.exprs ih h hcheck.2).mono (by simp +contextual [exprReferences])

theorem checkBlock_eq_ok {id : DeclId} {block : List Stmt} :
    p.checkBlock id block = .ok () ↔ ∀ s ∈ block, p.checkStmt id s = .ok () := by
  induction block with
  | nil => simp [checkBlock]
  | cons s block ih => simp [checkBlock, then_eq_ok, ih]

theorem mem_blockReferences {block : List Stmt} {r : Reference} :
    r ∈ p.blockReferences block ↔ ∃ s ∈ block, r ∈ p.stmtReferences s := by
  induction block with
  | nil => simp [blockReferences]
  | cons s block ih => simp [blockReferences, ih]

theorem Finds.block {id : DeclId} {block : List Stmt}
    (ih : ∀ s ∈ block, s.any P = true → p.checkStmt id s = .ok () → p.Finds P (p.stmtReferences s))
    (h : Stmt.anyIn P block = true) (hcheck : p.checkBlock id block = .ok ()) :
    p.Finds P (p.blockReferences block) := by
  obtain ⟨s, hs, hany⟩ := Stmt.anyIn_eq_true.1 h
  exact (ih s hs hany (checkBlock_eq_ok.1 hcheck s hs)).mono fun r hr => mem_blockReferences.2 ⟨s, hs, hr⟩

/-- An expression inside a checked statement is checked, and its references are among those of the
statement. -/
theorem finds_of_any_stmt {id : DeclId} (s : Stmt) :
    s.any P = true → p.checkStmt id s = .ok () → p.Finds P (p.stmtReferences s) := by
  induction s using Stmt.ind with
  | letVar x value =>
    intro h hcheck
    simp only [Stmt.any] at h
    simp only [checkStmt, then_eq_ok] at hcheck
    exact (finds_of_any value h hcheck.2).mono (by simp +contextual [stmtReferences])
  | assign target value =>
    intro h hcheck
    simp only [checkStmt, then_eq_ok] at hcheck
    cases target with
    | var x =>
      simp only [Stmt.any] at h
      exact (finds_of_any value h hcheck.2).mono (by simp +contextual [stmtReferences])
    | field base field =>
      simp only [Stmt.any, Bool.or_eq_true] at h
      simp only [checkPlace, then_eq_ok] at hcheck
      rcases h with h | h
      · exact (finds_of_any base h hcheck.1.1).mono (by simp +contextual [stmtReferences, placeReferences])
      · exact (finds_of_any value h hcheck.2).mono (by simp +contextual [stmtReferences])
  | expr value =>
    intro h hcheck
    exact finds_of_any value h hcheck
  | branch condition thenBlock elseBlock ht he =>
    intro h hcheck
    simp only [Stmt.any, Bool.or_eq_true] at h
    simp only [checkStmt, then_eq_ok] at hcheck
    rcases h with (h | h) | h
    · exact (finds_of_any condition h hcheck.1).mono (by simp +contextual [stmtReferences])
    · exact (Finds.block ht h hcheck.2.1).mono (by simp +contextual [stmtReferences])
    · exact (Finds.block he h hcheck.2.2).mono (by simp +contextual [stmtReferences])
  | loop condition body hb =>
    intro h hcheck
    simp only [Stmt.any, Bool.or_eq_true] at h
    simp only [checkStmt, then_eq_ok] at hcheck
    rcases h with h | h
    · exact (finds_of_any condition h hcheck.1).mono (by simp +contextual [stmtReferences])
    · exact (Finds.block hb h hcheck.2).mono (by simp +contextual [stmtReferences])
  | ret value =>
    intro h hcheck
    cases value with
    | none => simp [Stmt.any] at h
    | some value => exact finds_of_any value h hcheck

/-- An expression in the body of a function is checked, and the function refers to what it refers to. -/
theorem Checked.finds_of_anyIn (hp : p.Checked) {useSite : DeclId} {function : FunctionDecl}
    (hf : p.function? useSite = some function) (h : Stmt.anyIn P function.body = true) :
    p.Finds P (p.references useSite) := by
  obtain ⟨decl, hd, hk⟩ := function?_eq_some_iff.1 hf
  refine (Finds.block (fun s _ => finds_of_any_stmt s) h (hp.body hd hk)).mono fun r hr => ?_
  simpa only [references, hf] using hr

/-! ### Variables -/

variable {x : VarId} {expr : Expr} {stmt : Stmt}

/-- An expression refers to a variable by naming it, or in one of its operands. -/
theorem variable_mem_exprReferences : .variable x ∈ p.exprReferences expr ↔
    expr.mention? = some (.var x) ∨ ∃ operand ∈ expr.operands, .variable x ∈ p.exprReferences operand := by
  have hparent : ∀ id, .variable x ∉ p.parentReference id := by simp [parentReference]
  cases expr <;>
    simp [exprReferences, Expr.mention?, Expr.operands, mem_exprsReferences, hparent, eq_comm]

/-- A statement refers to a variable by naming it, in an expression, or in one of its blocks. -/
theorem variable_mem_stmtReferences : .variable x ∈ p.stmtReferences stmt ↔
    (stmt.mention? = some (.var x) ∨ stmt.mention? = some (.bound x)) ∨
      (∃ expr, (expr ∈ stmt.operands ∨ stmt = .expr expr) ∧ .variable x ∈ p.exprReferences expr) ∨
        ∃ s ∈ stmt.inner, .variable x ∈ p.stmtReferences s := by
  cases stmt with
  | assign target value =>
    cases target <;> simp [stmtReferences, placeReferences, Stmt.mention?, Stmt.operands, Stmt.inner, eq_comm]
  | ret value => cases value <;> simp [stmtReferences, Stmt.mention?, Stmt.operands, Stmt.inner]
  | _ => simp [stmtReferences, Stmt.mention?, Stmt.operands, Stmt.inner, mem_blockReferences, or_and_right,
      exists_or, or_comm, eq_comm]

theorem variable_mem_of_evaluates (heval : stmt.Evaluates expr) (h : .variable x ∈ p.exprReferences expr) :
    .variable x ∈ p.stmtReferences stmt := by
  induction heval with
  | operand hmem => exact variable_mem_stmtReferences.2 (.inr (.inl ⟨_, .inl hmem, h⟩))
  | dropped => exact h
  | inner hmem _ ih => exact variable_mem_stmtReferences.2 (.inr (.inr ⟨_, hmem, ih h⟩))
  | under _ hmem ih => exact ih (variable_mem_exprReferences.2 (.inr ⟨_, hmem, h⟩))

theorem mentions_of_evaluates (heval : stmt.Evaluates expr) (h : .variable x ∈ p.exprReferences expr) :
    stmt.Mentions (.var x) := by
  induction expr using Expr.ind_operands with
  | step expr ih =>
    rcases variable_mem_exprReferences.1 h with hname | ⟨operand, hmem, h⟩
    · exact .expr heval hname
    · exact ih operand hmem (.under heval hmem) h

/-- The variables that a statement refers to are those that it reads, binds or assigns somewhere. -/
theorem variable_mem_stmtReferences_iff :
    .variable x ∈ p.stmtReferences stmt ↔ stmt.Mentions (.var x) ∨ stmt.Mentions (.bound x) := by
  constructor
  · intro h
    induction stmt using Stmt.ind_inner with
    | step stmt ih =>
      rcases variable_mem_stmtReferences.1 h with hname | ⟨expr, hexpr, h⟩ | ⟨s, hmem, h⟩
      · exact hname.imp .self .self
      · exact .inl (mentions_of_evaluates (hexpr.elim .operand (· ▸ .dropped)) h)
      · exact (ih s hmem h).imp (.inner hmem) (.inner hmem)
  · have hmentions : ∀ {m : Mention}, stmt.Mentions m → m = .var x ∨ m = .bound x →
        .variable x ∈ p.stmtReferences stmt := by
      intro m h hm
      induction h with
      | self h =>
        rcases hm with rfl | rfl
        · exact variable_mem_stmtReferences.2 (.inl (.inl h))
        · exact variable_mem_stmtReferences.2 (.inl (.inr h))
      | @expr stmt expr m heval h =>
        rcases hm with rfl | rfl
        · exact variable_mem_of_evaluates heval (variable_mem_exprReferences.2 (.inl h))
        · cases expr <;> simp [Expr.mention?] at h
      | inner hmem _ ih => exact variable_mem_stmtReferences.2 (.inr (.inr ⟨_, hmem, ih hm⟩))
    exact fun h => h.elim (hmentions · (.inl rfl)) (hmentions · (.inr rfl))

/-- The variables that a function refers to are those that its body reads, binds or assigns. -/
theorem variable_mem_references_iff {useSite : DeclId} {function : FunctionDecl}
    (hf : p.function? useSite = some function) : .variable x ∈ p.references useSite ↔
      ∃ stmt ∈ function.body, stmt.Mentions (.var x) ∨ stmt.Mentions (.bound x) := by
  simp only [references, hf, mem_blockReferences, variable_mem_stmtReferences_iff]

end Program

/-! ## Layouts -/

section

variable {p : Program} {c : Captures} (hp : p.Checked) (hc : Captures.of p = .ok c)
include hp

theorem Layout.exists_slots (kind : VarId → SlotKind) (xs : List VarId)
    (h : ∀ x ∈ xs, ∃ var, p.var? x = some var) : ∃ slots, xs.mapM (slotFor p kind) = .ok slots := by
  refine exists_mapM_eq_ok fun x hx => ?_
  obtain ⟨var, hv⟩ := h x hx
  obtain ⟨ty, hty⟩ := hp.exists_storage hv
  exact ⟨_, bind_eq_ok.2 ⟨var, Program.getVar_eq_ok.2 hv,
    bind_eq_ok.2 ⟨ty, ValueType.storage_eq_ok.2 hty, rfl⟩⟩⟩

include hc

/-- Every carrier can be given a layout. -/
theorem Layout.exists_of? (struct : Lir.StructId) {id : DeclId} {decl : Declaration}
    (hd : p.decl? id = some decl) :
    ∃ l, of? p c struct id = .ok l ∧ (c.isCarrier p id = true → ∃ layout, l = some layout) := by
  have hexact := Captures.exact_of_eq_ok hp hc
  obtain ⟨summary, hs, hcaptured⟩ := Option.map_eq_some_iff.1 (hexact.captured_eq hd)
  have hvars : ∀ x ∈ decl.locals, ∃ var, p.var? x = some var := fun x hx =>
    (hp.local_owner hd hx).imp fun _ h => h.1
  cases hk : decl.kind with
  | function function =>
    have hunfold : of? p c struct id =
        (if summary.frameNeeded then some <$> ofFrame p struct decl summary.captured else return none) := by
      unfold of?
      rw [Program.getDecl_eq_ok.2 hd]
      simp only [hs, hk, Except.bind, bind]
    have hframe : c.isFrameNeeded id = summary.frameNeeded := by simp [Captures.isFrameNeeded, hs]
    have hcarrier : c.isCarrier p id = summary.frameNeeded := by
      rw [Captures.isCarrier, hframe, Program.isAggregate_of_function
        (Program.function?_eq_some_iff.2 ⟨decl, hd, hk⟩), Bool.false_or]
    rw [hunfold]
    by_cases hneeded : summary.frameNeeded = true
    · obtain ⟨slots, hslots⟩ := exists_slots hp .captured summary.captured
        fun x hx => hvars x (List.mem_of_mem_filter (hcaptured ▸ hx))
      rw [if_pos hneeded]
      exact ⟨_, map_eq_ok.2 ⟨_, bind_eq_ok.2 ⟨slots, hslots, rfl⟩, rfl⟩, fun _ => ⟨_, rfl⟩⟩
    · rw [if_neg hneeded]
      exact ⟨none, rfl, fun h => absurd (hcarrier ▸ h) hneeded⟩
  | aggregate aggregate =>
    have hunfold : of? p c struct id =
        some <$> ofInstance p struct decl aggregate.fields summary.needsOuter := by
      unfold of?
      rw [Program.getDecl_eq_ok.2 hd]
      simp only [hs, hk, Except.bind, bind]
    obtain ⟨slots, hslots⟩ := exists_slots hp .field aggregate.fields
      fun x hx => hvars x (hp.fields_eq hd hk ▸ hx)
    rw [hunfold]
    exact ⟨_, map_eq_ok.2 ⟨_, bind_eq_ok.2 ⟨slots, hslots, rfl⟩, rfl⟩, fun _ => ⟨_, rfl⟩⟩

/-- The layouts of declarations can be made, and each carrier among them has one. -/
theorem Layouts.exists_extend {ids : List DeclId} (hids : ∀ id ∈ ids, ∃ decl, p.decl? id = some decl)
    (ls : Layouts) : ∃ ls', extend p c ids ls = .ok ls' ∧ ∀ id,
      (∃ l ∈ ls.layouts, l.owner = id) ∨ (id ∈ ids ∧ c.isCarrier p id = true) →
        ∃ l ∈ ls'.layouts, l.owner = id := by
  induction ids generalizing ls with
  | nil => exact ⟨ls, rfl, fun id h => h.resolve_right (by simp)⟩
  | cons id ids ih =>
    obtain ⟨decl, hd⟩ := hids id List.mem_cons_self
    obtain ⟨l, hl, hcarrier⟩ := Layout.exists_of? hp hc ⟨ls.layouts.size⟩ hd
    have hrest := fun id hid => hids id (List.mem_cons_of_mem _ hid)
    cases l with
    | none =>
      obtain ⟨ls', hls, hall⟩ := ih hrest ls
      refine ⟨ls', ?_, fun other h => hall other (h.imp_right fun ⟨hmem, hc⟩ => ⟨?_, hc⟩)⟩
      · unfold extend
        exact bind_eq_ok.2 ⟨none, hl, hls⟩
      · refine (List.mem_cons.1 hmem).resolve_left ?_
        rintro rfl
        obtain ⟨_, ⟨⟩⟩ := hcarrier hc
    | some layout =>
      have howner := (Layout.of_of?_eq hp hl).owner_eq
      obtain ⟨ls', hls, hall⟩ := ih hrest ⟨ls.layouts.push layout⟩
      refine ⟨ls', ?_, fun other h => hall other ?_⟩
      · unfold extend
        exact bind_eq_ok.2 ⟨some layout, hl, hls⟩
      · rcases h with ⟨l, hmem, hl⟩ | ⟨hmem, hc⟩
        · exact .inl ⟨l, Array.mem_push.2 (.inl hmem), hl⟩
        · rcases List.mem_cons.1 hmem with rfl | hmem
          · exact .inl ⟨layout, Array.mem_push_self, howner⟩
          · exact .inr ⟨hmem, hc⟩

end

/-- The tables of a program can be made where its captures can. -/
theorem Nesting.exists_of {p : Program} {c : Captures} (hp : p.Checked) (hc : Captures.of p = .ok c)
    (policy : FramePolicy) : ∃ n, Nesting.of p policy = .ok n ∧ n.captures = c := by
  obtain ⟨ls, hls, -⟩ := Layouts.exists_extend hp hc (fun id => hp.exists_decl_of_mem_preorder)
    Layouts.empty
  exact ⟨_, bind_eq_ok.2 ⟨c, hc, bind_eq_ok.2 ⟨ls, hls, rfl⟩⟩, rfl⟩

namespace Nesting.Built

variable {n : Nesting} {policy : FramePolicy} (hn : n.Built policy)
include hn

theorem exact : n.captures.Exact n.program := Captures.exact_of_eq_ok hn.checked hn.captures_eq

theorem exists_decl_of_isCarrier {id : DeclId} (h : n.captures.isCarrier n.program id = true) :
    ∃ decl, n.program.decl? id = some decl := by
  rcases Bool.or_eq_true _ _ ▸ h with h | h
  · obtain ⟨aggregate, ha⟩ := Program.isAggregate_iff.1 h
    obtain ⟨decl, hd, -⟩ := Program.aggregate?_eq_some_iff.1 ha
    exact ⟨decl, hd⟩
  · obtain ⟨function, hf⟩ := Program.isFunction_iff.1 (hn.isFunction_of_isFrameNeeded h)
    obtain ⟨decl, hd, -⟩ := Program.function?_eq_some_iff.1 hf
    exact ⟨decl, hd⟩

/-- Every carrier has a layout. -/
theorem exists_layout {id : DeclId} (h : n.captures.isCarrier n.program id = true) :
    ∃ l, n.layouts.layout? id = some l := by
  obtain ⟨decl, hd⟩ := hn.exists_decl_of_isCarrier h
  obtain ⟨ls, hls, hall⟩ := Layouts.exists_extend hn.checked hn.captures_eq
    (fun id => hn.checked.exists_decl_of_mem_preorder) Layouts.empty
  obtain rfl : ls = n.layouts := by
    have := hls.symm.trans hn.layouts_eq
    exact Except.ok.inj this
  obtain ⟨l, hmem, howner⟩ := hall id (.inr ⟨hn.checked.mem_preorder hd, h⟩)
  rw [← Option.isSome_iff_exists, Layouts.layout?, List.find?_isSome]
  exact ⟨l, by simpa using hmem, by simp [howner]⟩

/-! ## Chains -/

/-- A carrier has a link if it is nested and, in case of an aggregate, references lead out of it. -/
theorem exists_hop {through : DeclId} (hc : n.captures.isCarrier n.program through = true)
    (hparent : ∃ parent, n.program.parent? through = some parent)
    (houter : n.program.isAggregate through = true → n.program.LeadsOut through) :
    ∃ hop, n.hop through = .ok hop := by
  obtain ⟨parent, hpar⟩ := hparent
  obtain ⟨l, hl⟩ := hn.exists_layout hc
  have hlink : (∃ i, l.parentSlot = some i) ∨ l.parentSlot = none ∧ ∃ i, l.outerSlot = some i := by
    have hof := hn.layout_of hl
    generalize l.struct = struct at hof
    cases hof with
    | @frame decl _ _ slots hd _ _ _ _ =>
      have : decl.parent.isSome = true := by
        have : decl.parent = some parent := by simpa [Program.parent?, hd] using hpar
        simp [this]
      exact .inl ⟨slots.length, by simp [this]⟩
    | @aggregate decl aggregate summary slots hd hk hs _ =>
      have hagg : n.program.isAggregate through = true :=
        Program.isAggregate_iff.2 ⟨aggregate, Program.aggregate?_eq_some_iff.2 ⟨decl, hd, hk⟩⟩
      have hneeds := (hn.exact.needsOuter_iff through).2 ⟨hagg, houter hagg⟩
      have : summary.needsOuter = true := by simpa [Captures.needsOuter, hs] using hneeds
      exact .inr ⟨rfl, slots.length, by simp [this]⟩
  unfold Nesting.hop
  rcases hlink with ⟨i, hi⟩ | ⟨hnone, i, hi⟩
  · exact ⟨_, bind_eq_ok.2 ⟨l, Layouts.getLayout_eq_ok.2 hl, by simp only [hi]; rfl⟩⟩
  · exact ⟨_, bind_eq_ok.2 ⟨l, Layouts.getLayout_eq_ok.2 hl, by simp only [hnone, hi]; rfl⟩⟩

/-- No carrier lies between a declaration and its nearest carrier. -/
theorem not_isCarrier_below_nearest {mark target a : DeclId}
    (h : n.captures.nearestCarrier? n.program mark = some target)
    (ha : a ∈ mark :: n.program.ancestors mark) (hbelow : target ∈ n.program.ancestors a) :
    n.captures.isCarrier n.program a ≠ true := by
  intro hc
  induction mark using hn.checked.parent_induction with
  | root mark hroot =>
    rw [Program.Checked.ancestors_of_root hroot, List.mem_singleton] at ha
    subst ha
    simp [Program.Checked.ancestors_of_root hroot] at hbelow
  | nested mark parent hpar ih =>
    have hanc := hn.checked.ancestors_of_parent hpar
    unfold Captures.nearestCarrier? at h
    rw [hanc] at h ha
    by_cases hmark : n.captures.isCarrier n.program mark = true
    · rw [List.find?_cons_of_pos hmark] at h
      cases h
      rw [← hanc] at ha
      rcases List.mem_cons.1 ha with rfl | ha
      · exact hn.checked.not_mem_ancestors_self _ hbelow
      · exact hn.checked.not_mem_ancestors_self _ (hn.checked.ancestors_trans hbelow ha)
    · rw [List.find?_cons_of_neg hmark] at h
      refine ih h ((List.mem_cons.1 ha).resolve_left ?_)
      rintro rfl
      exact hmark hc

end Nesting.Built

/-- Up to an element that passes the filter, it does not matter which is done first. -/
theorem takeWhile_filter_ne {α : Type} [DecidableEq α] {f : α → Bool} {target : α} (h : f target = true)
    (l : List α) : (l.filter f).takeWhile (· != target) = (l.takeWhile (· != target)).filter f := by
  induction l with
  | nil => rfl
  | cons a l ih =>
    by_cases heq : a = target
    · subst heq
      simp [h]
    · by_cases hf : f a = true <;> simp [heq, hf, ih]

namespace Nesting.Built

variable {n : Nesting} {policy : FramePolicy} (hn : n.Built policy)
include hn

/-- A function reaches the nearest carrier of whatever it refers to. -/
theorem exists_chainTo {useSite mark target : DeclId} {r : Reference}
    (hr : r ∈ n.program.references useSite) (hmark : r.target? n.program = some mark)
    (hnear : n.captures.nearestCarrier? n.program mark = some target) :
    ∃ chain, n.chainTo useSite target = .ok chain ∧ chain.target = target := by
  have hp := hn.checked
  obtain ⟨function, hf⟩ := Program.exists_function_of_mem_references hr
  have hcarrier : n.captures.isCarrier n.program target = true := List.find?_some hnear
  obtain ⟨mark', hmark', hmem⟩ :=
    Captures.enclosed_iff.1 (hn.enclosed (hp.mem_preorder_of_mem_references hr) hr)
  obtain rfl : mark = mark' := Option.some.inj (hmark.symm.trans hmark')
  have htarget : target ∈ useSite :: n.program.ancestors useSite := by
    rcases List.mem_cons.1 (List.mem_of_find?_eq_some hnear) with rfl | h
    · exact hmem
    · exact List.mem_cons_of_mem _ (hp.mem_ancestors_of_mem_cons hmem h)
  unfold Nesting.chainTo
  simp only [hcarrier, Bool.not_true, Bool.false_eq_true, if_false]
  by_cases heq : target = useSite
  · subst heq
    have hframe : n.captures.isFrameNeeded target = true := by
      simpa [Captures.isCarrier, Program.isAggregate_of_function hf] using hcarrier
    simp only [hframe, Bool.not_true, Bool.false_eq_true, if_true, if_false]
    exact ⟨_, rfl, rfl⟩
  · have hup : target ∈ n.program.ancestors useSite := (List.mem_cons.1 htarget).resolve_left heq
    have hcarriers : n.carriersTo target (n.program.ancestors useSite) = some
        (((n.program.ancestors useSite).filter (n.captures.isCarrier n.program)).takeWhile
          (· != target) ++ [target]) := by
      simp [carriersTo, hup, hcarrier]
    simp only [if_neg heq, hcarriers, List.dropLast_concat]
    -- Each carrier on the way is below what the reference leads to, which therefore leads out of it.
    obtain ⟨hops, hhops⟩ := exists_mapM_eq_ok
      (l := (if n.captures.isFrameNeeded useSite = true then [useSite] else []) ++
        ((n.program.ancestors useSite).filter (n.captures.isCarrier n.program)).takeWhile (· != target))
      (f := n.hop) fun through hthrough => by
        rw [takeWhile_filter_ne hcarrier, List.mem_append] at hthrough
        have hpath : through ∈ useSite :: (n.program.ancestors useSite).takeWhile (· != target) ∧
            n.captures.isCarrier n.program through = true := by
          rcases hthrough with h | h
          · split at h
            · rename_i hframe
              rw [List.mem_singleton] at h
              subst h
              exact ⟨List.mem_cons_self, by simp [Captures.isCarrier, hframe]⟩
            · simp at h
          · obtain ⟨h, hc⟩ := List.mem_filter.1 h
            exact ⟨List.mem_cons_of_mem _ h, hc⟩
        obtain ⟨hpath, hc⟩ := hpath
        obtain ⟨haround, hbelow⟩ := (hp.mem_path_iff hup).1 hpath
        refine hn.exists_hop hc (Program.Checked.exists_parent_of_mem_ancestors hbelow) fun _ => ?_
        refine ⟨useSite, r, mark, haround, hr, hmark, ?_⟩
        refine (hp.mem_or_mem_ancestors haround hmem).resolve_left fun h => ?_
        exact hn.not_isCarrier_below_nearest hnear h hbelow hc
    exact ⟨_, bind_eq_ok.2 ⟨hops, hhops, rfl⟩, rfl⟩

omit hn in
theorem nearestCarrier?_self {id : DeclId} (h : n.captures.isCarrier n.program id = true) :
    n.captures.nearestCarrier? n.program id = some id :=
  List.find?_cons_of_pos h

end Nesting.Built

/-! ## Variables -/

/-- A variable that a layout was made for has a slot in it, of its storage type. -/
theorem Layout.exists_slot {p : Program} {kind : VarId → SlotKind} (hkind : ∀ x, (kind x).var? = some x)
    {xs : List VarId} {slots rest : List Slot}
    (hslots : List.Forall₂ (fun x slot => slotFor p kind x = .ok slot) xs slots)
    (hrest : ∀ slot ∈ rest, slot.kind.var? = none) {x : VarId} {var : Variable} (hx : x ∈ xs)
    (hv : p.var? x = some var) {l : Layout} (hl : l.slots = slots ++ rest) :
    ∃ i ty, l.slotOf? x = some i ∧ l.slotType? i = some ty ∧ var.ty.storage? = some ty := by
  obtain ⟨slot, hmem, hslot⟩ := exists_of_mapM_eq_ok (mapM_eq_ok.2 hslots) hx
  obtain ⟨-, -, hk, -⟩ := slotFor_eq_ok hslot
  cases hfind : l.slotOf? x with
  | none =>
    have := List.findIdx?_eq_none_iff.1 hfind slot (by simp [hl, hmem])
    simp [hk, hkind] at this
  | some i =>
    obtain ⟨found, hi, hfound⟩ := kind_of_slotOf? hfind
    refine ⟨i, found.ty, rfl, by simp [slotType?, hi], ?_⟩
    have hin : found ∈ slots := by
      have := List.mem_of_getElem? hi
      rw [hl] at this
      refine (List.mem_append.1 this).resolve_right fun h => ?_
      rw [hrest found h] at hfound
      cases hfound
    obtain ⟨y, -, hy⟩ := exists_of_forall₂ hslots hin
    obtain ⟨var', hv', hk', hty⟩ := slotFor_eq_ok hy
    obtain rfl : y = x := by simpa [hk', hkind] using hfound
    rw [hv] at hv'
    cases hv'
    exact hty

namespace Nesting.Built

variable {n : Nesting} {policy : FramePolicy} (hn : n.Built policy)
include hn

/-- A variable of a carrier that is captured or a field has a slot there. -/
theorem exists_slot {x : VarId} {var : Variable} (hv : n.program.var? x = some var) {l : Layout}
    (hl : n.layouts.layout? var.owner = some l)
    (hcaptured : var.kind ≠ .field → n.captures.isCaptured x = true) :
    ∃ i ty, l.slotOf? x = some i ∧ l.slotType? i = some ty ∧ var.ty.storage? = some ty := by
  have hp := hn.checked
  obtain ⟨decl, hd, hx⟩ := hp.exists_owner hv
  have hof := hn.layout_of hl
  generalize l.struct = struct at hof
  cases hof with
  | @frame decl' function summary slots hd' hk hs _ hslots =>
    rw [hd] at hd'
    cases hd'
    have hfield : var.kind ≠ .field := by
      rw [hp.function_local_kind hd hk hx hv]
      split <;> nofun
    have hsum : summary.captured = decl.locals.filter n.captures.isCaptured := by
      simpa [hs] using hn.exact.captured_eq hd
    refine Layout.exists_slot (fun _ => rfl) hslots ?_ (hsum ▸ List.mem_filter.2 ⟨hx, hcaptured hfield⟩) hv rfl
    cases decl.parent.isSome <;> simp [Layout.SlotKind.var?]
  | @aggregate decl' aggregate summary slots hd' hk hs hslots =>
    rw [hd] at hd'
    cases hd'
    refine Layout.exists_slot (fun _ => rfl) hslots ?_ (hp.fields_eq hd hk ▸ hx) hv rfl
    cases summary.needsOuter <;> simp [Layout.SlotKind.var?]

/-- Where a variable that a function names is found: in a local where the function owns it and nothing
captures it, and otherwise in a slot of the owner. -/
theorem exists_resolve {useSite : DeclId} {x : VarId} (hr : .variable x ∈ n.program.references useSite) :
    ∃ var, n.program.var? x = some var ∧
      ((var.owner = useSite ∧ n.captures.isCaptured x = false ∧ n.resolve useSite x = .ok (.local x)) ∨
        (¬(var.owner = useSite ∧ n.captures.isCaptured x = false) ∧ ∃ chain struct slot ty,
          n.resolve useSite x = .ok (.slot chain struct slot ty) ∧ chain.target = var.owner ∧
          var.ty.storage? = some ty)) := by
  have hp := hn.checked
  obtain ⟨var, hv, hmem⟩ := hn.enclosed (hp.mem_preorder_of_mem_references hr) hr
  refine ⟨var, hv, ?_⟩
  by_cases hlocal : var.owner = useSite ∧ n.captures.isCaptured x = false
  · refine .inl ⟨hlocal.1, hlocal.2, ?_⟩
    unfold resolve
    refine bind_eq_ok.2 ⟨var, Program.getVar_eq_ok.2 hv, ?_⟩
    simp only [hlocal.1, hlocal.2, Bool.not_false, and_self, if_true]
    rfl
  refine .inr ⟨hlocal, ?_⟩
  have hcaptured : var.kind ≠ .field → n.captures.isCaptured x = true := by
    intro hkind
    rcases List.mem_cons.1 hmem with howner | habove
    · exact Bool.of_not_eq_false fun hfalse => hlocal ⟨howner, hfalse⟩
    · exact (hn.exact.isCaptured_iff x).2 ⟨var, useSite, hv, hkind, hr, habove⟩
  have hcarrier : n.captures.isCarrier n.program var.owner = true := by
    rw [Captures.isCarrier, Bool.or_eq_true]
    by_cases hkind : var.kind = .field
    · exact .inl (hp.isAggregate_owner hv hkind)
    · exact .inr ((hn.exact.isFrameNeeded_iff _).2 ⟨hp.isFunction_owner hv hkind, x, var, hv, rfl,
        (hn.exact.isCaptured_iff x).1 (hcaptured hkind)⟩)
  obtain ⟨chain, hchain, htarget⟩ := hn.exists_chainTo hr
    (show _ = some var.owner by simp [Reference.target?, hv]) (nearestCarrier?_self hcarrier)
  obtain ⟨l, hl⟩ := hn.exists_layout hcarrier
  obtain ⟨i, ty, hi, hty, hstorage⟩ := hn.exists_slot hv hl hcaptured
  refine ⟨chain, l.struct, i, ty, ?_, htarget, hstorage⟩
  unfold resolve
  refine bind_eq_ok.2 ⟨var, Program.getVar_eq_ok.2 hv, ?_⟩
  have hnot : ¬(var.owner = useSite ∧ (!n.captures.isCaptured x) = true) := by simpa using hlocal
  have hmarked : ¬(var.kind ≠ .field ∧ (!n.captures.isCaptured x) = true) := by
    rintro ⟨hkind, h⟩
    simp [hcaptured hkind] at h
  simp only [if_neg hnot, if_neg hmarked]
  refine bind_eq_ok.2 ⟨chain, hchain, bind_eq_ok.2 ⟨l, Layouts.getLayout_eq_ok.2 hl, ?_⟩⟩
  simp only [hi, hty]
  rfl

/-! ## Contexts -/

/-- The context of a declaration that a function refers to is found, if there is a carrier at all. -/
theorem exists_contextBelow {useSite parent : DeclId}
    (hr : .context parent ∈ n.program.references useSite) :
    ∃ context, n.contextBelow useSite parent = .ok context ∧ context ≠ .none := by
  unfold contextBelow
  cases hnear : n.captures.nearestCarrier? n.program parent with
  | none => exact ⟨.null, rfl, nofun⟩
  | some carrier =>
    obtain ⟨chain, hchain, -⟩ := hn.exists_chainTo hr rfl hnear
    exact ⟨.chain chain, bind_eq_ok.2 ⟨chain, hchain, rfl⟩, nofun⟩

theorem exists_callContext {useSite callee : DeclId} (hf : n.program.isFunction callee = true)
    (hr : ∀ r ∈ n.program.parentReference callee, r ∈ n.program.references useSite) :
    ∃ context, n.callContext useSite callee = .ok context ∧
      (context = .none ↔ n.program.parent? callee = none) := by
  obtain ⟨function, hf⟩ := Program.isFunction_iff.1 hf
  have hget := Program.getFunction_eq_ok.2 hf
  unfold callContext
  cases hpar : n.program.parent? callee with
  | none => exact ⟨.none, bind_eq_ok.2 ⟨function, hget, rfl⟩, by simp⟩
  | some parent =>
    by_cases hagg : n.program.isAggregate parent = true
    · exact ⟨.receiver, bind_eq_ok.2 ⟨function, hget, by simp only [hagg, if_true]; rfl⟩, by simp⟩
    · obtain ⟨context, hcontext, hne⟩ := hn.exists_contextBelow
        (hr (.context parent) (by simp [Program.parentReference, hpar]))
      exact ⟨context, bind_eq_ok.2 ⟨function, hget, by simp only [if_neg hagg]; exact hcontext⟩,
        by simp [hne]⟩

theorem exists_constructionContext {useSite aggregate : DeclId}
    (ha : n.program.isAggregate aggregate = true)
    (hr : ∀ r ∈ n.program.parentReference aggregate, r ∈ n.program.references useSite) :
    ∃ l context, n.layouts.layout? aggregate = some l ∧
      n.constructionContext useSite aggregate = .ok context ∧ (context = .none ↔ l.outerSlot = none) := by
  have hcarrier : n.captures.isCarrier n.program aggregate = true := by simp [Captures.isCarrier, ha]
  obtain ⟨l, hl⟩ := hn.exists_layout hcarrier
  have hget := Layouts.getLayout_eq_ok.2 hl
  unfold constructionContext
  cases hos : l.outerSlot with
  | none =>
    exact ⟨l, .none, hl, bind_eq_ok.2 ⟨l, hget, by simp only [hos, Option.isNone_none, if_true]; rfl⟩,
      by simp [hos]⟩
  | some slot =>
    have hlinked : l.outerSlot.isNone = false := by simp [hos]
    cases hpar : n.program.parent? aggregate with
    | none =>
      refine ⟨l, .null, hl, bind_eq_ok.2 ⟨l, hget, ?_⟩, by simp [hos]⟩
      simp only [hlinked, Bool.false_eq_true, if_false]
      rfl
    | some parent =>
      obtain ⟨context, hcontext, hne⟩ := hn.exists_contextBelow
        (hr (.context parent) (by simp [Program.parentReference, hpar]))
      refine ⟨l, context, hl, bind_eq_ok.2 ⟨l, hget, ?_⟩, by simp [hos, hne]⟩
      simp only [hlinked, Bool.false_eq_true, if_false]
      exact hcontext

end Nesting.Built

/-! ## Everything together -/

namespace Expr

/-- The expression calls the function or names it. -/
def calls (function : DeclId) : Expr → Bool
  | .call callee _ => callee == function
  | .functionRef callee => callee == function
  | _ => false

/-- The expression makes an instance of the aggregate. -/
def makes (aggregate : DeclId) : Expr → Bool
  | .new made _ => made == aggregate
  | _ => false

/-- The expression is `this` of the aggregate. -/
def isThis (aggregate : DeclId) : Expr → Bool
  | .this instanceOf => instanceOf == aggregate
  | _ => false

end Expr

namespace Program

variable {p : Program} {refs : List Reference}

theorem Finds.calls {function : DeclId} (h : p.Finds (Expr.calls function) refs) :
    p.isFunction function = true ∧ ∀ r ∈ p.parentReference function, r ∈ refs := by
  obtain ⟨e, he, hcheck, hrefs⟩ := h
  cases e <;> simp only [Expr.calls, Bool.false_eq_true, beq_iff_eq] at he
  case call callee args =>
    subst he
    simp only [checkExpr, then_eq_ok] at hcheck
    obtain ⟨f, hf, -⟩ := checkCallee_eq_ok hcheck.1
    exact ⟨isFunction_iff.2 ⟨f, hf⟩, fun r hr => hrefs r (by simp [exprReferences, hr])⟩
  case functionRef callee =>
    subst he
    simp only [checkExpr, Flaw.excludedBy_eq_ok, Bool.and_eq_true] at hcheck
    exact ⟨hcheck.1, fun r hr => hrefs r hr⟩

theorem Finds.makes {aggregate : DeclId} (h : p.Finds (Expr.makes aggregate) refs) :
    p.isAggregate aggregate = true ∧ ∀ r ∈ p.parentReference aggregate, r ∈ refs := by
  obtain ⟨e, he, hcheck, hrefs⟩ := h
  cases e <;> simp only [Expr.makes, Bool.false_eq_true, beq_iff_eq] at he
  case new made args =>
    subst he
    simp only [checkExpr, then_eq_ok] at hcheck
    obtain ⟨a, ha, -⟩ := checkNew_eq_ok hcheck.1
    exact ⟨isAggregate_iff.2 ⟨a, ha⟩, fun r hr => hrefs r (by simp [exprReferences, hr])⟩

theorem Finds.isThis {aggregate : DeclId} (h : p.Finds (Expr.isThis aggregate) refs) :
    p.isAggregate aggregate = true ∧ .context aggregate ∈ refs := by
  obtain ⟨e, he, hcheck, hrefs⟩ := h
  cases e <;> simp only [Expr.isThis, Bool.false_eq_true, beq_iff_eq] at he
  case this instanceOf =>
    subst he
    simp only [checkExpr, Flaw.excludedBy_eq_ok] at hcheck
    exact ⟨hcheck, hrefs _ (by simp [exprReferences])⟩

end Program

/-- Where capture analysis succeeds, the tables are made under every policy, and they have an answer to all
that lowering asks of them. A variable that a body reads, binds or assigns is in a local exactly where the
function owns it and nothing captures it, and else in a slot of its owner that has its storage type. What is
called or named is given a context unless it is at top level, and what is made unless it has no `outer` link. -/
theorem nesting_answers {p : Program} (hp : p.check = .ok ()) {c : Captures} (hc : Captures.of p = .ok c)
    (policy : FramePolicy) :
    ∃ n, Nesting.of p policy = .ok n ∧ ∀ useSite function, p.function? useSite = some function →
      (∀ stmt x, stmt ∈ function.body → stmt.Mentions (.var x) ∨ stmt.Mentions (.bound x) →
        ∃ var, p.var? x = some var ∧
        ((var.owner = useSite ∧ c.isCaptured x = false ∧ n.resolve useSite x = .ok (.local x)) ∨
          (¬(var.owner = useSite ∧ c.isCaptured x = false) ∧ ∃ chain struct slot ty,
            n.resolve useSite x = .ok (.slot chain struct slot ty) ∧ chain.target = var.owner ∧
            var.ty.storage? = some ty))) ∧
      (∀ callee, Stmt.anyIn (Expr.calls callee) function.body = true → ∃ context,
        n.callContext useSite callee = .ok context ∧ (context = .none ↔ p.parent? callee = none)) ∧
      (∀ aggregate, Stmt.anyIn (Expr.makes aggregate) function.body = true → ∃ l context,
        n.layouts.layout? aggregate = some l ∧ n.constructionContext useSite aggregate = .ok context ∧
        (context = .none ↔ l.outerSlot = none)) ∧
      ∀ aggregate, Stmt.anyIn (Expr.isThis aggregate) function.body = true → ∃ chain,
        n.chainTo useSite aggregate = .ok chain ∧ chain.target = aggregate := by
  have hchecked := Program.checked_of_check hp
  obtain ⟨n, hn, rfl⟩ := Nesting.exists_of hchecked hc policy
  obtain ⟨rfl, hbuilt⟩ := Nesting.built_of_eq_ok hchecked hn
  refine ⟨n, hn, fun useSite function hf => ⟨?_, ?_, ?_, ?_⟩⟩
  · intro stmt x hmem h
    exact hbuilt.exists_resolve ((Program.variable_mem_references_iff hf).2 ⟨stmt, hmem, h⟩)
  · intro callee h
    obtain ⟨hfun, hrefs⟩ := (hchecked.finds_of_anyIn hf h).calls
    exact hbuilt.exists_callContext hfun hrefs
  · intro aggregate h
    obtain ⟨hagg, hrefs⟩ := (hchecked.finds_of_anyIn hf h).makes
    exact hbuilt.exists_constructionContext hagg hrefs
  · intro aggregate h
    obtain ⟨hagg, hr⟩ := (hchecked.finds_of_anyIn hf h).isThis
    exact hbuilt.exists_chainTo hr rfl (Nesting.Built.nearestCarrier?_self (by simp [Captures.isCarrier, hagg]))

/-- The function that adds to the running total finds it in the frame around it. -/
theorem nesting_answers_tally : ∃ c n, Captures.of tally = .ok c ∧
    Nesting.of tally .escapeAnalysis = .ok n ∧ ∃ chain struct slot,
      n.resolve ⟨1⟩ ⟨1⟩ = .ok (.slot chain struct slot .i64) ∧ chain.target = ⟨0⟩ := by
  obtain ⟨c, hc⟩ := exists_of_isOk (show (Captures.of tally).isOk = true by decide +kernel)
  obtain ⟨n, hn, hall⟩ := nesting_answers tally_check hc .escapeAnalysis
  obtain ⟨var, hv, h⟩ := (hall ⟨1⟩ _ rfl).1 _ ⟨1⟩ (List.mem_cons_self ..) (.inl (.self rfl))
  cases hv
  obtain ⟨howner, -⟩ | ⟨-, chain, struct, slot, ty, hresolve, htarget, hty⟩ := h
  · cases howner
  · cases hty
    exact ⟨c, n, hc, hn, chain, struct, slot, hresolve, htarget⟩

end StaticChain
