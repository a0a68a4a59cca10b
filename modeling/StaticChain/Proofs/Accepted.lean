import Mathlib.Data.Set.Card
import Mathlib.Logic.Relation
import StaticChain.Proofs.Availability
import StaticChain.Proofs.WellFormed

/-!
# What the check of a program establishes

Every pass after the check takes for granted that the parent links are a forest (`Program.IsForest`), that
variables stand in one list of locals each (`Program.OwnsOnce`), and that names in bodies and types are those of
what their places ask for (`Program.NamesFit`). No single test of the check says so: a chain of parents that ends
within a bound, children and parents that name each other, lists without repetition that are as long as there are
variables. Together they do (`accepted_of_check`).
-/

namespace StaticChain

/-! ## The forest -/

namespace Program

variable {p : Program}

/-- The first declaration is directly inside the second. -/
def IsInside (p : Program) (id parent : DeclId) : Prop := p.parent? id = some parent

/-- The parent links make the declarations a forest, and the walks along them are complete. -/
structure IsForest (p : Program) : Prop where
  acyclic : ∀ id, ¬Relation.TransGen p.IsInside id id
  /-- Each declaration on the way up is directly inside the next one. -/
  isChain : ∀ id, (id :: p.ancestors id).IsChain p.IsInside
  ancestors_nodup : ∀ id, (p.ancestors id).Nodup
  ends_in_root : ∀ {id decl}, p.decl? id = some decl →
    ∃ root ∈ p.roots, (id :: p.ancestors id).getLast? = some root
  /-- No bound from the number of declarations on cuts the way up. -/
  not_cut : ∀ id bound, p.declarations.size ≤ bound → p.parentChain bound (p.parent? id) = p.ancestors id
  mem_ancestors_iff : ∀ a id, a ∈ p.ancestors id ↔ Relation.TransGen p.IsInside id a
  isPartialOrder : IsPartialOrder DeclId fun a id => p.isAncestorOrSelf a id = true
  depth_of_root : ∀ id, p.parent? id = none → p.depth id = 0
  depth_of_inside : ∀ id parent, p.parent? id = some parent → p.depth id = p.depth parent + 1
  /-- The depth is the number of declarations that the declaration is inside of. -/
  depth_eq_ncard : ∀ id, p.depth id = {a | Relation.TransGen p.IsInside id a}.ncard
  mem_preorder : ∀ {id decl}, p.decl? id = some decl → id ∈ p.preorder

namespace Checked

variable (hp : p.Checked)
include hp

theorem isChain_ancestors (id : DeclId) : (id :: p.ancestors id).IsChain p.IsInside := by
  induction id using hp.parent_induction with
  | root id hroot =>
    rw [ancestors_of_root hroot]
    exact .singleton id
  | nested id parent hpar ih =>
    rw [hp.ancestors_of_parent hpar]
    exact .cons_cons hpar ih

theorem ancestors_nodup (id : DeclId) : (p.ancestors id).Nodup := by
  induction id using hp.parent_induction with
  | root id hroot => simp [ancestors_of_root hroot]
  | nested id parent hpar ih =>
    rw [hp.ancestors_of_parent hpar]
    exact List.nodup_cons.2 ⟨hp.not_mem_ancestors_self parent, ih⟩

/-- The way up goes over exactly what the declaration is inside of, at any depth. -/
theorem mem_ancestors_iff {a id : DeclId} : a ∈ p.ancestors id ↔ Relation.TransGen p.IsInside id a := by
  constructor
  · intro h
    induction id using hp.parent_induction with
    | root id hroot => simp [ancestors_of_root hroot] at h
    | nested id parent hpar ih =>
      rw [hp.ancestors_of_parent hpar, List.mem_cons] at h
      rcases h with rfl | h
      · exact .single hpar
      · exact .head hpar (ih h)
  · intro h
    induction h using Relation.TransGen.head_induction_on with
    | single hpar => simp [hp.ancestors_of_parent hpar]
    | head hpar _ ih => simp [hp.ancestors_of_parent hpar, ih]

/-- The last declaration on the way up is a root. -/
theorem getLast?_ancestors {id : DeclId} {decl : Declaration} (hd : p.decl? id = some decl) :
    ∃ root ∈ p.roots, (id :: p.ancestors id).getLast? = some root := by
  induction id using hp.parent_induction generalizing decl with
  | root id hroot =>
    refine ⟨id, hp.mem_roots_iff.2 ⟨decl, hd, ?_⟩, by simp [ancestors_of_root hroot]⟩
    simpa [parent?, hd] using hroot
  | nested id parent hpar ih =>
    obtain ⟨parentDecl, hpd, -⟩ := hp.child_of_parent hd (by simpa [parent?, hd] using hpar)
    obtain ⟨root, hroot, hlast⟩ := ih hpd
    refine ⟨root, hroot, ?_⟩
    rwa [hp.ancestors_of_parent hpar, List.getLast?_cons_cons]

theorem parentChain_eq_ancestors (id : DeclId) {bound : Nat} (h : p.declarations.size ≤ bound) :
    p.parentChain bound (p.parent? id) = p.ancestors id := by
  refine parentChain_eq_of_chainEnds ?_ h
  cases hd : p.decl? id with
  | none => cases hsize : p.declarations.size <;> simp [parent?, hd, chainEnds]
  | some decl => simpa [parent?, hd] using hp.chain_ends hd

theorem isPartialOrder : IsPartialOrder DeclId fun a id => p.isAncestorOrSelf a id = true where
  refl id := isAncestorOrSelf_iff.2 List.mem_cons_self
  trans a b c hab hbc := by
    rw [isAncestorOrSelf_iff] at hab hbc ⊢
    rcases List.mem_cons.1 hbc with rfl | hbc
    · exact hab
    · rcases List.mem_cons.1 hab with rfl | hab
      · exact List.mem_cons_of_mem _ hbc
      · exact List.mem_cons_of_mem _ (hp.ancestors_trans hab hbc)
  antisymm a b hab hba := by
    rw [isAncestorOrSelf_iff] at hab hba
    rcases List.mem_cons.1 hab with h | hab
    · exact h
    · rcases List.mem_cons.1 hba with h | hba
      · exact h.symm
      · exact absurd (hp.ancestors_trans hab hba) (hp.not_mem_ancestors_self a)

theorem depth_eq_ncard (id : DeclId) : p.depth id = {a | Relation.TransGen p.IsInside id a}.ncard := by
  have hset : {a | Relation.TransGen p.IsInside id a} = ((p.ancestors id).toFinset : Set DeclId) := by
    ext a
    simp [hp.mem_ancestors_iff]
  rw [hset, Set.ncard_coe_finset, List.toFinset_card_of_nodup (hp.ancestors_nodup id), depth]

theorem isForest : p.IsForest where
  acyclic id h := hp.not_mem_ancestors_self id (hp.mem_ancestors_iff.2 h)
  isChain := hp.isChain_ancestors
  ancestors_nodup := hp.ancestors_nodup
  ends_in_root := hp.getLast?_ancestors
  not_cut id _ := hp.parentChain_eq_ancestors id
  mem_ancestors_iff _ _ := hp.mem_ancestors_iff
  isPartialOrder := hp.isPartialOrder
  depth_of_root id h := by simp [depth, ancestors_of_root h]
  depth_of_inside _ _ := hp.depth_of_parent
  depth_eq_ncard := hp.depth_eq_ncard
  mem_preorder := hp.mem_preorder

end Checked

/-! ## Ownership -/

/-- The variable exists and is of the kind. -/
def HasKind (p : Program) (x : VarId) (kind : VarKind) : Prop := ∃ var, p.var? x = some var ∧ var.kind = kind

/-- Every variable stands at one place, which is in the locals of its owner, and the locals of a declaration are
in the order and of the kinds that it says. -/
structure OwnsOnce (p : Program) : Prop where
  one_place : ∀ {x var}, p.var? x = some var → ∃ (decl : Declaration) (i : Nat),
    p.decl? var.owner = some decl ∧ decl.locals[i]? = some x ∧
      ∀ {id decl'} {j : Nat}, p.decl? id = some decl' → decl'.locals[j]? = some x → id = var.owner ∧ j = i
  locals_exist : ∀ {id decl x}, p.decl? id = some decl → x ∈ decl.locals →
    ∃ var, p.var? x = some var ∧ var.owner = id
  function_locals : ∀ {id decl function}, p.decl? id = some decl → decl.kind = .function function →
    ∃ rest, decl.locals = function.params ++ rest ∧
      (∀ x ∈ function.params, p.HasKind x .param) ∧ ∀ x ∈ rest, p.HasKind x .local
  aggregate_locals : ∀ {id decl aggregate}, p.decl? id = some decl → decl.kind = .aggregate aggregate →
    decl.locals = aggregate.fields ∧ ∀ x ∈ aggregate.fields, p.HasKind x .field

theorem Checked.ownsOnce (hp : p.Checked) : p.OwnsOnce where
  one_place := by
    intro x var hv
    obtain ⟨decl, hmem, hx⟩ := List.mem_flatMap.1 (hp.declared hv)
    have hd := hp.decl?_of_mem hmem
    have owner : ∀ {id decl'}, p.decl? id = some decl' → x ∈ decl'.locals → id = var.owner := by
      intro id decl' hd' hx'
      obtain ⟨var', hv', hown⟩ := hp.local_owner hd' hx'
      obtain rfl := Option.some.inj (hv.symm.trans hv')
      exact hown.symm
    obtain ⟨i, hi⟩ := List.mem_iff_getElem?.1 hx
    refine ⟨decl, i, owner hd hx ▸ hd, hi, ?_⟩
    intro id decl' j hd' hj
    obtain rfl := owner hd' (List.mem_of_getElem? hj)
    obtain rfl := Option.some.inj (hd'.symm.trans (owner hd hx ▸ hd))
    exact ⟨rfl, (List.getElem?_inj (List.getElem?_eq_some_iff.1 hj).1 (hp.locals_nodup_of hd')).1
      (hj.trans hi.symm)⟩
  locals_exist := hp.local_owner
  function_locals := by
    intro id decl function hd hk
    obtain ⟨rest, hrest⟩ := hp.params_prefix hd hk
    have kind : ∀ x ∈ decl.locals, p.HasKind x (if function.params.contains x then .param else .local) := by
      intro x hx
      obtain ⟨var, hv, -⟩ := hp.local_owner hd hx
      exact ⟨var, hv, hp.function_local_kind hd hk hx hv⟩
    have hnodup := hp.locals_nodup_of hd
    rw [← hrest, List.nodup_append] at hnodup
    refine ⟨rest, hrest.symm, fun x hx => ?_, fun x hx => ?_⟩
    · simpa [hx] using kind x (hrest ▸ List.mem_append_left rest hx)
    · have hout : x ∉ function.params := fun h => hnodup.2.2 x h x hx rfl
      simpa [hout] using kind x (hrest ▸ List.mem_append_right _ hx)
  aggregate_locals := by
    intro id decl aggregate hd hk
    have heq := hp.fields_eq hd hk
    refine ⟨heq.symm, fun x hx => ?_⟩
    obtain ⟨var, hv, -⟩ := hp.local_owner hd (heq ▸ hx)
    exact ⟨var, hv, hp.field_kind hd hk (heq ▸ hx) hv⟩

end Program

/-! ## Names in bodies and types -/

namespace Mention

/-- The name is that of something in the program. -/
def InRange (p : Program) : Mention → Prop
  | .var id | .bound id | .field id => id.index < p.vars.size
  | .function id _ | .method id _ | .made id _ | .enclosing id | .functionValue id =>
    id.index < p.declarations.size

/-- What has the name is of the kind that the place asks for, in the body of the function. -/
def Suits (p : Program) (current : DeclId) : Mention → Prop
  | .var id => ∃ kind, p.HasKind id kind
  | .bound id => ∃ var, p.var? id = some var ∧ var.owner = current ∧ var.kind = .local
  | .field id => p.HasKind id .field
  | .function id args => p.isMethod id = false ∧ ∃ decl, p.function? id = some decl ∧ decl.params.length = args
  | .method id args => p.isMethod id = true ∧ ∃ decl, p.function? id = some decl ∧ decl.params.length = args
  | .made id args => ∃ decl, p.aggregate? id = some decl ∧ decl.fields.length = args
  | .enclosing id => p.isAggregate id = true
  | .functionValue id => p.isFunction id = true ∧ p.isMethod id = false

end Mention

/-- Somewhere in the type is the aggregate. -/
inductive ValueType.Mentions : ValueType → DeclId → Prop
  | instanceOf {aggregate : DeclId} : Mentions (.instanceOf aggregate) aggregate
  | param {params : List ValueType} {ret param : ValueType} {aggregate : DeclId} : param ∈ params →
      Mentions param aggregate → Mentions (.function params ret) aggregate
  | ret {params : List ValueType} {ret : ValueType} {aggregate : DeclId} : Mentions ret aggregate →
      Mentions (.function params ret) aggregate

namespace Program

variable {p : Program}

/-- Every name in a body or a type is in range and of the kind that its place asks for. -/
structure NamesFit (p : Program) : Prop where
  bodies : ∀ {id function stmt m}, p.function? id = some function → stmt ∈ function.body →
    stmt.Mentions m → m.InRange p ∧ m.Suits p id
  returnTypes : ∀ {id function a}, p.function? id = some function → function.returnType.Mentions a →
    a.index < p.declarations.size ∧ p.isAggregate a = true
  varTypes : ∀ {x var a}, p.var? x = some var → var.ty.Mentions a →
    a.index < p.declarations.size ∧ p.isAggregate a = true

theorem HasKind.lt {x : VarId} {kind : VarKind} (h : p.HasKind x kind) : x.index < p.vars.size := by
  obtain ⟨var, hv, -⟩ := h
  exact (var?_eq_some_iff.1 hv).1

theorem lt_of_isFunction {id : DeclId} (h : p.isFunction id = true) : id.index < p.declarations.size := by
  obtain ⟨function, hf⟩ := isFunction_iff.1 h
  obtain ⟨decl, hd, -⟩ := function?_eq_some_iff.1 hf
  exact (decl?_eq_some_iff.1 hd).1

theorem lt_of_isAggregate {id : DeclId} (h : p.isAggregate id = true) : id.index < p.declarations.size := by
  obtain ⟨aggregate, ha⟩ := isAggregate_iff.1 h
  obtain ⟨decl, hd, -⟩ := aggregate?_eq_some_iff.1 ha
  exact (decl?_eq_some_iff.1 hd).1

end Program

variable {p : Program} {current : DeclId}

/-- What is of the kind that a place asks for is there. -/
theorem Mention.Suits.inRange {m : Mention} (h : m.Suits p current) : m.InRange p := by
  cases m with
  | var id => exact h.choose_spec.lt
  | bound id =>
    obtain ⟨var, hv, -⟩ := h
    exact (Program.var?_eq_some_iff.1 hv).1
  | field id => exact h.lt
  | function id args | method id args =>
    obtain ⟨-, decl, hf, -⟩ := h
    exact Program.lt_of_isFunction (Program.isFunction_iff.2 ⟨decl, hf⟩)
  | made id args =>
    obtain ⟨decl, ha, -⟩ := h
    exact Program.lt_of_isAggregate (Program.isAggregate_iff.2 ⟨decl, ha⟩)
  | enclosing id => exact Program.lt_of_isAggregate h
  | functionValue id => exact Program.lt_of_isFunction h.1

namespace Program

/-! ### From the whole to its parts -/

theorem checkExpr_of_mem_operands {expr operand : Expr} (h : p.checkExpr expr = .ok ())
    (hmem : operand ∈ expr.operands) : p.checkExpr operand = .ok () := by
  have args : ∀ {exprs : List Expr}, p.checkExprs exprs = .ok () → operand ∈ exprs →
      p.checkExpr operand = .ok () := fun h hmem => checkExprs_eq_ok.1 h operand hmem
  cases expr with
  | int | bool | var | this | functionRef => simp [Expr.operands] at hmem
  | binary op lhs rhs =>
    simp only [checkExpr, then_eq_ok] at h
    rcases List.mem_pair.1 hmem with rfl | rfl
    · exact h.1
    · exact h.2
  | unary op value =>
    obtain rfl := List.mem_singleton.1 hmem
    exact h
  | call function exprs | new aggregate exprs =>
    simp only [checkExpr, then_eq_ok] at h
    exact args h.2 hmem
  | methodCall receiver method exprs =>
    simp only [checkExpr, then_eq_ok] at h
    rcases List.mem_cons.1 hmem with rfl | hmem
    · exact h.1
    · exact args h.2.2 hmem
  | fieldGet base field =>
    simp only [checkExpr, then_eq_ok] at h
    obtain rfl := List.mem_singleton.1 hmem
    exact h.1
  | callValue callee exprs =>
    simp only [checkExpr, then_eq_ok] at h
    rcases List.mem_cons.1 hmem with rfl | hmem
    · exact h.1
    · exact args h.2 hmem

theorem checkExpr_of_mem_stmt_operands {stmt : Stmt} {operand : Expr}
    (h : p.checkStmt current stmt = .ok ()) (hmem : operand ∈ stmt.operands) :
    p.checkExpr operand = .ok () := by
  cases stmt with
  | expr value => simp [Stmt.operands] at hmem
  | letVar id value =>
    simp only [checkStmt, then_eq_ok] at h
    obtain rfl := List.mem_singleton.1 hmem
    exact h.2
  | assign target value =>
    simp only [checkStmt, then_eq_ok] at h
    cases target with
    | var id =>
      obtain rfl := List.mem_singleton.1 hmem
      exact h.2
    | field base field =>
      simp only [checkPlace, then_eq_ok] at h
      rcases List.mem_pair.1 hmem with rfl | rfl
      · exact h.1.1
      · exact h.2
  | branch condition thenBlock elseBlock | loop condition body =>
    simp only [checkStmt, then_eq_ok] at h
    obtain rfl := List.mem_singleton.1 hmem
    exact h.1
  | ret value =>
    cases value with
    | none => simp [Stmt.operands] at hmem
    | some value =>
      obtain rfl : operand = value := by simpa [Stmt.operands] using hmem
      exact h

theorem checkStmt_of_mem_inner {stmt s : Stmt} (h : p.checkStmt current stmt = .ok ())
    (hmem : s ∈ stmt.inner) : p.checkStmt current s = .ok () := by
  cases stmt with
  | letVar | assign | expr | ret => simp [Stmt.inner] at hmem
  | branch condition thenBlock elseBlock =>
    simp only [checkStmt, then_eq_ok] at h
    rcases List.mem_append.1 hmem with hmem | hmem
    · exact checkBlock_eq_ok.1 h.2.1 s hmem
    · exact checkBlock_eq_ok.1 h.2.2 s hmem
  | loop condition body =>
    simp only [checkStmt, then_eq_ok] at h
    exact checkBlock_eq_ok.1 h.2 s hmem

theorem checkExpr_of_evaluates {stmt : Stmt} {expr : Expr} (heval : stmt.Evaluates expr)
    (h : p.checkStmt current stmt = .ok ()) : p.checkExpr expr = .ok () := by
  induction heval with
  | operand hmem => exact checkExpr_of_mem_stmt_operands h hmem
  | dropped => exact h
  | inner hmem _ ih => exact ih (checkStmt_of_mem_inner h hmem)
  | under _ hmem ih => exact checkExpr_of_mem_operands (ih h) hmem

/-! ### The name itself -/

theorem suits_of_checkExpr {expr : Expr} {m : Mention} (h : p.checkExpr expr = .ok ())
    (hm : expr.mention? = some m) : m.Suits p current := by
  cases expr with
  | int | bool | binary | unary | callValue => simp [Expr.mention?] at hm
  | var id =>
    cases hm
    obtain ⟨var, hv⟩ := checkVar_eq_ok h
    exact ⟨var.kind, var, hv, rfl⟩
  | call function args =>
    cases hm
    simp only [checkExpr, then_eq_ok] at h
    obtain ⟨decl, hf, hmethod, hlen⟩ := checkCallee_eq_ok h.1
    exact ⟨hmethod, decl, hf, hlen⟩
  | methodCall receiver method args =>
    cases hm
    simp only [checkExpr, then_eq_ok] at h
    obtain ⟨decl, hf, hmethod, hlen⟩ := checkCallee_eq_ok h.2.1
    exact ⟨hmethod, decl, hf, hlen⟩
  | new aggregate args =>
    cases hm
    simp only [checkExpr, then_eq_ok] at h
    exact checkNew_eq_ok h.1
  | fieldGet base field =>
    cases hm
    simp only [checkExpr, then_eq_ok] at h
    exact checkField_eq_ok h.2
  | this aggregate =>
    cases hm
    exact Flaw.excludedBy_eq_ok.1 h
  | functionRef function =>
    cases hm
    simpa [checkExpr, Flaw.excludedBy_eq_ok, Mention.Suits] using h

theorem suits_of_checkStmt {stmt : Stmt} {m : Mention} (h : p.checkStmt current stmt = .ok ())
    (hm : stmt.mention? = some m) : m.Suits p current := by
  cases stmt with
  | expr | branch | loop | ret => simp [Stmt.mention?] at hm
  | letVar id value =>
    cases hm
    simp only [checkStmt, then_eq_ok] at h
    exact checkLet_eq_ok h.1
  | assign target value =>
    simp only [checkStmt, then_eq_ok] at h
    cases target with
    | var id =>
      cases hm
      obtain ⟨var, hv⟩ := checkVar_eq_ok h.1
      exact ⟨var.kind, var, hv, rfl⟩
    | field base field =>
      cases hm
      simp only [checkPlace, then_eq_ok] at h
      exact checkField_eq_ok h.1.2

theorem suits_of_mentions {stmt : Stmt} {m : Mention} (hm : stmt.Mentions m)
    (h : p.checkStmt current stmt = .ok ()) : m.Suits p current := by
  induction hm with
  | self hm => exact suits_of_checkStmt h hm
  | expr heval hm => exact suits_of_checkExpr (checkExpr_of_evaluates heval h) hm
  | inner hmem _ ih => exact ih (checkStmt_of_mem_inner h hmem)

theorem checkTypes_eq_ok {user : String} {types : List ValueType} :
    p.checkTypes user types = .ok () ↔ ∀ ty ∈ types, p.checkType user ty = .ok () := by
  induction types with
  | nil => simp [checkTypes]
  | cons ty types ih => simp [checkTypes, then_eq_ok, ih]

theorem isAggregate_of_mentions {user : String} {ty : ValueType} {a : DeclId} (hm : ty.Mentions a)
    (h : p.checkType user ty = .ok ()) : p.isAggregate a = true := by
  induction hm with
  | instanceOf => exact Flaw.excludedBy_eq_ok.1 h
  | param hmem _ ih =>
    simp only [checkType, then_eq_ok] at h
    exact ih (checkTypes_eq_ok.1 h.1 _ hmem)
  | ret _ ih =>
    simp only [checkType, then_eq_ok] at h
    exact ih h.2

theorem namesFit_of_check (h : p.check = .ok ()) : p.NamesFit where
  bodies hf hmem hm := by
    obtain ⟨decl, hd, hk⟩ := function?_eq_some_iff.1 hf
    have hbody := (checked_of_check h).body hd hk
    have hsuits := suits_of_mentions hm (checkBlock_eq_ok.1 hbody _ hmem)
    exact ⟨hsuits.inRange, hsuits⟩
  returnTypes hf hm := by
    obtain ⟨decl, hd, hk⟩ := function?_eq_some_iff.1 hf
    have hbody := checkBody_of_check h (mem_of_decl? hd)
    simp only [checkBody, hk, then_eq_ok] at hbody
    have ha := isAggregate_of_mentions hm hbody.1
    exact ⟨lt_of_isAggregate ha, ha⟩
  varTypes {x var a} hv hm := by
    have hmem : var ∈ p.vars.toList := by
      obtain ⟨hlt, rfl⟩ := var?_eq_some_iff.1 hv
      simp
    obtain ⟨-, -, hty⟩ := checkVariable_of_check h hmem
    have ha := isAggregate_of_mentions hm hty
    exact ⟨lt_of_isAggregate ha, ha⟩

end Program

/-- A program that the check accepts is a forest of declarations in which every variable has one place and every
name is that of something its place can use. -/
theorem accepted_of_check (h : p.check = .ok ()) : p.IsForest ∧ p.OwnsOnce ∧ p.NamesFit :=
  ⟨(Program.checked_of_check h).isForest, (Program.checked_of_check h).ownsOnce, Program.namesFit_of_check h⟩

theorem accepted_of_check_tally : tally.check = .ok () ∧ tally.IsForest ∧ tally.OwnsOnce ∧ tally.NamesFit :=
  ⟨tally_check, accepted_of_check tally_check⟩

end StaticChain
