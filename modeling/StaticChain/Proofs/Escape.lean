import StaticChain.Proofs.Syntax
import StaticChain.Proofs.Tables

/-!
# Which frames stay on the stack

Where a frame lives is decided from the bodies below its owner. Two facts about the decision carry
everything else. A body that makes a function value or a linked instance keeps every frame around
what it makes off the stack (`Nesting.Built.not_stack_of_keepsFrame`). And a frame that is on the
heap links to a frame on the heap (`Nesting.Built.not_stack_above`), because what keeps the inner
one keeps the outer one too.
-/

namespace StaticChain

/-! ## Bodies with a stronger property -/

namespace Expr

variable {P Q : Expr → Bool}

theorem anyIn_eq_true {exprs : List Expr} : anyIn P exprs = true ↔ ∃ e ∈ exprs, e.any P = true := by
  induction exprs with
  | nil => simp [anyIn]
  | cons e exprs ih => simp [anyIn, ih]

theorem any_mono (h : ∀ e, P e = true → Q e = true) (e : Expr) : e.any P = true → e.any Q = true := by
  have list : ∀ args : List Expr, (∀ arg ∈ args, arg.any P = true → arg.any Q = true) →
      anyIn P args = true → anyIn Q args = true := by
    intro args ih hany
    obtain ⟨arg, harg, hp⟩ := anyIn_eq_true.1 hany
    exact anyIn_eq_true.2 ⟨arg, harg, ih arg harg hp⟩
  induction e using Expr.ind with
  | int value => simpa [any] using h _
  | bool value => simpa [any] using h _
  | var id => simpa [any] using h _
  | binary op lhs rhs ihl ihr =>
    simp only [any, Bool.or_eq_true]
    exact Or.imp (h _) (Or.imp ihl ihr)
  | unary op operand ih =>
    simp only [any, Bool.or_eq_true]
    exact Or.imp (h _) ih
  | call function args ih =>
    simp only [any, Bool.or_eq_true]
    exact Or.imp (h _) (list args ih)
  | methodCall receiver method args ihr ih =>
    simp only [any, Bool.or_eq_true]
    exact Or.imp (h _) (Or.imp ihr (list args ih))
  | new aggregate args ih =>
    simp only [any, Bool.or_eq_true]
    exact Or.imp (h _) (list args ih)
  | fieldGet base field ih =>
    simp only [any, Bool.or_eq_true]
    exact Or.imp (h _) ih
  | this aggregate => simpa [any] using h _
  | functionRef function => simpa [any] using h _
  | callValue callee args ihc ih =>
    simp only [any, Bool.or_eq_true]
    exact Or.imp (h _) (Or.imp ihc (list args ih))

end Expr

namespace Stmt

variable {P Q : Expr → Bool}

theorem anyIn_eq_true {stmts : List Stmt} : anyIn P stmts = true ↔ ∃ s ∈ stmts, s.any P = true := by
  induction stmts with
  | nil => simp [anyIn]
  | cons s stmts ih => simp [anyIn, ih]

theorem any_mono (h : ∀ e, P e = true → Q e = true) (s : Stmt) : s.any P = true → s.any Q = true := by
  have list : ∀ stmts : List Stmt, (∀ s ∈ stmts, s.any P = true → s.any Q = true) →
      anyIn P stmts = true → anyIn Q stmts = true := by
    intro stmts ih hany
    obtain ⟨s, hs, hp⟩ := anyIn_eq_true.1 hany
    exact anyIn_eq_true.2 ⟨s, hs, ih s hs hp⟩
  have expr := Expr.any_mono h
  induction s using Stmt.ind with
  | letVar id value => simpa only [any] using expr value
  | assign target value =>
    cases target with
    | var id => simpa only [any] using expr value
    | field base field =>
      simp only [any, Bool.or_eq_true]
      exact Or.imp (expr base) (expr value)
  | expr value => simpa only [any] using expr value
  | branch condition thenBlock elseBlock iht ihe =>
    simp only [any, Bool.or_eq_true]
    exact Or.imp (Or.imp (expr condition) (list thenBlock iht)) (list elseBlock ihe)
  | loop condition body ih =>
    simp only [any, Bool.or_eq_true]
    exact Or.imp (expr condition) (list body ih)
  | ret value =>
    cases value with
    | none => simp [any]
    | some value => simpa only [any] using expr value

theorem anyIn_mono (h : ∀ e, P e = true → Q e = true) {stmts : List Stmt}
    (hany : anyIn P stmts = true) : anyIn Q stmts = true := by
  obtain ⟨s, hs, hp⟩ := anyIn_eq_true.1 hany
  exact anyIn_eq_true.2 ⟨s, hs, any_mono h s hp⟩

end Stmt

/-! ## What is kept -/

namespace Program

variable {p : Program} {layouts : Layouts}

theorem isNestedBelow_iff (hp : p.Checked) {owner id : DeclId} :
    p.isNestedBelow owner id = true ↔ owner ∈ p.ancestors id := by
  unfold isNestedBelow
  rw [Bool.and_eq_true, isAncestorOrSelf_iff, bne_iff_ne, List.mem_cons]
  constructor
  · rintro ⟨hne, rfl | h⟩
    · exact absurd rfl hne
    · exact h
  · intro h
    refine ⟨?_, .inr h⟩
    rintro rfl
    exact hp.not_mem_ancestors_self id h

/-- What keeps a frame keeps the frames around its owner. -/
theorem keepsFrame_of_mem_ancestors (hp : p.Checked) {outer owner : DeclId}
    (ho : outer ∈ p.ancestors owner) {e : Expr} (h : p.keepsFrame layouts owner e = true) :
    p.keepsFrame layouts outer e = true := by
  cases e with
  | functionRef function =>
    simp only [keepsFrame, isNestedBelow_iff hp] at h ⊢
    exact hp.ancestors_trans ho h
  | new aggregate args =>
    simp only [keepsFrame, Bool.and_eq_true, isNestedBelow_iff hp] at h ⊢
    exact ⟨h.1, hp.ancestors_trans ho h.2⟩
  | _ => simp [keepsFrame] at h

theorem frameEscapes_iff {owner : DeclId} : p.frameEscapes layouts owner = true ↔
    ∃ id function, id ∈ p.preorderFrom p.levels owner ∧ p.function? id = some function ∧
      Stmt.anyIn (p.keepsFrame layouts owner) function.body = true := by
  simp only [frameEscapes, List.any_eq_true, Option.any_eq_true]
  constructor
  · rintro ⟨id, hid, function, hf, h⟩
    exact ⟨id, function, hid, hf, h⟩
  · rintro ⟨id, function, hid, hf, h⟩
    exact ⟨id, hid, function, hf, h⟩

/-- A frame that escapes takes the frames around its owner with it. -/
theorem frameEscapes_of_mem_ancestors (hp : p.Checked) {outer owner : DeclId}
    (ho : outer ∈ p.ancestors owner) (h : p.frameEscapes layouts owner = true) :
    p.frameEscapes layouts outer = true := by
  obtain ⟨id, function, hid, hf, hany⟩ := frameEscapes_iff.1 h
  have hmem : outer ∈ id :: p.ancestors id := by
    rcases List.mem_cons.1 (hp.mem_ancestors_of_mem_preorderFrom hid) with rfl | howner
    · exact List.mem_cons_of_mem _ ho
    · exact List.mem_cons_of_mem _ (hp.ancestors_trans ho howner)
  exact frameEscapes_iff.2 ⟨id, function, hp.mem_preorderFrom hmem, hf,
    Stmt.anyIn_mono (fun e => keepsFrame_of_mem_ancestors hp ho) hany⟩

end Program

namespace Nesting

variable {n : Nesting} {policy : FramePolicy}

theorem mem_of_above {id carrier : DeclId} (hp : n.program.Checked)
    (h : n.above id = some carrier) :
    carrier ∈ n.program.ancestors id ∧ n.captures.isCarrier n.program carrier = true := by
  unfold above at h
  obtain ⟨parent, hpar, h⟩ := Option.bind_eq_some_iff.1 h
  rw [hp.ancestors_of_parent hpar]
  exact ⟨List.mem_of_find?_eq_some h, List.find?_some h⟩

namespace Built

variable (hn : n.Built policy)
include hn

theorem not_stack_of_frameEscapes {owner : DeclId}
    (h : n.program.frameEscapes n.layouts owner = true) : n.plan.kind? owner ≠ some .stack := by
  intro hk
  have := hn.plan_kind hk
  cases policy <;> simp [FramePlan.kindOf, h] at this

/-- A body keeps the frames around what it makes off the stack. -/
theorem not_stack_of_keepsFrame {useSite owner : DeclId} {function : FunctionDecl}
    (hf : n.program.function? useSite = some function)
    (ho : owner ∈ useSite :: n.program.ancestors useSite)
    (h : Stmt.anyIn (n.program.keepsFrame n.layouts owner) function.body = true) :
    n.plan.kind? owner ≠ some .stack :=
  hn.not_stack_of_frameEscapes
    (Program.frameEscapes_iff.2 ⟨useSite, function, hn.checked.mem_preorderFrom ho, hf, h⟩)

/-- A frame on the heap does not link to a frame on the stack. -/
theorem not_stack_above {owner carrier : DeclId} (hk : n.plan.kind? owner = some .heap)
    (ha : n.above owner = some carrier) : n.plan.kind? carrier ≠ some .stack := by
  intro hs
  have hheap := hn.plan_kind hk
  have hstack := hn.plan_kind hs
  cases policy with
  | alwaysHeap => simp [FramePlan.kindOf] at hstack
  | escapeAnalysis =>
    have hesc : n.program.frameEscapes n.layouts owner = true := by
      by_contra hne
      simp [FramePlan.kindOf, hne] at hheap
    exact hn.not_stack_of_frameEscapes (Program.frameEscapes_of_mem_ancestors hn.checked
      (mem_of_above hn.checked ha).1 hesc) hs

end Built

end Nesting

end StaticChain
